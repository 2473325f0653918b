import Forge6809.Text.Utf8

/-! # Case mappings

A case mapping takes one code point to one code point. It is given by the code points that it
changes, as arithmetic progressions that share a displacement. -/

namespace Forge6809.Text

/-- The code points `first`, `first + step`, ..., `last`, which are mapped to those `shift` away. -/
structure CaseRange where
  first : Nat
  last : Nat
  step : Nat
  shift : Int

namespace CaseRange

def contains (r : CaseRange) (code : Nat) : Bool :=
  r.first ≤ code && code ≤ r.last && (code - r.first) % r.step == 0

def apply (ranges : List CaseRange) (code : Nat) : Nat :=
  match ranges.find? (·.contains code) with
  | some r => (code + r.shift).toNat
  | none => code

/-- A code point that no range contains is kept. -/
theorem apply_eq_self {ranges : List CaseRange} {code : Nat}
    (h : ∀ r ∈ ranges, r.contains code = false) : apply ranges code = code := by
  have hn : ranges.find? (·.contains code) = none := by
    rw [List.find?_eq_none]
    intro r hr
    simp [h r hr]
  simp only [apply, hn]

end CaseRange

/-- A text with every character mapped. A byte that belongs to no character becomes the
replacement character. -/
def mapChars (f : Nat → Nat) (s : Bytes) : Bytes :=
  match s with
  | [] => []
  | a :: r =>
    match Utf8.decode (a :: r) with
    | some (code, n) => Utf8.encode (f code) ++ mapChars f (r.drop (n - 1))
    | none => Utf8.replacement ++ mapChars f r
termination_by s.length
decreasing_by all_goals simp only [List.length_drop, List.length_cons]; omega

end Forge6809.Text
