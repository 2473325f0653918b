import Forge6809.Token.Pattern

/-! # Lexicons

A lexicon is a ranked list of rules. The first rule that takes anything from the start of a text
gives the next token; where none does, the next character is a token of its own, so lexing never
fails and loses nothing. -/

namespace Forge6809

open Text

structure Rule where
  kind : Kind
  pattern : Pattern

/-- Rules in the order in which they are tried. -/
abbrev Lexicon := List Rule

namespace Lexicon

/-- Kind and width of the token at the start of a text. -/
def measure (lx : Lexicon) (s : Bytes) : Kind × Nat :=
  match lx.find? fun r => r.pattern.width s != 0 with
  | some r => (r.kind, r.pattern.width s)
  | none => (.undefined, Utf8.width s)

/-- The token at the start of a text and what follows it; none at the end. -/
def next? (lx : Lexicon) (s : Bytes) : Option (Token × Bytes) :=
  if s = [] then none
  else
    let m := lx.measure s
    some (⟨m.1, s.take m.2⟩, s.drop m.2)

theorem measure_pos (lx : Lexicon) {s : Bytes} (h : s ≠ []) : 0 < (lx.measure s).2 := by
  unfold measure
  split
  · next r hr => simpa [Nat.pos_iff_ne_zero] using List.find?_some hr
  · exact Utf8.width_pos h

theorem measure_le (lx : Lexicon) (s : Bytes) : (lx.measure s).2 ≤ s.length := by
  unfold measure
  split
  · exact Pattern.width_le _ _
  · exact Utf8.width_le s

/-- A token and what follows it make up the text. -/
theorem next?_append {lx : Lexicon} {s rest : Bytes} {t : Token}
    (h : lx.next? s = some (t, rest)) : t.text ++ rest = s := by
  unfold next? at h
  split at h
  · contradiction
  · cases h
    exact List.take_append_drop _ _

/-- No token is empty. -/
theorem next?_text_ne_nil {lx : Lexicon} {s rest : Bytes} {t : Token}
    (h : lx.next? s = some (t, rest)) : t.text ≠ [] := by
  unfold next? at h
  split at h
  · contradiction
  · next hs =>
    cases h
    have hp := measure_pos lx hs
    simp only [ne_eq, List.take_eq_nil_iff, hs, or_false]
    omega

theorem length_lt_of_next? {lx : Lexicon} {s rest : Bytes} {t : Token}
    (h : lx.next? s = some (t, rest)) : rest.length < s.length := by
  have ha := congrArg List.length (next?_append h)
  have hp := List.length_pos_iff.2 (next?_text_ne_nil h)
  simp only [List.length_append] at ha
  omega

def tokens (lx : Lexicon) (s : Bytes) : List Token :=
  match _h : lx.next? s with
  | none => []
  | some (t, rest) => t :: tokens lx rest
termination_by s.length
decreasing_by exact length_lt_of_next? _h

theorem length_tokens_le (lx : Lexicon) (s : Bytes) : (lx.tokens s).length ≤ s.length := by
  fun_induction tokens lx s with
  | case1 => exact Nat.zero_le _
  | case2 s t rest h ih =>
    have hlt := length_lt_of_next? h
    rw [List.length_cons]
    omega

@[simp] theorem tokens_nil (lx : Lexicon) : lx.tokens [] = [] := by
  rw [tokens]
  rfl

end Lexicon
end Forge6809
