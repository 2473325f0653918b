import Forge6809.Text.Bytes

/-! # UTF-8 characters of a byte string

`decode` reads the character at the start of a text and gives its code point and width; it refuses
overlong forms, surrogates and code points past the last one. A text that is not well encoded is
read on, one byte at a time, by the callers. -/

namespace Forge6809.Text.Utf8

def isTail (b : UInt8) : Bool :=
  0x80 ≤ b && b ≤ 0xBF

/-- The second bytes allowed after a first byte; the narrow ranges exclude overlong forms,
surrogates and code points past the last one. -/
def isSecond (first b : UInt8) : Bool :=
  if first == 0xE0 then 0xA0 ≤ b && b ≤ 0xBF
  else if first == 0xED then 0x80 ≤ b && b ≤ 0x9F
  else if first == 0xF0 then 0x90 ≤ b && b ≤ 0xBF
  else if first == 0xF4 then 0x80 ≤ b && b ≤ 0x8F
  else isTail b

def payload (b : UInt8) : Nat :=
  (b &&& 0x3F).toNat

/-- The number of bytes that a character with this first byte has; zero if none starts so. -/
def sizeOfFirst (b : UInt8) : Nat :=
  if b < 0x80 then 1
  else if b < 0xC2 then 0
  else if b < 0xE0 then 2
  else if b < 0xF0 then 3
  else if b < 0xF5 then 4
  else 0

/-- Code point and width of the character at the start of a text. -/
def decode (s : Bytes) : Option (Nat × Nat) :=
  match s with
  | [] => none
  | a :: r =>
    match sizeOfFirst a, r with
    | 1, _ => some (a.toNat, 1)
    | 2, b :: _ =>
      if isSecond a b then some ((a &&& 0x1F).toNat * 64 + payload b, 2) else none
    | 3, b :: c :: _ =>
      if isSecond a b && isTail c then
        some (((a &&& 0x0F).toNat * 64 + payload b) * 64 + payload c, 3)
      else none
    | 4, b :: c :: d :: _ =>
      if isSecond a b && isTail c && isTail d then
        some ((((a &&& 0x07).toNat * 64 + payload b) * 64 + payload c) * 64 + payload d, 4)
      else none
    | _, _ => none

/-- Width of the first character of a text, or one byte where the encoding is invalid. -/
def width (s : Bytes) : Nat :=
  match s, decode s with
  | [], _ => 0
  | _ :: _, some (_, n) => n
  | _ :: _, none => 1

def encode (code : Nat) : Bytes :=
  if code < 0x80 then [code.toUInt8]
  else if code < 0x800 then [(0xC0 + code / 64).toUInt8, (0x80 + code % 64).toUInt8]
  else if code < 0x10000 then
    [(0xE0 + code / 4096).toUInt8, (0x80 + code / 64 % 64).toUInt8, (0x80 + code % 64).toUInt8]
  else
    [(0xF0 + code / 262144).toUInt8, (0x80 + code / 4096 % 64).toUInt8,
      (0x80 + code / 64 % 64).toUInt8, (0x80 + code % 64).toUInt8]

/-- Stands for a byte that no character starts with. -/
def replacement : Bytes := [0xEF, 0xBF, 0xBD]

/-- The number of characters of a text; an invalid byte counts as one. -/
def count (s : Bytes) : Nat :=
  match s with
  | [] => 0
  | a :: r => count (r.drop (width (a :: r) - 1)) + 1
termination_by s.length
decreasing_by simp only [List.length_drop, List.length_cons]; omega

def isValid (s : Bytes) : Bool :=
  match s with
  | [] => true
  | a :: r =>
    match decode (a :: r) with
    | some (_, n) => isValid (r.drop (n - 1))
    | none => false
termination_by s.length
decreasing_by simp only [List.length_drop, List.length_cons]; omega

theorem decode_width_pos {s : Bytes} {code n : Nat} (h : decode s = some (code, n)) : 0 < n := by
  unfold decode at h
  split at h <;> try contradiction
  split at h <;> grind

theorem decode_width_le {s : Bytes} {code n : Nat} (h : decode s = some (code, n)) :
    n ≤ s.length := by
  unfold decode at h
  split at h <;> try contradiction
  split at h <;> grind

theorem width_pos {s : Bytes} (h : s ≠ []) : 0 < width s := by
  unfold width
  split
  · contradiction
  · next h' => exact decode_width_pos h'
  · exact Nat.one_pos

theorem width_le (s : Bytes) : width s ≤ s.length := by
  unfold width
  split
  · exact Nat.zero_le _
  · next h' => exact decode_width_le h'
  · simp

end Forge6809.Text.Utf8
