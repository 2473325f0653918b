/-! # Texts as byte strings

Source lines, file names and file contents are arbitrary byte strings, because nothing promises
that they are encoded characters. This module holds the type, the ASCII classes that the lexical
rules are written in, and the cutting of a text into lines. -/

namespace Forge6809

/-- A byte string: a text that need not be well encoded, or the contents of a file. -/
abbrev Bytes := List UInt8

namespace Text

/-- The UTF-8 bytes of a string. -/
def ofString (s : String) : Bytes :=
  s.toUTF8.data.toList

/-- Space and tab, the blanks that separate fields of a source line. -/
def isBlank (b : UInt8) : Bool :=
  b == 0x20 || b == 0x09

def isDigit (b : UInt8) : Bool :=
  0x30 ≤ b && b ≤ 0x39

def isBinaryDigit (b : UInt8) : Bool :=
  b == 0x30 || b == 0x31

def isLetter (b : UInt8) : Bool :=
  (0x41 ≤ b && b ≤ 0x5A) || (0x61 ≤ b && b ≤ 0x7A)

def isHexDigit (b : UInt8) : Bool :=
  isDigit b || (0x41 ≤ b && b ≤ 0x46) || (0x61 ≤ b && b ≤ 0x66)

/-- The bytes that may start a name: letters and the underscore. -/
def isNameStart (b : UInt8) : Bool :=
  isLetter b || b == 0x5F

def isWordByte (b : UInt8) : Bool :=
  isNameStart b || isDigit b

def isAscii (b : UInt8) : Bool :=
  b < 0x80

/-- Upper case of an ASCII letter; every other byte is kept. -/
def upperByte (b : UInt8) : UInt8 :=
  if 0x61 ≤ b && b ≤ 0x7A then b - 0x20 else b

/-- Separates the elements of a path. -/
def slash : UInt8 := 0x2F

/-- The bytes from the last occurrence of `sep` on are cut off: what stands before it and after
it, or nothing if `sep` does not occur. -/
def cutLast? (sep : UInt8) (s : Bytes) : Option (Bytes × Bytes) :=
  if sep ∈ s then
    some ((s.reverse.dropWhile (· != sep)).tail.reverse, (s.reverse.takeWhile (· != sep)).reverse)
  else none

/-- What stands before and after the first occurrence of `sep`. -/
def cutFirst? (sep : UInt8) (s : Bytes) : Option (Bytes × Bytes) :=
  if sep ∈ s then some (s.takeWhile (· != sep), (s.dropWhile (· != sep)).tail) else none

def trimEnd (p : UInt8 → Bool) (s : Bytes) : Bytes :=
  (s.reverse.dropWhile p).reverse

/-- The lines of a text. Every line but the last ends in a line feed, which belongs to no line;
a text that ends in a line feed has no empty line after it. -/
def rawLines (s : Bytes) : List Bytes :=
  match s with
  | [] => []
  | b :: r =>
    (b :: r).takeWhile (· != 0x0A) :: rawLines ((b :: r).dropWhile (· != 0x0A)).tail
termination_by s.length
decreasing_by
  have h := (List.dropWhile_sublist (l := b :: r) (· != 0x0A)).length_le
  rw [List.length_tail]
  simp only [List.length_cons] at *
  omega

/-- A text with a line feed at its end, added unless there is one. -/
def terminated (s : Bytes) : Bytes :=
  if s.getLast? = some 0x0A then s else s ++ [0x0A]

/-- The lines of a text, without the carriage returns and line feeds that end them. -/
def lines (s : Bytes) : List Bytes :=
  (rawLines s).map (trimEnd fun b => b == 0x0D || b == 0x0A)

theorem trimEnd_append {p : UInt8 → Bool} {s t : Bytes} (hs : ∀ b ∈ s, p b = false)
    (ht : ∀ b ∈ t, p b = true) : trimEnd p (s ++ t) = s := by
  have hkeep : s.reverse.dropWhile p = s.reverse := by
    cases h : s.reverse with
    | nil => rfl
    | cons b r =>
      have hb : b ∈ s := List.mem_reverse.1 (h ▸ List.mem_cons_self)
      rw [List.dropWhile_cons_of_neg]
      rw [hs b hb]
      exact Bool.false_ne_true
  rw [trimEnd, List.reverse_append, List.dropWhile_append_of_pos, hkeep, List.reverse_reverse]
  intro b hb
  exact ht b (List.mem_reverse.1 hb)

end Text
end Forge6809
