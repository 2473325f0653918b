import Forge6809.Token.Kind

/-! # Lexical patterns

A pattern takes a number of bytes from the start of a text. Zero means that it does not match; no
pattern matches the empty string. Every pattern takes the longest prefix it can. -/

namespace Forge6809

open Text

/-- What a lexical rule looks for at the start of a text. -/
inductive Pattern where
  /-- One or more blanks and a word in any case, ending at a word boundary. -/
  | keyword (word : Bytes)
  /-- A letter or underscore and at least `least` word bytes; `blank` allows one blank in front. -/
  | name (blank : Bool) (least : Nat)
  /-- One or more bytes of a class. -/
  | run (member : UInt8 → Bool)
  /-- A mark followed by one or more bytes of a class. -/
  | marked (mark : UInt8) (member : UInt8 → Bool)
  /-- Exactly the given text. -/
  | exact (text : Bytes)
  /-- One byte of a class. -/
  | oneOf (member : UInt8 → Bool)
  /-- A mark and everything up to the end of the line. -/
  | toLineEnd (mark : UInt8)
  /-- Carriage return, line feed, or both in that order. -/
  | lineBreak

namespace Pattern

/-- What follows a word that is compared without regard to case. The long s counts as the letter
`S`, the one letter of the keywords that a character outside ASCII folds to. -/
def afterWord? : Bytes → Bytes → Option Bytes
  | [], s => some s
  | w :: ws, b :: r =>
    if upperByte b = w then afterWord? ws r
    else if w = 0x53 ∧ b = 0xC5 ∧ r.head? = some 0xBF then afterWord? ws r.tail
    else none
  | _ :: _, [] => none

/-- Whether exactly one of two neighbouring bytes belongs to a word. The end of the text is no
word byte, and neither is any byte outside ASCII. -/
def isBoundary (before after : Option UInt8) : Bool :=
  before.any isWordByte != after.any isWordByte

def keywordWidth (word s : Bytes) : Nat :=
  if s.head?.any isBlank then
    let body := s.dropWhile isBlank
    match afterWord? word body with
    | none => 0
    | some rest =>
      let n := body.length - rest.length
      if isBoundary (body.take n).getLast? rest.head? then (s.takeWhile isBlank).length + n else 0
  else 0

def nameWidth (least : Nat) : Bytes → Nat
  | [] => 0
  | b :: r =>
    let n := (r.takeWhile isWordByte).length
    if isNameStart b && least ≤ n then n + 1 else 0

/-- The number of bytes that a pattern takes from the start of a text. -/
def width (p : Pattern) (s : Bytes) : Nat :=
  match p with
  | keyword word => keywordWidth word s
  | name blank least =>
    if blank && s.head?.any isBlank then
      match nameWidth least s.tail with
      | 0 => 0
      | n + 1 => n + 2
    else nameWidth least s
  | run member => (s.takeWhile member).length
  | marked mark member =>
    match s with
    | b :: r =>
      if b = mark then
        match (r.takeWhile member).length with
        | 0 => 0
        | n + 1 => n + 2
      else 0
    | [] => 0
  | exact text => if text.isPrefixOf s then text.length else 0
  | oneOf member => if s.head?.any member then 1 else 0
  | toLineEnd mark =>
    match s with
    | b :: r => if b = mark then (r.takeWhile (· != 0x0A)).length + 1 else 0
    | [] => 0
  | lineBreak =>
    match s with
    | 0x0D :: 0x0A :: _ => 2
    | 0x0D :: _ => 1
    | 0x0A :: _ => 1
    | _ => 0

theorem length_takeWhile_add_dropWhile (p : UInt8 → Bool) (s : Bytes) :
    (s.takeWhile p).length + (s.dropWhile p).length = s.length := by
  rw [← List.length_append, List.takeWhile_append_dropWhile]

theorem nameWidth_le (least : Nat) (s : Bytes) : nameWidth least s ≤ s.length := by
  cases s with
  | nil => simp [nameWidth]
  | cons b r =>
    have h := (List.takeWhile_sublist (l := r) isWordByte).length_le
    simp only [nameWidth, List.length_cons]
    split <;> omega

theorem keywordWidth_le (word s : Bytes) : keywordWidth word s ≤ s.length := by
  have h := length_takeWhile_add_dropWhile isBlank s
  simp only [keywordWidth]
  split
  · split
    · exact Nat.zero_le _
    · split <;> omega
  · exact Nat.zero_le _

/-- A pattern takes no more than there is. -/
theorem width_le (p : Pattern) (s : Bytes) : p.width s ≤ s.length := by
  cases p with
  | keyword word => exact keywordWidth_le word s
  | name blank least =>
    simp only [width]
    split
    · next h =>
      have h' := nameWidth_le least s.tail
      cases s with
      | nil => simp at h
      | cons b r => split <;> simp_all
    · exact nameWidth_le least s
  | run member => exact (List.takeWhile_sublist member).length_le
  | marked mark member =>
    cases s with
    | nil => simp [width]
    | cons b r =>
      have h := (List.takeWhile_sublist (l := r) member).length_le
      simp only [width, List.length_cons]
      split
      · split <;> omega
      · omega
  | exact text =>
    simp only [width]
    split
    · next h => exact (List.isPrefixOf_iff_prefix.1 h).length_le
    · exact Nat.zero_le _
  | oneOf member =>
    cases s with
    | nil => simp [width]
    | cons b r => simp only [width]; split <;> simp
  | toLineEnd mark =>
    cases s with
    | nil => simp [width]
    | cons b r =>
      have h := (List.takeWhile_sublist (l := r) (· != 0x0A)).length_le
      simp only [width, List.length_cons]
      split <;> omega
  | lineBreak => simp only [width]; split <;> simp

end Pattern
end Forge6809
