import Forge6809.Script.Position
import Forge6809.Text.Letter
import Forge6809.Text.Quoted

/-! # Lexemes of a script

The text of a script is cut into words, numbers, quoted texts and marks. Line ends inside brackets
do not count, lines without lexemes do not either, and a number sign begins a comment. Blanks in
front of the first lexeme of a line are a lexeme of their own, because they say something about the
line. What cannot be cut is the last lexeme. -/

namespace Forge6809.Script

open Text

inductive Lexeme where
  | name (s : Bytes)
  | keyword (s : Bytes)
  /-- A word that is neither a name nor a keyword. -/
  | reserved (s : Bytes)
  | int (n : Nat)
  | float
  | string (s : Bytes)
  | bytes (s : Bytes)
  | mark (s : Bytes)
  | indent
  | lineEnd
  | textEnd
  /-- Something that starts no lexeme. -/
  | bad (reason : Bytes)
deriving DecidableEq, Repr

structure Located where
  lexeme : Lexeme
  start : Position
  stop : Position
deriving DecidableEq, Repr

namespace Lexeme

def keywords : List String :=
  ["and", "break", "continue", "def", "elif", "else", "for", "if", "in", "lambda", "load", "not",
    "or", "pass", "return", "while"]

def reservedWords : List String :=
  ["as", "class", "del", "except", "finally", "from", "global", "import", "is", "nonlocal", "raise",
    "try", "with", "yield"]

/-- The marks of more than one byte, the longer ones first. -/
def longMarks : List String :=
  ["//=", "<<=", ">>=", "==", "!=", "<=", ">=", "+=", "-=", "*=", "/=", "%=", "&=", "|=", "^=",
    "//", "**", "<<", ">>"]

def singleMarks : Bytes := ofString "+-*/%&|^<>=~.,:;()[]\x7b\x7d"

def opening : Bytes := ofString "([\x7b"

def closing : Bytes := ofString ")]\x7d"

def shown : Lexeme → Bytes
  | name _ => ofString "identifier"
  | keyword s => s
  | reserved s => s
  | int _ => ofString "int literal"
  | float => ofString "float literal"
  | string _ => ofString "string literal"
  | bytes _ => ofString "bytes literal"
  | mark s => [0x27] ++ s ++ [0x27]
  | indent => ofString "indent"
  | lineEnd => ofString "newline"
  | textEnd => ofString "end of file"
  | bad reason => reason

def ofWord (s : Bytes) : Lexeme :=
  if keywords.any fun k => ofString k == s then keyword s
  else if reservedWords.any fun k => ofString k == s then reserved s
  else name s

/-- How many bytes at the start of a text belong to a word: letters, digits and underscores. -/
def wordWidth (s : Bytes) : Nat :=
  match s with
  | [] => 0
  | b :: r =>
    if isAscii b then if isWordByte b then 1 + wordWidth r else 0
    else
      match Utf8.decode (b :: r) with
      | some (code, n) => if isLetterCode code then n + wordWidth (r.drop (n - 1)) else 0
      | none => 0
termination_by s.length
decreasing_by all_goals simp only [List.length_drop, List.length_cons]; omega

/-- The byte that a letter after a backslash stands for. -/
def escapes : List (UInt8 × UInt8) :=
  [(0x61, 0x07), (0x62, 0x08), (0x74, 0x09), (0x6E, 0x0A), (0x76, 0x0B), (0x66, 0x0C), (0x72, 0x0D),
    (0x22, 0x22), (0x27, 0x27), (0x5C, 0x5C)]

def isLineFeed (b : UInt8) : Bool :=
  b == 0x0A || b == 0x0D

def escapedCode (letter : UInt8) (ds : Bytes) : Except Bytes Nat :=
  if ds.all isHexDigit then .ok (numeralValue 16 ds)
  else .error (ofString "invalid escape sequence " ++ 0x5C :: letter :: ds)

/-- What stands up to a closing quote, and how many bytes it takes with the quote. `seen` is what
stood before, the last byte first, and `width` what it took. -/
def quoted (close : UInt8) (seen : Bytes) (width : Nat) : Bytes → Except Bytes (Bytes × Nat)
  | [] => .error (ofString "unexpected EOF in string")
  | 0x5C :: 0x78 :: h :: l :: r =>
    match escapedCode 0x78 [h, l] with
    | .ok code => quoted close (UInt8.ofNat code :: seen) (width + 4) r
    | .error reason => .error reason
  | 0x5C :: 0x75 :: a :: b :: c :: d :: r =>
    match escapedCode 0x75 [a, b, c, d] with
    | .ok code => quoted close ((Utf8.encode code).reverse ++ seen) (width + 6) r
    | .error reason => .error reason
  | 0x5C :: 0x55 :: a :: b :: c :: d :: e :: f :: g :: h :: r =>
    match escapedCode 0x55 [a, b, c, d, e, f, g, h] with
    | .ok code => quoted close ((Utf8.encode code).reverse ++ seen) (width + 10) r
    | .error reason => .error reason
  | 0x5C :: c :: r =>
    match escapes.lookup c with
    | some b => quoted close (b :: seen) (width + 2) r
    | none => .error (ofString "invalid escape sequence \\" ++ [c])
  | b :: r =>
    if b = close then .ok (seen.reverse, width + 1)
    else if isLineFeed b then .error (ofString "unexpected newline in string")
    else quoted close (b :: seen) (width + 1) r

def endsComment (b : UInt8) : Bool :=
  isLineFeed b || b == 0x00

def isQuote (b : UInt8) : Bool :=
  b == 0x22 || b == 0x27

/-- The lexeme of a quoted text, given what stands after the quote and the width of what stands
before that. -/
def ofQuoted (make : Bytes → Lexeme) (close : UInt8) (width : Nat) (r : Bytes) : Lexeme × Nat :=
  match quoted close [] width r with
  | .ok (s, width) => (make s, width)
  | .error reason => (bad reason, width)

/-- The number at the start of a text: hexadecimal after `0x`, or decimal with or without digits
after a point. -/
def number (s : Bytes) : Lexeme × Nat :=
  match s with
  | 0x30 :: 0x78 :: r =>
    match r.takeWhile isHexDigit with
    | [] => (bad (ofString "invalid hex literal"), 2)
    | ds => (int (numeralValue 16 ds), ds.length + 2)
  | s =>
    let ds := s.takeWhile isDigit
    match s.drop ds.length with
    | 0x2E :: r => (float, ds.length + 1 + (r.takeWhile isDigit).length)
    | _ => (int (numeralValue 10 ds), ds.length)

/-- The reason why no lexeme starts with the character at the start of a text. -/
def unexpected (s : Bytes) : Bytes :=
  match s.head? with
  | some 0x21 => ofString "unexpected '!'"
  | _ =>
    let character := if (Utf8.decode s).isSome then s.take (Utf8.width s) else Utf8.replacement
    ofString "unexpected input character '" ++ escape character ++ [0x27]

def markAt (s : Bytes) : Lexeme × Nat :=
  match (longMarks.map ofString).find? (·.isPrefixOf s) with
  | some m => (mark m, m.length)
  | none =>
    if singleMarks.contains (s.headD 0) then (mark (s.take 1), 1) else (bad (unexpected s), 1)

/-- The lexeme at the start of a text that starts with no blank, comment or line end, and how many
bytes it takes. -/
def first (s : Bytes) : Lexeme × Nat :=
  match s with
  | [] => (textEnd, 0)
  | b :: r =>
    let next := r.headD 0
    if isQuote b then ofQuoted string b 1 r
    else if b == 0x62 && isQuote next then ofQuoted bytes next 2 r.tail
    else if isDigit b || b == 0x2E && isDigit next then number s
    else
      match wordWidth s with
      | 0 => markAt s
      | n => (ofWord (s.take n), n)

structure Scan where
  position : Position := {}
  /-- How many brackets are open. -/
  depth : Nat := 0
  /-- Whether the line has no lexeme so far. -/
  fresh : Bool := true

/-- The brackets that are open after a lexeme. -/
def depthAfter (depth : Nat) : Lexeme → Nat
  | mark [b] =>
    if opening.contains b then depth + 1 else if closing.contains b then depth - 1 else depth
  | _ => depth

/-- A closing bracket is no lexeme where none is open. -/
def checked (depth : Nat) : Lexeme → Lexeme
  | mark [b] =>
    if depth == 0 && closing.contains b then bad (ofString "unexpected '" ++ [b, 0x27])
    else mark [b]
  | l => l

/-- Whether a line has no more lexemes. A zero byte ends the whole text. -/
def endsLine : Bytes → Bool
  | [] => true
  | b :: _ => b == 0x00 || b == 0x23 || isLineFeed b

def afterLine : Bytes → Bytes
  | 0x0D :: 0x0A :: r => r
  | _ :: r => r
  | [] => []

/-- The lexemes of a text of less than `bound` bytes, after those seen before, the last one
first. -/
def scan : Nat → Scan → Bytes → List Located → List Located
  | 0, _, _, seen => seen.reverse
  | bound + 1, state, s, seen =>
    let here := state.position
    match s with
    | [] | 0x00 :: _ => (⟨textEnd, here, here⟩ :: seen).reverse
    | b :: r =>
      if isBlank b then
        let rest := s.dropWhile isBlank
        let next := here.forward (s.takeWhile isBlank)
        if state.fresh && state.depth == 0 && !endsLine rest then
          scan bound { state with position := next, fresh := false } rest
            (⟨indent, next, next⟩ :: seen)
        else scan bound { state with position := next } rest seen
      else if b = 0x23 then
        let comment := s.takeWhile fun c => !endsComment c
        scan bound { state with position := here.forward comment }
          (s.dropWhile fun c => !endsComment c) seen
      else if isLineFeed b then
        let next := here.nextLine
        scan bound { state with position := next, fresh := true } (afterLine s)
          (if state.depth == 0 && !state.fresh then ⟨lineEnd, here, next⟩ :: seen else seen)
      else if b = 0x5C then
        if isLineFeed (r.headD 0) then
          scan bound { state with position := here.nextLine, fresh := false } (afterLine r) seen
        else
          let next := here.forward [b]
          (⟨bad (ofString "stray backslash in program"), next, next⟩ :: seen).reverse
      else
        let (found, width) := first s
        let next := here.forward (s.take width)
        match checked state.depth found with
        | bad reason => (⟨bad reason, here, next⟩ :: seen).reverse
        | l =>
          let state := ⟨next, depthAfter state.depth l, false⟩
          scan bound state (s.drop width) (⟨l, here, next⟩ :: seen)

/-- The lexemes of a text. The last one is the end of the text or something that is no lexeme. -/
def ofText (s : Bytes) : List Located :=
  scan (s.length + 1) {} s []

end Lexeme

end Forge6809.Script
