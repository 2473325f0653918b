import Forge6809.Text.Label
import Forge6809.Text.Trim
import Forge6809.Text.Uppercase

/-! # Tokens

A token is a piece of text with the kind of thing it is. Both the assembler and the operand
expressions use these kinds; each of the two lexicons produces some of them. -/

namespace Forge6809

inductive Kind where
  | undefined
  | identifier
  | mnemonic
  | directive
  | hex
  | binary
  | integer
  | pound
  | register
  | comma
  | increment2
  | increment1
  | decrement2
  | decrement1
  | plus
  | minus
  | asterisk
  | leftParen
  | rightParen
  | comment
  | whitespace
  | newline
deriving DecidableEq, Repr

namespace Kind

def all : List Kind :=
  [undefined, identifier, mnemonic, directive, hex, binary, integer, pound, register, comma,
    increment2, increment1, decrement2, decrement1, plus, minus, asterisk, leftParen, rightParen,
    comment, whitespace, newline]

def names : List String :=
  ["undefined", "identifier", "mnemonic", "directive", "hex", "binary", "integer", "#", "register",
    ",", "++", "+", "--", "-", "plus", "minus", "*", "(", ")", "comment", "whitespace", "newline"]

def code (k : Kind) : Nat :=
  all.idxOf k

def ofCode? (code : Int) : Option Kind :=
  if code < 0 then none else all[code.toNat]?

def labelOf (code : Int) : Bytes :=
  Text.label "Kind" names code

def label (k : Kind) : Bytes :=
  labelOf k.code

end Kind

/-- A piece of text and its kind. The text is exactly what was read. -/
structure Token where
  kind : Kind
  text : Bytes
deriving DecidableEq, Repr

namespace Token

/-- The text without white space around it, in upper case: how names and keywords are compared. -/
def word (t : Token) : Bytes :=
  Text.upper (Text.trim t.text)

end Token
end Forge6809
