import Forge6809.Assembly.Mnemonic
import Forge6809.Token.Lexicon

/-! # Lexical rules of source lines

A keyword has at least one blank before it and ends at a word boundary, so that a label that begins
like a mnemonic is not cut in two. A label has at least five characters; a shorter name is read as
registers and single characters, and can only stand in an operand, whose text is put together
again before it is evaluated. -/

namespace Forge6809.Assembly

open Text

def keywordRules (kind : Kind) (words : List String) : List Rule :=
  words.map fun w => ⟨kind, .keyword (ofString w)⟩

def isRegisterLetter (b : UInt8) : Bool :=
  ofString "ABDXYSU" |>.contains (upperByte b)

def plainRules : List Rule :=
  [⟨.identifier, .name true 4⟩,
    ⟨.hex, .marked 0x24 isHexDigit⟩,
    ⟨.binary, .marked 0x25 isBinaryDigit⟩,
    ⟨.integer, .run isDigit⟩,
    ⟨.pound, .exact (ofString "#")⟩,
    ⟨.register, .oneOf isRegisterLetter⟩,
    ⟨.comma, .exact (ofString ",")⟩,
    ⟨.increment2, .exact (ofString "++")⟩,
    ⟨.increment1, .exact (ofString "+")⟩,
    ⟨.decrement2, .exact (ofString "--")⟩,
    ⟨.decrement1, .exact (ofString "-")⟩,
    ⟨.leftParen, .exact (ofString "(")⟩,
    ⟨.rightParen, .exact (ofString ")")⟩,
    ⟨.comment, .toLineEnd 0x2A⟩,
    ⟨.whitespace, .run isBlank⟩,
    ⟨.newline, .lineBreak⟩]

def lexicon : Lexicon :=
  keywordRules .mnemonic mnemonics ++ keywordRules .directive directives ++ plainRules

end Forge6809.Assembly
