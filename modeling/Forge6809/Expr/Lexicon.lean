import Forge6809.Token.Lexicon

/-! # Lexical rules of operand expressions -/

namespace Forge6809.Expr

open Text

/-- Numbers in three bases, names of any length, the operators and parentheses. -/
def lexicon : Lexicon :=
  [⟨.leftParen, .exact (ofString "(")⟩,
    ⟨.rightParen, .exact (ofString ")")⟩,
    ⟨.asterisk, .exact (ofString "*")⟩,
    ⟨.plus, .exact (ofString "+")⟩,
    ⟨.minus, .exact (ofString "-")⟩,
    ⟨.hex, .marked 0x24 isHexDigit⟩,
    ⟨.binary, .marked 0x25 isBinaryDigit⟩,
    ⟨.identifier, .name false 0⟩,
    ⟨.integer, .run isDigit⟩,
    ⟨.newline, .lineBreak⟩,
    ⟨.whitespace, .run isBlank⟩]

end Forge6809.Expr
