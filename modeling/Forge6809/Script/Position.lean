import Forge6809.Text.Numeral

/-! # Places in scripts

A place in a text is given by line and column. A name is kept together with the place where it
stands, because mistakes are reported there. -/

namespace Forge6809.Script

open Text

/-- A place in a text. Lines and columns count from one, and columns count characters. -/
structure Position where
  line : Nat := 1
  column : Nat := 1
deriving DecidableEq, Repr

namespace Position

def forward (p : Position) (text : Bytes) : Position :=
  { p with column := p.column + Utf8.count text }

def nextLine (p : Position) : Position :=
  ⟨p.line + 1, 1⟩

def shown (file : Bytes) (p : Position) : Bytes :=
  file ++ ofString ":" ++ decimal p.line ++ ofString ":" ++ decimal p.column

end Position

structure Name where
  text : Bytes
  position : Position := {}
deriving DecidableEq, Repr

end Forge6809.Script
