import Forge6809.Table
import Forge6809.Text.Numeral

/-! # Assembled programs

A program is the code of a source, line by line, with the values of its labels and equates. Its
listing shows address, code and source of every line and then the symbols in name order. -/

namespace Forge6809.Assembly

open Text

structure Line where
  /-- The number of the line, from one. -/
  lineNo : Nat
  /-- The distance of the code from the origin. -/
  offset : UInt16
  text : Bytes
  code : Bytes
deriving DecidableEq, Repr

structure Program where
  /-- The address at which the code is loaded. -/
  origin : UInt16
  /-- The address at which execution starts. -/
  exec : UInt16
  /-- The code of all lines. -/
  code : Bytes := []
  lines : List Line := []
  /-- Distances of the labels from the origin. -/
  labels : Table UInt16
  equates : Table UInt16

namespace Program

/-- The program with a line, and its code, in front of the others. -/
def cons (l : Line) (p : Program) : Program :=
  { p with code := l.code ++ p.code, lines := l :: p.lines }

/-- Lines that are put in front of a program bring their code along. -/
theorem foldr_cons (p : Program) (ls : List Line) : ls.foldr cons p =
    { p with code := ls.flatMap (·.code) ++ p.code, lines := ls ++ p.lines } := by
  induction ls with
  | nil => rfl
  | cons l ls ih =>
    rw [List.foldr_cons, ih, cons, List.flatMap_cons, List.append_assoc]
    rfl

def address (p : Program) (l : Line) : UInt16 :=
  p.origin + l.offset

def lineAt? (p : Program) (addr : UInt16) : Option Line :=
  p.lines.find? fun l => !l.code.isEmpty && addr - p.address l < UInt16.ofNat l.code.length

/-- The addresses of the labels and then the values of the equates, each in name order. -/
def symbols (p : Program) : List (Bytes × UInt16) :=
  Table.chain [p.labels.map (p.origin + ·), p.equates]

def listLine (p : Program) (l : Line) : Bytes :=
  hexUpper 4 (p.address l).toNat ++ ofString "  "
    ++ padRight 12 (l.code.flatMap fun b => hexUpper 2 b.toNat ++ [0x20]) ++ ofString " "
    ++ padLeft 0x20 5 (decimal l.lineNo) ++ ofString "  " ++ l.text ++ [0x0A]

def listSymbol (p : Program) (name : Bytes) (value : UInt16) : Bytes :=
  padRight 16 name ++ ofString " "
    ++ padRight 5 (ofString (if p.labels.contains name then "LABEL" else "EQU")) ++ ofString " $"
    ++ hexUpper 4 value.toNat ++ [0x0A]

/-- The lines of the listing: the source, then a blank line and the symbols if there are any. -/
def listing (p : Program) : List Bytes :=
  p.lines.map p.listLine ++
    if p.symbols.isEmpty then []
    else [0x0A] :: p.symbols.map fun s => p.listSymbol s.1 s.2

/-- Writes the listing to a device that takes so many lines and refuses the next: what it took, and
whether it took everything. -/
def listTo (p : Program) (capacity : Nat) : Bytes × Bool :=
  ((p.listing.take capacity).flatten, p.listing.length ≤ capacity)

end Program
end Forge6809.Assembly
