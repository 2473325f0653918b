import Forge6809.Assembly.Program
import Forge6809.Assembly.Statement

/-! # Assembling a source

The source is read in several passes. Label scans repeat until the values of all labels and equates
settle, because an equate may refer to one that is defined further down; then one pass generates
the code. The number of scans is bounded by the number of names, so the scanning ends even if
equates that depend on each other in a circle never settle; those the code pass refuses. -/

namespace Forge6809.Assembly

open Text

/-- An assembler with the equates that are known before the first line. -/
structure Assembler where
  predefined : Table UInt16 := ∅

/-- What an assembly did: the passes it began and how the last of them ended. -/
structure Outcome where
  passes : List Pass
  result : Except SyntaxError Program

def numberedLines (source : Bytes) : List (Bytes × Nat) :=
  (lines source).zipIdx 1

namespace Session

def start (s : Session) (pass : Pass) : Session :=
  { s with pass, offset := 0, origin := 0, exec := 0 }

def run (s : Session) : List (Bytes × Nat) → Except SyntaxError (Session × List Line)
  | [] => .ok (s, [])
  | (text, lineNo) :: rest =>
    match s.statement lineNo text with
    | .error cause => .error ⟨lineNo, text, cause⟩
    | .ok (s', code) =>
      match s'.run rest with
      | .error e => .error e
      | .ok (s'', ls) => .ok (s'', ⟨lineNo, s.offset, text, code⟩ :: ls)

/-- Makes up to `bound` further label scans, until one changes nothing. Gives the scans begun. -/
def settle (source : List (Bytes × Nat)) : Nat → Session → List Pass × Except SyntaxError Session
  | 0, s => ([], .ok s)
  | bound + 1, s =>
    match (s.start .settle).run source with
    | .error e => ([.settle], .error e)
    | .ok (s', _) =>
      if s.symbols = s'.symbols ∧ s.equates = s'.equates then ([.settle], .ok s')
      else
        let (passes, result) := settle source bound s'
        (.settle :: passes, result)

def generate (s : Session) (source : List (Bytes × Nat)) : Except SyntaxError Program :=
  match (s.start .code).run source with
  | .error e => .error e
  | .ok (s', ls) => .ok (ls.foldr .cons
    { origin := s'.origin, exec := s'.exec, labels := s'.symbols, equates := s'.equates })

end Session

namespace Assembler

def predefine (a : Assembler) (name : Bytes) (value : UInt16) : Assembler :=
  ⟨a.predefined.insert (upper name) value⟩

def session (a : Assembler) : Session where
  pass := .collect
  symbols := ∅
  equates := a.predefined
  defined := a.predefined.map fun _ => 0

/-- Assembles a source and tells which passes it took. -/
def assembly (a : Assembler) (source : Bytes) : Outcome :=
  let source := numberedLines source
  match (a.session.start .collect).run source with
  | .error e => ⟨[.collect], .error e⟩
  | .ok (s, _) =>
    match s.settle source (s.defined.size + 1) with
    | (scans, .error e) => ⟨.collect :: scans, .error e⟩
    | (scans, .ok s) => ⟨.collect :: scans ++ [.code], s.generate source⟩

def assemble (a : Assembler) (source : Bytes) : Except SyntaxError Program :=
  (a.assembly source).result

end Assembler

/-- The journal entry of a line in a pass. -/
def visitEntry (pass : Pass) (line : Bytes × Nat) : Bytes :=
  ofString "pass " ++ decimal pass.number ++ ofString ": " ++ decimal line.2 ++ ofString ": "
    ++ line.1

/-- The journal of an assembly: every line that each pass visited. The last pass ends at the line
that was refused, if there is one. -/
def Outcome.journal (o : Outcome) (source : Bytes) : List Bytes :=
  let all := numberedLines source
  let visited := match o.result with
    | .error e => all.takeWhile fun l : Bytes × Nat => l.2 ≤ e.lineNo
    | .ok _ => all
  o.passes.dropLast.flatMap (fun p => all.map (visitEntry p)) ++
    o.passes.getLast?.toList.flatMap fun p => visited.map (visitEntry p)

end Forge6809.Assembly
