import Forge6809.Script.Position
import Forge6809.Text.Quoted
import Forge6809.Text.Spelling

/-! # Mistakes in scripts

A script is read and checked before any of it runs. A mistake that is found then is named together
with the place where it was found. -/

namespace Forge6809.Script

open Text

inductive Fault where
  /-- Something that cannot be cut into lexemes. -/
  | lexical (reason : Bytes)
  | expected (got want : Bytes)
  | notName
  /-- Something other than a name in front of the equals sign of an argument. -/
  | label
  /-- Something other than a call of a function with plain arguments. -/
  | notCall
  /-- An argument without a name after one that has a name. -/
  | afterNamed
  | repeatedLabel (name : Bytes)
  /-- `what` tells positional arguments from those given by name. -/
  | argumentCount (what : String) (count : Nat)
  | reassigned (name : Bytes) (first : Position)
  | undefined (name : Bytes) (suggestion : Option Bytes)
  /-- The use of `set`, which is a name but stands for nothing. -/
  | sets
deriving DecidableEq, Repr

/-- The most arguments of a kind that a call can have. -/
def argumentLimit : Nat := 255

def Fault.message (file : Bytes) : Fault → Bytes
  | lexical reason => reason
  | expected got want => ofString "got " ++ got ++ ofString ", want " ++ want
  | notName => ofString "not an identifier"
  | label => ofString "keyword argument must have form name=expr"
  | notCall => ofString "not a call"
  | afterNamed => ofString "positional argument may not follow named"
  | repeatedLabel name => ofString "keyword argument " ++ quote name ++ ofString " is repeated"
  | argumentCount what count =>
    decimal count ++ ofString " " ++ ofString what ++ ofString " arguments in call, limit is "
      ++ decimal argumentLimit
  | reassigned name first =>
    ofString "cannot reassign global " ++ name ++ ofString " declared at " ++ first.shown file
  | undefined name suggestion => ofString "undefined: " ++ name ++ hint suggestion
  | sets => ofString "this Starlark dialect does not support sets"

structure Mistake where
  position : Position
  fault : Fault
deriving DecidableEq, Repr

def Mistake.message (file : Bytes) (m : Mistake) : Bytes :=
  m.position.shown file ++ ofString ": " ++ m.fault.message file

end Forge6809.Script
