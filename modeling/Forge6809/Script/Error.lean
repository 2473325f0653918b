import Forge6809.Script.Value
import Forge6809.Text.Spelling

/-! # Errors of calls

What can go wrong when an argument is evaluated or bound to a parameter, and how it is said. -/

namespace Forge6809.Script

open Text

inductive Mismatch where
  | type (got want : String)
  /-- Not an unsigned word. -/
  | wordRange (n : Int)
  /-- Not a signed integer of 32 bits. -/
  | intRange (n : Int)
deriving DecidableEq, Repr

def Mismatch.message : Mismatch → Bytes
  | type got want => ofString "got " ++ ofString got ++ ofString ", want " ++ ofString want
  | wordRange n => signed n ++ ofString " out of range (want value in unsigned 16-bit range)"
  | intRange n => signed n ++ ofString " out of range"

inductive CallError where
  | tooMany (builtin : Builtin) (got want : Nat)
  /-- `param` is in quotes if it was given by name. -/
  | mismatch (builtin : Builtin) (param : Bytes) (reason : Mismatch)
  | repeated (builtin : Builtin) (param : Bytes)
  | unexpected (builtin : Builtin) (param : Bytes) (suggestion : Option Bytes)
  | missing (builtin : Builtin) (param : String)
  | positional (builtin : Builtin)
  /-- A value inside an argument does not fit. -/
  | value (reason : Mismatch)
  | unbound (name : Bytes)
  /-- A name that is saved to, but only later. -/
  | unassigned (name : Bytes)
  | notFunction (type : String)
  /-- `what` is what the type of the value calls the names after its dot. -/
  | noAttribute (type what : String) (name : Bytes) (suggestion : Option Bytes)
  | repeatCount (times : Int)
  | repeatSize (size : Nat) (times : Int)
  | badKey (type : String)
  | repeatedKey (key : Bytes)
  /-- Keys that are too deep to be compared. -/
  | deepKey
deriving DecidableEq, Repr

def CallError.message : CallError → Bytes
  | tooMany b got want =>
    ofString b.name ++ ofString ": got " ++ decimal got ++ ofString " arguments, want at most "
      ++ decimal want
  | mismatch b param reason =>
    ofString b.name ++ ofString ": for parameter " ++ param ++ ofString ": " ++ reason.message
  | repeated b param =>
    ofString b.name ++ ofString ": got multiple values for keyword argument " ++ quote param
  | unexpected b param suggestion =>
    ofString b.name ++ ofString ": unexpected keyword argument " ++ quote param
      ++ hint suggestion
  | missing b param => ofString b.name ++ ofString ": missing argument for " ++ ofString param
  | positional b => ofString b.name ++ ofString ": unexpected positional arguments"
  | value reason => reason.message
  | unbound name => ofString "undefined: " ++ name
  | unassigned name =>
    ofString "global variable " ++ name ++ ofString " referenced before assignment"
  | notFunction type => ofString "invalid call of non-function (" ++ ofString type ++ [0x29]
  | noAttribute type what name suggestion =>
    ofString type ++ ofString " has no ." ++ name ++ ofString " " ++ ofString what
      ++ hint (suggestion.map (0x2E :: ·))
  | repeatCount times => ofString "repeat count " ++ signed times ++ ofString " too large"
  | repeatSize size times =>
    ofString "excessive repeat (" ++ decimal size ++ ofString " * " ++ signed times
      ++ ofString " elements)"
  | badKey type => ofString "unhashable type: " ++ ofString type
  | repeatedKey key => ofString "duplicate key: " ++ key
  | deepKey => ofString "comparison exceeded maximum recursion depth"

end Forge6809.Script
