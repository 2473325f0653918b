import Forge6809.Script.Error
import Forge6809.Text.Spelling

/-! # Arguments of builtins

The positional arguments of a call go to the first parameters; the others are given by name. Every
argument is checked when it is bound: first the positional ones, then the named ones, each in
order. What is still missing is reported last. -/

namespace Forge6809.Script

open Text

inductive ParamType where
  | string
  | bytes
  | dict
  /-- An integer of sixteen bits without sign. -/
  | word
  | any
deriving DecidableEq, Repr

structure Param where
  name : String
  type : ParamType
  /-- Whether the argument can be left out. -/
  optional : Bool := false
  /-- Whether `None` is the same as no argument. -/
  skipsNone : Bool := false

/-- Whether a value fits a parameter. -/
def ParamType.check (t : ParamType) (v : Value) : Except Mismatch Unit :=
  match t, v with
  | .any, _ => .ok ()
  | .string, .string _ => .ok ()
  | .bytes, .bytes _ => .ok ()
  | .dict, .dict _ => .ok ()
  | .word, .int n => if 0 ≤ n ∧ n ≤ 0xFFFF then .ok () else .error (.wordRange n)
  | .string, v => .error (.type v.typeName "string")
  | .bytes, v => .error (.type v.typeName "bytes")
  | .dict, v => .error (.type v.typeName "dict")
  | .word, v => .error (.type v.typeName "int")

inductive Slot where
  | empty
  /-- `None`, which counts as no argument. -/
  | skipped
  | given (v : Value)

def Slot.isEmpty : Slot → Bool
  | empty => true
  | _ => false

def Slot.value? : Slot → Option Value
  | given v => some v
  | _ => none

def Param.bind (p : Param) (b : Builtin) (shown : Bytes) (v : Value) : Except CallError Slot :=
  match p.skipsNone, v with
  | true, .none => .ok .skipped
  | _, _ =>
    match p.type.check v with
    | .ok _ => .ok (.given v)
    | .error reason => .error (.mismatch b shown reason)

def bindPositional (b : Builtin) : List Param → List Value → Except CallError (List Slot)
  | p :: ps, v :: vs => do
    let slot ← p.bind b (ofString p.name) v
    return slot :: (← bindPositional b ps vs)
  | ps, _ => .ok (ps.map fun _ => .empty)

/-- The names that are suggested for a misspelt one: those of the first half of the parameters,
the middle one included. -/
def suggestions (params : List Param) : List Bytes :=
  (params.take ((params.length + 1) / 2)).map fun p => ofString p.name

def bindNamed (b : Builtin) (params : List Param) (slots : List Slot) (arg : Bytes × Value) :
    Except CallError (List Slot) :=
  match params.findIdx? fun p => ofString p.name == arg.1 with
  | none => .error (.unexpected b arg.1 (nearest? arg.1 (suggestions params)))
  | some i =>
    match params[i]?, slots[i]? with
    | some p, some .empty => do
      let slot ← p.bind b (quote arg.1) arg.2
      return slots.set i slot
    | _, _ => .error (.repeated b arg.1)

def bindArguments (b : Builtin) (params : List Param) (args : List Value)
    (kwargs : List (Bytes × Value)) : Except CallError (List (Option Value)) := do
  if args.length > params.length then throw (.tooMany b args.length params.length)
  let slots ← bindPositional b params args
  let slots ← kwargs.foldlM (bindNamed b params) slots
  let required := (params.zip slots).drop args.length |>.takeWhile fun p => !p.1.optional
  match required.find? fun p => p.2.isEmpty with
  | some (p, _) => throw (.missing b p.name)
  | none => return slots.map Slot.value?

end Forge6809.Script
