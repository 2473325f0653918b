import Forge6809.Script.Attribute
import Forge6809.Script.Key
import Forge6809.Script.Position

/-! # Calls before they are made

A script is a list of calls. An argument of a call is a literal or a name, perhaps with attributes
after it. A name stands for the result of a call that was saved under it. If no call of the script
saves to the name, it stands for a builtin or a constant. -/

namespace Forge6809.Script

open Text

inductive Term where
  | int (n : Int)
  | string (s : Bytes)
  | bytes (s : Bytes)
  /-- A byte string so many times over. -/
  | repeated (s : Bytes) (times : Int)
  | list (items : List Term)
  | dict (items : List (Term × Term))
  /-- What a name stands for, or an attribute of an attribute of it. -/
  | ref (name : Name) (attributes : List Bytes)
deriving Inhabited

/-- A call of what a name stands for. -/
structure Call where
  callee : Name
  args : List Term := []
  kwargs : List (Name × Term) := []
  /-- The name under which the result is saved. -/
  save : Option Name := none

/-- What the names of a script stand for while it runs. -/
structure Scope where
  /-- The names that some call of the script saves to. -/
  declared : List Bytes := []
  /-- The results that were saved. -/
  globals : Table Value := ∅

/-- The functions that have names although no call of a build is theirs. -/
def otherFunctions : List String :=
  ["abs", "all", "any", "bool", "bytes", "chr", "dict", "dir", "enumerate", "fail", "float",
    "getattr", "hasattr", "hash", "int", "len", "list", "max", "min", "ord", "range", "repr",
    "reversed", "sorted", "str", "tuple", "type", "zip"]

def predeclared : List (String × Value) :=
  [("None", .none), ("True", .bool true), ("False", .bool false)]
    ++ Builtin.all.map (fun f => (f.name, .builtin f))
    ++ otherFunctions.map fun name => (name, .function (ofString name))

/-- What a name stands for that no call saves to. -/
def predeclared? (name : Bytes) : Option Value :=
  (predeclared.find? fun p => ofString p.1 == name).map (·.2)

/-- What a name stands for. A name that is saved to stands for nothing before that. -/
def Scope.value (scope : Scope) (name : Bytes) : Except CallError Value :=
  if scope.declared.contains name then
    match scope.globals.get? name with
    | some v => .ok v
    | none => .error (.unassigned name)
  else
    match predeclared? name with
    | some v => .ok v
    | none => .error (.unbound name)

/-- The size from which on a repeated byte string is refused. -/
def repeatLimit : Nat := 0x40000000

/-- A byte string so many times over; none at all for a count that is not positive. -/
def repeatBytes (s : Bytes) (times : Int) : Except CallError Value :=
  if s = [] then .ok (.bytes [])
  else if times < -0x80000000 ∨ 0x7FFFFFFF < times then .error (.repeatCount times)
  else if s.length * times.toNat ≥ repeatLimit then .error (.repeatSize s.length times)
  else .ok (.bytes (List.replicate times.toNat s).flatten)

def addItem (items : List (Value × Value)) (item : Value × Value) :
    Except CallError (List (Value × Value)) :=
  match item.1.unkeyed? with
  | some type => .error (.badKey type)
  | none =>
    match (items.map fun e => item.1.sameKey? e.1).find? (· != some false) with
    | none => .ok (item :: items)
    | some none => .error .deepKey
    | some (some _) => .error (.repeatedKey item.1.written)

mutual

def Term.eval (scope : Scope) : Term → Except CallError Value
  | .int n => .ok (.int n)
  | .string s => .ok (.string s)
  | .bytes s => .ok (.bytes s)
  | .repeated s times => repeatBytes s times
  | .list items => do return .list (← evalItems scope items)
  | .dict items => do return .dict (← evalPairs scope [] items).reverse
  | .ref name attributes => do
    (← scope.value name.text).attributePath name.position attributes

def evalItems (scope : Scope) : List Term → Except CallError (List Value)
  | [] => .ok []
  | t :: r => do
    let v ← t.eval scope
    return v :: (← evalItems scope r)

/-- Adds the items of a dictionary to those before them. Each is added before the next one is
evaluated. -/
def evalPairs (scope : Scope) (items : List (Value × Value)) :
    List (Term × Term) → Except CallError (List (Value × Value))
  | [] => .ok items
  | p :: r => do
    let item ← evalPair scope p
    evalPairs scope (← addItem items item) r

def evalPair (scope : Scope) : Term × Term → Except CallError (Value × Value)
  | (k, v) => do
    let k ← k.eval scope
    return (k, ← v.eval scope)

end

end Forge6809.Script
