import Forge6809.Script.Mistake
import Forge6809.Script.Term

/-! # Checking a script

Before a script runs its calls are checked: none names a parameter twice or has too many arguments,
no two save to the same name, and every name that is used stands for something. -/

namespace Forge6809.Script

open Text

mutual

def Term.names : Term → List Name
  | .list items => itemNames items
  | .dict items => pairNames items
  | .ref name _ => [name]
  | _ => []

def itemNames : List Term → List Name
  | [] => []
  | t :: r => t.names ++ itemNames r

def pairNames : List (Term × Term) → List Name
  | [] => []
  | p :: r => namesOfPair p ++ pairNames r

def namesOfPair : Term × Term → List Name
  | (k, v) => k.names ++ v.names

end

def Call.names (c : Call) : List Name :=
  c.callee :: itemNames c.args ++ itemNames (c.kwargs.map (·.2))

/-- The first name that stands among those before it; `seen` are the names before all of them. -/
def repeated? (seen : List Bytes) : List Name → Option Name
  | [] => none
  | name :: r =>
    if seen.contains name.text then some name else repeated? (name.text :: seen) r

/-- A mistake in the arguments of a call. -/
def Call.argumentMistake? (c : Call) : Option Mistake :=
  let tooMany (what : String) (count : Nat) : Option Mistake :=
    if count > argumentLimit then some ⟨c.callee.position, .argumentCount what count⟩ else none
  match repeated? [] (c.kwargs.map (·.1)) with
  | some name => some ⟨name.position, .repeatedLabel name.text⟩
  | none => tooMany "positional" c.args.length <|> tooMany "keyword" c.kwargs.length

/-- The first mistake in the arguments of calls and in what they save to, given the names saved to
before. -/
def assignmentMistake? (seen : List Name) : List Call → Option Mistake
  | [] => none
  | c :: r =>
    match c.argumentMistake?, c.save with
    | some e, _ => some e
    | none, none => assignmentMistake? seen r
    | none, some name =>
      match seen.find? fun first => first.text == name.text with
      | some first => some ⟨name.position, .reassigned name.text first.position⟩
      | none => assignmentMistake? (name :: seen) r

def declaredNames (calls : List Call) : List Bytes :=
  calls.filterMap fun c => c.save.map (·.text)

/-- The name of a function that scripts do not have. -/
def setName : Bytes := ofString "set"

def Name.mistake? (declared : List Bytes) (name : Name) : Option Mistake :=
  if declared.contains name.text || (predeclared? name.text).isSome then none
  else if name.text == setName then some ⟨name.position, .sets⟩
  else
    let names := (Table.ofList (declared.map fun n => (n, ()))).toList.map (·.1)
    some ⟨name.position, .undefined name.text (nearest? name.text names)⟩

/-- The mistake of a call of a function that is no builtin. -/
def Call.calleeMistake? (declared : List Bytes) (c : Call) : Option Mistake :=
  if declared.contains c.callee.text then none
  else
    match predeclared? c.callee.text with
    | some (.function ..) => some ⟨c.callee.position, .notCall⟩
    | _ => none

/-- The first mistake of a script. Names that are used are looked at after all else, and functions
that cannot be called last. -/
def mistake? (calls : List Call) : Option Mistake :=
  let declared := declaredNames calls
  assignmentMistake? [] calls
    <|> (calls.flatMap Call.names).findSome? (Name.mistake? declared)
    <|> calls.findSome? (Call.calleeMistake? declared)

/-- The calls of a script, unless there is a mistake in them. -/
def checkCalls (calls : List Call) : Except Mistake (List Call) :=
  match mistake? calls with
  | some e => .error e
  | none => .ok calls

end Forge6809.Script
