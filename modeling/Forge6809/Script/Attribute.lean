import Forge6809.Script.Error
import Forge6809.Text.Spelling

/-! # Attributes of values

The attributes of a record are its fields. Texts, byte strings, lists and dictionaries have methods
as attributes; the other values have none. -/

namespace Forge6809.Script

open Text

namespace Value

def methods : Value → List String
  | string _ =>
    ["capitalize", "codepoint_ords", "codepoints", "count", "elem_ords", "elems", "endswith",
      "find", "format", "index", "isalnum", "isalpha", "isdigit", "islower", "isspace", "istitle",
      "isupper", "join", "lower", "lstrip", "partition", "removeprefix", "removesuffix", "replace",
      "rfind", "rindex", "rpartition", "rsplit", "rstrip", "split", "splitlines", "startswith",
      "strip", "title", "upper"]
  | bytes _ => ["elems"]
  | list _ => ["append", "clear", "extend", "index", "insert", "pop", "remove"]
  | dict _ =>
    ["clear", "get", "items", "keys", "pop", "popitem", "setdefault", "update", "values"]
  | _ => []

def attributes (v : Value) (here : Position) : List (Bytes × Value) :=
  match v with
  | record fields => fields
  | v => v.methods.map fun m => (ofString m, method v.typeName (ofString m) here)

def attributeWord : Value → String
  | record _ => "attribute"
  | _ => "field or method"

/-- An attribute of a value, by its name. -/
def attributeNamed (v : Value) (here : Position) (name : Bytes) : Except CallError Value :=
  match (v.attributes here).lookup name with
  | some a => .ok a
  | Option.none =>
    let suggestion := nearest? name ((v.attributes here).map (·.1))
    .error (.noAttribute v.typeName v.attributeWord name suggestion)

/-- An attribute of an attribute of a value, and so on. No method has attributes, so that not more
than one is taken at a place. -/
def attributePath (v : Value) (here : Position) : List Bytes → Except CallError Value
  | [] => .ok v
  | name :: rest => do (← v.attributeNamed here name).attributePath here rest

end Value
end Forge6809.Script
