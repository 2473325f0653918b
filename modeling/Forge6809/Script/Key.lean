import Forge6809.Script.Value

/-! # Keys of dictionaries

Lists and dictionaries are no keys, and records are if all their fields are. Two keys are told apart
by their digests first; only keys of one digest are compared, and that down to a limited depth. -/

namespace Forge6809.Script

open Text

namespace Value

mutual

/-- The type that keeps a value from being a key of a dictionary: its own or, for a record, that of
a field. -/
def unkeyed? : Value → Option String
  | list _ => some "list"
  | dict _ => some "dict"
  | record fields => unkeyedField? fields
  | _ => Option.none

/-- The first of such types among fields. -/
def unkeyedField? : List (Bytes × Value) → Option String
  | [] => Option.none
  | f :: r => unkeyedValue? f <|> unkeyedField? r

def unkeyedValue? : Bytes × Value → Option String
  | (_, v) => v.unkeyed?

end

/-- The digest of a text: each byte is mixed in, then the sum is spread by a prime. -/
def textDigest (s : Bytes) : UInt32 :=
  s.foldl (fun h b => (h ^^^ b.toUInt32) * 16777619) 2166136261

/-- The digest of a number. Those of 32 bits count as they are, the others by their amount. -/
def intDigest (n : Int) : UInt32 :=
  let low := if -0x80000000 ≤ n ∧ n ≤ 0x7FFFFFFF then UInt32.ofInt n else UInt32.ofNat n.natAbs
  12582917 * (low + 3)

mutual

/-- The digest of a key, which equal keys share. That of a method does not tell whose it is. -/
def digest : Value → UInt32
  | none => 0
  | bool b => if b then 1 else 0
  | int n => intDigest n
  | string s => textDigest s
  | bytes s => textDigest s
  | list _ => 0
  | dict _ => 0
  | record fields => fieldsDigest 8731 9839 fields
  | builtin f => textDigest (ofString f.name)
  | function name => textDigest name
  | method _ name _ => textDigest name ^^^ 5521

/-- Mixes fields into a digest; `factor` is that of the next field. -/
def fieldsDigest (sum factor : UInt32) : List (Bytes × Value) → UInt32
  | [] => sum
  | f :: r => fieldsDigest (fieldDigest sum factor f) (factor + 7349) r

def fieldDigest (sum factor : UInt32) : Bytes × Value → UInt32
  | (name, v) => sum ^^^ 3 * textDigest name ^^^ v.digest * factor

end

/-- Whether two lists have the same fields, or nothing if that is too deep to tell. A field that
differs decides it. -/
def sameFields (same : Value → Value → Option Bool) :
    List (Bytes × Value) → List (Bytes × Value) → Option Bool
  | (a, v) :: as, (b, w) :: bs =>
    if a == b then
      match same v w with
      | some true => sameFields same as bs
      | decided => decided
    else some false
  | _, _ => some true

/-- Whether two keys are the same, or nothing if that is too deep to tell. A method is the same only
if it was taken at the same place. -/
def same? : Nat → Value → Value → Option Bool
  | 0, _, _ => Option.none
  | depth + 1, v, w =>
    match v, w with
    | none, none => some true
    | bool a, bool b => some (a == b)
    | int a, int b => some (a == b)
    | string a, string b => some (a == b)
    | bytes a, bytes b => some (a == b)
    | builtin a, builtin b => some (a == b)
    | function a, function b => some (a == b)
    | method _ a p, method _ b q => some (a == b && p == q)
    | record a, record b =>
      if a.length == b.length then sameFields (same? depth) a b else some false
    | _, _ => some false

def keyDepth : Nat := 10

/-- Whether two keys are the same. Those that cannot be compared are different if their digests
are. -/
def sameKey? (v w : Value) : Option Bool :=
  match v.same? keyDepth w with
  | some b => some b
  | Option.none => if v.digest == w.digest then Option.none else some false

end Value
end Forge6809.Script
