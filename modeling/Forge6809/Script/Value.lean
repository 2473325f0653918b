import Forge6809.Script.Position
import Forge6809.Table
import Forge6809.Text.Quoted

/-! # Values of build scripts

A build script is a list of calls of builtin functions. Calls take and give values; this module
holds them and the text that they are written as. -/

namespace Forge6809.Script

open Text

inductive Builtin where
  | assemble
  | envelope
  | addFile
  | files
  | record
  | print
deriving DecidableEq, Repr

def Builtin.all : List Builtin :=
  [.assemble, .envelope, .addFile, .files, .record, .print]

def Builtin.name : Builtin → String
  | assemble => "assemble"
  | envelope => "envelope"
  | addFile => "add_file"
  | files => "files"
  | record => "struct"
  | print => "print"

def Builtin.ofName? (name : Bytes) : Option Builtin :=
  Builtin.all.find? fun f => ofString f.name == name

inductive Value where
  | none
  | bool (b : Bool)
  | int (n : Int)
  | string (s : Bytes)
  | bytes (s : Bytes)
  | list (items : List Value)
  | dict (items : List (Value × Value))
  /-- A record; its fields are in the order of their names. -/
  | record (fields : List (Bytes × Value))
  | builtin (f : Builtin)
  /-- Another function. It can be shown and stored, but no script calls it. -/
  | function (name : Bytes)
  /-- A method of a value of some type, which is a value of its own each time that it is taken. -/
  | method (type : String) (name : Bytes) (taken : Position)
deriving Inhabited

namespace Value

def typeName : Value → String
  | none => "NoneType"
  | bool _ => "bool"
  | int _ => "int"
  | string _ => "string"
  | bytes _ => "bytes"
  | list _ => "list"
  | dict _ => "dict"
  | record _ => "struct"
  | builtin _ => "builtin_function_or_method"
  | function _ => "builtin_function_or_method"
  | method .. => "builtin_function_or_method"

mutual

def written : Value → Bytes
  | none => ofString "None"
  | bool b => ofString (if b then "True" else "False")
  | int n => signed n
  | string s => quote s
  | bytes s => 0x62 :: quote s
  | list items => 0x5B :: List.intercalate (ofString ", ") (writtenItems items) ++ [0x5D]
  | dict items => 0x7B :: List.intercalate (ofString ", ") (writtenPairs items) ++ [0x7D]
  | record fields =>
    ofString "struct(" ++ List.intercalate (ofString ", ") (writtenFields fields) ++ [0x29]
  | builtin f => ofString "<built-in function " ++ ofString f.name ++ [0x3E]
  | function name => ofString "<built-in function " ++ name ++ [0x3E]
  | method type name _ =>
    ofString "<built-in method " ++ name ++ ofString " of " ++ ofString type ++ ofString " value>"

def writtenItems : List Value → List Bytes
  | [] => []
  | v :: r => v.written :: writtenItems r

def writtenPairs : List (Value × Value) → List Bytes
  | [] => []
  | p :: r => writtenPair p :: writtenPairs r

def writtenPair : Value × Value → Bytes
  | (k, v) => k.written ++ ofString ": " ++ v.written

def writtenFields : List (Bytes × Value) → List Bytes
  | [] => []
  | f :: r => writtenField f :: writtenFields r

def writtenField : Bytes × Value → Bytes
  | (name, v) => name ++ ofString " = " ++ v.written

end

/-- A value as it is printed: texts and byte strings without quotes. -/
def printed : Value → Bytes
  | string s => s
  | bytes s => s
  | v => v.written

end Value
end Forge6809.Script
