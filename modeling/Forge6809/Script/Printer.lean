import Forge6809.Script.Term

/-! # Texts of calls

The text of a script has one call on each line, with a name and an equals sign in front of it if
the result is saved:

    p = assemble("hello.asm", defines={"SCREEN": 1024})
    add_file("HELLO.BIN", data=p.binary) -/

namespace Forge6809.Script

open Text

def separate (items : List Bytes) : Bytes :=
  List.intercalate (ofString ", ") items

mutual

def Term.written : Term → Bytes
  | .int n => (Value.int n).written
  | .string s => (Value.string s).written
  | .bytes s => (Value.bytes s).written
  | .repeated s times => (Value.bytes s).written ++ ofString " * " ++ signed times
  | .list items => 0x5B :: separate (itemTexts items) ++ [0x5D]
  | .dict items => 0x7B :: separate (pairTexts items) ++ [0x7D]
  | .ref name attributes => name.text ++ attributes.flatMap (0x2E :: ·)

def itemTexts : List Term → List Bytes
  | [] => []
  | t :: r => t.written :: itemTexts r

def pairTexts : List (Term × Term) → List Bytes
  | [] => []
  | p :: r => pairText p :: pairTexts r

/-- The text of a key and of what it maps to. -/
def pairText : Term × Term → Bytes
  | (k, v) => k.written ++ ofString ": " ++ v.written

end

def Call.written (c : Call) : Bytes :=
  let target := match c.save with
    | some name => name.text ++ ofString " = "
    | none => []
  let named := c.kwargs.map fun k => k.1.text ++ 0x3D :: k.2.written
  target ++ c.callee.text ++ 0x28 :: separate (c.args.map Term.written ++ named) ++ [0x29]

def writeCalls (calls : List Call) : Bytes :=
  calls.flatMap fun c => c.written ++ [0x0A]

end Forge6809.Script
