import Forge6809.Text.Label
import Forge6809.Word

/-! # Indexed operands

The post-byte of an indexed operand selects one of four registers and one of several ways to find
the address from it: an offset of five, eight or sixteen bits, or an automatic increment or
decrement of the register. -/

namespace Forge6809.Assembly

open Text

inductive IndexRegister where
  | x
  | y
  | u
  | s
deriving DecidableEq, Repr

namespace IndexRegister

def names : List String :=
  ["X", "Y", "U", "S"]

def labelOf (code : Int) : Bytes :=
  Text.label "Register" names code

def code : IndexRegister → Nat
  | x => 0
  | y => 1
  | u => 2
  | s => 3

/-- The register of a code. A post-byte keeps both register bits for every code that names none of
the first three, so all those codes stand for `S`. -/
def ofCode (code : Int) : IndexRegister :=
  if code = 0 then x else if code = 1 then y else if code = 2 then u else s

def ofName? (name : Bytes) : Option IndexRegister :=
  match name with
  | [b] =>
    let b := upperByte b
    if b = 0x58 then some x
    else if b = 0x59 then some y
    else if b = 0x55 then some u
    else if b = 0x53 then some s
    else none
  | _ => none

/-- Narrows a post-byte with both register bits set to one register. -/
def mask : IndexRegister → UInt8
  | x => 0x9F
  | y => 0xBF
  | u => 0xDF
  | s => 0xFF

end IndexRegister

/-- The automatic change of the register. Code zero is none; a nonzero code, less one, is what the
low bits of the post-byte hold. -/
structure AutoMode where
  code : Int
deriving DecidableEq, Repr

namespace AutoMode

def none : AutoMode := ⟨0⟩
def increment1 : AutoMode := ⟨1⟩
def increment2 : AutoMode := ⟨2⟩
def decrement1 : AutoMode := ⟨3⟩
def decrement2 : AutoMode := ⟨4⟩

def field (m : AutoMode) : UInt8 :=
  UInt8.ofInt (m.code - 1)

end AutoMode

/-- The post-byte without its register, and the offset bytes after it. The offset is a magnitude:
up to 16 it goes into the post-byte, up to 128 into one byte, and beyond that into two. -/
def offsetForm (offset : UInt16) (negate : Bool) : UInt8 × Bytes :=
  let value := if negate then -offset else offset
  if offset = 0 then (0x84, [])
  else if offset ≤ 16 then (lowByte value &&& 0x1F, [])
  else if offset ≤ 128 then (0x88, [lowByte value])
  else (0x89, wordBytes value)

/-- The bytes of an indexed operand. An automatic mode leaves the offset out. -/
def postbyte (reg : IndexRegister) (offset : UInt16) (negate : Bool) (auto : AutoMode) : Bytes :=
  if auto = .none then
    let form := offsetForm offset negate
    ((form.1 ||| 0x60) &&& reg.mask) :: form.2
  else [((0x84 ||| 0x60) &&& reg.mask &&& 0xE0) ||| auto.field]

end Forge6809.Assembly
