import Forge6809.Text.Bytes

/-! # Operations

An opcode of one or two bytes is decoded to an operation before anything else happens. Opcodes with
direct or extended addressing, branches, interrupts and stack transfers of several registers have
no operation here. -/

namespace Forge6809.Core

inductive Accumulator where
  | a
  | b
deriving DecidableEq, Repr

/-- The registers of sixteen bits; `d` is both accumulators together. -/
inductive WordRegister where
  | d
  | x
  | y
  | u
  | s
deriving DecidableEq, Repr

inductive Mode where
  | immediate
  | indexed
deriving DecidableEq, Repr

inductive Binary where
  | sub
  | compare
  | subCarry
  | and
  | test
  | load
  | xor
  | addCarry
  | or
  | add
deriving DecidableEq, Repr

inductive Unary where
  | negate
  | complement
  | shiftRight
  | rotateRight
  | halve
  | shiftLeft
  | rotateLeft
  | decrement
  | increment
  | test
  | clear
deriving DecidableEq, Repr

inductive Operation where
  | nop
  | orFlags
  | andFlags
  | signExtendB
  | loadAddress (reg : WordRegister)
  | returnFromCall
  | addBToX
  | multiply
  | jump
  | call
  | unary (op : Unary) (acc : Accumulator)
  | binary (op : Binary) (acc : Accumulator) (mode : Mode)
  | store8 (acc : Accumulator)
  | load16 (reg : WordRegister) (mode : Mode)
  | store16 (reg : WordRegister)
  | addD (mode : Mode)
  | subD (mode : Mode)
  | compare16 (reg : WordRegister) (mode : Mode)
deriving DecidableEq, Repr

def Mode.ofOpcode? (op : UInt8) : Option Mode :=
  match op >>> 4 with
  | 0x8 | 0xC => some .immediate
  | 0xA | 0xE => some .indexed
  | _ => none

def Unary.ofOpcode? (op : UInt8) : Option Unary :=
  match op &&& 0x0F with
  | 0x0 => some .negate
  | 0x3 => some .complement
  | 0x4 => some .shiftRight
  | 0x6 => some .rotateRight
  | 0x7 => some .halve
  | 0x8 => some .shiftLeft
  | 0x9 => some .rotateLeft
  | 0xA => some .decrement
  | 0xC => some .increment
  | 0xD => some .test
  | 0xF => some .clear
  | _ => none

def Binary.ofOpcode? (op : UInt8) : Option Binary :=
  match op &&& 0x0F with
  | 0x0 => some .sub
  | 0x1 => some .compare
  | 0x2 => some .subCarry
  | 0x4 => some .and
  | 0x5 => some .test
  | 0x6 => some .load
  | 0x8 => some .xor
  | 0x9 => some .addCarry
  | 0xA => some .or
  | 0xB => some .add
  | _ => none

namespace Operation

/-- Opcodes 0x80 to 0xFF of the first page: the lower half works on `A` and `X`, the upper half on
`B`, `D` and `U`. -/
def ofMemoryOpcode? (op : UInt8) : Option Operation :=
  let upper := op ≥ 0xC0
  let acc := if upper then Accumulator.b else .a
  match Mode.ofOpcode? op, Binary.ofOpcode? op with
  | none, _ => none
  | some mode, some f => some (.binary f acc mode)
  | some mode, none =>
    match op &&& 0x0F, mode with
    | 0x3, _ => some (if upper then .addD mode else .subD mode)
    | 0x7, .indexed => some (.store8 acc)
    | 0xC, _ => some (if upper then .load16 .d mode else .compare16 .x mode)
    | 0xD, .indexed => some (if upper then .store16 .d else .call)
    | 0xE, _ => some (.load16 (if upper then .u else .x) mode)
    | 0xF, .indexed => some (.store16 (if upper then .u else .x))
    | _, _ => none

/-- Opcodes without a prefix byte. -/
def ofFirstPage? (op : UInt8) : Option Operation :=
  match op with
  | 0x12 => some .nop
  | 0x1A => some .orFlags
  | 0x1C => some .andFlags
  | 0x1D => some .signExtendB
  | 0x30 => some (.loadAddress .x)
  | 0x31 => some (.loadAddress .y)
  | 0x32 => some (.loadAddress .s)
  | 0x33 => some (.loadAddress .u)
  | 0x39 => some .returnFromCall
  | 0x3A => some .addBToX
  | 0x3D => some .multiply
  | 0x6E => some .jump
  | _ =>
    if 0x40 ≤ op ∧ op ≤ 0x5F then
      (Unary.ofOpcode? op).map fun f => .unary f (if op ≥ 0x50 then .b else .a)
    else if op ≥ 0x80 then ofMemoryOpcode? op
    else none

/-- Opcodes after the prefix 0x10. -/
def ofSecondPage? (op : UInt8) : Option Operation :=
  match op with
  | 0x83 => some (.compare16 .d .immediate)
  | 0xA3 => some (.compare16 .d .indexed)
  | 0x8C => some (.compare16 .y .immediate)
  | 0xAC => some (.compare16 .y .indexed)
  | 0x8E => some (.load16 .y .immediate)
  | 0xAE => some (.load16 .y .indexed)
  | 0xAF => some (.store16 .y)
  | 0xCE => some (.load16 .s .immediate)
  | 0xEE => some (.load16 .s .indexed)
  | 0xEF => some (.store16 .s)
  | _ => none

/-- Opcodes after the prefix 0x11. -/
def ofThirdPage? (op : UInt8) : Option Operation :=
  match op with
  | 0x83 => some (.compare16 .u .immediate)
  | 0xA3 => some (.compare16 .u .indexed)
  | 0x8C => some (.compare16 .s .immediate)
  | 0xAC => some (.compare16 .s .indexed)
  | _ => none

def ofOpcode? (opcode : Bytes) : Option Operation :=
  match opcode with
  | [op] => ofFirstPage? op
  | [0x10, op] => ofSecondPage? op
  | [0x11, op] => ofThirdPage? op
  | _ => none

end Operation
end Forge6809.Core
