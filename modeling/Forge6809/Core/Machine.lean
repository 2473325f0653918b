import Forge6809.Core.Flags
import Forge6809.Core.Memory
import Forge6809.Core.Operation
import Forge6809.Message.Template

/-! # The processor

The state of the processor is its registers, the count of instructions since the last reset, a
signed word of 64 bits that wraps around, and its memory. A tick executes one instruction. It may
fail half way, so the functions below return the state they leave beside the fault; a failed tick
only puts the program counter back. -/

namespace Forge6809.Core

open Condition

structure Machine where
  a : UInt8 := 0
  b : UInt8 := 0
  x : UInt16 := 0
  y : UInt16 := 0
  u : UInt16 := 0
  s : UInt16 := 0
  pc : UInt16 := 0
  /-- Condition codes. -/
  cc : UInt8 := 0
  /-- Instructions executed since the last reset. -/
  ticks : Int64 := 0
  memory : Memory := .clear
deriving DecidableEq

inductive Fault where
  | invalidOpcode (pc : UInt16) (opcode : Bytes)
  | postbyte
deriving DecidableEq, Repr

def Fault.message (lang : Language) : Fault → Bytes
  | invalidOpcode pc opcode =>
    Message.say lang "bad opcode % x at $%04X" [.octets opcode, .number pc.toNat]
  | postbyte => Message.say lang "indexed post-byte unsupported" []

/-- A computation on the machine that may fail, and then leaves what it has done so far. -/
abbrev Exec := ExceptT Fault (StateM Machine)

namespace Machine

def d (m : Machine) : UInt16 :=
  wordOf m.a m.b

def setD (m : Machine) (value : UInt16) : Machine :=
  { m with a := highByte value, b := lowByte value }

def acc (m : Machine) : Accumulator → UInt8
  | .a => m.a
  | .b => m.b

def setAcc (m : Machine) (reg : Accumulator) (value : UInt8) : Machine :=
  match reg with
  | .a => { m with a := value }
  | .b => { m with b := value }

def word (m : Machine) : WordRegister → UInt16
  | .d => m.d
  | .x => m.x
  | .y => m.y
  | .u => m.u
  | .s => m.s

def setWord (m : Machine) (reg : WordRegister) (value : UInt16) : Machine :=
  match reg with
  | .d => m.setD value
  | .x => { m with x := value }
  | .y => { m with y := value }
  | .u => { m with u := value }
  | .s => { m with s := value }

def read8 (m : Machine) (addr : UInt16) : UInt8 :=
  m.memory.read8 addr

def read16 (m : Machine) (addr : UInt16) : UInt16 :=
  m.memory.read16 addr

def write8 (m : Machine) (addr : UInt16) (value : UInt8) : Machine :=
  { m with memory := m.memory.write8 addr value }

def write16 (m : Machine) (addr value : UInt16) : Machine :=
  { m with memory := m.memory.write16 addr value }

/-- Copies bytes to memory, wrapping at its end. -/
def load (m : Machine) (addr : UInt16) (data : Bytes) : Machine :=
  { m with memory := m.memory.load addr data }

/-- Clears the registers and sets the program counter and the stack. Interrupts are masked. -/
def reset (m : Machine) (pc stack : UInt16) : Machine :=
  { memory := m.memory, pc, s := stack, cc := interruptMask ||| fastMask }

def push16 (m : Machine) (value : UInt16) : Machine :=
  let s := m.s - 2
  { m with s, memory := m.memory.write16 s value }

def pull16 (m : Machine) : UInt16 × Machine :=
  (m.read16 m.s, { m with s := m.s + 2 })

def fetch8 (m : Machine) : UInt8 × Machine :=
  (m.read8 m.pc, { m with pc := m.pc + 1 })

def fetch16 (m : Machine) : UInt16 × Machine :=
  (m.read16 m.pc, { m with pc := m.pc + 2 })

end Machine

def postbyteRegister (post : UInt8) : WordRegister :=
  match (post >>> 5) &&& 3 with
  | 0 => .x
  | 1 => .y
  | 2 => .u
  | _ => .s

/-- A five bit offset as a word. -/
def shortOffset (post : UInt8) : UInt16 :=
  let offset := (post &&& 0x1F).toUInt16
  if offset &&& 0x10 = 0 then offset else offset ||| 0xFFE0

/-- Decodes an indexed operand: its address, after the automatic change of the register. -/
def indexed : Exec UInt16 := do
  let post ← modifyGet Machine.fetch8
  let reg := postbyteRegister post
  let base := (← get).word reg
  if post &&& 0x80 = 0 then return base + shortOffset post
  if post &&& 0x10 != 0 then throw .postbyte
  match post &&& 0x0F with
  | 0x0 => modify (·.setWord reg (base + 1)); return base
  | 0x1 => modify (·.setWord reg (base + 2)); return base
  | 0x2 => modify (·.setWord reg (base - 1)); return base - 1
  | 0x3 => modify (·.setWord reg (base - 2)); return base - 2
  | 0x4 => return base
  | 0x5 => return base + signExtend (← get).b
  | 0x6 => return base + signExtend (← get).a
  | 0x8 => return base + signExtend (← modifyGet Machine.fetch8)
  | 0x9 => return base + (← modifyGet Machine.fetch16)
  | 0xB => return base + (← get).d
  | _ => throw .postbyte

def operandAddress (mode : Mode) (size : UInt16) : Exec UInt16 := do
  match mode with
  | .immediate => modifyGet fun m => (m.pc, { m with pc := m.pc + size })
  | .indexed => indexed

def operand8 (mode : Mode) : Exec UInt8 := do
  let ea ← operandAddress mode 1
  return (← get).read8 ea

def operand16 (mode : Mode) : Exec UInt16 := do
  let ea ← operandAddress mode 2
  return (← get).read16 ea

/-- The new accumulator and condition codes of an operation with a byte of memory. -/
def Binary.apply (op : Binary) (cc acc m : UInt8) : UInt8 × UInt8 :=
  match op with
  | .sub => sub8 cc acc m 0
  | .compare => (acc, (sub8 cc acc m 0).2)
  | .subCarry => sub8 cc acc m (cc &&& carry)
  | .and => (acc &&& m, moved8 cc (acc &&& m))
  | .test => (acc, moved8 cc (acc &&& m))
  | .load => (m, moved8 cc m)
  | .xor => (acc ^^^ m, moved8 cc (acc ^^^ m))
  | .addCarry => add8 cc acc m (cc &&& carry)
  | .or => (acc ||| m, moved8 cc (acc ||| m))
  | .add => add8 cc acc m 0

/-- The new accumulator and condition codes of an operation on the accumulator alone. -/
def Unary.apply (op : Unary) (cc v : UInt8) : UInt8 × UInt8 :=
  let c := cc &&& carry
  match op with
  | .negate => sub8 cc 0 v 0
  | .complement => (~~~v, put (moved8 cc (~~~v)) carry true)
  | .shiftRight => (v >>> 1, put (sign8 cc (v >>> 1)) carry (v &&& 1 != 0))
  | .rotateRight =>
    let r := v >>> 1 ||| c <<< 7
    (r, put (sign8 cc r) carry (v &&& 1 != 0))
  | .halve =>
    let r := v >>> 1 ||| v &&& 0x80
    (r, put (sign8 cc r) carry (v &&& 1 != 0))
  | .shiftLeft =>
    let r := v <<< 1
    (r, put (put (sign8 cc r) overflow ((v ^^^ v <<< 1) &&& 0x80 != 0)) carry (v &&& 0x80 != 0))
  | .rotateLeft =>
    let r := v <<< 1 ||| c
    (r, put (put (sign8 cc r) overflow ((v ^^^ v <<< 1) &&& 0x80 != 0)) carry (v &&& 0x80 != 0))
  | .decrement => (v - 1, put (sign8 cc (v - 1)) overflow (v == 0x80))
  | .increment => (v + 1, put (sign8 cc (v + 1)) overflow (v == 0x7F))
  | .test => (v, moved8 cc v)
  | .clear => (0, put (moved8 cc 0) carry false)

/-- Executes an operation whose opcode has been fetched. The value of a register that is stored or
compared is taken before its operand is decoded. -/
def Operation.execute (op : Operation) : Exec Unit := do
  match op with
  | .nop => return
  | .orFlags =>
    let v ← modifyGet Machine.fetch8
    modify fun m => { m with cc := m.cc ||| v }
  | .andFlags =>
    let v ← modifyGet Machine.fetch8
    modify fun m => { m with cc := m.cc &&& v }
  | .signExtendB =>
    modify fun m =>
      let m := { m with a := if m.b &&& 0x80 != 0 then 0xFF else 0 }
      { m with cc := sign16 m.cc m.d }
  | .loadAddress reg =>
    let ea ← indexed
    modify fun m =>
      let m := m.setWord reg ea
      if reg = .x ∨ reg = .y then { m with cc := put m.cc zero (ea == 0) } else m
  | .returnFromCall =>
    let pc ← modifyGet Machine.pull16
    modify fun m => { m with pc }
  | .addBToX => modify fun m => { m with x := m.x + m.b.toUInt16 }
  | .multiply =>
    modify fun m =>
      let m := m.setD (m.a.toUInt16 * m.b.toUInt16)
      { m with cc := put (put m.cc zero (m.d == 0)) carry (m.b &&& 0x80 != 0) }
  | .jump =>
    let ea ← indexed
    modify fun m => { m with pc := ea }
  | .call =>
    let ea ← indexed
    modify fun m => { m.push16 m.pc with pc := ea }
  | .unary f reg =>
    modify fun m =>
      let r := f.apply m.cc (m.acc reg)
      { m.setAcc reg r.1 with cc := r.2 }
  | .binary f reg mode =>
    let v ← operand8 mode
    modify fun m =>
      let r := f.apply m.cc (m.acc reg) v
      { m.setAcc reg r.1 with cc := r.2 }
  | .store8 reg =>
    let v := (← get).acc reg
    let ea ← indexed
    modify fun m => { m.write8 ea v with cc := moved8 m.cc v }
  | .load16 reg mode =>
    let v ← operand16 mode
    modify fun m => { m.setWord reg v with cc := moved16 m.cc v }
  | .store16 reg =>
    let v := (← get).word reg
    let ea ← indexed
    modify fun m => { m.write16 ea v with cc := moved16 m.cc v }
  | .addD mode =>
    let v ← operand16 mode
    modify fun m =>
      let r := add16 m.cc m.d v
      { m.setD r.1 with cc := r.2 }
  | .subD mode =>
    let v ← operand16 mode
    modify fun m =>
      let r := sub16 m.cc m.d v
      { m.setD r.1 with cc := r.2 }
  | .compare16 reg mode =>
    let r := (← get).word reg
    let v ← operand16 mode
    modify fun m => { m with cc := (sub16 m.cc r v).2 }

namespace Machine

/-- The opcode at the program counter, with its prefix. -/
def opcode (m : Machine) : Bytes :=
  let op := m.read8 m.pc
  if op = 0x10 ∨ op = 0x11 then [op, m.read8 (m.pc + 1)] else [op]

/-- Executes one instruction. After a fault the program counter is where it was. -/
def tick (m : Machine) : Except Fault Unit × Machine :=
  let pc := m.pc
  let opcode := m.opcode
  match Operation.ofOpcode? opcode with
  | none => (.error (.invalidOpcode pc opcode), m)
  | some op =>
    match op.execute.run { m with pc := pc + UInt16.ofNat opcode.length } with
    | (.error e, m) => (.error e, { m with pc })
    | (.ok _, m) => (.ok (), { m with ticks := m.ticks + 1 })

end Machine
end Forge6809.Core
