import Forge6809.Assembly.Program
import Forge6809.Core.Trace
import Forge6809.Disk.Envelope

/-! # Running a program

The emulator loads a program and calls it as a subroutine: the stack holds a return address that
no program occupies, and the run ends when the program counter reaches it. Faults are reported with
the source line of the listing that was loaded last. -/

namespace Forge6809

open Forge6809.Core Forge6809.Text

inductive RuntimeCause where
  | fault (f : Fault)
  | stepsExhausted
deriving DecidableEq, Repr

/-- Where a run ended early; the line is zero if no listing covers the address. -/
structure RuntimeError where
  lineNo : Nat
  pc : UInt16
  cause : RuntimeCause
deriving DecidableEq, Repr

def RuntimeCause.message (lang : Language) : RuntimeCause → Bytes
  | fault f => f.message lang
  | stepsExhausted => Message.say lang "step limit reached" []

def RuntimeError.message (lang : Language) (e : RuntimeError) : Bytes :=
  if e.lineNo = 0 then
    Message.say lang "$%04X %v" [.number e.pc.toNat, .text (e.cause.message lang)]
  else
    Message.say lang "line %d ($%04X) %v"
      [.number e.lineNo, .number e.pc.toNat, .text (e.cause.message lang)]

structure Emulator where
  machine : Machine
  /-- The listing that faults are looked up in. -/
  program : Option Assembly.Program := none
  /-- The address that a reset calls. -/
  entry : UInt16 := 0

namespace Emulator

/-- The hardware stack after a reset. -/
def stackTop : UInt16 := 0x8000

def returnAddress : UInt16 := 0xFFFF

def screenAddress : UInt16 := 0x0400

def screenWidth : Nat := 32
def screenHeight : Nat := 16

def screenBlank : UInt8 := 0x60

def initial : Emulator :=
  ⟨({} : Machine).load screenAddress (List.replicate (screenWidth * screenHeight) screenBlank),
    none, 0⟩

def defines : List (Bytes × UInt16) :=
  [(ofString "SCREEN", screenAddress), (ofString "STACK_TOP", stackTop)]

def loadProgram (e : Emulator) (p : Assembly.Program) : Emulator :=
  ⟨e.machine.load p.origin p.code, some p, p.exec⟩

def loadEnvelope (e : Emulator) (binary : Bytes) : Except Disk.EnvelopeError Unit × Emulator :=
  match Disk.Envelope.parse binary with
  | (_, .error err) => (.error err, e)
  | (segments, .ok exec) =>
    (.ok (), { e with
      machine := segments.foldl (fun m s => m.load s.address s.data) e.machine
      entry := exec })

def reset (e : Emulator) : Emulator :=
  { e with machine := (e.machine.reset e.entry stackTop).push16 returnAddress }

/-- The source line of an address in a listing, or zero. -/
def lineOf (program : Option Assembly.Program) (pc : UInt16) : Nat :=
  ((program.bind (·.lineAt? pc)).map (·.lineNo)).getD 0

/-- The source line of the next instruction, or zero. -/
def lineNo (e : Emulator) : Nat :=
  lineOf e.program e.machine.pc

/-- Executes one instruction and tells whether the entry routine has returned. -/
def tick (e : Emulator) : Except RuntimeError Bool × Emulator :=
  match e with
  | ⟨machine, program, entry⟩ =>
    let pc := machine.pc
    if pc = returnAddress then (.ok true, ⟨machine, program, entry⟩)
    else
      match machine.tick with
      | (.error f, machine) =>
        (.error ⟨lineOf program pc, pc, .fault f⟩, ⟨machine, program, entry⟩)
      | (.ok _, machine) => (.ok (machine.pc = returnAddress), ⟨machine, program, entry⟩)

/-- Executes up to so many instructions, until the entry routine returns. -/
def run : Nat → Emulator → Except RuntimeError Unit × Emulator
  | 0, e => (.error ⟨e.lineNo, e.machine.pc, .stepsExhausted⟩, e)
  | limit + 1, e =>
    match e.tick with
    | (.error err, e) => (.error err, e)
    | (.ok true, e) => (.ok (), e)
    | (.ok false, e) => run limit e

/-- The journal entries of one tick: none if it failed or there was nothing to execute. -/
def tickJournal (e : Emulator) : List Bytes :=
  if e.machine.pc = returnAddress then []
  else
    match e.machine.tick with
    | (.error _, _) => []
    | (.ok _, m) => [e.machine.tickEntry m]

def runJournal (limit : Nat) (e : Emulator) : List Bytes :=
  go limit e #[] |>.toList
where
  /-- Collects the entries of the ticks that are left. -/
  go : Nat → Emulator → Array Bytes → Array Bytes
    | 0, _, log => log
    | limit + 1, e, log =>
      let log := log ++ e.tickJournal
      match e.tick with
      | (.ok false, e) => go limit e log
      | _ => log

/-- The character of a screen code. Graphics are shown as a number sign. -/
def screenByte (c : UInt8) : UInt8 :=
  if c ≥ 0x80 then 0x23
  else if c &&& 0x3F < 0x20 then 0x40 + (c &&& 0x3F)
  else c &&& 0x3F

/-- The text screen, one line a row. -/
def screen (e : Emulator) : Bytes :=
  (List.range screenHeight).flatMap fun row =>
    (e.machine.memory.dump (screenAddress + UInt16.ofNat (row * screenWidth)) screenWidth).map
      screenByte ++ [0x0A]

end Emulator
end Forge6809
