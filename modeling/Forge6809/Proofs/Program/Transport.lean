import Forge6809.Emulator
import Forge6809.Proofs.Disk.Envelope
import Forge6809.Proofs.Disk.Reload
import Forge6809.Proofs.Program.Listing

/-! # From the assembler to the machine

A program reaches a machine in two ways: it is loaded as it was assembled, or it is packed into a
binary, written to a disk, carried over in an image, read back there and unpacked. Both leave the
same machine and the same entry point, and from there on the two runs do the same tick by tick; only
the source line of a fault is known to one of them alone. -/

namespace Forge6809

open Forge6809.Core Forge6809.Text

namespace Disk

variable {d d' : Disk} {f : NewFile} {p : Placement}

/-- A file that was added is read back. -/
theorem read_of_add (h : d.add f = (.ok p, d')) : d'.read f.name = .ok f.data := by
  obtain ⟨hplace, rfl⟩ := add_eq_ok_iff.1 h
  have hfor := (place_eq_ok_iff.1 hplace).1
  rw [read_eq_ok_iff, ← hfor.data, write_prepared]
  exact ⟨p.raw, hfor.raw, contents_write_self (room_prepared hplace)⟩

end Disk

namespace Emulator

/-- What a number of ticks show: how each of them ends, without the source line of a fault, and the
machine that it leaves. -/
def trace : Nat → Emulator → List (Except (UInt16 × RuntimeCause) Bool × Machine)
  | 0, _ => []
  | n + 1, e =>
    (e.tick.1.mapError fun err => (err.pc, err.cause), e.tick.2.machine) :: e.tick.2.trace n

variable {e e' : Emulator}

theorem tick_congr (h : e.machine = e'.machine) :
    (e.tick.1.mapError fun err => (err.pc, err.cause)) =
      (e'.tick.1.mapError fun err => (err.pc, err.cause)) ∧
    e.tick.2.machine = e'.tick.2.machine := by
  obtain ⟨m, program, entry⟩ := e
  obtain ⟨_, program', entry'⟩ := e'
  cases h
  simp only [tick]
  split
  · exact ⟨rfl, rfl⟩
  · rcases m.tick with ⟨_ | _, _⟩ <;> exact ⟨rfl, rfl⟩

theorem trace_congr (h : e.machine = e'.machine) (n : Nat) : e.trace n = e'.trace n := by
  induction n generalizing e e' with
  | zero => rfl
  | succ n ih =>
    obtain ⟨houtcome, hmachine⟩ := tick_congr h
    rw [trace, trace, houtcome, hmachine, ih hmachine]

theorem reset_congr (hmachine : e.machine = e'.machine) (hentry : e.entry = e'.entry) :
    e.reset.machine = e'.reset.machine := by
  simp only [reset, hmachine, hentry]

theorem loadEnvelope_pack (e : Emulator) {p : Assembly.Program} {binary : Bytes}
    (h : Disk.Envelope.pack p.code p.origin p.exec = .ok binary) :
    e.loadEnvelope binary = (.ok (), { e with
      machine := (e.loadProgram p).machine
      entry := (e.loadProgram p).entry }) := by
  have hparse := Disk.Envelope.parse_pack h []
  rw [List.append_nil] at hparse
  rw [loadEnvelope, hparse]
  rfl

end Emulator

/-- A program that is packed, written to any disk, carried over to another one and read back there
leaves every emulator with the machine and the entry point that it has when the program is loaded
directly, and every run of it after a reset does the same. -/
theorem program_transport (p : Assembly.Program) (hsize : p.code.length ≤ 0xFFFF) :
    ∃ binary, Disk.Envelope.pack p.code p.origin p.exec = .ok binary ∧
      ∀ (d d' other : Disk) (name : Bytes) (type : Disk.FileType) (mode : Disk.FileMode)
        (placed : Disk.Placement), d.add ⟨name, type, mode, binary⟩ = (.ok placed, d') →
      ∃ copy, other.unmarshal d'.marshal = (.ok (), copy) ∧ copy.read name = .ok binary ∧
        ∀ e : Emulator, ∃ e', e.loadEnvelope binary = (.ok (), e') ∧
          e'.machine = (e.loadProgram p).machine ∧ e'.entry = (e.loadProgram p).entry ∧
          e'.reset.machine = (e.loadProgram p).reset.machine ∧
          ∀ n, e'.reset.trace n = (e.loadProgram p).reset.trace n := by
  obtain ⟨binary, hpack⟩ : ∃ binary, Disk.Envelope.pack p.code p.origin p.exec = .ok binary :=
    ⟨_, if_neg (Nat.not_lt.2 hsize)⟩
  refine ⟨binary, hpack, ?_⟩
  intro d d' other name type mode placed hadd
  have hsynced : d'.Synced := by
    obtain ⟨-, rfl⟩ := Disk.add_eq_ok_iff.1 hadd
    exact d.synced_write placed
  refine ⟨d', hsynced.unmarshal_marshal other, Disk.read_of_add hadd, ?_⟩
  intro e
  have hreset : (⟨(e.loadProgram p).machine, e.program, (e.loadProgram p).entry⟩ :
      Emulator).reset.machine = (e.loadProgram p).reset.machine := Emulator.reset_congr rfl rfl
  exact ⟨_, e.loadEnvelope_pack hpack, rfl, rfl, hreset, Emulator.trace_congr hreset⟩

/-- The program that is wrapped around the end of the memory, on its way over a new disk. -/
theorem wrappedSource_transport : ∃ p binary placed d' copy e',
    (Assembly.Assembler.mk ∅).assemble Assembly.wrappedSource = .ok p ∧
    Disk.Envelope.pack p.code 0xFFFE p.exec = .ok binary ∧
    Disk.new.add ⟨ofString "wrapped.bin", .machineLanguage, .automatic, binary⟩ =
      (.ok placed, d') ∧
    Disk.zero.unmarshal d'.marshal = (.ok (), copy) ∧
    copy.read (ofString "wrapped.bin") = .ok binary ∧
    Emulator.initial.loadEnvelope binary = (.ok (), e') ∧
    e'.machine = (Emulator.initial.loadProgram p).machine ∧
    ∀ n, e'.reset.trace n = (Emulator.initial.loadProgram p).reset.trace n := by
  obtain ⟨p, hp, hlines, horigin⟩ := Assembly.exists_assemble_wrappedSource
  have hcode : p.code = [0x8E, 0x00, 0x07, 0x39] := by
    rw [Assembly.code_of_assemble hp, hlines]
    rfl
  have hsize : p.code.length ≤ 0xFFFF := by
    rw [hcode]
    decide
  obtain ⟨binary, hpack, htransport⟩ := program_transport p hsize
  have hlength : binary.length = 14 := by
    rw [Disk.Envelope.pack, if_neg (Nat.not_lt.2 hsize), hcode] at hpack
    cases hpack
    rfl
  have hname : Disk.dirName (ofString "wrapped.bin") = .ok (ofString "WRAPPED BIN") := by
    decide +kernel
  obtain ⟨placed, d', hadd⟩ := Disk.exists_add_new
    (f := ⟨ofString "wrapped.bin", .machineLanguage, .automatic, binary⟩) hname rfl
    (by rw [hlength]; decide)
  obtain ⟨copy, hcopy, hread, hload⟩ := htransport Disk.new d' Disk.zero _ _ _ placed hadd
  obtain ⟨e', he', hmachine, -, -, htrace⟩ := hload Emulator.initial
  exact ⟨p, binary, placed, d', copy, e', hp, horigin ▸ hpack, hadd, hcopy, hread, he', hmachine,
    htrace⟩

end Forge6809
