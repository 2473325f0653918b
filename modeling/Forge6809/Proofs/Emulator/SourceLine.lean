import Forge6809.Assembly.Assembler
import Forge6809.Emulator
import Mathlib.Tactic

/-! # Source lines of a running program

An emulator reports the source line of an address from the listing that it keeps, and it keeps the
listing of the program that was loaded last. A binary has no listing, but loading one does not put
away the listing that is there. So the lines that are reported are those of what was loaded last,
unless that is a binary that was loaded over a program: then they are the lines of that program,
although its code need not be in the memory any more. -/

namespace Forge6809.Emulator

open Forge6809.Core Forge6809.Text

inductive Command where
  | loadProgram (p : Assembly.Program)
  | loadEnvelope (binary : Bytes)
  | reset
  | tick

def perform (e : Emulator) : Command → Emulator
  | .loadProgram p => e.loadProgram p
  | .loadEnvelope binary => (e.loadEnvelope binary).2
  | .reset => e.reset
  | .tick => e.tick.2

def performAll (e : Emulator) (cs : List Command) : Emulator :=
  cs.foldl perform e

inductive Load where
  | program (p : Assembly.Program)
  | binary

def Load.listing? : Load → Option Assembly.Program
  | program p => some p
  | binary => none

/-- The load that a command makes; none if it makes none or fails. -/
def Command.load? : Command → Option Load
  | loadProgram p => some (.program p)
  | loadEnvelope binary =>
    match (Disk.Envelope.parse binary).2 with
    | .ok _ => some .binary
    | .error _ => none
  | reset | tick => none

def loads (cs : List Command) : List Load :=
  cs.filterMap Command.load?

def listing? (cs : List Command) : Option Assembly.Program :=
  (loads cs).getLast?.bind Load.listing?

/-- The listing of the program that was loaded last, even if a binary was loaded after it. -/
def keptListing? (cs : List Command) : Option Assembly.Program :=
  ((loads cs).filterMap Load.listing?).getLast?

/-- The last load was that of a binary, and a program was loaded before. -/
def Stale (cs : List Command) : Prop :=
  (loads cs).getLast? = some .binary ∧ (keptListing? cs).isSome

theorem loads_cons (c : Command) (cs : List Command) :
    loads (c :: cs) = c.load?.toList ++ loads cs := by
  rw [loads, List.filterMap_cons]
  cases c.load? <;> rfl

theorem loads_concat (cs : List Command) (c : Command) :
    loads (cs ++ [c]) = loads cs ++ c.load?.toList := by
  rw [loads, List.filterMap_append, ← loads, ← loads, loads_cons]
  exact congrArg _ (List.append_nil _)

/-- Without a binary that was loaded over a program, the listing that is kept is the right one. -/
theorem listing?_of_not_stale {cs : List Command} (h : ¬Stale cs) :
    listing? cs = keptListing? cs := by
  simp only [Stale, keptListing?] at h
  simp only [listing?, keptListing?]
  generalize loads cs = ls at h ⊢
  cases ls using List.reverseRecOn with
  | nil => rfl
  | append_singleton ls l =>
    rw [List.getLast?_concat] at h ⊢
    cases l with
    | program p => rw [List.filterMap_append, List.getLast?_append]; rfl
    | binary =>
      have hnone : ((ls ++ [Load.binary]).filterMap Load.listing?).getLast? = none := by
        rw [← Option.not_isSome_iff_eq_none]
        exact fun hsome => h ⟨rfl, hsome⟩
      exact hnone.symm

theorem program_tick (e : Emulator) : e.tick.2.program = e.program := by
  obtain ⟨m, program, entry⟩ := e
  simp only [tick]
  split
  · rfl
  · rcases m.tick with ⟨_ | _, _⟩ <;> rfl

/-- A command changes the listing only if it loads a program. -/
theorem program_perform (e : Emulator) (c : Command) :
    (e.perform c).program = (c.load?.bind Load.listing?).or e.program := by
  cases c with
  | loadProgram p => rfl
  | reset => rfl
  | tick => exact e.program_tick
  | loadEnvelope binary =>
    simp only [perform, loadEnvelope, Command.load?]
    rcases Disk.Envelope.parse binary with ⟨segments, _ | exec⟩ <;> rfl

theorem program_performAll (e : Emulator) (cs : List Command) :
    (e.performAll cs).program = (keptListing? cs).or e.program := by
  induction cs using List.reverseRecOn with
  | nil => rfl
  | append_singleton cs c ih =>
    have hkept : keptListing? (cs ++ [c]) =
        (c.load?.bind Load.listing?).or (keptListing? cs) := by
      rw [keptListing?, loads_concat, List.filterMap_append, List.getLast?_append, ← keptListing?]
      cases c.load? with
      | none => rfl
      | some l => cases l <;> rfl
    rw [performAll, List.foldl_append, List.foldl_cons, List.foldl_nil, program_perform, hkept,
      Option.or_assoc, ← ih]
    rfl

/-- Every source line that an emulator reports, wherever its machine has got to, is that of the
address in a listing. -/
structure ReportsFrom (e : Emulator) (listing : Option Assembly.Program) : Prop where
  lineNo (m : Machine) : { e with machine := m }.lineNo = lineOf listing m.pc
  tick (m : Machine) (err : RuntimeError) : { e with machine := m }.tick.1 = .error err →
    err.pc = m.pc ∧ err.lineNo = lineOf listing m.pc
  run (m : Machine) (limit : Nat) (err : RuntimeError) :
    ({ e with machine := m }.run limit).1 = .error err → err.lineNo = lineOf listing err.pc

theorem lineNo_of_tick {e : Emulator} {err : RuntimeError} (h : e.tick.1 = .error err) :
    err.pc = e.machine.pc ∧ err.lineNo = lineOf e.program e.machine.pc := by
  obtain ⟨m, program, entry⟩ := e
  simp only [Emulator.tick] at h
  split at h
  · cases h
  · rcases hm : m.tick with ⟨f | _, m'⟩ <;> rw [hm] at h <;> cases h
    exact ⟨rfl, rfl⟩

theorem lineNo_of_run {e : Emulator} {limit : Nat} {err : RuntimeError}
    (h : (e.run limit).1 = .error err) : err.lineNo = lineOf e.program err.pc := by
  induction limit generalizing e with
  | zero =>
    cases h
    rfl
  | succ limit ih =>
    rw [Emulator.run] at h
    split at h
    · next htick =>
      cases h
      have herr := lineNo_of_tick (congrArg Prod.fst htick)
      rw [herr.2, herr.1]
    · cases h
    · next e' htick =>
      have hprogram := e.program_tick
      rw [htick] at hprogram
      rw [← hprogram]
      exact ih h

theorem reportsFrom_program (e : Emulator) : e.ReportsFrom e.program where
  lineNo _ := rfl
  tick _ _ h := lineNo_of_tick h
  run m _ _ h := lineNo_of_run (e := { e with machine := m }) h

/-- What is reported from one listing is reported from another one exactly if both give every
address the same line. -/
theorem ReportsFrom.iff_lineOf {e : Emulator} {listing listing' : Option Assembly.Program}
    (h : e.ReportsFrom listing) :
    e.ReportsFrom listing' ↔ ∀ pc, lineOf listing pc = lineOf listing' pc := by
  constructor
  · intro h' pc
    exact (h.lineNo { pc }).symm.trans (h'.lineNo { pc })
  · intro hsame
    refine ⟨?_, ?_, ?_⟩
    · intro m
      rw [h.lineNo, hsame]
    · intro m err herr
      rw [← hsame]
      exact h.tick m err herr
    · intro m limit err herr
      rw [← hsame]
      exact h.run m limit err herr

/-- After every history of commands all source lines are reported from the listing of the program
that was loaded last. Unless a binary was loaded over that program this is the listing of what was
loaded last. The lines are those of what was loaded last exactly if the two listings give every
address the same line. -/
theorem performAll_reports (cs : List Command) :
    (initial.performAll cs).ReportsFrom (keptListing? cs) ∧
    (¬Stale cs → (initial.performAll cs).ReportsFrom (listing? cs)) ∧
    ((initial.performAll cs).ReportsFrom (listing? cs) ↔
      ∀ pc, lineOf (keptListing? cs) pc = lineOf (listing? cs) pc) := by
  have hkept : (initial.performAll cs).ReportsFrom (keptListing? cs) := by
    have hprogram := initial.program_performAll cs
    rw [show initial.program = none from rfl, Option.or_none] at hprogram
    rw [← hprogram]
    exact reportsFrom_program _
  refine ⟨hkept, ?_, hkept.iff_lineOf⟩
  intro hstale
  rw [listing?_of_not_stale hstale]
  exact hkept

def faultySource : Bytes :=
  ofString "\tORG\t$1000\nBEGIN\tNOP\n\tSWI\n\tEND\tBEGIN\n"

def faultyBinary : Bytes :=
  [0x00, 0x00, 0x01, 0x10, 0x00, 0x3F, 0xFF, 0x00, 0x00, 0x10, 0x00]

theorem exists_assemble_faultySource : ∃ p,
    (Assembly.Assembler.mk ∅).assemble faultySource = .ok p ∧ lineOf (some p) 0x1000 = 2 := by
  have hok : ((Assembly.Assembler.mk ∅).assemble faultySource).toOption.map (fun p =>
      lineOf (some p) 0x1000) = some 2 := by
    decide +kernel
  cases h : (Assembly.Assembler.mk ∅).assemble faultySource with
  | error e => rw [h] at hok; cases hok
  | ok p =>
    rw [h] at hok
    simpa [Except.toOption] using hok

theorem load?_faultyBinary : (Command.loadEnvelope faultyBinary).load? = some .binary := by
  have hparse : Disk.Envelope.parse faultyBinary = ([⟨0x1000, [0x3F]⟩], .ok 0x1000) := by
    decide +kernel
  rw [Command.load?, hparse]

/-- A binary that is cut off is not loaded, so the program before it is what was loaded last. -/
theorem faultySource_reports : ∃ p, (Assembly.Assembler.mk ∅).assemble faultySource = .ok p ∧
    ¬Stale [.loadEnvelope faultyBinary, .loadProgram p, .loadEnvelope (faultyBinary.take 3)] ∧
    (initial.performAll [.loadEnvelope faultyBinary, .loadProgram p,
      .loadEnvelope (faultyBinary.take 3)]).ReportsFrom (some p) ∧ lineOf (some p) 0x1000 = 2 := by
  obtain ⟨p, hp, hline⟩ := exists_assemble_faultySource
  have hcut : (Command.loadEnvelope (faultyBinary.take 3)).load? = none := by
    have hparse : Disk.Envelope.parse (faultyBinary.take 3) = ([], .error .invalid) := by
      decide +kernel
    rw [Command.load?, hparse]
  have hloads : loads [.loadEnvelope faultyBinary, .loadProgram p,
      .loadEnvelope (faultyBinary.take 3)] = [.binary, .program p] := by
    rw [loads_cons, loads_cons, loads_cons, load?_faultyBinary, hcut]
    rfl
  have hstale : ¬Stale [.loadEnvelope faultyBinary, .loadProgram p,
      .loadEnvelope (faultyBinary.take 3)] := by
    simp [Stale, hloads]
  have hreports := (performAll_reports [.loadEnvelope faultyBinary, .loadProgram p,
    .loadEnvelope (faultyBinary.take 3)]).2.1 hstale
  rw [listing?, hloads] at hreports
  exact ⟨p, hp, hstale, hreports, hline⟩

/-- The fault of a binary is reported with a line of the program that was there before. -/
theorem faultyBinary_misreported :
    ¬∀ cs : List Command, (initial.performAll cs).ReportsFrom (listing? cs) := by
  intro hfaithful
  obtain ⟨p, -, hline⟩ := exists_assemble_faultySource
  have hreports := hfaithful [.loadProgram p, .loadEnvelope faultyBinary]
  have hloads : loads [.loadProgram p, .loadEnvelope faultyBinary] = [.program p, .binary] := by
    rw [loads_cons, loads_cons, load?_faultyBinary]
    rfl
  have hprogram := initial.program_performAll [.loadProgram p, .loadEnvelope faultyBinary]
  rw [keptListing?, hloads] at hprogram
  have hzero := hreports.lineNo { pc := 0x1000 }
  rw [listing?, hloads, lineNo, hprogram] at hzero
  cases hline.symm.trans hzero

end Forge6809.Emulator
