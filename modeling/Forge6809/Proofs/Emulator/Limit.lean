import Forge6809.Emulator
import Forge6809.Proofs.Core.Frame

/-! # Runs and their limits

A run executes instructions until the program counter has the return address, an instruction fails
or the limit is used up. A limit may be split: a run that was exhausted goes on as if it had not
been interrupted. After a reset the count of instructions accounts for the whole run, and an error
tells of the state that the run leaves behind. -/

namespace Forge6809.Emulator

open Forge6809.Core

/-- A tick finds that the routine has returned, or the instruction fails and leaves everything as it
is, or the instruction is executed and counted. -/
theorem tick_cases (e : Emulator) :
    (e.machine.pc = returnAddress ∧ e.tick = (.ok true, e)) ∨
    (e.machine.pc ≠ returnAddress ∧ ∃ f, e.machine.tick = (.error f, e.machine) ∧
      e.tick = (.error ⟨e.lineNo, e.machine.pc, .fault f⟩, e)) ∨
    (e.machine.pc ≠ returnAddress ∧ ∃ m, e.machine.tick = (.ok (), m) ∧
      m.ticks = e.machine.ticks + 1 ∧
      e.tick = (.ok (m.pc = returnAddress), { e with machine := m })) := by
  obtain ⟨machine, program, entry⟩ := e
  by_cases hpc : machine.pc = returnAddress
  · exact .inl ⟨hpc, if_pos hpc⟩
  rcases machine.tick_cases with ⟨f, hfault⟩ | ⟨op, m, -, -, hok⟩
  · refine .inr (.inl ⟨hpc, f, hfault, ?_⟩)
    simp only [tick, if_neg hpc, hfault]
    rfl
  · refine .inr (.inr ⟨hpc, _, hok, rfl, ?_⟩)
    simp only [tick, if_neg hpc, hok]

/-- Goes on with a run that was exhausted; a run that has ended otherwise stays as it is. -/
def resume (limit : Nat) :
    Except RuntimeError Unit × Emulator → Except RuntimeError Unit × Emulator
  | (.error ⟨_, _, .stepsExhausted⟩, e) => e.run limit
  | ended => ended

/-- A limit may be split at any point. -/
theorem run_add (e : Emulator) (m n : Nat) : e.run (m + n) = resume n (e.run m) := by
  induction m generalizing e with
  | zero =>
    rw [Nat.zero_add]
    rfl
  | succ m ih =>
    rw [Nat.succ_add, run, run]
    rcases e.tick_cases with ⟨-, h⟩ | ⟨-, f, -, h⟩ | ⟨-, m', -, -, h⟩
    · rw [h]
      rfl
    · rw [h]
      rfl
    · rw [h]
      by_cases hreturn : m'.pc = returnAddress
      · simp only [hreturn, decide_true]
        rfl
      · simp only [hreturn, decide_false]
        exact ih _

/-- One emulator becomes another by executing so many instructions, none of them at the return
address. -/
inductive Executes : Nat → Emulator → Emulator → Prop
  | refl (e : Emulator) : Executes 0 e e
  | step {n : Nat} {e e' : Emulator} {m : Machine} : e.machine.pc ≠ returnAddress →
      e.machine.tick = (.ok (), m) → Executes n { e with machine := m } e' → Executes (n + 1) e e'

/-- The ways in which a run ends: what is returned and the emulator that is left. -/
inductive Ends (e : Emulator) (limit : Nat) : Except RuntimeError Unit × Emulator → Prop
  | returned {n : Nat} {e' : Emulator} : n ≤ limit → Executes n e e' →
      e'.machine.pc = returnAddress → Ends e limit (.ok (), e')
  | fault {n : Nat} {e' : Emulator} {f : Fault} : n < limit → Executes n e e' →
      e'.machine.pc ≠ returnAddress → e'.machine.tick = (.error f, e'.machine) →
      Ends e limit (.error ⟨e'.lineNo, e'.machine.pc, .fault f⟩, e')
  /-- With a limit of zero the program counter is not looked at. -/
  | exhausted {e' : Emulator} : Executes limit e e' →
      (limit ≠ 0 → e'.machine.pc ≠ returnAddress) →
      Ends e limit (.error ⟨e'.lineNo, e'.machine.pc, .stepsExhausted⟩, e')

section Executes

variable {e e' e'' : Emulator} {m n limit : Nat}

theorem Executes.ticks_eq (h : Executes n e e') :
    e'.machine.ticks = e.machine.ticks + Int64.ofNat n := by
  induction h with
  | refl => exact (Int64.add_zero _).symm
  | @step n e e' m hpc htick hrest ih =>
    rcases e.machine.tick_cases with ⟨f, hfault⟩ | ⟨op, m', -, -, hok⟩
    · rw [hfault] at htick
      cases htick
    · rw [hok] at htick
      cases htick
      rw [ih, Int64.ofNat_add, Int64.add_assoc, Int64.add_comm (Int64.ofNat n)]
      rfl

/-- Execution is deterministic: what is left after so many instructions is on the way to everything
that comes later. -/
theorem Executes.split (h : Executes n e e') (h' : Executes (n + m) e e'') :
    Executes m e' e'' := by
  induction h generalizing m with
  | refl => rwa [Nat.zero_add] at h'
  | @step n e e' m₁ hpc htick hrest ih =>
    rw [Nat.succ_add] at h'
    cases h' with
    | step hpc' htick' hrest' =>
      rw [htick] at htick'
      cases htick'
      exact ih hrest'

/-- After the return nothing more is executed. -/
theorem Executes.eq_of_return (h : Executes n e e') (hpc : e'.machine.pc = returnAddress)
    (hle : n ≤ m) (h' : Executes m e e'') : e'' = e' := by
  obtain ⟨k, rfl⟩ := Nat.exists_eq_add_of_le hle
  cases h.split h' with
  | refl => rfl
  | step hne => exact absurd hpc hne

/-- What is executed later was not a fault before. -/
theorem Executes.exists_tick_of_lt (h : Executes n e e') (hlt : n < m) (h' : Executes m e e'') :
    ∃ machine, e'.machine.tick = (.ok (), machine) := by
  obtain ⟨k, rfl⟩ := Nat.exists_eq_add_of_lt hlt
  rw [Nat.add_assoc] at h'
  cases h.split h' with
  | step _ htick => exact ⟨_, htick⟩

/-- Every run ends in one of the three ways. -/
theorem ends_run (e : Emulator) (limit : Nat) : e.Ends limit (e.run limit) := by
  induction limit generalizing e with
  | zero => exact .exhausted (.refl e) fun h => absurd rfl h
  | succ limit ih =>
    rw [run]
    rcases e.tick_cases with ⟨hpc, h⟩ | ⟨hpc, f, hfault, h⟩ | ⟨hpc, m, hok, -, h⟩
    · rw [h]
      exact .returned (Nat.zero_le _) (.refl e) hpc
    · rw [h]
      exact .fault (Nat.succ_pos _) (.refl e) hpc hfault
    rw [h]
    by_cases hreturn : m.pc = returnAddress
    · simp only [hreturn, decide_true]
      exact .returned (Nat.succ_le_succ (Nat.zero_le _)) (.step hpc hok (.refl _)) hreturn
    · simp only [hreturn, decide_false]
      have hrest := ih { e with machine := m }
      generalize Emulator.run limit { e with machine := m } = ended at hrest ⊢
      cases hrest with
      | returned hle hexec hpc' => exact .returned (Nat.succ_le_succ hle) (.step hpc hok hexec) hpc'
      | fault hlt hexec hpc' hfault =>
        exact .fault (Nat.succ_lt_succ hlt) (.step hpc hok hexec) hpc' hfault
      | exhausted hexec hpc' =>
        refine .exhausted (.step hpc hok hexec) fun _ => ?_
        cases hexec with
        | refl => exact hreturn
        | step => exact hpc' (Nat.succ_ne_zero _)

/-- A run that may execute something returns exactly if the return address is reached within its
limit. -/
theorem Ends.returned_iff {ended : Except RuntimeError Unit × Emulator} (h : e.Ends limit ended)
    (hlimit : 0 < limit) : ended.1 = .ok () ↔
      ∃ n ≤ limit, ∃ e', Executes n e e' ∧ e'.machine.pc = returnAddress := by
  constructor
  · intro hok
    cases h with
    | returned hle hexec hpc => exact ⟨_, hle, _, hexec, hpc⟩
    | fault | exhausted => cases hok
  · rintro ⟨n, hle, e', hexec, hpc⟩
    cases h with
    | returned => rfl
    | @fault k _ _ hlt hexec' hne hfault =>
      -- The fault stands before the return or after it, and neither can be.
      rcases Nat.lt_or_ge k n with hbefore | hbehind
      · obtain ⟨machine, hok⟩ := hexec'.exists_tick_of_lt hbefore hexec
        rw [hfault] at hok
        cases hok
      · rw [hexec.eq_of_return hpc hbehind hexec'] at hne
        exact absurd hpc hne
    | exhausted hexec' hne =>
      rw [hexec.eq_of_return hpc hle hexec'] at hne
      exact absurd hpc (hne hlimit.ne')

end Executes

/-- What the result of a run and the emulator that it leaves tell of the run, if the count of
instructions was zero before it. -/
structure Accounted (e : Emulator) (limit executed : Nat)
    (ended : Except RuntimeError Unit × Emulator) : Prop where
  executes : Executes executed e ended.2
  executed_le : executed ≤ limit
  ticks : ended.2.machine.ticks = Int64.ofNat executed
  /-- No limit that is itself a count lets the count of instructions wrap around. -/
  toInt_ticks : limit < 2 ^ 63 → ended.2.machine.ticks.toInt = executed
  returned : ended.1 = .ok () ↔ ended.2.machine.pc = returnAddress
  /-- A return is missed by no run whose limit reaches to it, be it with the last instruction. -/
  returned_within : ended.1 = .ok () ↔
    ∃ n ≤ limit, ∃ e', Executes n e e' ∧ e'.machine.pc = returnAddress
  exhausted (err : RuntimeError) : ended.1 = .error err → err.cause = .stepsExhausted →
    executed = limit ∧ ended.2.machine.pc ≠ returnAddress
  fault (err : RuntimeError) (f : Fault) : ended.1 = .error err → err.cause = .fault f →
    executed < limit ∧ ended.2.machine.tick = (.error f, ended.2.machine)
  /-- An error has the address and the source line of the state that is left. -/
  reported (err : RuntimeError) : ended.1 = .error err →
    err.pc = ended.2.machine.pc ∧ err.lineNo = ended.2.lineNo

theorem Ends.exists_accounted {e : Emulator} {limit : Nat}
    {ended : Except RuntimeError Unit × Emulator} (h : e.Ends limit ended)
    (hticks : e.machine.ticks = 0) (hlimit : 0 < limit) :
    ∃ executed, e.Accounted limit executed ended := by
  have hwithin := h.returned_iff hlimit
  have hcount {n : Nat} {e' : Emulator} (hexec : Executes n e e') :
      e'.machine.ticks = Int64.ofNat n := by
    rw [hexec.ticks_eq, hticks, Int64.zero_add]
  have hexact {n : Nat} {e' : Emulator} (hexec : Executes n e e') (hle : n ≤ limit)
      (hfits : limit < 2 ^ 63) : e'.machine.ticks.toInt = n := by
    rw [hcount hexec, Int64.toInt_ofNat_of_lt (hle.trans_lt hfits)]
  cases h with
  | @returned n _ hle hexec hpc => exact ⟨n, {
      executes := hexec
      executed_le := hle
      ticks := hcount hexec
      toInt_ticks := hexact hexec hle
      returned := iff_of_true rfl hpc
      returned_within := hwithin
      exhausted := by rintro err ⟨⟩
      fault := by rintro err f ⟨⟩
      reported := by rintro err ⟨⟩ }⟩
  | @fault n _ _ hlt hexec hpc hfault => exact ⟨n, {
      executes := hexec
      executed_le := hlt.le
      ticks := hcount hexec
      toInt_ticks := hexact hexec hlt.le
      returned := iff_of_false (fun hok => by cases hok) hpc
      returned_within := hwithin
      exhausted := by
        rintro err ⟨⟩ hcause
        cases hcause
      fault := by
        rintro err f ⟨⟩ ⟨⟩
        exact ⟨hlt, hfault⟩
      reported := by
        rintro err ⟨⟩
        exact ⟨rfl, rfl⟩ }⟩
  | exhausted hexec hpc => exact ⟨limit, {
      executes := hexec
      executed_le := le_rfl
      ticks := hcount hexec
      toInt_ticks := hexact hexec le_rfl
      returned := iff_of_false (fun hok => by cases hok) (hpc hlimit.ne')
      returned_within := hwithin
      exhausted := by
        rintro err ⟨⟩ -
        exact ⟨rfl, hpc hlimit.ne'⟩
      fault := by
        rintro err f ⟨⟩ hcause
        cases hcause
      reported := by
        rintro err ⟨⟩
        exact ⟨rfl, rfl⟩ }⟩

/-- From every state a limit may be split, the second part being used only if the first one was
exhausted. After a reset every run that may execute something is accounted for exactly. -/
theorem run_accounted :
    (∀ (e : Emulator) (m n : Nat), e.run (m + n) = resume n (e.run m)) ∧
    ∀ (e : Emulator) (limit : Nat), 0 < limit →
      ∃ executed, e.reset.Accounted limit executed (e.reset.run limit) := by
  refine ⟨run_add, ?_⟩
  intro e limit hlimit
  exact (e.reset.ends_run limit).exists_accounted rfl hlimit

def idle : Emulator :=
  ⟨{ memory := Memory.clear.load 0x1000 [0x12, 0x39] }, none, 0x1000⟩

def idleNext : Emulator :=
  { idle.reset with machine := { idle.reset.machine with pc := 0x1001, ticks := 1 } }

theorem tick_idle : idle.reset.machine.tick = (.ok (), idleNext.machine) := by
  have hread : idle.reset.machine.read8 0x1000 = 0x12 := by
    simp [idle, reset, Machine.reset, Machine.push16, Machine.read8, Memory.write16, Memory.load,
      Memory.read8_write8, stackTop]
  have hopcode : idle.reset.machine.opcode = [0x12] := by
    simp [Machine.opcode, show idle.reset.machine.pc = 0x1000 from rfl, hread]
  have hop : Operation.ofOpcode? idle.reset.machine.opcode = some .nop := by
    rw [hopcode]
    rfl
  rw [Machine.tick_of_ok hop rfl, Machine.fetched, hopcode]
  rfl

theorem exists_tick_idleNext : ∃ m, idleNext.machine.tick = (.ok (), m) ∧ m.pc = returnAddress := by
  have hread : idleNext.machine.read8 0x1001 = 0x39 := by
    simp [idleNext, idle, reset, Machine.reset, Machine.push16, Machine.read8, Memory.write16,
      Memory.load, Memory.read8_write8, stackTop]
  have hopcode : idleNext.machine.opcode = [0x39] := by
    simp [Machine.opcode, show idleNext.machine.pc = 0x1001 from rfl, hread]
  have hop : Operation.ofOpcode? idleNext.machine.opcode = some .returnFromCall := by
    rw [hopcode]
    rfl
  have hstack : idleNext.machine.read16 0x7FFE = returnAddress := by
    simp [idleNext, idle, reset, Machine.reset, Machine.push16, Machine.read16, Memory.read16,
      Memory.write16, Memory.load, Memory.read8_write8, stackTop, wordOf_highByte_lowByte]
  exact ⟨_, Machine.tick_of_ok hop rfl, hstack⟩

/-- A limit of one instruction is exhausted; what is left then returns with the second one, which is
the last that a limit of two allows. -/
theorem idle_accounted : idle.reset.run 1 = (.error ⟨0, 0x1001, .stepsExhausted⟩, idleNext) ∧
    idle.reset.run 2 = idleNext.run 1 ∧ (idle.reset.run 2).1 = .ok () ∧
    ∃ executed, idle.reset.Accounted 2 executed (idle.reset.run 2) := by
  obtain ⟨executed, haccounted⟩ := run_accounted.2 idle 2 (by decide)
  obtain ⟨m, hm, hpc⟩ := exists_tick_idleNext
  have hfirst : idle.reset.run 1 = (.error ⟨0, 0x1001, .stepsExhausted⟩, idleNext) := by
    rcases idle.reset.tick_cases with ⟨hreturn, -⟩ | ⟨-, f, hfault, -⟩ | ⟨-, m', hm', -, h⟩
    · exact absurd hreturn (by decide)
    · rw [tick_idle] at hfault
      cases hfault
    · rw [tick_idle] at hm'
      cases hm'
      rw [run, h]
      rfl
  have hok : (idle.reset.run 2).1 = .ok () := by
    refine haccounted.returned_within.2 ⟨2, le_rfl, { idleNext with machine := m }, ?_, hpc⟩
    exact .step (by decide) tick_idle (.step (by decide) hm (.refl _))
  refine ⟨hfirst, ?_, hok, executed, haccounted⟩
  rw [run_accounted.1 idle.reset 1 1, hfirst]
  rfl

end Forge6809.Emulator
