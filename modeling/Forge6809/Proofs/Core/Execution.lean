import Forge6809.Core.Machine
import Mathlib.Tactic

/-! # Execution of an instruction

An indexed operand is what its post-byte asks for, applied to the register that it selects. The
decoding of a post-byte is the only part of an instruction that can fail once the opcode is known,
and it comes before everything that the instruction changes; so a failed instruction has moved the
program counter and nothing else. -/

namespace Forge6809.Core

section Run

variable {α β : Type}

theorem run_bind (c : Exec α) (f : α → Exec β) (m : Machine) :
    (c >>= f).run m = match c.run m with
      | (.ok a, m') => (f a).run m'
      | (.error e, m') => (.error e, m') := by
  rw [ExceptT.run_bind]
  change (StateT.bind c.run _ : StateM Machine _) m = _
  rcases h : c.run m with ⟨e | a, m'⟩ <;> simp only [StateT.bind, h] <;> rfl

theorem run_pure (a : α) (m : Machine) : (pure a : Exec α).run m = (.ok a, m) := rfl

theorem run_get (m : Machine) : (get : Exec Machine).run m = (.ok m, m) := rfl

theorem run_modifyGet (f : Machine → α × Machine) (m : Machine) :
    (modifyGet f : Exec α).run m = (.ok (f m).1, (f m).2) := rfl

theorem run_throw (e : Fault) (m : Machine) : (throw e : Exec α).run m = (.error e, m) := rfl

end Run

/-- What a post-byte asks for, besides its register. -/
inductive Indexing where
  /-- A displacement that is part of the post-byte, or none. -/
  | offset (value : UInt16)
  /-- The register counts up after its use. -/
  | increment (step : UInt16)
  /-- The register counts down before its use. -/
  | decrement (step : UInt16)
  | accumulator (acc : Accumulator)
  | accumulators
  | byteOffset
  | wordOffset
deriving DecidableEq, Repr

namespace Indexing

def ofPostbyte? (post : UInt8) : Option Indexing :=
  if post &&& 0x80 = 0 then some (.offset (shortOffset post))
  else if post &&& 0x10 ≠ 0 then none
  else
    match post &&& 0x0F with
    | 0x0 => some (.increment 1)
    | 0x1 => some (.increment 2)
    | 0x2 => some (.decrement 1)
    | 0x3 => some (.decrement 2)
    | 0x4 => some (.offset 0)
    | 0x5 => some (.accumulator .b)
    | 0x6 => some (.accumulator .a)
    | 0x8 => some .byteOffset
    | 0x9 => some .wordOffset
    | 0xB => some .accumulators
    | _ => none

/-- The address of an operand and the machine after it. The program counter of the machine stands
behind the post-byte. -/
def apply (i : Indexing) (reg : WordRegister) (m : Machine) : UInt16 × Machine :=
  let base := m.word reg
  match i with
  | offset value => (base + value, m)
  | increment step => (base, m.setWord reg (base + step))
  | decrement step => (base - step, m.setWord reg (base - step))
  | accumulator acc => (base + signExtend (m.acc acc), m)
  | accumulators => (base + m.d, m)
  | byteOffset => (base + signExtend m.fetch8.1, m.fetch8.2)
  | wordOffset => (base + m.fetch16.1, m.fetch16.2)

end Indexing

theorem run_indexed (m : Machine) : indexed.run m =
    match Indexing.ofPostbyte? (m.read8 m.pc) with
    | none => (.error .postbyte, { m with pc := m.pc + 1 })
    | some i =>
      let r := i.apply (postbyteRegister (m.read8 m.pc)) { m with pc := m.pc + 1 }
      (.ok r.1, r.2) := by
  simp only [indexed, run_bind, run_modifyGet, run_get, Machine.fetch8, Indexing.ofPostbyte?]
  generalize m.read8 m.pc = post
  by_cases hshort : post &&& 0x80 = 0
  · simp only [hshort, if_true]
    rfl
  by_cases hindirect : post &&& 0x10 = 0
  · simp only [hshort, hindirect, if_false, bne_self_eq_false, Bool.false_eq_true, ne_eq,
      not_true_eq_false]
    generalize post &&& 0x0F = form
    split
    case h_5 => simp only [run_pure, Indexing.apply, UInt16.add_zero]
    case h_11 => simp only [run_throw]
    all_goals rfl
  · simp only [hshort, hindirect, if_false, bne_iff_ne, ne_eq, not_false_eq_true, if_true]
    rfl

section Faults

variable {α β : Type}

def Total (c : Exec α) : Prop :=
  ∀ m, ∃ a m', c.run m = (.ok a, m')

/-- A computation that gives a result, or meets a post-byte at the program counter that it cannot
use; then it has stepped over this byte and done nothing else. -/
def Careful (c : Exec α) : Prop :=
  ∀ m, (∃ a m', c.run m = (.ok a, m')) ∨ c.run m = (.error .postbyte, { m with pc := m.pc + 1 })

theorem total_pure (a : α) : Total (pure a : Exec α) :=
  fun m => ⟨a, m, rfl⟩

theorem total_get : Total (get : Exec Machine) :=
  fun m => ⟨m, m, rfl⟩

theorem total_modify (f : Machine → Machine) : Total (modify f : Exec PUnit) :=
  fun m => ⟨⟨⟩, f m, rfl⟩

theorem total_modifyGet (f : Machine → α × Machine) : Total (modifyGet f : Exec α) :=
  fun m => ⟨(f m).1, (f m).2, rfl⟩

theorem Total.bind {c : Exec α} {f : α → Exec β} (hc : Total c) (hf : ∀ a, Total (f a)) :
    Total (c >>= f) := by
  intro m
  obtain ⟨a, m₁, h₁⟩ := hc m
  obtain ⟨b, m₂, h₂⟩ := hf a m₁
  refine ⟨b, m₂, ?_⟩
  rw [run_bind, h₁]
  exact h₂

theorem Total.careful {c : Exec α} (hc : Total c) : Careful c :=
  fun m => .inl (hc m)

/-- After the computation that may fail, nothing else may. -/
theorem Careful.bind {c : Exec α} {f : α → Exec β} (hc : Careful c) (hf : ∀ a, Total (f a)) :
    Careful (c >>= f) := by
  intro m
  rcases hc m with ⟨a, m₁, h₁⟩ | h
  · obtain ⟨b, m₂, h₂⟩ := hf a m₁
    refine .inl ⟨b, m₂, ?_⟩
    rw [run_bind, h₁]
    exact h₂
  · right
    rw [run_bind, h]

/-- Before the computation that may fail, the state may only be looked at. -/
theorem careful_get_bind {f : Machine → Exec β} (hf : ∀ m, Careful (f m)) :
    Careful (get >>= f) := by
  intro m
  rw [run_bind, run_get]
  exact hf m m

theorem careful_indexed : Careful indexed := by
  intro m
  rw [run_indexed]
  split
  · exact .inr rfl
  · exact .inl ⟨_, _, rfl⟩

theorem careful_operandAddress (mode : Mode) (size : UInt16) :
    Careful (operandAddress mode size) := by
  cases mode with
  | immediate => exact (total_modifyGet _).careful
  | indexed => exact careful_indexed

theorem careful_operand8 (mode : Mode) : Careful (operand8 mode) :=
  (careful_operandAddress mode 1).bind fun _ => total_get.bind fun _ => total_pure _

theorem careful_operand16 (mode : Mode) : Careful (operand16 mode) :=
  (careful_operandAddress mode 2).bind fun _ => total_get.bind fun _ => total_pure _

theorem careful_execute (op : Operation) : Careful op.execute := by
  cases op with
  | nop => exact (total_pure _).careful
  | orFlags | andFlags | returnFromCall =>
    exact ((total_modifyGet _).bind fun _ => total_modify _).careful
  | signExtendB | addBToX | multiply | unary => exact (total_modify _).careful
  | loadAddress | jump | call => exact careful_indexed.bind fun _ => total_modify _
  | binary f reg mode => exact (careful_operand8 mode).bind fun _ => total_modify _
  | load16 _ mode | addD mode | subD mode =>
    exact (careful_operand16 mode).bind fun _ => total_modify _
  | store8 | store16 =>
    exact careful_get_bind fun _ => careful_indexed.bind fun _ => total_modify _
  | compare16 reg mode =>
    exact careful_get_bind fun _ => (careful_operand16 mode).bind fun _ => total_modify _

end Faults

namespace Machine

/-- The machine when the opcode at its program counter has been fetched. -/
def fetched (m : Machine) : Machine :=
  { m with pc := m.pc + UInt16.ofNat m.opcode.length }

section Tick

variable {m m' : Machine} {op : Operation}

theorem tick_of_ok (hop : Operation.ofOpcode? m.opcode = some op)
    (hrun : op.execute.run m.fetched = (.ok (), m')) :
    m.tick = (.ok (), { m' with ticks := m'.ticks + 1 }) := by
  unfold fetched at hrun
  simp only [tick, hop, hrun]

theorem tick_of_error {e : Fault} (hop : Operation.ofOpcode? m.opcode = some op)
    (hrun : op.execute.run m.fetched = (.error e, m')) :
    m.tick = (.error e, { m' with pc := m.pc }) := by
  unfold fetched at hrun
  simp only [tick, hop, hrun]

/-- A tick that fails leaves the machine as it was. -/
theorem tick_unchanged {e : Fault} (h : m.tick.1 = .error e) : m.tick.2 = m := by
  cases hop : Operation.ofOpcode? m.opcode with
  | none => simp only [tick, hop]
  | some op =>
    rcases careful_execute op m.fetched with ⟨a, m', hrun⟩ | hrun
    · rw [tick_of_ok hop hrun] at h
      cases h
    · rw [tick_of_error hop hrun]
      rfl

end Tick

def indirect : Machine :=
  { a := 0x12, x := 0x3456, s := 0x789A, pc := 0xFFFE, cc := 0x5A, ticks := 7
    memory := Memory.clear.load 0xFFFE [0x10, 0xA3, 0x9F] }

theorem indirect_unchanged : indirect.tick.1 = .error .postbyte ∧ indirect.tick.2 = indirect := by
  have hread : indirect.read8 0xFFFE = 0x10 ∧ indirect.read8 0xFFFF = 0xA3 ∧
      indirect.read8 0 = 0x9F := by
    simp [indirect, read8, Memory.load, Memory.read8_write8]
  have hopcode : indirect.opcode = [0x10, 0xA3] := by
    simp [opcode, show indirect.pc = 0xFFFE from rfl, hread]
  have hfetched : indirect.fetched = { indirect with pc := 0 } := by
    rw [fetched, hopcode]
    rfl
  have hindexed : indexed.run indirect.fetched = (.error .postbyte, { indirect with pc := 1 }) := by
    have hpost : read8 { indirect with pc := 0 } 0 = 0x9F := hread.2.2
    rw [hfetched, run_indexed, hpost]
    rfl
  have hop : Operation.ofOpcode? indirect.opcode = some (.compare16 .d .indexed) := by
    rw [hopcode]
    rfl
  have hrun {m m' : Machine} (h : indexed.run m = (.error .postbyte, m')) :
      (Operation.compare16 .d .indexed).execute.run m = (.error .postbyte, m') := by
    simp only [Operation.execute, operand16, operandAddress, run_bind, run_get, h]
  have hfault : indirect.tick.1 = .error .postbyte := by rw [tick_of_error hop (hrun hindexed)]
  exact ⟨hfault, tick_unchanged hfault⟩

end Machine
end Forge6809.Core
