import Forge6809.Proofs.Core.Execution

/-! # What an instruction leaves alone

A computation on the machine is put together from looking at the state and changing it, so it keeps
whatever each of its changes keeps. No instruction touches the count of the instructions that were
executed; a tick counts, once, and only if it does not fail. -/

namespace Forge6809.Core

/-- A computation that changes nothing of what `f` tells of the machine, whether it fails or not. -/
def Keeps {α β : Type} (f : Machine → β) (c : Exec α) : Prop :=
  ∀ m, f (c.run m).2 = f m

section Keeps

variable {α β γ : Type} {f : Machine → γ}

theorem keeps_pure (a : α) : Keeps f (pure a : Exec α) :=
  fun _ => rfl

theorem keeps_get : Keeps f (get : Exec Machine) :=
  fun _ => rfl

theorem keeps_modify {g : Machine → Machine} (h : ∀ m, f (g m) = f m) :
    Keeps f (modify g : Exec PUnit) :=
  h

theorem keeps_modifyGet {g : Machine → α × Machine} (h : ∀ m, f (g m).2 = f m) :
    Keeps f (modifyGet g : Exec α) :=
  h

theorem Keeps.bind {c : Exec α} {k : α → Exec β} (hc : Keeps f c) (hk : ∀ a, Keeps f (k a)) :
    Keeps f (c >>= k) := by
  intro m
  have hm := hc m
  rw [run_bind]
  rcases hrun : c.run m with ⟨e | a, m₁⟩ <;> rw [hrun] at hm
  · exact hm
  · exact (hk a m₁).trans hm

section Operand

variable (hpc : ∀ m pc, f { m with pc } = f m) (hword : ∀ m reg w, f (m.setWord reg w) = f m)

include hpc hword

/-- Decoding an operand moves the program counter and at most changes a register. -/
theorem keeps_indexed : Keeps f indexed := by
  intro m
  rw [run_indexed]
  split
  · exact hpc m _
  · next i _ =>
    rw [← hpc m (m.pc + 1)]
    cases i with
    | offset | accumulator | accumulators => rfl
    | increment | decrement => exact hword _ _ _
    | byteOffset | wordOffset => exact hpc _ _

theorem keeps_operandAddress (mode : Mode) (size : UInt16) :
    Keeps f (operandAddress mode size) := by
  cases mode with
  | immediate => exact keeps_modifyGet fun m => hpc m _
  | indexed => exact keeps_indexed hpc hword

theorem keeps_operand8 (mode : Mode) : Keeps f (operand8 mode) :=
  (keeps_operandAddress hpc hword mode 1).bind fun _ => keeps_get.bind fun _ => keeps_pure _

theorem keeps_operand16 (mode : Mode) : Keeps f (operand16 mode) :=
  (keeps_operandAddress hpc hword mode 2).bind fun _ => keeps_get.bind fun _ => keeps_pure _

end Operand
end Keeps

namespace Machine

@[simp] theorem setD_ticks (m : Machine) (value : UInt16) : (m.setD value).ticks = m.ticks := rfl

@[simp] theorem setAcc_ticks (m : Machine) (reg : Accumulator) (value : UInt8) :
    (m.setAcc reg value).ticks = m.ticks := by
  cases reg <;> rfl

@[simp] theorem setWord_ticks (m : Machine) (reg : WordRegister) (value : UInt16) :
    (m.setWord reg value).ticks = m.ticks := by
  cases reg <;> rfl

end Machine

theorem keeps_ticks_execute (op : Operation) : Keeps Machine.ticks op.execute := by
  have hindexed : Keeps Machine.ticks indexed :=
    keeps_indexed (fun _ _ => rfl) Machine.setWord_ticks
  have hoperand8 (mode : Mode) : Keeps Machine.ticks (operand8 mode) :=
    keeps_operand8 (fun _ _ => rfl) Machine.setWord_ticks mode
  have hoperand16 (mode : Mode) : Keeps Machine.ticks (operand16 mode) :=
    keeps_operand16 (fun _ _ => rfl) Machine.setWord_ticks mode
  cases op with
  | nop => exact keeps_pure _
  | orFlags | andFlags | returnFromCall =>
    exact (keeps_modifyGet fun _ => rfl).bind fun _ => keeps_modify fun _ => rfl
  | signExtendB | addBToX | multiply => exact keeps_modify fun _ => rfl
  | unary => exact keeps_modify fun m => m.setAcc_ticks _ _
  | loadAddress =>
    refine hindexed.bind fun _ => keeps_modify fun m => ?_
    dsimp only
    split <;> exact m.setWord_ticks _ _
  | jump | call => exact hindexed.bind fun _ => keeps_modify fun _ => rfl
  | binary _ _ mode => exact (hoperand8 mode).bind fun _ => keeps_modify fun m => m.setAcc_ticks _ _
  | load16 _ mode => exact (hoperand16 mode).bind fun _ => keeps_modify fun m => m.setWord_ticks _ _
  | addD mode | subD mode => exact (hoperand16 mode).bind fun _ => keeps_modify fun _ => rfl
  | store8 | store16 =>
    exact keeps_get.bind fun _ => hindexed.bind fun _ => keeps_modify fun _ => rfl
  | compare16 _ mode =>
    exact keeps_get.bind fun _ => (hoperand16 mode).bind fun _ => keeps_modify fun _ => rfl

/-- The count grows by one as a number too, unless it is at its end and wraps around. -/
theorem toInt_add_one {n : Int64} (h : n ≠ Int64.maxValue) : (n + 1).toInt = n.toInt + 1 := by
  have hne : n.toInt ≠ 2 ^ 63 - 1 := fun hn => h (Int64.toInt_inj.1 hn)
  have hle := n.le_toInt
  have hlt := n.toInt_lt
  rw [Int64.toInt_add, Int64.toInt_one, Int.bmod_eq_of_le] <;> omega

namespace Machine

/-- A tick fails and leaves the machine as it is, or it executes an operation and is counted. -/
theorem tick_cases (m : Machine) : (∃ e, m.tick = (.error e, m)) ∨
    ∃ op m', Operation.ofOpcode? m.opcode = some op ∧ op.execute.run m.fetched = (.ok (), m') ∧
      m.tick = (.ok (), { m' with ticks := m.ticks + 1 }) := by
  cases hop : Operation.ofOpcode? m.opcode with
  | none => exact .inl ⟨.invalidOpcode m.pc m.opcode, by simp only [tick, hop]⟩
  | some op =>
    rcases careful_execute op m.fetched with ⟨⟨⟩, m', hrun⟩ | hrun
    · have hticks : m'.ticks = m.ticks := by
        have hkept := keeps_ticks_execute op m.fetched
        rwa [hrun] at hkept
      exact .inr ⟨op, m', rfl, hrun, hticks ▸ tick_of_ok hop hrun⟩
    · refine .inl ⟨.postbyte, ?_⟩
      rw [tick_of_error hop hrun]
      rfl

end Machine
end Forge6809.Core
