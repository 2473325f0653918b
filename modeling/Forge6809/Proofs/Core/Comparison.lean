import Forge6809.Proofs.Core.Effect

/-! # Comparisons

A comparison takes a register before its operand is decoded, and then the operand from memory. It
sets the flags of their difference and forgets the difference itself, so zero, carry and the sign
tell how the register stood to the operand. The register is kept, unless it is also the one that
the operand counts up or down. -/

namespace Forge6809.Core

open Condition

theorem postbyteRegister_ne_d (post : UInt8) : postbyteRegister post ≠ .d := by
  unfold postbyteRegister
  split <;> decide

theorem Machine.word_setWord {reg : WordRegister} (hreg : reg ≠ .d) (m : Machine)
    (r : WordRegister) (value : UInt16) :
    (m.setWord reg value).word r = if r = reg then value else m.word r := by
  cases reg with
  | d => exact absurd rfl hreg
  | x | y | u | s => cases r <;> rfl

theorem Indexing.apply_word {reg : WordRegister} (hreg : reg ≠ .d) (i : Indexing) (m : Machine)
    (r : WordRegister) :
    (i.apply reg m).2.word r = if r = reg then i.after (m.word r) else m.word r := by
  cases i with
  | offset | accumulator | accumulators => exact (ite_self _).symm
  | byteOffset | wordOffset =>
    refine Eq.trans ?_ (ite_self _).symm
    cases r <;> rfl
  | increment step | decrement step =>
    refine (m.word_setWord hreg r _).trans (ite_congr rfl ?_ fun _ => rfl)
    rintro rfl
    rfl

theorem Indexing.apply_cc (i : Indexing) (reg : WordRegister) (m : Machine) :
    (i.apply reg m).2.cc = m.cc := by
  cases i with
  | offset | accumulator | accumulators | byteOffset | wordOffset => rfl
  | increment | decrement => cases reg <;> rfl

theorem Indexing.apply_acc {reg : WordRegister} (hreg : reg ≠ .d) (i : Indexing) (m : Machine)
    (acc : Accumulator) : (i.apply reg m).2.acc acc = m.acc acc := by
  cases i with
  | offset | accumulator | accumulators => rfl
  | byteOffset | wordOffset => cases acc <;> rfl
  | increment | decrement =>
    cases reg with
    | d => exact absurd rfl hreg
    | x | y | u | s => cases acc <;> rfl

namespace Machine

def operandAt? (m : Machine) : Mode → Option UInt16
  | .immediate => some m.fetched.pc
  | .indexed => m.effectiveAddress?

/-- The value of a register when the operand of an instruction has been decoded. -/
def wordAfter (m : Machine) (mode : Mode) (r : WordRegister) : UInt16 :=
  match mode, m.indexing? with
  | .indexed, some i => if r = m.indexRegister then i.after (m.word r) else m.word r
  | _, _ => m.word r

/-- A machine that has decoded the operand of its instruction and done nothing else. -/
structure Decoded (m : Machine) (mode : Mode) (m' : Machine) : Prop where
  memory : m'.memory = m.memory
  cc : m'.cc = m.cc
  acc : ∀ acc, m'.acc acc = m.acc acc
  word : ∀ r, m'.word r = m.wordAfter mode r

section Run

variable {α : Type} {m m' : Machine} {mode : Mode} {a : α}

theorem exists_operandAddress {f : UInt16 → Exec α} {size : UInt16}
    (h : (operandAddress mode size >>= f).run m.fetched = (.ok a, m')) :
    ∃ addr m₁, m.operandAt? mode = some addr ∧ m.Decoded mode m₁ ∧
      (f addr).run m₁ = (.ok a, m') := by
  cases mode with
  | immediate =>
    refine ⟨m.fetched.pc, { m.fetched with pc := m.fetched.pc + size }, rfl, ?_, h⟩
    exact ⟨rfl, rfl, fun acc => by cases acc <;> rfl, fun r => by cases r <;> rfl⟩
  | indexed =>
    obtain ⟨i, hi, h⟩ := exists_indexing h
    have hreg : m.indexRegister ≠ .d := postbyteRegister_ne_d _
    have hword (r : WordRegister) : m.wordAfter .indexed r =
        if r = m.indexRegister then i.after (m.word r) else m.word r := by
      simp only [wordAfter, hi]
    refine ⟨_, _, by rw [operandAt?, effectiveAddress?, hi, Option.map_some], ⟨?_, ?_, ?_, ?_⟩, h⟩
    · exact i.apply_memory _ _
    · exact i.apply_cc _ _
    · intro acc
      rw [i.apply_acc hreg]
      cases acc <;> rfl
    · intro r
      rw [i.apply_word hreg, hword]
      cases r <;> rfl

theorem exists_operand8 {f : UInt8 → Exec α}
    (h : (operand8 mode >>= f).run m.fetched = (.ok a, m')) :
    ∃ addr m₁, m.operandAt? mode = some addr ∧ m.Decoded mode m₁ ∧
      (f (m.read8 addr)).run m₁ = (.ok a, m') := by
  rw [operand8, bind_assoc] at h
  obtain ⟨addr, m₁, haddr, hm₁, h⟩ := exists_operandAddress h
  refine ⟨addr, m₁, haddr, hm₁, ?_⟩
  rw [← h, read8, ← hm₁.memory]
  rfl

theorem exists_operand16 {f : UInt16 → Exec α}
    (h : (operand16 mode >>= f).run m.fetched = (.ok a, m')) :
    ∃ addr m₁, m.operandAt? mode = some addr ∧ m.Decoded mode m₁ ∧
      (f (m.read16 addr)).run m₁ = (.ok a, m') := by
  rw [operand16, bind_assoc] at h
  obtain ⟨addr, m₁, haddr, hm₁, h⟩ := exists_operandAddress h
  refine ⟨addr, m₁, haddr, hm₁, ?_⟩
  rw [← h, read16, ← hm₁.memory]
  rfl

end Run
end Machine

/-- The accumulator that an opcode compares, and where its operand stands. -/
def byteComparison? : Bytes → Option (Accumulator × Mode)
  | [0x81] => some (.a, .immediate)
  | [0xA1] => some (.a, .indexed)
  | [0xC1] => some (.b, .immediate)
  | [0xE1] => some (.b, .indexed)
  | _ => none

/-- The word register that an opcode compares, and where its operand stands. -/
def wordComparison? : Bytes → Option (WordRegister × Mode)
  | [0x10, 0x83] => some (.d, .immediate)
  | [0x10, 0xA3] => some (.d, .indexed)
  | [0x8C] => some (.x, .immediate)
  | [0xAC] => some (.x, .indexed)
  | [0x10, 0x8C] => some (.y, .immediate)
  | [0x10, 0xAC] => some (.y, .indexed)
  | [0x11, 0x83] => some (.u, .immediate)
  | [0x11, 0xA3] => some (.u, .indexed)
  | [0x11, 0x8C] => some (.s, .immediate)
  | [0x11, 0xAC] => some (.s, .indexed)
  | _ => none

theorem ofOpcode?_of_byteComparison? {opcode : Bytes} {acc : Accumulator} {mode : Mode}
    (h : byteComparison? opcode = some (acc, mode)) :
    Operation.ofOpcode? opcode = some (.binary .compare acc mode) := by
  unfold byteComparison? at h
  split at h <;> cases h <;> rfl

theorem ofOpcode?_of_wordComparison? {opcode : Bytes} {reg : WordRegister} {mode : Mode}
    (h : wordComparison? opcode = some (reg, mode)) :
    Operation.ofOpcode? opcode = some (.compare16 reg mode) := by
  unfold wordComparison? at h
  split at h <;> cases h <;> rfl

theorem compares_sub8 (cc a m : UInt8) : Compares a.toBitVec m.toBitVec (sub8 cc a m 0).2 := by
  have h := reports_sub8 cc a m (c := 0) (by decide)
  rw [UInt8.toNat_zero, Nat.cast_zero, sub_zero, sub_zero] at h
  exact h.compares

theorem compares_sub16 (cc : UInt8) (a m : UInt16) :
    Compares a.toBitVec m.toBitVec (sub16 cc a m).2 :=
  (reports_sub16 cc a m).compares

namespace Machine

variable {m : Machine}

theorem tick_byteComparison {acc : Accumulator} {mode : Mode} (h : m.tick.1 = .ok ())
    (hop : byteComparison? m.opcode = some (acc, mode)) :
    ∃ addr, m.operandAt? mode = some addr ∧
      Compares (m.acc acc).toBitVec (m.read8 addr).toBitVec m.tick.2.cc ∧
      m.tick.2.acc acc = m.acc acc := by
  rcases m.tick_cases with ⟨e, he⟩ | ⟨op, m', hop', hrun, htick⟩
  · rw [he] at h
    cases h
  · rw [ofOpcode?_of_byteComparison? hop, Option.some.injEq] at hop'
    subst hop'
    obtain ⟨addr, m₁, haddr, hm₁, hrun⟩ := exists_operand8 hrun
    cases hrun
    refine ⟨addr, haddr, ?_, ?_⟩
    · rw [htick, ← hm₁.acc]
      exact compares_sub8 m₁.cc _ _
    · rw [htick, ← hm₁.acc]
      cases acc <;> rfl

theorem tick_wordComparison {reg : WordRegister} {mode : Mode} (h : m.tick.1 = .ok ())
    (hop : wordComparison? m.opcode = some (reg, mode)) :
    ∃ addr, m.operandAt? mode = some addr ∧
      Compares (m.word reg).toBitVec (m.read16 addr).toBitVec m.tick.2.cc ∧
      m.tick.2.word reg = m.wordAfter mode reg := by
  rcases m.tick_cases with ⟨e, he⟩ | ⟨op, m', hop', hrun, htick⟩
  · rw [he] at h
    cases h
  · rw [ofOpcode?_of_wordComparison? hop, Option.some.injEq] at hop'
    subst hop'
    rw [Operation.execute, run_bind, run_get] at hrun
    obtain ⟨addr, m₁, haddr, hm₁, hrun⟩ := exists_operand16 hrun
    cases hrun
    refine ⟨addr, haddr, ?_, ?_⟩
    · rw [htick]
      exact compares_sub16 m₁.cc _ _
    · rw [htick, ← hm₁.word]
      cases reg <;> rfl

def resultFlags : UInt8 :=
  negative ||| zero ||| overflow ||| carry

/-- The flags of a sum or difference say what is true of it in the integers, and all others are
kept. So a comparison that goes through tells how its register stood to its operand before the
instruction; and the register changes only if the operand counts it up or down. -/
theorem arithmetic_exact :
    (∀ cc a m c : UInt8, c ≤ 1 →
      Reports (a.toNat + m.toNat + c.toNat) (a.toInt8.toInt + m.toInt8.toInt + c.toNat)
        (add8 cc a m c).1.toBitVec (add8 cc a m c).2 ∧
      (isSet (add8 cc a m c).2 halfCarry = true ↔
        16 ≤ a.toNat % 16 + m.toNat % 16 + c.toNat) ∧
      (add8 cc a m c).2 &&& ~~~(halfCarry ||| resultFlags) =
        cc &&& ~~~(halfCarry ||| resultFlags)) ∧
    (∀ cc a m c : UInt8, c ≤ 1 →
      Reports (a.toNat - m.toNat - c.toNat) (a.toInt8.toInt - m.toInt8.toInt - c.toNat)
        (sub8 cc a m c).1.toBitVec (sub8 cc a m c).2 ∧
      (sub8 cc a m c).2 &&& ~~~resultFlags = cc &&& ~~~resultFlags) ∧
    (∀ (cc : UInt8) (a m : UInt16),
      Reports (a.toNat + m.toNat) (a.toInt16.toInt + m.toInt16.toInt)
        (add16 cc a m).1.toBitVec (add16 cc a m).2 ∧
      (add16 cc a m).2 &&& ~~~resultFlags = cc &&& ~~~resultFlags) ∧
    (∀ (cc : UInt8) (a m : UInt16),
      Reports (a.toNat - m.toNat) (a.toInt16.toInt - m.toInt16.toInt)
        (sub16 cc a m).1.toBitVec (sub16 cc a m).2 ∧
      (sub16 cc a m).2 &&& ~~~resultFlags = cc &&& ~~~resultFlags) ∧
    (∀ (m : Machine) (acc : Accumulator) (mode : Mode), m.tick.1 = .ok () →
      byteComparison? m.opcode = some (acc, mode) →
      ∃ addr, m.operandAt? mode = some addr ∧
        Compares (m.acc acc).toBitVec (m.read8 addr).toBitVec m.tick.2.cc ∧
        m.tick.2.acc acc = m.acc acc) ∧
    ∀ (m : Machine) (reg : WordRegister) (mode : Mode), m.tick.1 = .ok () →
      wordComparison? m.opcode = some (reg, mode) →
      ∃ addr, m.operandAt? mode = some addr ∧
        Compares (m.word reg).toBitVec (m.read16 addr).toBitVec m.tick.2.cc ∧
        m.tick.2.word reg = m.wordAfter mode reg := by
  have hspares : Spares (~~~resultFlags) := by decide
  refine ⟨fun cc a m c hc => ⟨reports_add8 cc a m hc, isSet_halfCarry_add8 cc a m hc, ?_⟩,
    fun cc a m c hc => ⟨reports_sub8 cc a m hc, sub8_and hspares cc a m c⟩,
    fun cc a m => ⟨reports_add16 cc a m, add16_and hspares cc a m⟩,
    fun cc a m => ⟨reports_sub16 cc a m, sub16_and hspares cc a m⟩,
    fun _ _ _ => tick_byteComparison, fun _ _ _ => tick_wordComparison⟩
  exact add8_and (by decide) cc (by decide) a m c

/-- A machine that compares `X`, which is negative in two's complement, with the largest positive
word, to which it points and past which it counts. -/
def comparing : Machine :=
  { x := 0x8000, pc := 0x0100
    memory := (Memory.clear.load 0x0100 [0xAC, 0x81]).load 0x8000 [0x7F, 0xFF] }

/-- The register is above its operand unsigned and below it in two's complement. -/
theorem comparing_exact : comparing.tick.1 = .ok () ∧
    comparing.tick.2.x = 0x8002 ∧
    isSet comparing.tick.2.cc zero = false ∧
    isSet comparing.tick.2.cc carry = false ∧
    isSet comparing.tick.2.cc negative ≠ isSet comparing.tick.2.cc overflow ∧
    isSet (add8 0x50 0x78 0x87 1).2 halfCarry = true := by
  obtain ⟨hadd8, -, -, -, -, hword⟩ := arithmetic_exact
  have hread : comparing.read8 0x0100 = 0xAC ∧ comparing.read8 0x0101 = 0x81 ∧
      comparing.read16 0x8000 = 0x7FFF := by
    simp [comparing, read8, read16, Memory.read16, Memory.load, Memory.read8_write8]
    decide
  have hopcode : comparing.opcode = [0xAC] := by
    simp [opcode, show comparing.pc = 0x0100 from rfl, hread]
  have hpc : comparing.fetched.pc = 0x0101 := by
    rw [fetched, hopcode]
    rfl
  have hindexing : comparing.indexing? = some (.increment 2) := by
    rw [indexing?, hpc, hread.2.1]
    rfl
  have hregister : comparing.indexRegister = .x := by
    rw [indexRegister, hpc, hread.2.1]
    rfl
  have haddr : comparing.operandAt? .indexed = some 0x8000 := by
    rw [operandAt?, Machine.effectiveAddress?, hindexing, hregister]
    rfl
  have hafter : comparing.wordAfter .indexed .x = 0x8002 := by
    simp only [wordAfter, hindexing, hregister]
    rfl
  have htick : comparing.tick.1 = .ok () := by
    have hop : Operation.ofOpcode? comparing.opcode = some (.compare16 .x .indexed) := by
      rw [hopcode]
      rfl
    have hrun : ∃ m', (Operation.compare16 .x .indexed).execute.run comparing.fetched =
        (.ok (), m') := by
      rw [Operation.execute, run_bind, run_get, operand16]
      simp only [bind_assoc]
      exact ⟨_, run_indexed_bind hindexing⟩
    obtain ⟨m', hrun⟩ := hrun
    rw [tick_of_ok hop hrun]
  obtain ⟨addr, haddr', hcompares, hx⟩ := hword comparing .x .indexed htick (by rw [hopcode]; rfl)
  rw [haddr, Option.some.injEq] at haddr'
  subst haddr'
  rw [hread.2.2] at hcompares
  refine ⟨htick, hx.trans hafter, ?_, ?_, ?_, ?_⟩
  · exact Bool.eq_false_iff.2 (mt hcompares.eq_iff.1 (by decide))
  · exact Bool.eq_false_iff.2 (mt hcompares.lt_iff.1 (by decide))
  · exact hcompares.signed_lt_iff.2 (by decide)
  · exact (hadd8 0x50 0x78 0x87 1 (by decide)).2.1.2 (by decide)

end Machine
end Forge6809.Core
