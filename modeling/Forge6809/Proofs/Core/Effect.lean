import Forge6809.Proofs.Core.Arithmetic
import Forge6809.Proofs.Core.Frame

/-! # What an instruction may touch

Eight opcodes store something: the two of an accumulator, the five of a word register, and the call,
which pushes the address of the instruction behind it. They store it at an address that is fixed
before anything changes, and no other byte of memory changes. The flags for interrupts belong to
the two operations that set flags by a mask, and the half carry to these and the sums of bytes. -/

namespace Forge6809.Core

open Condition

namespace Memory

/-- A memory that has the bytes of some cells, and is another one everywhere else. -/
def Writes (old new : Memory) (cells : List (UInt16 × UInt8)) : Prop :=
  (∀ c ∈ cells, new.read8 c.1 = c.2) ∧
    ∀ addr ∉ cells.map (·.1), new.read8 addr = old.read8 addr

def wordCells (addr w : UInt16) : List (UInt16 × UInt8) :=
  [(addr, highByte w), (addr + 1, lowByte w)]

theorem writes_nil (m : Memory) : m.Writes m [] :=
  ⟨by simp, fun _ _ => rfl⟩

theorem writes_write8 (m : Memory) (addr : UInt16) (b : UInt8) :
    m.Writes (m.write8 addr b) [(addr, b)] := by
  constructor
  · simp [read8_write8]
  · intro addr' h
    rw [List.map_singleton, List.mem_singleton] at h
    rw [read8_write8, if_neg h]

theorem writes_write16 (m : Memory) (addr w : UInt16) :
    m.Writes (m.write16 addr w) (wordCells addr w) := by
  have hne : addr ≠ addr + 1 := by
    rw [Ne, ← UInt16.toNat_inj, UInt16.toNat_add]
    change ¬addr.toNat = (addr.toNat + 1) % 65536
    omega
  constructor
  · simp [wordCells, write16, read8_write8, hne]
  · intro addr' h
    simp only [wordCells, List.map_cons, List.map_nil, List.mem_cons, List.not_mem_nil, or_false,
      not_or] at h
    rw [write16, read8_write8, if_neg h.2, read8_write8, if_neg h.1]

end Memory

def Indexing.size : Indexing → UInt16
  | offset _ | increment _ | decrement _ | accumulator _ | accumulators => 0
  | byteOffset => 1
  | wordOffset => 2

def Indexing.after (i : Indexing) (base : UInt16) : UInt16 :=
  match i with
  | increment step => base + step
  | decrement step => base - step
  | _ => base

section Apply

variable (i : Indexing) (reg : WordRegister) (m : Machine)

theorem Machine.setWord_memory (m : Machine) (reg : WordRegister) (value : UInt16) :
    (m.setWord reg value).memory = m.memory := by
  cases reg <;> rfl

theorem Indexing.apply_memory : (i.apply reg m).2.memory = m.memory := by
  cases i with
  | offset | accumulator | accumulators | byteOffset | wordOffset => rfl
  | increment | decrement => exact m.setWord_memory reg _

theorem Indexing.apply_pc : (i.apply reg m).2.pc = m.pc + i.size := by
  cases i with
  | offset | accumulator | accumulators => exact (UInt16.add_zero _).symm
  | increment | decrement =>
    rw [size, UInt16.add_zero]
    cases reg <;> rfl
  | byteOffset | wordOffset => rfl

end Apply

namespace Machine

/-- The machine when the post-byte behind the opcode has been fetched. -/
def posted (m : Machine) : Machine :=
  { m.fetched with pc := m.fetched.pc + 1 }

def indexing? (m : Machine) : Option Indexing :=
  Indexing.ofPostbyte? (m.read8 m.fetched.pc)

def indexRegister (m : Machine) : WordRegister :=
  postbyteRegister (m.read8 m.fetched.pc)

/-- The address of an indexed operand, from the registers before the instruction. -/
def effectiveAddress? (m : Machine) : Option UInt16 :=
  m.indexing?.map fun i => (i.apply m.indexRegister m.posted).1

def returnAddress? (m : Machine) : Option UInt16 :=
  m.indexing?.map fun i => m.posted.pc + i.size

section Run

variable {α : Type} {m : Machine} {f : UInt16 → Exec α}

theorem run_indexed_bind {i : Indexing} (h : m.indexing? = some i) :
    (indexed >>= f).run m.fetched =
      (f (i.apply m.indexRegister m.posted).1).run (i.apply m.indexRegister m.posted).2 := by
  have hform : Indexing.ofPostbyte? (m.fetched.read8 m.fetched.pc) = some i := h
  rw [run_bind, run_indexed, hform]
  rfl

/-- An instruction that goes through has decoded its indexed operand. -/
theorem exists_indexing {m' : Machine} {a : α}
    (h : (indexed >>= f).run m.fetched = (.ok a, m')) :
    ∃ i, m.indexing? = some i ∧
      (f (i.apply m.indexRegister m.posted).1).run (i.apply m.indexRegister m.posted).2 =
        (.ok a, m') := by
  cases hi : m.indexing? with
  | none =>
    have hform : Indexing.ofPostbyte? (m.fetched.read8 m.fetched.pc) = none := hi
    rw [run_bind, run_indexed, hform] at h
    cases h
  | some i => exact ⟨i, rfl, run_indexed_bind hi ▸ h⟩

end Run

end Machine

/-- What an instruction stores. -/
inductive Stored where
  | byte (acc : Accumulator)
  | word (reg : WordRegister)
  | returnAddress
deriving DecidableEq, Repr

/-- The opcodes that store something: of an accumulator, of a word register, and the call. -/
def Stored.ofOpcode? : Bytes → Option Stored
  | [0xA7] => some (.byte .a)
  | [0xE7] => some (.byte .b)
  | [0xAF] => some (.word .x)
  | [0xED] => some (.word .d)
  | [0xEF] => some (.word .u)
  | [0x10, 0xAF] => some (.word .y)
  | [0x10, 0xEF] => some (.word .s)
  | [0xAD] => some .returnAddress
  | _ => none

def Operation.stored? : Operation → Option Stored
  | store8 acc => some (.byte acc)
  | store16 reg => some (.word reg)
  | call => some .returnAddress
  | _ => none

/-- The opcodes of the two operations that set flags by a mask. -/
def maskOpcodes : List Bytes :=
  [[0x1A], [0x1C]]

def byteSumOpcodes : List Bytes :=
  [[0x89], [0xA9], [0xC9], [0xE9], [0x8B], [0xAB], [0xCB], [0xEB]]

namespace Operation

def masksFlags : Operation → Bool
  | orFlags | andFlags => true
  | _ => false

def sumsBytes : Operation → Bool
  | binary .add _ _ | binary .addCarry _ _ => true
  | _ => false

end Operation

/-- What holds of the opcodes of all three pages holds of every opcode that has an operation. -/
theorem forall_opcode {p : Bytes → Operation → Prop}
    (h₁ : ∀ b, ∀ op ∈ Operation.ofFirstPage? b, p [b] op)
    (h₂ : ∀ b, ∀ op ∈ Operation.ofSecondPage? b, p [0x10, b] op)
    (h₃ : ∀ b, ∀ op ∈ Operation.ofThirdPage? b, p [0x11, b] op) {opcode : Bytes} {op : Operation}
    (h : Operation.ofOpcode? opcode = some op) : p opcode op := by
  unfold Operation.ofOpcode? at h
  split at h
  · next b => exact h₁ b op h
  · next b => exact h₂ b op h
  · next b => exact h₃ b op h
  · cases h

/-- An opcode tells what its operation stores, and which flags it may set besides those for its
result. -/
theorem effect_of_ofOpcode? {opcode : Bytes} {op : Operation}
    (h : Operation.ofOpcode? opcode = some op) :
    Stored.ofOpcode? opcode = op.stored? ∧ op.masksFlags = decide (opcode ∈ maskOpcodes) ∧
      op.sumsBytes = decide (opcode ∈ byteSumOpcodes) := by
  revert h
  apply forall_opcode <;> exact forall_byte (by decide +kernel)

/-- Operations that store nothing leave the memory alone. -/
theorem keeps_memory_execute {op : Operation} (h : op.stored? = none) :
    Keeps Machine.memory op.execute := by
  have hindexed : Keeps Machine.memory indexed :=
    keeps_indexed (fun _ _ => rfl) Machine.setWord_memory
  have hoperand8 (mode : Mode) : Keeps Machine.memory (operand8 mode) :=
    keeps_operand8 (fun _ _ => rfl) Machine.setWord_memory mode
  have hoperand16 (mode : Mode) : Keeps Machine.memory (operand16 mode) :=
    keeps_operand16 (fun _ _ => rfl) Machine.setWord_memory mode
  have hacc (m : Machine) (acc : Accumulator) (value : UInt8) :
      (m.setAcc acc value).memory = m.memory := by
    cases acc <;> rfl
  cases op with
  | nop => exact keeps_pure _
  | orFlags | andFlags | returnFromCall =>
    exact (keeps_modifyGet fun _ => rfl).bind fun _ => keeps_modify fun _ => rfl
  | signExtendB | addBToX | multiply => exact keeps_modify fun _ => rfl
  | unary => exact keeps_modify fun m => hacc m _ _
  | loadAddress =>
    refine hindexed.bind fun _ => keeps_modify fun m => ?_
    dsimp only
    split <;> exact m.setWord_memory _ _
  | jump => exact hindexed.bind fun _ => keeps_modify fun _ => rfl
  | binary _ _ mode => exact (hoperand8 mode).bind fun _ => keeps_modify fun m => hacc m _ _
  | load16 _ mode =>
    exact (hoperand16 mode).bind fun _ => keeps_modify fun m => m.setWord_memory _ _
  | addD mode | subD mode => exact (hoperand16 mode).bind fun _ => keeps_modify fun _ => rfl
  | compare16 _ mode =>
    exact keeps_get.bind fun _ => (hoperand16 mode).bind fun _ => keeps_modify fun _ => rfl
  | store8 | store16 | call => cases h

namespace Machine

section Stores

variable {m m' : Machine}

theorem run_store8 {acc : Accumulator}
    (h : (Operation.store8 acc).execute.run m.fetched = (.ok (), m')) :
    ∃ ea, m.effectiveAddress? = some ea ∧ m'.memory = m.memory.write8 ea (m.acc acc) := by
  rw [Operation.execute, run_bind, run_get] at h
  obtain ⟨i, hi, h⟩ := exists_indexing h
  cases h
  refine ⟨_, by rw [effectiveAddress?, hi, Option.map_some], ?_⟩
  change (i.apply m.indexRegister m.posted).2.memory.write8 _ _ = _
  rw [Indexing.apply_memory]
  rfl

theorem run_store16 {reg : WordRegister}
    (h : (Operation.store16 reg).execute.run m.fetched = (.ok (), m')) :
    ∃ ea, m.effectiveAddress? = some ea ∧ m'.memory = m.memory.write16 ea (m.word reg) := by
  rw [Operation.execute, run_bind, run_get] at h
  obtain ⟨i, hi, h⟩ := exists_indexing h
  cases h
  refine ⟨_, by rw [effectiveAddress?, hi, Option.map_some], ?_⟩
  change (i.apply m.indexRegister m.posted).2.memory.write16 _ _ = _
  rw [Indexing.apply_memory]
  cases reg <;> rfl

/-- A call pushes the program counter when its operand has been decoded, and that is the address
behind it. -/
theorem run_call (h : Operation.call.execute.run m.fetched = (.ok (), m')) :
    ∃ pc, m.returnAddress? = some pc ∧ m'.memory = m.memory.write16 m'.s pc := by
  obtain ⟨i, hi, h⟩ := exists_indexing h
  cases h
  refine ⟨_, by rw [returnAddress?, hi, Option.map_some], ?_⟩
  change (i.apply m.indexRegister m.posted).2.memory.write16 _ _ = _
  rw [Indexing.apply_memory, Indexing.apply_pc]
  rfl

/-- The bytes that an instruction stores, with their addresses. -/
def stores? (m : Machine) : Option (List (UInt16 × UInt8)) :=
  match Stored.ofOpcode? m.opcode with
  | none => some []
  | some (.byte acc) => m.effectiveAddress?.map fun ea => [(ea, m.acc acc)]
  | some (.word reg) => m.effectiveAddress?.map fun ea => Memory.wordCells ea (m.word reg)
  | some .returnAddress => m.returnAddress?.map fun pc => Memory.wordCells m.tick.2.s pc

/-- An instruction that goes through stores these bytes and no others. -/
theorem exists_stores (h : m.tick.1 = .ok ()) :
    ∃ cells, m.stores? = some cells ∧ m.memory.Writes m.tick.2.memory cells := by
  rcases m.tick_cases with ⟨e, he⟩ | ⟨op, m', hop, hrun, htick⟩
  · rw [he] at h
    cases h
  · rw [stores?, (effect_of_ofOpcode? hop).1, htick]
    change ∃ cells, _ ∧ m.memory.Writes m'.memory cells
    by_cases hstored : op.stored? = none
    · have hkept := keeps_memory_execute hstored m.fetched
      rw [hrun] at hkept
      refine ⟨[], by rw [hstored], ?_⟩
      rw [show m'.memory = m.memory from hkept]
      exact Memory.writes_nil _
    · cases op with
      | store8 acc =>
        obtain ⟨ea, hea, hmemory⟩ := run_store8 hrun
        refine ⟨[(ea, m.acc acc)], by rw [Operation.stored?, hea]; rfl, ?_⟩
        rw [hmemory]
        exact Memory.writes_write8 _ _ _
      | store16 reg =>
        obtain ⟨ea, hea, hmemory⟩ := run_store16 hrun
        refine ⟨Memory.wordCells ea (m.word reg), by rw [Operation.stored?, hea]; rfl, ?_⟩
        rw [hmemory]
        exact Memory.writes_write16 _ _ _
      | call =>
        obtain ⟨pc, hpc, hmemory⟩ := run_call hrun
        refine ⟨Memory.wordCells m'.s pc, by rw [Operation.stored?, hpc]; rfl, ?_⟩
        rw [hmemory]
        exact Memory.writes_write16 _ _ _
      | nop | orFlags | andFlags | signExtendB | loadAddress | returnFromCall | addBToX | multiply
      | jump | unary | binary | load16 | addD | subD | compare16 => exact absurd rfl hstored

end Stores
end Machine

section Flags

variable {mask : UInt8} (h : Spares mask)

include h

theorem Unary.apply_and (op : Unary) (cc v : UInt8) :
    (op.apply cc v).2 &&& mask = cc &&& mask := by
  obtain ⟨-, -, hoverflow, hcarry⟩ := id h
  cases op <;>
    simp only [apply, sub8_and h, put_and hoverflow, put_and hcarry, sign8_and h, moved8_and h]

theorem Binary.apply_and (op : Binary) (hop : halfCarry &&& mask = 0 ∨ op ≠ .add ∧ op ≠ .addCarry)
    (cc acc v : UInt8) : (op.apply cc acc v).2 &&& mask = cc &&& mask := by
  cases op with
  | sub | compare | subCarry => exact sub8_and h _ _ _ _
  | and | test | load | xor | or => exact moved8_and h _ _
  | add | addCarry =>
    rcases hop with hhalf | hop
    · exact add8_and h _ hhalf _ _ _
    · simp at hop

/-- Flags that say nothing about a result are kept by all operations but those that set flags by a
mask; if the half carry is among them, the sums of bytes are excepted too. -/
theorem keeps_flags_execute {op : Operation} (hop : op.masksFlags = false)
    (hsum : halfCarry &&& mask = 0 ∨ op.sumsBytes = false) :
    Keeps (fun m => m.cc &&& mask) op.execute := by
  have hword (m : Machine) (reg : WordRegister) (w : UInt16) : (m.setWord reg w).cc = m.cc := by
    cases reg <;> rfl
  have hkept (m : Machine) (reg : WordRegister) (w : UInt16) :
      (m.setWord reg w).cc &&& mask = m.cc &&& mask := by
    rw [hword]
  have hindexed : Keeps (fun m => m.cc &&& mask) indexed := keeps_indexed (fun _ _ => rfl) hkept
  have hoperand8 (mode : Mode) : Keeps (fun m => m.cc &&& mask) (operand8 mode) :=
    keeps_operand8 (fun _ _ => rfl) hkept mode
  have hoperand16 (mode : Mode) : Keeps (fun m => m.cc &&& mask) (operand16 mode) :=
    keeps_operand16 (fun _ _ => rfl) hkept mode
  cases op with
  | nop => exact keeps_pure _
  | orFlags | andFlags => cases hop
  | returnFromCall => exact (keeps_modifyGet fun _ => rfl).bind fun _ => keeps_modify fun _ => rfl
  | signExtendB => exact keeps_modify fun m => sign16_and h m.cc _
  | addBToX => exact keeps_modify fun _ => rfl
  | multiply =>
    exact keeps_modify fun m => (put_and h.2.2.2 _ _).trans (put_and h.2.1 m.cc _)
  | loadAddress reg =>
    refine hindexed.bind fun ea => keeps_modify fun m => ?_
    dsimp only
    split
    · exact (put_and h.2.1 _ _).trans (hkept m _ _)
    · exact hkept m _ _
  | jump | call => exact hindexed.bind fun _ => keeps_modify fun _ => rfl
  | unary f => exact keeps_modify fun m => f.apply_and h m.cc _
  | binary f _ mode =>
    have hf : halfCarry &&& mask = 0 ∨ f ≠ .add ∧ f ≠ .addCarry := by
      refine hsum.imp_right fun hsum => ?_
      constructor <;>
      · rintro rfl
        cases hsum
    exact (hoperand8 mode).bind fun _ => keeps_modify fun m => f.apply_and h hf m.cc _ _
  | store8 => exact keeps_get.bind fun _ => hindexed.bind fun _ =>
      keeps_modify fun m => moved8_and h m.cc _
  | store16 => exact keeps_get.bind fun _ => hindexed.bind fun _ =>
      keeps_modify fun m => moved16_and h m.cc _
  | load16 _ mode =>
    exact (hoperand16 mode).bind fun _ => keeps_modify fun m => moved16_and h m.cc _
  | addD mode => exact (hoperand16 mode).bind fun _ => keeps_modify fun m => add16_and h m.cc _ _
  | subD mode => exact (hoperand16 mode).bind fun _ => keeps_modify fun m => sub16_and h m.cc _ _
  | compare16 _ mode =>
    exact keeps_get.bind fun _ => (hoperand16 mode).bind fun _ =>
      keeps_modify fun m => sub16_and h m.cc _ _

end Flags

namespace Machine

variable {m : Machine}

theorem isSet_tick {flag : UInt8} (hflag : Spares flag) (hmask : m.opcode ∉ maskOpcodes)
    (hsum : halfCarry &&& flag = 0 ∨ m.opcode ∉ byteSumOpcodes) :
    isSet m.tick.2.cc flag = isSet m.cc flag := by
  rcases m.tick_cases with ⟨e, htick⟩ | ⟨op, m', hop, hrun, htick⟩
  · rw [htick]
  · obtain ⟨-, hmasks, hsums⟩ := effect_of_ofOpcode? hop
    rw [decide_eq_false hmask] at hmasks
    have hsums : halfCarry &&& flag = 0 ∨ op.sumsBytes = false := by
      refine hsum.imp_right fun hsum => ?_
      rw [hsums, decide_eq_false hsum]
    have hkept := keeps_flags_execute hflag hmasks hsums m.fetched
    rw [hrun] at hkept
    rw [htick]
    exact congrArg (· != 0) hkept

/-- An instruction that goes through counts once, in a count that wraps around at its end. It stores
what its opcode says at the address it says, and changes no other byte of memory. The flags for
interrupts change only by a mask, and the half carry only by a mask or a sum of bytes. -/
theorem tick_touches (h : m.tick.1 = .ok ()) :
    m.tick.2.ticks = m.ticks + 1 ∧
    (m.ticks ≠ Int64.maxValue → m.tick.2.ticks.toInt = m.ticks.toInt + 1) ∧
    (∃ cells, m.stores? = some cells ∧ m.memory.Writes m.tick.2.memory cells) ∧
    (m.opcode ∉ maskOpcodes → ∀ flag ∈ [entire, fastMask, interruptMask],
      isSet m.tick.2.cc flag = isSet m.cc flag) ∧
    (m.opcode ∉ maskOpcodes ++ byteSumOpcodes →
      isSet m.tick.2.cc halfCarry = isSet m.cc halfCarry) := by
  have hcount : m.tick.2.ticks = m.ticks + 1 := by
    rcases m.tick_cases with ⟨e, he⟩ | ⟨op, m', -, -, htick⟩
    · rw [he] at h
      cases h
    · rw [htick]
  refine ⟨hcount, fun hmax => hcount ▸ toInt_add_one hmax, exists_stores h, ?_, ?_⟩
  · intro hmask flag hflag
    simp only [List.mem_cons, List.not_mem_nil, or_false] at hflag
    rcases hflag with rfl | rfl | rfl <;>
      exact isSet_tick (by decide) hmask (.inl (by decide))
  · intro hopcode
    rw [List.mem_append, not_or] at hopcode
    exact isSet_tick (by decide) hopcode.1 (.inr hopcode.2)

/-- A machine whose next instruction counts `X` down by two and then stores it around the end of
memory, over its own post-byte. -/
def selfStoring : Machine :=
  { x := 0x0001, pc := 0xFFFE, cc := 0xF0, ticks := 7
    memory := Memory.clear.load 0xFFFE [0xAF, 0x83] }

/-- The value that is stored is the one before the register is counted down. -/
theorem selfStoring_touches : selfStoring.tick.1 = .ok () ∧ selfStoring.tick.2.ticks = 8 ∧
    selfStoring.stores? = some [(0xFFFF, 0x00), (0x0000, 0x01)] ∧
    selfStoring.memory.Writes selfStoring.tick.2.memory [(0xFFFF, 0x00), (0x0000, 0x01)] ∧
    isSet selfStoring.tick.2.cc entire = true ∧ isSet selfStoring.tick.2.cc halfCarry = true := by
  have hread : selfStoring.read8 0xFFFE = 0xAF ∧ selfStoring.read8 0xFFFF = 0x83 := by
    simp [selfStoring, read8, Memory.load, Memory.read8_write8]
  have hopcode : selfStoring.opcode = [0xAF] := by
    simp [opcode, show selfStoring.pc = 0xFFFE from rfl, hread]
  have hpc : selfStoring.fetched.pc = 0xFFFF := by
    rw [fetched, hopcode]
    rfl
  have hindexing : selfStoring.indexing? = some (.decrement 2) := by
    rw [indexing?, hpc, hread.2]
    rfl
  have hregister : selfStoring.indexRegister = .x := by
    rw [indexRegister, hpc, hread.2]
    rfl
  have hstores : selfStoring.stores? = some [(0xFFFF, 0x00), (0x0000, 0x01)] := by
    rw [stores?, hopcode, effectiveAddress?, hindexing, hregister]
    rfl
  have htick : selfStoring.tick.1 = .ok () := by
    have hop : Operation.ofOpcode? selfStoring.opcode = some (.store16 .x) := by
      rw [hopcode]
      rfl
    have hrun : ∃ m', (Operation.store16 .x).execute.run selfStoring.fetched = (.ok (), m') := by
      rw [Operation.execute, run_bind, run_get]
      exact ⟨_, run_indexed_bind hindexing⟩
    obtain ⟨m', hrun⟩ := hrun
    rw [tick_of_ok hop hrun]
  obtain ⟨hticks, -, ⟨cells, hcells, hwrites⟩, hmasks, hhalf⟩ := tick_touches htick
  rw [hopcode] at hmasks hhalf
  refine ⟨htick, hticks, hstores, ?_, ?_, ?_⟩
  · rw [hstores, Option.some.injEq] at hcells
    rw [hcells]
    exact hwrites
  · exact (hmasks (by decide) entire (by decide)).trans (show isSet 0xF0 entire = true by decide)
  · exact (hhalf (by decide)).trans (show isSet 0xF0 halfCarry = true by decide)

end Machine
end Forge6809.Core
