import Forge6809.Assembly.Postbyte
import Forge6809.Proofs.Core.Execution
import Mathlib.Tactic

/-! # Post-bytes in both directions

The assembler writes an indexed operand as a post-byte and up to two bytes of offset, and the
processor reads it back. Whatever the register, the offset and the automatic mode, the processor
consumes exactly the bytes that were written and finds the address that was meant. The offset is
written as a magnitude, and the largest one of each of the two short forms only fits as a negative
number: 16 and 128 are subtracted even if they were not negated. -/

namespace Forge6809

namespace Core

open Assembly (IndexRegister AutoMode offsetForm postbyte)

theorem forall_word_le {p : UInt16 → Prop} {bound : UInt16}
    (h : ∀ n : Fin (bound.toNat + 1), p (UInt16.ofNat n)) (w : UInt16) (hw : w ≤ bound) : p w := by
  have hb := h ⟨w.toNat, Nat.lt_succ_of_le (UInt16.le_iff_toNat_le.1 hw)⟩
  rwa [UInt16.ofNat_toNat] at hb

theorem shortOffset_lowByte (negate : Bool) (offset : UInt16) (h : offset ≤ 16) :
    shortOffset (lowByte (if negate then -offset else offset)) =
      if negate ∨ offset = 16 then -offset else offset := by
  revert offset
  apply forall_word_le
  cases negate <;> decide +kernel

theorem signExtend_lowByte (negate : Bool) (offset : UInt16) (h : offset ≤ 128) :
    signExtend (lowByte (if negate then -offset else offset)) =
      if negate ∨ offset = 128 then -offset else offset := by
  revert offset
  apply forall_word_le
  cases negate <;> decide +kernel

def WordRegister.ofIndex : IndexRegister → WordRegister
  | .x => .x
  | .y => .y
  | .u => .u
  | .s => .s

/-- Whatever its other bits are, a post-byte selects the register it was narrowed to. -/
theorem postbyteRegister_narrowed (reg : IndexRegister) (form : UInt8) :
    postbyteRegister ((form ||| 0x60) &&& reg.mask) = .ofIndex reg := by
  revert form
  apply forall_byte
  cases reg <;> decide +kernel

theorem ofPostbyte?_short (reg : IndexRegister) (value : UInt8) :
    Indexing.ofPostbyte? ((value &&& 0x1F ||| 0x60) &&& reg.mask) =
      some (.offset (shortOffset value)) := by
  revert value
  apply forall_byte
  cases reg <;> decide +kernel

theorem Memory.dump_succ (m : Memory) (addr : UInt16) (count : Nat) :
    m.dump addr (count + 1) = m.read8 addr :: m.dump (addr + 1) count := by
  simp only [dump, List.range_succ_eq_map, List.map_cons, List.map_map]
  congr 1
  · simp
  · apply List.map_congr_left
    intro i _
    simp only [Function.comp_apply, UInt16.ofNat_add, Nat.succ_eq_add_one]
    rw [UInt16.add_assoc, UInt16.add_comm 1]
    rfl

/-- Memory that has some bytes from an address on. -/
def Memory.Holds (m : Memory) (addr : UInt16) (bytes : Bytes) : Prop :=
  m.dump addr bytes.length = bytes

theorem Memory.holds_cons {m : Memory} {addr : UInt16} {b : UInt8} {rest : Bytes} :
    m.Holds addr (b :: rest) ↔ m.read8 addr = b ∧ m.Holds (addr + 1) rest := by
  rw [Holds, List.length_cons, dump_succ, List.cons_eq_cons, Holds]

theorem Memory.Holds.read16_eq {m : Memory} {addr w : UInt16} (h : m.Holds addr (wordBytes w)) :
    m.read16 addr = w := by
  obtain ⟨hhigh, hrest⟩ := holds_cons.1 h
  obtain ⟨hlow, -⟩ := holds_cons.1 hrest
  rw [read16, hhigh, hlow, wordOf_highByte_lowByte]

section Operand

variable {m : Machine} {reg : IndexRegister} {post : UInt8}

theorem Machine.word_ofIndex_pc (m : Machine) (reg : IndexRegister) (pc : UInt16) :
    word { m with pc } (.ofIndex reg) = m.word (.ofIndex reg) := by
  cases reg <;> rfl

theorem Machine.setWord_ofIndex_pc (m : Machine) (reg : IndexRegister) (pc w : UInt16) :
    setWord { m with pc } (.ofIndex reg) w = { m.setWord (.ofIndex reg) w with pc } := by
  cases reg <;> rfl

/-- The processor at the bytes of an operand does what their post-byte asks for. -/
theorem run_indexed_of_holds {rest : Bytes} {i : Indexing}
    (hbytes : m.memory.Holds m.pc (post :: rest))
    (hreg : postbyteRegister post = .ofIndex reg) (hform : Indexing.ofPostbyte? post = some i) :
    indexed.run m = (.ok (i.apply (.ofIndex reg) { m with pc := m.pc + 1 }).1,
      (i.apply (.ofIndex reg) { m with pc := m.pc + 1 }).2) := by
  have hpost : m.read8 m.pc = post := (Memory.holds_cons.1 hbytes).1
  rw [run_indexed, hpost, hform, hreg]

theorem run_indexed_offset {value : UInt16} (hbytes : m.memory.Holds m.pc [post])
    (hreg : postbyteRegister post = .ofIndex reg)
    (hform : Indexing.ofPostbyte? post = some (.offset value)) :
    indexed.run m = (.ok (m.word (.ofIndex reg) + value), { m with pc := m.pc + 1 }) := by
  rw [run_indexed_of_holds hbytes hreg hform, Indexing.apply, Machine.word_ofIndex_pc]

theorem run_indexed_byteOffset {b : UInt8} (hbytes : m.memory.Holds m.pc [post, b])
    (hreg : postbyteRegister post = .ofIndex reg)
    (hform : Indexing.ofPostbyte? post = some .byteOffset) :
    indexed.run m =
      (.ok (m.word (.ofIndex reg) + signExtend b), { m with pc := m.pc + 1 + 1 }) := by
  obtain ⟨-, hrest⟩ := Memory.holds_cons.1 hbytes
  obtain ⟨hb, -⟩ := Memory.holds_cons.1 hrest
  rw [run_indexed_of_holds hbytes hreg hform, Indexing.apply, Machine.word_ofIndex_pc,
    Machine.fetch8, Machine.read8, hb]

theorem run_indexed_wordOffset {w : UInt16} (hbytes : m.memory.Holds m.pc (post :: wordBytes w))
    (hreg : postbyteRegister post = .ofIndex reg)
    (hform : Indexing.ofPostbyte? post = some .wordOffset) :
    indexed.run m = (.ok (m.word (.ofIndex reg) + w), { m with pc := m.pc + 1 + 2 }) := by
  have hw : m.memory.read16 (m.pc + 1) = w := (Memory.holds_cons.1 hbytes).2.read16_eq
  rw [run_indexed_of_holds hbytes hreg hform, Indexing.apply, Machine.word_ofIndex_pc,
    Machine.fetch16, Machine.read16, hw]

theorem run_indexed_increment {step : UInt16} (hbytes : m.memory.Holds m.pc [post])
    (hreg : postbyteRegister post = .ofIndex reg)
    (hform : Indexing.ofPostbyte? post = some (.increment step)) :
    indexed.run m = (.ok (m.word (.ofIndex reg)),
      { m.setWord (.ofIndex reg) (m.word (.ofIndex reg) + step) with pc := m.pc + 1 }) := by
  rw [run_indexed_of_holds hbytes hreg hform, Indexing.apply, Machine.word_ofIndex_pc,
    Machine.setWord_ofIndex_pc]

theorem run_indexed_decrement {step : UInt16} (hbytes : m.memory.Holds m.pc [post])
    (hreg : postbyteRegister post = .ofIndex reg)
    (hform : Indexing.ofPostbyte? post = some (.decrement step)) :
    indexed.run m = (.ok (m.word (.ofIndex reg) - step),
      { m.setWord (.ofIndex reg) (m.word (.ofIndex reg) - step) with pc := m.pc + 1 }) := by
  rw [run_indexed_of_holds hbytes hreg hform, Indexing.apply, Machine.word_ofIndex_pc,
    Machine.setWord_ofIndex_pc]

end Operand

def displacement (offset : UInt16) (negate : Bool) : UInt16 :=
  if negate ∨ offset = 16 ∨ offset = 128 then -offset else offset

section Plain

variable {m : Machine} {reg : IndexRegister} {offset : UInt16} {negate : Bool}
  (hbytes : m.memory.Holds m.pc (postbyte reg offset negate .none))

include hbytes

theorem run_indexed_zero (hzero : offset = 0) :
    indexed.run m = (.ok (m.word (.ofIndex reg) + displacement offset negate),
      { m with pc := m.pc + UInt16.ofNat (postbyte reg offset negate .none).length }) := by
  have hpost : postbyte reg offset negate .none = [(0x84 ||| 0x60) &&& reg.mask] := by
    simp only [postbyte, offsetForm, if_true, hzero]
  have hvalue : displacement offset negate = 0 := by
    subst hzero
    cases negate <;> rfl
  rw [hpost] at hbytes ⊢
  rw [hvalue]
  exact run_indexed_offset hbytes (postbyteRegister_narrowed reg 0x84) (by cases reg <;> rfl)

theorem run_indexed_short (hzero : offset ≠ 0) (hshort : offset ≤ 16) :
    indexed.run m = (.ok (m.word (.ofIndex reg) + displacement offset negate),
      { m with pc := m.pc + UInt16.ofNat (postbyte reg offset negate .none).length }) := by
  have hpost : postbyte reg offset negate .none =
      [((lowByte (if negate then -offset else offset) &&& 0x1F) ||| 0x60) &&& reg.mask] := by
    simp only [postbyte, offsetForm, if_true, hzero, if_false, hshort]
  have hvalue : displacement offset negate =
      shortOffset (lowByte (if negate then -offset else offset)) := by
    have hne : offset ≠ 128 := by
      rintro rfl
      exact absurd hshort (by decide)
    rw [shortOffset_lowByte negate offset hshort, displacement]
    simp only [hne, or_false]
  rw [hpost] at hbytes ⊢
  rw [hvalue]
  exact run_indexed_offset hbytes (postbyteRegister_narrowed reg _) (ofPostbyte?_short reg _)

theorem run_indexed_byte (hshort : ¬ offset ≤ 16) (hbyte : offset ≤ 128) :
    indexed.run m = (.ok (m.word (.ofIndex reg) + displacement offset negate),
      { m with pc := m.pc + UInt16.ofNat (postbyte reg offset negate .none).length }) := by
  have hne : offset ≠ 0 ∧ offset ≠ 16 := by
    constructor <;> rintro rfl <;> exact hshort (by decide)
  have hpost : postbyte reg offset negate .none =
      [(0x88 ||| 0x60) &&& reg.mask, lowByte (if negate then -offset else offset)] := by
    simp only [postbyte, offsetForm, if_true, hne, if_false, hshort, hbyte]
  have hvalue : displacement offset negate =
      signExtend (lowByte (if negate then -offset else offset)) := by
    rw [signExtend_lowByte negate offset hbyte, displacement]
    simp only [hne, false_or]
  rw [hpost] at hbytes ⊢
  rw [hvalue]
  have hrun := run_indexed_byteOffset hbytes (postbyteRegister_narrowed reg 0x88)
    (by cases reg <;> rfl)
  rw [UInt16.add_assoc] at hrun
  exact hrun

theorem run_indexed_word (hbyte : ¬ offset ≤ 128) :
    indexed.run m = (.ok (m.word (.ofIndex reg) + displacement offset negate),
      { m with pc := m.pc + UInt16.ofNat (postbyte reg offset negate .none).length }) := by
  have hne : offset ≠ 0 ∧ offset ≠ 16 ∧ offset ≠ 128 := by
    refine ⟨?_, ?_, ?_⟩ <;> rintro rfl <;> exact hbyte (by decide)
  have hshort : ¬ offset ≤ 16 := fun h => hbyte (UInt16.le_trans h (by decide))
  have hpost : postbyte reg offset negate .none =
      ((0x89 ||| 0x60) &&& reg.mask) :: wordBytes (if negate then -offset else offset) := by
    simp only [postbyte, offsetForm, if_true, hne, if_false, hshort, hbyte]
  have hvalue : displacement offset negate = if negate then -offset else offset := by
    simp only [displacement, hne, or_false]
  rw [hpost] at hbytes ⊢
  rw [hvalue]
  have hrun := run_indexed_wordOffset hbytes (postbyteRegister_narrowed reg 0x89)
    (by cases reg <;> rfl)
  rw [UInt16.add_assoc] at hrun
  exact hrun

theorem run_indexed_plain :
    indexed.run m = (.ok (m.word (.ofIndex reg) + displacement offset negate),
      { m with pc := m.pc + UInt16.ofNat (postbyte reg offset negate .none).length }) := by
  by_cases hzero : offset = 0
  · exact run_indexed_zero hbytes hzero
  by_cases hshort : offset ≤ 16
  · exact run_indexed_short hbytes hzero hshort
  by_cases hbyte : offset ≤ 128
  · exact run_indexed_byte hbytes hshort hbyte
  · exact run_indexed_word hbytes hbyte

end Plain

/-- The address of an indexed operand and its register after it, from the register before it. -/
def operandEffect (offset : UInt16) (negate : Bool) (auto : AutoMode) (base : UInt16) :
    UInt16 × UInt16 :=
  if auto = .increment1 then (base, base + 1)
  else if auto = .increment2 then (base, base + 2)
  else if auto = .decrement1 then (base - 1, base - 1)
  else if auto = .decrement2 then (base - 2, base - 2)
  else if negate ∨ offset = 16 ∨ offset = 128 then (base - offset, base)
  else (base + offset, base)

theorem operandEffect_none (offset : UInt16) (negate : Bool) (base : UInt16) :
    operandEffect offset negate .none base = (base + displacement offset negate, base) := by
  change (if negate ∨ offset = 16 ∨ offset = 128 then _ else _) = _
  unfold displacement
  split
  · rw [UInt16.sub_eq_add_neg]
  · rfl

/-- The processor reads back every operand that the assembler writes: it consumes its bytes, finds
its address, and changes at most its register. -/
theorem indexed_postbyte (m : Machine) (reg : IndexRegister) (offset : UInt16) (negate : Bool)
    (auto : AutoMode)
    (hauto : auto ∈ [AutoMode.none, .increment1, .increment2, .decrement1, .decrement2])
    (hbytes : m.memory.Holds m.pc (postbyte reg offset negate auto)) :
    let effect := operandEffect offset negate auto (m.word (.ofIndex reg))
    indexed.run m = (.ok effect.1,
      { m.setWord (.ofIndex reg) effect.2 with
        pc := m.pc + UInt16.ofNat (postbyte reg offset negate auto).length }) := by
  simp only [List.mem_cons, List.not_mem_nil, or_false] at hauto
  rcases hauto with rfl | rfl | rfl | rfl | rfl
  · have hkept : m.setWord (.ofIndex reg) (m.word (.ofIndex reg)) = m := by
      cases reg <;> rfl
    rw [operandEffect_none]
    dsimp only
    rw [hkept]
    exact run_indexed_plain hbytes
  · exact run_indexed_increment hbytes (by cases reg <;> rfl) (by cases reg <;> rfl)
  · exact run_indexed_increment hbytes (by cases reg <;> rfl) (by cases reg <;> rfl)
  · exact run_indexed_decrement hbytes (by cases reg <;> rfl) (by cases reg <;> rfl)
  · exact run_indexed_decrement hbytes (by cases reg <;> rfl) (by cases reg <;> rfl)

/-- A machine whose program counter stands at an operand that wraps at the end of its memory: the
register `U` with the largest offset of one byte. -/
def wrapped : Machine :=
  { u := 0x0010, pc := 0xFFFF, memory := Memory.clear.load 0xFFFF [0xC8, 0x80] }

theorem wrapped_indexed : postbyte .u 128 false .none = [0xC8, 0x80] ∧
    wrapped.memory.Holds 0xFFFF [0xC8, 0x80] ∧
    indexed.run wrapped = (.ok 0xFF90, { wrapped with pc := 1 }) := by
  have hbytes : wrapped.memory.Holds 0xFFFF [0xC8, 0x80] := by
    refine Memory.holds_cons.2 ⟨?_, Memory.holds_cons.2 ⟨?_, rfl⟩⟩ <;>
      simp [wrapped, Memory.load, Memory.read8_write8]
  exact ⟨rfl, hbytes, indexed_postbyte wrapped .u 128 false .none (by decide) hbytes⟩

end Core
end Forge6809
