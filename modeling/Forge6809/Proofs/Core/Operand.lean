import Forge6809.Proofs.Core.Postbyte

/-! # Operations and their operands

An operation has no operand, a byte or a word behind its opcode, or an indexed operand. Once the
operand can be read the operation goes through, and the program counter stands behind the operand,
unless the operation is one of the three that set it. What an operation makes of an immediate
operand depends on the value of the operand alone, not on where it was read. -/

namespace Forge6809

/-- The automatic modes that can be written. -/
def Assembly.AutoMode.written : List AutoMode :=
  [none, increment1, increment2, decrement1, decrement2]

namespace Core

open Condition

inductive Operand where
  | absent
  | byte
  | word
  | indexed
deriving DecidableEq, Repr

namespace Operation

def operand : Operation → Operand
  | nop | signExtendB | returnFromCall | addBToX | multiply | unary _ _ => .absent
  | orFlags | andFlags | binary _ _ .immediate => .byte
  | load16 _ .immediate | addD .immediate | subD .immediate | compare16 _ .immediate => .word
  | loadAddress _ | jump | call | store8 _ | store16 _ | binary _ _ .indexed | load16 _ .indexed
  | addD .indexed | subD .indexed | compare16 _ .indexed => .indexed

/-- Operations that set the program counter. -/
def isTransfer (op : Operation) : Bool :=
  op = returnFromCall ∨ op = jump ∨ op = call

/-- What an operation with an immediate operand of this value makes of a machine. A byte operand is
the low byte of the value. -/
def withImmediate? (op : Operation) (value : UInt16) (m : Machine) : Option Machine :=
  match op with
  | orFlags => some { m with cc := m.cc ||| lowByte value }
  | andFlags => some { m with cc := m.cc &&& lowByte value }
  | binary f reg .immediate =>
    let r := f.apply m.cc (m.acc reg) (lowByte value)
    some { m.setAcc reg r.1 with cc := r.2 }
  | load16 reg .immediate => some { m.setWord reg value with cc := moved16 m.cc value }
  | addD .immediate =>
    let r := add16 m.cc m.d value
    some { m.setD r.1 with cc := r.2 }
  | subD .immediate =>
    let r := sub16 m.cc m.d value
    some { m.setD r.1 with cc := r.2 }
  | compare16 reg .immediate => some { m with cc := (sub16 m.cc (m.word reg) value).2 }
  | _ => none

end Operation

theorem Memory.holds_append {m : Memory} {addr : UInt16} {xs ys : Bytes} :
    m.Holds addr (xs ++ ys) ↔ m.Holds addr xs ∧ m.Holds (addr + UInt16.ofNat xs.length) ys := by
  induction xs generalizing addr with
  | nil => simp [Holds, dump]
  | cons b xs ih =>
    rw [List.cons_append, holds_cons, holds_cons, ih, and_assoc, List.length_cons,
      UInt16.ofNat_add, UInt16.add_comm (UInt16.ofNat xs.length), ← UInt16.add_assoc]
    rfl

namespace Machine

@[simp] theorem setD_pc (m : Machine) (value : UInt16) : (m.setD value).pc = m.pc := rfl

@[simp] theorem setAcc_pc (m : Machine) (reg : Accumulator) (value : UInt8) :
    (m.setAcc reg value).pc = m.pc := by
  cases reg <;> rfl

@[simp] theorem setWord_pc (m : Machine) (reg : WordRegister) (value : UInt16) :
    (m.setWord reg value).pc = m.pc := by
  cases reg <;> rfl

end Machine

/-- The processor decodes every operand that can be written, and then it stands behind it. -/
theorem exists_run_indexed {m : Machine} {reg : Assembly.IndexRegister} {offset : UInt16}
    {negate : Bool} {auto : Assembly.AutoMode} (hauto : auto ∈ Assembly.AutoMode.written)
    (hbytes : m.memory.Holds m.pc (Assembly.postbyte reg offset negate auto)) :
    ∃ ea m', indexed.run m = (.ok ea, m') ∧
      m'.pc = m.pc + UInt16.ofNat (Assembly.postbyte reg offset negate auto).length := by
  simp only [Assembly.AutoMode.written, List.mem_cons, List.not_mem_nil, or_false] at hauto
  rcases hauto with rfl | rfl | rfl | rfl | rfl
  · exact ⟨_, _, run_indexed_plain hbytes, rfl⟩
  · exact ⟨_, _, run_indexed_increment hbytes
      (show _ = WordRegister.ofIndex reg by cases reg <;> rfl) (by cases reg <;> rfl), rfl⟩
  · exact ⟨_, _, run_indexed_increment hbytes
      (show _ = WordRegister.ofIndex reg by cases reg <;> rfl) (by cases reg <;> rfl), rfl⟩
  · exact ⟨_, _, run_indexed_decrement hbytes
      (show _ = WordRegister.ofIndex reg by cases reg <;> rfl) (by cases reg <;> rfl), rfl⟩
  · exact ⟨_, _, run_indexed_decrement hbytes
      (show _ = WordRegister.ofIndex reg by cases reg <;> rfl) (by cases reg <;> rfl), rfl⟩

namespace Operation

variable {op : Operation} {m m' : Machine}

theorem pc_of_withImmediate? {value : UInt16} (h : op.withImmediate? value m = some m') :
    m'.pc = m.pc := by
  unfold withImmediate? at h
  split at h <;> cases h <;> simp

theorem run_bind_of_ok {α β : Type} {c : Exec α} {f : α → Exec β} {a : α}
    (h : c.run m = (.ok a, m')) : (c >>= f).run m = (f a).run m' := by
  rw [run_bind, h]

theorem run_get_bind {β : Type} (f : Machine → Exec β) : (get >>= f).run m = (f m).run m :=
  run_bind_of_ok (run_get m)

theorem run_operand8_immediate {b : UInt8} (h : m.read8 m.pc = b) :
    (operand8 .immediate).run m = (.ok b, { m with pc := m.pc + 1 }) := by
  rw [← h]
  rfl

theorem run_operand16_immediate {w : UInt16} (h : m.read16 m.pc = w) :
    (operand16 .immediate).run m = (.ok w, { m with pc := m.pc + 2 }) := by
  rw [← h]
  rfl

theorem run_operand8_indexed {ea : UInt16} (h : Core.indexed.run m = (.ok ea, m')) :
    (operand8 .indexed).run m = (.ok (m'.read8 ea), m') :=
  run_bind_of_ok h

theorem run_operand16_indexed {ea : UInt16} (h : Core.indexed.run m = (.ok ea, m')) :
    (operand16 .indexed).run m = (.ok (m'.read16 ea), m') :=
  run_bind_of_ok h

theorem run_execute_absent (h : op.operand = .absent) (m : Machine) :
    ∃ m', op.execute.run m = (.ok (), m') ∧ (op.isTransfer = false → m'.pc = m.pc) := by
  cases op with
  | nop | signExtendB | addBToX | multiply => exact ⟨_, rfl, fun _ => rfl⟩
  | unary f reg => exact ⟨_, rfl, fun _ => m.setAcc_pc reg _⟩
  | returnFromCall => exact ⟨_, rfl, fun htransfer => by cases htransfer⟩
  | orFlags | andFlags | loadAddress | jump | call | store8 | store16 => cases h
  | binary _ _ mode | load16 _ mode | addD mode | subD mode | compare16 _ mode =>
    cases mode <;> cases h

/-- An operation with a byte operand works on the byte behind its opcode. -/
theorem run_execute_byte (h : op.operand = .byte) {value : UInt16}
    (hvalue : m.read8 m.pc = lowByte value) :
    ∃ m', op.withImmediate? value { m with pc := m.pc + 1 } = some m' ∧
      op.execute.run m = (.ok (), m') := by
  cases op with
  | orFlags | andFlags => exact ⟨_, rfl, run_bind_of_ok (run_operand8_immediate hvalue)⟩
  | binary f reg mode =>
    cases mode with
    | indexed => cases h
    | immediate => exact ⟨_, rfl, run_bind_of_ok (run_operand8_immediate hvalue)⟩
  | nop | signExtendB | loadAddress | returnFromCall | addBToX | multiply | jump | call | unary
  | store8 | store16 => cases h
  | load16 _ mode | addD mode | subD mode | compare16 _ mode => cases mode <;> cases h

/-- An operation with a word operand works on the word behind its opcode. -/
theorem run_execute_word (h : op.operand = .word) {value : UInt16}
    (hvalue : m.read16 m.pc = value) :
    ∃ m', op.withImmediate? value { m with pc := m.pc + 2 } = some m' ∧
      op.execute.run m = (.ok (), m') := by
  cases op with
  | load16 _ mode | addD mode | subD mode =>
    cases mode with
    | indexed => cases h
    | immediate => exact ⟨_, rfl, run_bind_of_ok (run_operand16_immediate hvalue)⟩
  | compare16 reg mode =>
    cases mode with
    | indexed => cases h
    | immediate =>
      -- The register is taken before the operand, which moves the program counter only.
      refine ⟨_, rfl, ?_⟩
      rw [execute, run_get_bind, run_bind_of_ok (run_operand16_immediate hvalue)]
      cases reg <;> rfl
  | nop | orFlags | andFlags | signExtendB | loadAddress | returnFromCall | addBToX | multiply
  | jump | call | unary | store8 | store16 => cases h
  | binary _ _ mode => cases mode <;> cases h

/-- An operation with an indexed operand goes through if its operand can be decoded. -/
theorem run_execute_indexed (h : op.operand = .indexed) {ea : UInt16}
    (hindexed : Core.indexed.run m = (.ok ea, m')) :
    ∃ m'', op.execute.run m = (.ok (), m'') ∧ (op.isTransfer = false → m''.pc = m'.pc) := by
  cases op with
  | loadAddress reg =>
    refine ⟨_, run_bind_of_ok hindexed, fun _ => ?_⟩
    dsimp only
    split <;> simp
  | jump | call => exact ⟨_, run_bind_of_ok hindexed, fun htransfer => by cases htransfer⟩
  | store8 | store16 =>
    exact ⟨_, (run_get_bind _).trans (run_bind_of_ok hindexed), fun _ => rfl⟩
  | binary f reg mode =>
    cases mode with
    | immediate => cases h
    | indexed =>
      exact ⟨_, run_bind_of_ok (run_operand8_indexed hindexed), fun _ => m'.setAcc_pc reg _⟩
  | load16 reg mode =>
    cases mode with
    | immediate => cases h
    | indexed =>
      exact ⟨_, run_bind_of_ok (run_operand16_indexed hindexed), fun _ => m'.setWord_pc reg _⟩
  | addD mode | subD mode =>
    cases mode with
    | immediate => cases h
    | indexed => exact ⟨_, run_bind_of_ok (run_operand16_indexed hindexed), fun _ => rfl⟩
  | compare16 reg mode =>
    cases mode with
    | immediate => cases h
    | indexed =>
      exact ⟨_, (run_get_bind _).trans (run_bind_of_ok (run_operand16_indexed hindexed)),
        fun _ => rfl⟩
  | nop | orFlags | andFlags | signExtendB | returnFromCall | addBToX | multiply | unary => cases h

end Operation

end Core
end Forge6809
