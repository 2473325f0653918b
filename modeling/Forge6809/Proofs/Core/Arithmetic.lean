import Forge6809.Core.Machine
import Mathlib.Tactic

/-! # What the arithmetic flags say

A sum or difference of words is exact in the integers, and its result is that integer modulo the
size of a word. Sign and zero describe the result; carry and overflow say whether the exact value,
taken unsigned or as two's complement, lies outside the words. The flags are computed from single
bits of the operands, which is right because the top bit of a word is its sign. -/

namespace Forge6809.Core

namespace Condition

/-- Setting a flag keeps the bits of a mask that it is not in. -/
theorem put_and {flag mask : UInt8} (h : flag &&& mask = 0) (cc : UInt8) (on : Bool) :
    put cc flag on &&& mask = cc &&& mask := by
  rw [← UInt8.toBitVec_inj] at h ⊢
  have hbit (i : ℕ) (hi : i < 8) : (flag.toBitVec[i] && mask.toBitVec[i]) = false := by
    simpa using congrArg (fun v => v[i]) h
  ext i hi
  cases on <;> cases hf : flag.toBitVec[i] <;> cases hm : mask.toBitVec[i] <;> simp_all [put]

theorem isSet_put_of_ne {flag flag' : UInt8} (h : flag &&& flag' = 0) (cc : UInt8) (on : Bool) :
    isSet (put cc flag on) flag' = isSet cc flag' := by
  rw [isSet, isSet, put_and h]

theorem isSet_put_self {flag : UInt8} (h : flag ≠ 0) (cc : UInt8) (on : Bool) :
    isSet (put cc flag on) flag = on := by
  have habsorb : (cc ||| flag) &&& flag = flag := by
    rw [← UInt8.toBitVec_inj]
    ext i hi
    cases hf : flag.toBitVec[i] <;> simp [hf]
  cases on <;> simp [isSet, put, UInt8.and_assoc, habsorb, h]

/-- Bits other than those for sign, zero, overflow and carry. -/
def Spares (mask : UInt8) : Prop :=
  negative &&& mask = 0 ∧ zero &&& mask = 0 ∧ overflow &&& mask = 0 ∧ carry &&& mask = 0

instance (mask : UInt8) : Decidable (Spares mask) :=
  inferInstanceAs (Decidable (_ ∧ _ ∧ _ ∧ _))

section Spares

variable {mask : UInt8} (h : Spares mask) (cc : UInt8)

include h

theorem sign8_and (value : UInt8) : sign8 cc value &&& mask = cc &&& mask := by
  rw [sign8, put_and h.2.1, put_and h.1]

theorem sign16_and (value : UInt16) : sign16 cc value &&& mask = cc &&& mask := by
  rw [sign16, put_and h.2.1, put_and h.1]

theorem moved8_and (value : UInt8) : moved8 cc value &&& mask = cc &&& mask := by
  rw [moved8, put_and h.2.2.1, sign8_and h]

theorem moved16_and (value : UInt16) : moved16 cc value &&& mask = cc &&& mask := by
  rw [moved16, put_and h.2.2.1, sign16_and h]

theorem sub8_and (a m c : UInt8) : (sub8 cc a m c).2 &&& mask = cc &&& mask := by
  simp only [sub8, put_and h.2.2.2, put_and h.2.2.1, sign8_and h]

theorem add16_and (a m : UInt16) : (add16 cc a m).2 &&& mask = cc &&& mask := by
  simp only [add16, put_and h.2.2.2, put_and h.2.2.1, sign16_and h]

theorem sub16_and (a m : UInt16) : (sub16 cc a m).2 &&& mask = cc &&& mask := by
  simp only [sub16, put_and h.2.2.2, put_and h.2.2.1, sign16_and h]

/-- A sum of bytes also sets the half carry. -/
theorem add8_and (hhalf : halfCarry &&& mask = 0) (a m c : UInt8) :
    (add8 cc a m c).2 &&& mask = cc &&& mask := by
  simp only [add8, put_and h.2.2.2, put_and h.2.2.1, put_and hhalf, sign8_and h]

end Spares
end Condition

theorem and_twoPow_bne_zero {w : ℕ} (x : BitVec (w + 1)) :
    (x &&& BitVec.twoPow (w + 1) w != 0#(w + 1)) = x.msb := by
  have hpos : BitVec.twoPow (w + 1) w ≠ 0#(w + 1) := by
    intro h
    have hbit := congrArg (·.getLsbD w) h
    simp at hbit
  rw [BitVec.and_twoPow, BitVec.msb_eq_getLsbD_last, Nat.add_sub_cancel]
  cases x.getLsbD w <;> simp [hpos]

theorem and_0x80_bne_zero (x : UInt8) : (x &&& 0x80 != 0) = x.toBitVec.msb := by
  rw [← and_twoPow_bne_zero, Bool.eq_iff_iff, bne_iff_ne, bne_iff_ne, Ne, Ne,
    ← UInt8.toBitVec_inj]
  rfl

theorem and_0x8000_bne_zero (x : UInt16) : (x &&& 0x8000 != 0) = x.toBitVec.msb := by
  rw [← and_twoPow_bne_zero, Bool.eq_iff_iff, bne_iff_ne, bne_iff_ne, Ne, Ne,
    ← UInt16.toBitVec_inj]
  rfl

/-- Two's complement counts the upper half of the words from below zero. -/
theorem toInt_cases {w : ℕ} (x : BitVec (w + 1)) :
    (x.msb = false ∧ x.toInt = x.toNat ∧ (x.toNat : ℤ) < 2 ^ w) ∨
      (x.msb = true ∧ x.toInt = x.toNat - 2 * 2 ^ w ∧ 2 ^ w ≤ (x.toNat : ℤ) ∧
        (x.toNat : ℤ) < 2 * 2 ^ w) := by
  have hlt := x.isLt
  have hcast : ((2 ^ w : ℕ) : ℤ) = 2 ^ w := by push_cast; rfl
  simp only [BitVec.msb_eq_decide, BitVec.toInt_eq_msb_cond, Nat.add_sub_cancel, pow_succ,
    decide_eq_false_iff_not, decide_eq_true_eq] at hlt ⊢
  split_ifs <;> omega

section Overflow

variable {w : ℕ} {a m r : BitVec (w + 1)} {c : ℤ} (hc : 0 ≤ c ∧ c ≤ 1)

include hc

/-- A sum overflows if its operands have one sign and its result has the other. -/
theorem overflow_add (hr : (r.toNat : ℤ) = a.toNat + m.toNat + c ∨
      (r.toNat : ℤ) = a.toNat + m.toNat + c - 2 * 2 ^ w) :
    (~~~(a ^^^ m) &&& (a ^^^ r)).msb = true ↔
      a.toInt + m.toInt + c < -2 ^ w ∨ 2 ^ w ≤ a.toInt + m.toInt + c := by
  simp only [BitVec.msb_and, BitVec.msb_not, BitVec.msb_xor]
  rcases toInt_cases a with ⟨ha, ha', _⟩ | ⟨ha, ha', _⟩ <;>
  rcases toInt_cases m with ⟨hm, hm', _⟩ | ⟨hm, hm', _⟩ <;>
  rcases toInt_cases r with ⟨hs, _, _⟩ | ⟨hs, _, _⟩ <;>
    simp [ha, hm, hs, ha', hm'] <;> omega

/-- A difference overflows if its operands have different signs and its result has that of the
second. -/
theorem overflow_sub (hr : (r.toNat : ℤ) = a.toNat - m.toNat - c ∨
      (r.toNat : ℤ) = a.toNat - m.toNat - c + 2 * 2 ^ w) :
    ((a ^^^ m) &&& (a ^^^ r)).msb = true ↔
      a.toInt - m.toInt - c < -2 ^ w ∨ 2 ^ w ≤ a.toInt - m.toInt - c := by
  simp only [BitVec.msb_and, BitVec.msb_xor]
  rcases toInt_cases a with ⟨ha, ha', _⟩ | ⟨ha, ha', _⟩ <;>
  rcases toInt_cases m with ⟨hm, hm', _⟩ | ⟨hm, hm', _⟩ <;>
  rcases toInt_cases r with ⟨hs, _, _⟩ | ⟨hs, _, _⟩ <;>
    simp [ha, hm, hs, ha', hm'] <;> omega

end Overflow

open Condition

/-- Condition codes that describe a result: the exact value is given for unsigned operands and for
operands in two's complement. -/
structure Reports {w : ℕ} (unsigned signed : ℤ) (r : BitVec w) (cc : UInt8) : Prop where
  value : (r.toNat : ℤ) = unsigned % 2 ^ w
  negative : isSet cc negative = r.msb
  zero : isSet cc zero = true ↔ r = 0
  carry : isSet cc carry = true ↔ unsigned < 0 ∨ 2 ^ w ≤ unsigned
  overflow : isSet cc overflow = true ↔ signed < -2 ^ (w - 1) ∨ 2 ^ (w - 1) ≤ signed

/-- Condition codes in which sign and zero are those of a word. -/
def Signs {w : ℕ} (r : BitVec w) (cc : UInt8) : Prop :=
  isSet cc negative = r.msb ∧ (isSet cc zero = true ↔ r = 0)

theorem signs_sign8 (cc r : UInt8) : Signs r.toBitVec (sign8 cc r) := by
  constructor
  · simp (disch := decide) only [sign8, isSet_put_self, isSet_put_of_ne, and_0x80_bne_zero]
  · simp (disch := decide) only [sign8, isSet_put_self, beq_iff_eq, ← UInt8.toBitVec_inj]
    rfl

theorem signs_sign16 (cc : UInt8) (r : UInt16) : Signs r.toBitVec (sign16 cc r) := by
  constructor
  · simp (disch := decide) only [sign16, isSet_put_self, isSet_put_of_ne, and_0x8000_bne_zero]
  · simp (disch := decide) only [sign16, isSet_put_self, beq_iff_eq, ← UInt16.toBitVec_inj]
    rfl

/-- Overflow and carry are set last, whatever was set between them and the sign. -/
theorem Signs.reports {w : ℕ} {unsigned signed : ℤ} {r : BitVec w} {cc : UInt8} {v c : Bool}
    (h : Signs r cc) (hvalue : (r.toNat : ℤ) = unsigned % 2 ^ w)
    (hc : c = true ↔ unsigned < 0 ∨ 2 ^ w ≤ unsigned)
    (hv : v = true ↔ signed < -2 ^ (w - 1) ∨ 2 ^ (w - 1) ≤ signed) :
    Reports unsigned signed r (put (put cc overflow v) carry c) where
  value := hvalue
  negative := by
    simp (disch := decide) only [isSet_put_of_ne]
    exact h.1
  zero := by
    simp (disch := decide) only [isSet_put_of_ne]
    exact h.2
  carry := by rwa [isSet_put_self (by decide)]
  overflow := by rwa [isSet_put_of_ne (by decide), isSet_put_self (by decide)]

section Bytes

variable (cc a m : UInt8) {c : UInt8} (hc : c ≤ 1)

include hc

theorem reports_add8 :
    Reports (a.toNat + m.toNat + c.toNat) (a.toInt8.toInt + m.toInt8.toInt + c.toNat)
      (add8 cc a m c).1.toBitVec (add8 cc a m c).2 := by
  have ha := UInt8.toNat_lt a
  have hm := UInt8.toNat_lt m
  have hc' : c.toNat ≤ 1 := UInt8.le_iff_toNat_le.1 hc
  have hsum : (a.toUInt16 + m.toUInt16 + c.toUInt16).toNat = a.toNat + m.toNat + c.toNat := by
    simp only [UInt16.toNat_add, UInt8.toNat_toUInt16]
    omega
  have hr : (a.toUInt16 + m.toUInt16 + c.toUInt16).toUInt8.toNat =
      (a.toNat + m.toNat + c.toNat) % 256 := by
    rw [UInt16.toNat_toUInt8, hsum]
  simp only [add8]
  generalize (a.toUInt16 + m.toUInt16 + c.toUInt16).toUInt8 = r at *
  have hsigns : Signs r.toBitVec (put (sign8 cc r) halfCarry
      ((a &&& 0x0F) + (m &&& 0x0F) + c > 0x0F)) := by
    simp (disch := decide) only [Signs, isSet_put_of_ne]
    exact signs_sign8 cc r
  refine hsigns.reports ?_ ?_ ?_
  · change (r.toNat : ℤ) = _
    omega
  · rw [decide_eq_true_eq, gt_iff_lt, UInt16.lt_iff_toNat_lt, hsum]
    change 255 < _ ↔ _
    omega
  · rw [and_0x80_bne_zero]
    refine overflow_add (w := 7) (by omega) ?_
    change (r.toNat : ℤ) = a.toNat + m.toNat + _ ∨ (r.toNat : ℤ) = a.toNat + m.toNat + _ - _
    omega

theorem reports_sub8 :
    Reports (a.toNat - m.toNat - c.toNat) (a.toInt8.toInt - m.toInt8.toInt - c.toNat)
      (sub8 cc a m c).1.toBitVec (sub8 cc a m c).2 := by
  have ha := UInt8.toNat_lt a
  have hm := UInt8.toNat_lt m
  have hc' : c.toNat ≤ 1 := UInt8.le_iff_toNat_le.1 hc
  have hr : ((a - m - c).toNat : ℤ) = (a.toNat - m.toNat - c.toNat) % 256 := by
    simp only [UInt8.toNat_sub]
    omega
  have hborrow : (m.toUInt16 + c.toUInt16).toNat = m.toNat + c.toNat := by
    simp only [UInt16.toNat_add, UInt8.toNat_toUInt16]
    omega
  simp only [sub8]
  generalize a - m - c = r at *
  refine (signs_sign8 cc r).reports hr ?_ ?_
  · rw [decide_eq_true_eq, UInt16.lt_iff_toNat_lt, hborrow, UInt8.toNat_toUInt16]
    omega
  · rw [and_0x80_bne_zero]
    refine overflow_sub (w := 7) (by omega) ?_
    change (r.toNat : ℤ) = a.toNat - m.toNat - _ ∨ (r.toNat : ℤ) = a.toNat - m.toNat - _ + _
    omega

/-- The half carry says whether the sum of the low halves of the operands leaves a half. -/
theorem isSet_halfCarry_add8 : isSet (add8 cc a m c).2 halfCarry = true ↔
    16 ≤ a.toNat % 16 + m.toNat % 16 + c.toNat := by
  have hlow (b : UInt8) : (b &&& 0x0F).toNat = b.toNat % 16 := Nat.and_two_pow_sub_one_eq_mod _ 4
  have hc' : c.toNat ≤ 1 := UInt8.le_iff_toNat_le.1 hc
  have hsum : ((a &&& 0x0F) + (m &&& 0x0F) + c).toNat =
      a.toNat % 16 + m.toNat % 16 + c.toNat := by
    simp only [UInt8.toNat_add, hlow]
    omega
  simp (disch := decide) only [add8, isSet_put_self, isSet_put_of_ne]
  rw [decide_eq_true_eq, gt_iff_lt, UInt8.lt_iff_toNat_lt, hsum]
  exact Nat.lt_iff_add_one_le

end Bytes

section Words

variable (cc : UInt8) (a m : UInt16)

theorem reports_add16 :
    Reports (a.toNat + m.toNat) (a.toInt16.toInt + m.toInt16.toInt)
      (add16 cc a m).1.toBitVec (add16 cc a m).2 := by
  have ha := UInt16.toNat_lt a
  have hm := UInt16.toNat_lt m
  have hsum : (a.toUInt32 + m.toUInt32).toNat = a.toNat + m.toNat := by
    simp only [UInt32.toNat_add, UInt16.toNat_toUInt32]
    omega
  have hr : (a.toUInt32 + m.toUInt32).toUInt16.toNat = (a.toNat + m.toNat) % 65536 := by
    rw [UInt32.toNat_toUInt16, hsum]
  simp only [add16]
  generalize (a.toUInt32 + m.toUInt32).toUInt16 = r at *
  refine (signs_sign16 cc r).reports ?_ ?_ ?_
  · change (r.toNat : ℤ) = _
    omega
  · rw [decide_eq_true_eq, gt_iff_lt, UInt32.lt_iff_toNat_lt, hsum]
    change 65535 < _ ↔ _
    omega
  · rw [and_0x8000_bne_zero]
    have h := overflow_add (w := 15) (a := a.toBitVec) (m := m.toBitVec) (r := r.toBitVec)
      (c := 0) (by omega) (by
        change (r.toNat : ℤ) = a.toNat + m.toNat + _ ∨ (r.toNat : ℤ) = a.toNat + m.toNat + _ - _
        omega)
    rwa [add_zero] at h

theorem reports_sub16 :
    Reports (a.toNat - m.toNat) (a.toInt16.toInt - m.toInt16.toInt)
      (sub16 cc a m).1.toBitVec (sub16 cc a m).2 := by
  have ha := UInt16.toNat_lt a
  have hm := UInt16.toNat_lt m
  have hr : ((a - m).toNat : ℤ) = (a.toNat - m.toNat) % 65536 := by
    simp only [UInt16.toNat_sub]
    omega
  simp only [sub16]
  generalize a - m = r at *
  refine (signs_sign16 cc r).reports hr ?_ ?_
  · rw [decide_eq_true_eq, UInt16.lt_iff_toNat_lt]
    omega
  · rw [and_0x8000_bne_zero]
    have h := overflow_sub (w := 15) (a := a.toBitVec) (m := m.toBitVec) (r := r.toBitVec)
      (c := 0) (by omega) (by
        change (r.toNat : ℤ) = a.toNat - m.toNat - _ ∨ (r.toNat : ℤ) = a.toNat - m.toNat - _ + _
        omega)
    rwa [sub_zero] at h

end Words

/-- Condition codes that tell how two words compare, unsigned and in two's complement. -/
structure Compares {w : ℕ} (x y : BitVec w) (cc : UInt8) : Prop where
  eq_iff : isSet cc zero = true ↔ x = y
  lt_iff : isSet cc carry = true ↔ x.toNat < y.toNat
  signed_lt_iff : isSet cc negative ≠ isSet cc overflow ↔ x.toInt < y.toInt

theorem emod_sub_toNat {w : ℕ} (x y : BitVec w) :
    (y.toNat ≤ x.toNat ∧ (x.toNat - y.toNat : ℤ) % 2 ^ w = x.toNat - y.toNat) ∨
      (x.toNat < y.toNat ∧ (x.toNat - y.toNat : ℤ) % 2 ^ w = x.toNat - y.toNat + 2 ^ w) := by
  have hx := x.isLt
  have hy := y.isLt
  have hcast : ((2 ^ w : ℕ) : ℤ) = 2 ^ w := by push_cast; rfl
  rcases Nat.lt_or_ge x.toNat y.toNat with h | h
  · refine .inr ⟨h, ?_⟩
    rw [← Int.add_emod_right]
    exact Int.emod_eq_of_lt (by omega) (by omega)
  · exact .inl ⟨h, Int.emod_eq_of_lt (by omega) (by omega)⟩

/-- The flags of a difference compare its operands. -/
theorem Reports.compares {w : ℕ} {x y r : BitVec (w + 1)} {cc : UInt8}
    (h : Reports (x.toNat - y.toNat) (x.toInt - y.toInt) r cc) : Compares x y cc := by
  have hx := x.isLt
  have hy := y.isLt
  have hcast : ((2 ^ (w + 1) : ℕ) : ℤ) = 2 * 2 ^ w := by push_cast; exact pow_succ' 2 w
  have hpow : (2 : ℤ) ^ (w + 1) = 2 * 2 ^ w := pow_succ' 2 w
  have hvalue := h.value
  have hcases := emod_sub_toNat x y
  rw [← hvalue, hpow] at hcases
  refine ⟨?_, ?_, ?_⟩
  · rw [h.zero, ← BitVec.toNat_inj, ← BitVec.toNat_inj]
    change r.toNat = 0 ↔ _
    omega
  · rw [h.carry, hpow]
    omega
  · rw [h.negative]
    have hoverflow := h.overflow
    rw [Nat.add_sub_cancel] at hoverflow
    rcases toInt_cases x with ⟨_, hx', _⟩ | ⟨_, hx', _⟩ <;>
    rcases toInt_cases y with ⟨_, hy', _⟩ | ⟨_, hy', _⟩ <;>
    rcases toInt_cases r with ⟨hs, _, _⟩ | ⟨hs, _, _⟩ <;>
    cases hv : isSet cc Condition.overflow <;> simp_all <;> omega

end Forge6809.Core
