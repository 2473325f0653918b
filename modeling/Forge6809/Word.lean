import Forge6809.Text.Bytes

/-! # Words

A word is stored as two bytes, the high one first. -/

namespace Forge6809

def highByte (w : UInt16) : UInt8 :=
  (w >>> 8).toUInt8

def lowByte (w : UInt16) : UInt8 :=
  w.toUInt8

def wordOf (high low : UInt8) : UInt16 :=
  high.toUInt16 <<< 8 ||| low.toUInt16

def wordBytes (w : UInt16) : Bytes :=
  [highByte w, lowByte w]

def signExtend (b : UInt8) : UInt16 :=
  if b &&& 0x80 = 0 then b.toUInt16 else b.toUInt16 ||| 0xFF00

/-- What holds of all 256 bytes holds of every byte. -/
theorem forall_byte {p : UInt8 → Prop} (h : ∀ n : Fin 256, p (UInt8.ofNat n)) (b : UInt8) :
    p b := by
  have hb := h ⟨b.toNat, UInt8.toNat_lt b⟩
  rwa [UInt8.ofNat_toNat] at hb

theorem toNat_highByte (w : UInt16) : (highByte w).toNat = w.toNat / 256 := by
  have h := UInt16.toNat_lt w
  simp only [highByte, UInt16.toNat_toUInt8, UInt16.toNat_shiftRight, Nat.shiftRight_eq_div_pow]
  change w.toNat / 256 % 256 = w.toNat / 256
  omega

theorem toNat_lowByte (w : UInt16) : (lowByte w).toNat = w.toNat % 256 :=
  UInt16.toNat_toUInt8 w

theorem toNat_wordOf (high low : UInt8) :
    (wordOf high low).toNat = high.toNat * 256 + low.toNat := by
  have hhigh := UInt8.toNat_lt high
  have hlow := UInt8.toNat_lt low
  simp only [wordOf, UInt16.toNat_or, UInt16.toNat_shiftLeft, UInt8.toNat_toUInt16]
  change high.toNat <<< 8 % 65536 ||| low.toNat = _
  rw [Nat.mod_eq_of_lt (by rw [Nat.shiftLeft_eq]; omega), ← Nat.shiftLeft_add_eq_or_of_lt hlow,
    Nat.shiftLeft_eq]

/-- The two bytes of a word make up the word. -/
theorem wordOf_highByte_lowByte (w : UInt16) : wordOf (highByte w) (lowByte w) = w := by
  apply UInt16.toNat_inj.1
  rw [toNat_wordOf, toNat_highByte, toNat_lowByte]
  omega

end Forge6809
