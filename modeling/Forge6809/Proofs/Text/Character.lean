import Forge6809.Proofs.Text.Uppercase

/-! # Characters at the start of a text

Encoding is the encoding of the characters of a string, and what is decoded is the encoding of what
it is decoded to. So the first character of a text is read whole where the text begins with an
encoded character, and a single byte is read where it begins with none. -/

namespace Forge6809.Text.Utf8

theorem isScalar_toNat (c : Char) : IsScalar c.toNat := by
  have hvalid : c.toNat < 0xD800 ∨ 0xDFFF < c.toNat ∧ c.toNat < 0x110000 := c.valid
  unfold IsScalar
  omega

theorem exists_char {code : Nat} (h : IsScalar code) : ∃ c : Char, c.toNat = code := by
  have hvalid : code.isValidChar := by
    unfold IsScalar at h
    unfold Nat.isValidChar
    omega
  refine ⟨Char.ofNatAux code hvalid, ?_⟩
  exact UInt32.toNat_ofNatLT ..

/-- A character is encoded as in a string. -/
theorem encode_toNat (c : Char) : encode c.toNat = String.utf8EncodeChar c := by
  have hscalar := isScalar_toNat c
  unfold IsScalar at hscalar
  rw [String.utf8EncodeChar, Char.toNat_val, encode]
  generalize c.toNat = code at hscalar
  simp only [Nat.toUInt8]
  split
  · rw [if_pos (by omega)]
  · split
    · rw [if_neg (by omega), if_pos (by omega)]
      simp only [List.cons.injEq, and_true]
      exact ⟨congrArg _ (by omega), congrArg _ (by omega)⟩
    · split
      · rw [if_neg (by omega), if_neg (by omega), if_pos (by omega)]
        simp only [List.cons.injEq, and_true]
        exact ⟨congrArg _ (by omega), congrArg _ (by omega), congrArg _ (by omega)⟩
      · rw [if_neg (by omega), if_neg (by omega), if_neg (by omega)]
        simp only [List.cons.injEq, and_true]
        exact ⟨congrArg _ (by omega), congrArg _ (by omega), congrArg _ (by omega),
          congrArg _ (by omega)⟩

theorem eq_toUInt8 {b : UInt8} {n : Nat} (h : b.toNat = n) : b = n.toUInt8 := by
  rw [← h, Nat.toUInt8, UInt8.ofNat_toNat]

/-- A text that is decoded begins with the encoding of the result. -/
theorem take_of_decode {s : Bytes} {code n : Nat} (h : decode s = some (code, n)) :
    s.take n = encode code := by
  cases shape_of_decode h with
  | one ha =>
    rw [encode, if_pos ha, ← eq_toUInt8 rfl]
    rfl
  | @two a b _ ha ha' hb =>
    rw [isSecond_eq_true_iff] at hb
    rw [encode, if_neg (by omega), if_pos (by omega), ← eq_toUInt8 (b := a) (by omega),
      ← eq_toUInt8 (b := b) (by omega)]
    rfl
  | @three a b c _ ha ha' hb hc =>
    rw [isSecond_eq_true_iff] at hb
    rw [isTail_eq_true_iff] at hc
    rw [encode, if_neg (by omega), if_neg (by omega), if_pos (by omega),
      ← eq_toUInt8 (b := a) (by omega), ← eq_toUInt8 (b := b) (by omega),
      ← eq_toUInt8 (b := c) (by omega)]
    rfl
  | @four a b c d _ ha ha' hb hc hd =>
    rw [isSecond_eq_true_iff] at hb
    rw [isTail_eq_true_iff] at hc hd
    rw [encode, if_neg (by omega), if_neg (by omega), if_neg (by omega),
      ← eq_toUInt8 (b := a) (by omega), ← eq_toUInt8 (b := b) (by omega),
      ← eq_toUInt8 (b := c) (by omega), ← eq_toUInt8 (b := d) (by omega)]
    rfl

theorem decode_of_begins {s : Bytes} {c : Char} (h : String.utf8EncodeChar c <+: s) :
    decode s = some (c.toNat, (String.utf8EncodeChar c).length) := by
  obtain ⟨rest, rfl⟩ := h
  rw [← encode_toNat]
  exact decode_encode (isScalar_toNat c) rest

/-- The first character of a text is a whole character, or one byte with which none begins. -/
theorem take_width {s : Bytes} (hs : s ≠ []) :
    (∃ c : Char, s.take (width s) = String.utf8EncodeChar c) ∨
      width s = 1 ∧ ∀ c : Char, ¬String.utf8EncodeChar c <+: s := by
  cases s with
  | nil => exact absurd rfl hs
  | cons a r =>
    cases hdecode : decode (a :: r) with
    | some p =>
      obtain ⟨code, n⟩ := p
      obtain ⟨c, rfl⟩ := exists_char (isScalar_of_decode hdecode)
      have hwidth : width (a :: r) = n := by simp only [width, hdecode]
      rw [hwidth]
      exact .inl ⟨c, (take_of_decode hdecode).trans (encode_toNat c)⟩
    | none =>
      refine .inr ⟨by simp only [width, hdecode], fun c hc => ?_⟩
      rw [decode_of_begins hc] at hdecode
      cases hdecode

end Forge6809.Text.Utf8
