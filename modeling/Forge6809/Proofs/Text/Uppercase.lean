import Forge6809.Text.Uppercase
import Mathlib.Tactic

/-! # Upper case and characters

Decoding undoes encoding, so mapping the characters of a text twice maps every character twice. No
code point is mapped to one that is mapped on, and the mapping of ASCII bytes is the mapping of
characters there; so a text in upper case stays as it is when it is put in upper case again. -/

namespace Forge6809.Text

namespace Utf8

/-- The code points that are characters: all but the surrogates and those past the last one. -/
def IsScalar (code : Nat) : Prop :=
  code < 0xD800 ∨ 0xE000 ≤ code ∧ code < 0x110000

theorem toNat_toUInt8 {n : Nat} (h : n < 0x100) : n.toUInt8.toNat = n := by
  rw [Nat.toUInt8, UInt8.toNat_ofNat']
  omega

/-- The low bits of a byte. -/
theorem toNat_and_mask {mask : UInt8} {k : Nat} (h : mask.toNat = 2 ^ k - 1) (b : UInt8) :
    (b &&& mask).toNat = b.toNat % 2 ^ k := by
  rw [UInt8.toNat_and, h, Nat.and_two_pow_sub_one_eq_mod]

theorem payload_eq (b : UInt8) : payload b = b.toNat % 2 ^ 6 :=
  toNat_and_mask rfl b

theorem sizeOfFirst_eq (b : UInt8) : sizeOfFirst b =
    if b.toNat < 0x80 then 1 else if b.toNat < 0xC2 then 0 else if b.toNat < 0xE0 then 2
    else if b.toNat < 0xF0 then 3 else if b.toNat < 0xF5 then 4 else 0 := by
  simp only [sizeOfFirst, UInt8.lt_iff_toNat_lt]
  rfl

theorem isTail_eq_true_iff {b : UInt8} :
    isTail b = true ↔ 0x80 ≤ b.toNat ∧ b.toNat ≤ 0xBF := by
  simp only [isTail, Bool.and_eq_true, decide_eq_true_eq, UInt8.le_iff_toNat_le]
  rfl

theorem isSecond_eq_true_iff {a b : UInt8} : isSecond a b = true ↔
    0x80 ≤ b.toNat ∧ b.toNat ≤ 0xBF ∧ (a.toNat = 0xE0 → 0xA0 ≤ b.toNat) ∧
      (a.toNat = 0xED → b.toNat ≤ 0x9F) ∧ (a.toNat = 0xF0 → 0x90 ≤ b.toNat) ∧
      (a.toNat = 0xF4 → b.toNat ≤ 0x8F) := by
  simp only [isSecond, isTail, beq_iff_eq, ← UInt8.toNat_inj]
  have h : (0xE0 : UInt8).toNat = 0xE0 ∧ (0xED : UInt8).toNat = 0xED ∧
    (0xF0 : UInt8).toNat = 0xF0 ∧ (0xF4 : UInt8).toNat = 0xF4 := by decide
  simp only [h]
  split
  · simp [UInt8.le_iff_toNat_le]; omega
  · split
    · simp [UInt8.le_iff_toNat_le]; omega
    · split
      · simp [UInt8.le_iff_toNat_le]; omega
      · split
        · simp [UInt8.le_iff_toNat_le]; omega
        · simp [UInt8.le_iff_toNat_le]; omega

/-- The forms of an encoded character at the start of a text, its code point and its width. -/
inductive Shape : Bytes → Nat → Nat → Prop
  | one {a : UInt8} {r : Bytes} : a.toNat < 0x80 → Shape (a :: r) a.toNat 1
  | two {a b : UInt8} {r : Bytes} : 0xC2 ≤ a.toNat → a.toNat < 0xE0 → isSecond a b = true →
      Shape (a :: b :: r) (a.toNat % 2 ^ 5 * 64 + b.toNat % 2 ^ 6) 2
  | three {a b c : UInt8} {r : Bytes} : 0xE0 ≤ a.toNat → a.toNat < 0xF0 → isSecond a b = true →
      isTail c = true → Shape (a :: b :: c :: r)
        ((a.toNat % 2 ^ 4 * 64 + b.toNat % 2 ^ 6) * 64 + c.toNat % 2 ^ 6) 3
  | four {a b c d : UInt8} {r : Bytes} : 0xF0 ≤ a.toNat → a.toNat < 0xF5 → isSecond a b = true →
      isTail c = true → isTail d = true → Shape (a :: b :: c :: d :: r)
        (((a.toNat % 2 ^ 3 * 64 + b.toNat % 2 ^ 6) * 64 + c.toNat % 2 ^ 6) * 64 + d.toNat % 2 ^ 6) 4

theorem shape_of_decode {s : Bytes} {code n : Nat} (h : decode s = some (code, n)) :
    Shape s code n := by
  unfold decode at h
  split at h
  · cases h
  · next a r =>
    have hfirst := sizeOfFirst_eq a
    have h₂ : (a &&& 0x1F).toNat = a.toNat % 2 ^ 5 := toNat_and_mask rfl a
    have h₃ : (a &&& 0x0F).toNat = a.toNat % 2 ^ 4 := toNat_and_mask rfl a
    have h₄ : (a &&& 0x07).toNat = a.toNat % 2 ^ 3 := toNat_and_mask rfl a
    split at h
    · next hsize =>
      rw [hsize] at hfirst
      cases h
      exact .one (by split_ifs at hfirst <;> omega)
    · next hsize =>
      rw [hsize] at hfirst
      have ha : 0xC2 ≤ a.toNat ∧ a.toNat < 0xE0 := by split_ifs at hfirst <;> omega
      split at h
      · next hb =>
        cases h
        rw [payload_eq, h₂]
        exact .two ha.1 ha.2 hb
      · cases h
    · next hsize =>
      rw [hsize] at hfirst
      have ha : 0xE0 ≤ a.toNat ∧ a.toNat < 0xF0 := by split_ifs at hfirst <;> omega
      split at h
      · next hb =>
        cases h
        rw [Bool.and_eq_true] at hb
        rw [payload_eq, payload_eq, h₃]
        exact .three ha.1 ha.2 hb.1 hb.2
      · cases h
    · next hsize =>
      rw [hsize] at hfirst
      have ha : 0xF0 ≤ a.toNat ∧ a.toNat < 0xF5 := by split_ifs at hfirst <;> omega
      split at h
      · next hb =>
        cases h
        rw [Bool.and_eq_true, Bool.and_eq_true] at hb
        rw [payload_eq, payload_eq, payload_eq, h₄]
        exact .four ha.1 ha.2 hb.1.1 hb.1.2 hb.2
      · cases h
    · cases h

/-- What is decoded is a character. -/
theorem isScalar_of_decode {s : Bytes} {code n : Nat} (h : decode s = some (code, n)) :
    IsScalar code := by
  unfold IsScalar
  cases shape_of_decode h with
  | one ha => omega
  | two => omega
  | three _ ha hb =>
    rw [isSecond_eq_true_iff] at hb
    omega
  | four ha _ hb =>
    rw [isSecond_eq_true_iff] at hb
    omega

/-- Decoding undoes encoding. -/
theorem decode_encode {code : Nat} (h : IsScalar code) (rest : Bytes) :
    decode (encode code ++ rest) = some (code, (encode code).length) := by
  unfold IsScalar at h
  unfold encode
  split
  · next hcode =>
    have ha : code.toUInt8.toNat = code := toNat_toUInt8 (by omega)
    have hsize : sizeOfFirst code.toUInt8 = 1 := by
      rw [sizeOfFirst_eq, ha, if_pos hcode]
    simp only [List.cons_append, decode, hsize, ha, List.length_singleton]
  · split
    · next hlow hcode =>
      generalize ha : (0xC0 + code / 64).toUInt8 = a
      generalize hb : (0x80 + code % 64).toUInt8 = b
      have ha' : a.toNat = 0xC0 + code / 64 := by rw [← ha, toNat_toUInt8 (by omega)]
      have hb' : b.toNat = 0x80 + code % 64 := by rw [← hb, toNat_toUInt8 (by omega)]
      have hsize : sizeOfFirst a = 2 := by
        rw [sizeOfFirst_eq, ha']
        split_ifs <;> omega
      have hsecond : isSecond a b = true := isSecond_eq_true_iff.2 (by omega)
      have hmask : (a &&& 0x1F).toNat = a.toNat % 2 ^ 5 := toNat_and_mask rfl a
      simp only [List.cons_append, List.nil_append, decode, hsize, hsecond, if_true,
        List.length_cons, List.length_nil, payload_eq, hmask, ha', hb',
        Option.some.injEq, Prod.mk.injEq, and_true]
      omega
    · split
      · next hlow hmid hcode =>
        generalize ha : (0xE0 + code / 4096).toUInt8 = a
        generalize hb : (0x80 + code / 64 % 64).toUInt8 = b
        generalize hc : (0x80 + code % 64).toUInt8 = c
        have ha' : a.toNat = 0xE0 + code / 4096 := by rw [← ha, toNat_toUInt8 (by omega)]
        have hb' : b.toNat = 0x80 + code / 64 % 64 := by rw [← hb, toNat_toUInt8 (by omega)]
        have hc' : c.toNat = 0x80 + code % 64 := by rw [← hc, toNat_toUInt8 (by omega)]
        have hsize : sizeOfFirst a = 3 := by
          rw [sizeOfFirst_eq, ha']
          split_ifs <;> omega
        have hsecond : isSecond a b = true := isSecond_eq_true_iff.2 (by omega)
        have htail : isTail c = true := isTail_eq_true_iff.2 (by omega)
        have hmask : (a &&& 0x0F).toNat = a.toNat % 2 ^ 4 := toNat_and_mask rfl a
        simp only [List.cons_append, List.nil_append, decode, hsize, hsecond, htail, Bool.and_true,
          if_true, List.length_cons, List.length_nil, payload_eq, hmask, ha',
          hb', hc', Option.some.injEq, Prod.mk.injEq, and_true]
        omega
      · next hlow hmid hhigh =>
        generalize ha : (0xF0 + code / 262144).toUInt8 = a
        generalize hb : (0x80 + code / 4096 % 64).toUInt8 = b
        generalize hc : (0x80 + code / 64 % 64).toUInt8 = c
        generalize hd : (0x80 + code % 64).toUInt8 = d
        have ha' : a.toNat = 0xF0 + code / 262144 := by rw [← ha, toNat_toUInt8 (by omega)]
        have hb' : b.toNat = 0x80 + code / 4096 % 64 := by rw [← hb, toNat_toUInt8 (by omega)]
        have hc' : c.toNat = 0x80 + code / 64 % 64 := by rw [← hc, toNat_toUInt8 (by omega)]
        have hd' : d.toNat = 0x80 + code % 64 := by rw [← hd, toNat_toUInt8 (by omega)]
        have hsize : sizeOfFirst a = 4 := by
          rw [sizeOfFirst_eq, ha']
          split_ifs <;> omega
        have hsecond : isSecond a b = true := isSecond_eq_true_iff.2 (by omega)
        have htail : isTail c = true ∧ isTail d = true :=
          ⟨isTail_eq_true_iff.2 (by omega), isTail_eq_true_iff.2 (by omega)⟩
        have hmask : (a &&& 0x07).toNat = a.toNat % 2 ^ 3 := toNat_and_mask rfl a
        simp only [List.cons_append, List.nil_append, decode, hsize, hsecond, htail, Bool.and_true,
          if_true, List.length_cons, List.length_nil, payload_eq, hmask, ha',
          hb', hc', hd', Option.some.injEq, Prod.mk.injEq, and_true]
        omega

theorem encode_ne_nil (code : Nat) : encode code ≠ [] := by
  unfold encode
  split_ifs <;> simp

end Utf8

open Utf8 (IsScalar)

theorem mapChars_encode (f : Nat → Nat) {code : Nat} (h : IsScalar code) (rest : Bytes) :
    mapChars f (Utf8.encode code ++ rest) = Utf8.encode (f code) ++ mapChars f rest := by
  have hdecode := Utf8.decode_encode h rest
  cases hcode : Utf8.encode code with
  | nil => exact absurd hcode (Utf8.encode_ne_nil code)
  | cons a r =>
    rw [hcode, List.cons_append] at hdecode
    rw [List.cons_append, mapChars, hdecode]
    simp

/-- A mapping of characters that leaves its results alone leaves the texts that it has mapped
alone. -/
theorem mapChars_mapChars {f : Nat → Nat}
    (hf : ∀ code, IsScalar code → IsScalar (f code) ∧ f (f code) = f code)
    (hr : f 0xFFFD = 0xFFFD) (s : Bytes) : mapChars f (mapChars f s) = mapChars f s := by
  fun_induction mapChars f s with
  | case1 => rw [mapChars]
  | case2 a r code n hdecode ih =>
    obtain ⟨hscalar, hsame⟩ := hf code (Utf8.isScalar_of_decode hdecode)
    rw [mapChars_encode f hscalar, hsame, ih]
  | case3 a r hdecode ih =>
    have hcode : Utf8.replacement = Utf8.encode 0xFFFD := by decide
    rw [hcode, mapChars_encode f (by unfold IsScalar; omega), hr, ih]

namespace CaseRange

def target (r : CaseRange) : Nat × Nat :=
  ((r.first + r.shift).toNat, (r.last + r.shift).toNat)

/-- The code points of a range are mapped to characters that another range does not contain: they
lie before it or behind it, or between its members. -/
def avoids (r q : CaseRange) : Bool :=
  r.target.2.blt q.first || q.last.blt r.target.1 ||
    q.step.beq 2 && (r.step.beq 2 || r.first.beq r.last) && ((r.target.1 + q.first) % 2).beq 1

def isRegular (r : CaseRange) : Bool :=
  0 ≤ r.first + r.shift && (r.last + r.shift < 0xD800 ||
    0xE000 ≤ r.first + r.shift && r.last + r.shift < 0x110000)

theorem contains_eq_true_iff {r : CaseRange} {code : Nat} : r.contains code = true ↔
    r.first ≤ code ∧ code ≤ r.last ∧ (code - r.first) % r.step = 0 := by
  simp only [contains, Bool.and_eq_true, decide_eq_true_eq, beq_iff_eq, and_assoc]

theorem contains_of_avoids {r q : CaseRange} {code : Nat} (h : r.avoids q = true)
    (hr : r.isRegular = true) (hc : r.contains code = true) :
    q.contains (code + r.shift).toNat = false := by
  rw [Bool.eq_false_iff, ne_eq, contains_eq_true_iff]
  rw [contains_eq_true_iff] at hc
  simp only [isRegular, Bool.and_eq_true, decide_eq_true_eq] at hr
  simp only [avoids, target, Bool.or_eq_true, Bool.and_eq_true, Nat.blt_eq, Nat.beq_eq] at h
  rintro ⟨hfirst, hlast, hstep⟩
  rcases h with (h | h) | ⟨⟨hq, h | h⟩, hodd⟩
  · omega
  · omega
  · rw [h] at hc
    rw [hq] at hstep
    omega
  · rw [hq] at hstep
    omega

/-- The range in which a code point is found. -/
theorem mem_of_find? {ranges : List CaseRange} {r : CaseRange} {code : Nat}
    (h : ranges.find? (·.contains code) = some r) : r ∈ ranges ∧ r.contains code = true :=
  ⟨List.mem_of_find?_eq_some h, List.find?_some (p := fun q : CaseRange => q.contains code) h⟩

variable {ranges : List CaseRange}

theorem apply_apply (hr : ∀ r ∈ ranges, r.isRegular = true)
    (h : ∀ r ∈ ranges, ∀ q ∈ ranges, r.avoids q = true) (code : Nat) :
    apply ranges (apply ranges code) = apply ranges code := by
  cases hfind : ranges.find? (·.contains code) with
  | none =>
    have hkeep : apply ranges code = code := by rw [apply, hfind]
    rw [hkeep, hkeep]
  | some r =>
    obtain ⟨hmem, hcontains⟩ := mem_of_find? hfind
    apply apply_eq_self
    intro q hq
    rw [apply, hfind]
    exact contains_of_avoids (h r hmem q hq) (hr r hmem) hcontains

theorem isScalar_apply (hr : ∀ r ∈ ranges, r.isRegular = true) {code : Nat}
    (h : IsScalar code) : IsScalar (apply ranges code) := by
  rw [apply]
  cases hfind : ranges.find? (·.contains code) with
  | none => exact h
  | some r =>
    obtain ⟨hmem, hcontains⟩ := mem_of_find? hfind
    have hregular := hr r hmem
    rw [contains_eq_true_iff] at hcontains
    simp only [isRegular, Bool.and_eq_true, Bool.or_eq_true, decide_eq_true_eq] at hregular
    dsimp only
    unfold IsScalar
    omega

end CaseRange

/-- What holds of the table: its ranges are regular, no character in upper case has another upper
case, and only the first range is one of ASCII characters. -/
theorem upperRanges_table : (∀ r ∈ upperRanges, r.isRegular = true) ∧
    upperRanges.all (fun r => upperRanges.all r.avoids) = true ∧
    ∀ r ∈ upperRanges.tail, 0x80 ≤ r.first := by
  decide +kernel

theorem upperRanges_avoid : ∀ r ∈ upperRanges, ∀ q ∈ upperRanges, r.avoids q = true := by
  intro r hr
  exact List.all_eq_true.1 (List.all_eq_true.1 upperRanges_table.2.1 r hr)

theorem upperCode_of_lt {code : Nat} (h : code < 0x80) :
    upperCode code = if 0x61 ≤ code ∧ code ≤ 0x7A then code - 0x20 else code := by
  have hsplit : upperRanges = ⟨0x61, 0x7A, 1, -32⟩ :: upperRanges.tail := rfl
  rw [upperCode]
  split
  · next hlower =>
    have hfind : upperRanges.find? (·.contains code) = some ⟨0x61, 0x7A, 1, -32⟩ := by
      rw [hsplit, List.find?_cons_of_pos]
      simp [CaseRange.contains, hlower, Nat.mod_one]
    rw [CaseRange.apply, hfind]
    dsimp only
    omega
  · next hother =>
    apply CaseRange.apply_eq_self
    intro r hr
    rw [Bool.eq_false_iff, ne_eq, CaseRange.contains_eq_true_iff]
    rw [hsplit] at hr
    rcases List.mem_cons.1 hr with rfl | hr
    · exact fun hc => hother ⟨hc.1, hc.2.1⟩
    · have hfirst := upperRanges_table.2.2 r hr
      omega

theorem toNat_upperByte (b : UInt8) : (upperByte b).toNat =
    if 0x61 ≤ b.toNat ∧ b.toNat ≤ 0x7A then b.toNat - 0x20 else b.toNat := by
  have hlower : (0x61 ≤ b && b ≤ 0x7A) = true ↔ 0x61 ≤ b.toNat ∧ b.toNat ≤ 0x7A := by
    rw [Bool.and_eq_true, decide_eq_true_eq, decide_eq_true_eq, UInt8.le_iff_toNat_le,
      UInt8.le_iff_toNat_le]
    rfl
  rw [upperByte]
  by_cases h : 0x61 ≤ b.toNat ∧ b.toNat ≤ 0x7A
  · have hle : (0x20 : UInt8) ≤ b := UInt8.le_iff_toNat_le.2 (Nat.le_trans (by decide) h.1)
    rw [if_pos h, if_pos (hlower.2 h), UInt8.toNat_sub_of_le _ _ hle]
    rfl
  · rw [if_neg h, if_neg (mt hlower.1 h)]

theorem upperByte_upperByte (b : UInt8) : upperByte (upperByte b) = upperByte b := by
  rw [← UInt8.toNat_inj, toNat_upperByte, toNat_upperByte]
  split_ifs <;> omega

theorem encode_upperCode {b : UInt8} (h : isAscii b = true) :
    Utf8.encode (upperCode b.toNat) = [upperByte b] := by
  have hlt : b.toNat < 0x80 := UInt8.lt_iff_toNat_lt.1 (of_decide_eq_true h)
  have hupper : (upperByte b).toNat < 0x80 := by
    rw [toNat_upperByte]
    split <;> omega
  rw [upperCode_of_lt hlt, ← toNat_upperByte, Utf8.encode, if_pos hupper, Nat.toUInt8,
    UInt8.ofNat_toNat]

/-- The upper case of a text is that of its characters. -/
theorem upper_eq (s : Bytes) : upper s = mapChars upperCode s := by
  rw [upper]
  split
  · next hs =>
    rw [List.all_eq_true] at hs
    induction s with
    | nil => rw [mapChars]; rfl
    | cons b r ih =>
      rw [List.forall_mem_cons] at hs
      have hb : b < 0x80 := of_decide_eq_true hs.1
      have hdecode : Utf8.decode (b :: r) = some (b.toNat, 1) := by
        simp only [Utf8.decode, Utf8.sizeOfFirst, hb, if_true]
      rw [mapChars, hdecode, List.map_cons, ih hs.2]
      dsimp only
      rw [encode_upperCode hs.1]
      rfl
  · rfl

/-- A text in upper case is its own upper case. -/
theorem upper_upper (s : Bytes) : upper (upper s) = upper s := by
  rw [upper_eq, upper_eq s]
  apply mapChars_mapChars
  · intro code h
    exact ⟨CaseRange.isScalar_apply upperRanges_table.1 h,
      CaseRange.apply_apply upperRanges_table.1 upperRanges_avoid code⟩
  · rfl

end Forge6809.Text
