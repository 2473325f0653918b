import Forge6809.Disk.Name
import Forge6809.Proofs.Text.Uppercase
import Forge6809.Word
import Mathlib.Tactic

/-! # Directory forms and canonical names

A name that a disk accepts has one directory form, and the directory form stands for one canonical
name: the same name in upper case, without directories. The canonical name has that directory form
again, so a file that is listed can be asked for by the name under which it is listed. -/

namespace Forge6809

namespace Text

theorem cutLast?_append {sep : UInt8} {s t : Bytes} (ht : sep ∉ t) :
    cutLast? sep (s ++ sep :: t) = some (s, t) := by
  have hall : ∀ b ∈ t.reverse, (b != sep) = true := by
    intro b hb
    rw [bne_iff_ne]
    rintro rfl
    exact ht (List.mem_reverse.1 hb)
  have hsplit : (s ++ sep :: t).reverse = t.reverse ++ sep :: s.reverse := by
    simp
  rw [cutLast?, if_pos (by simp), hsplit, List.dropWhile_append_of_pos hall,
    List.takeWhile_append_of_pos hall]
  simp

theorem cutLast?_of_notMem {sep : UInt8} {s : Bytes} (h : sep ∉ s) : cutLast? sep s = none :=
  if_neg h

theorem upper_of_ascii {s : Bytes} (h : ∀ b ∈ s, isAscii b = true) : upper s = s.map upperByte :=
  if_pos (List.all_eq_true.2 h)

theorem Utf8.count_of_ascii {s : Bytes} (h : ∀ b ∈ s, isAscii b = true) : count s = s.length := by
  induction s with
  | nil => rw [count, List.length_nil]
  | cons b r ih =>
    rw [List.forall_mem_cons] at h
    have hb : b < 0x80 := of_decide_eq_true h.1
    have hwidth : width (b :: r) = 1 := by
      simp only [width, decode, sizeOfFirst, hb, if_true]
    rw [count, hwidth, Nat.sub_self, List.drop_zero, ih h.2, List.length_cons]

theorem padRight_of_ascii {width : Nat} {s : Bytes} (h : ∀ b ∈ s, isAscii b = true) :
    padRight width s = s ++ List.replicate (width - s.length) 0x20 := by
  rw [padRight, Utf8.count_of_ascii h]

end Text

theorem Store.Path.base_of_notMem {path : Bytes} (hne : path ≠ []) (h : Text.slash ∉ path) :
    base path = path := by
  have htrim : Text.trimEnd (· == Text.slash) path = path := by
    have hend := Text.trimEnd_append (p := (· == Text.slash)) (s := path) (t := []) ?_ (by simp)
    · rwa [List.append_nil] at hend
    · intro b hb
      rw [beq_eq_false_iff_ne]
      rintro rfl
      exact h hb
  rw [base, if_neg hne]
  dsimp only
  rw [htrim, if_neg hne, split, Text.cutLast?_of_notMem h]

namespace Disk

open Text

theorem isAscii_of_isNameByte (b : UInt8) : isNameByte b = true → isAscii b = true :=
  forall_byte (p := fun b => isNameByte b = true → isAscii b = true) (by decide +kernel) b

theorem isNameByte_upperByte (b : UInt8) :
    isNameByte b = true → isNameByte (upperByte b) = true :=
  forall_byte (p := fun b => isNameByte b = true → isNameByte (upperByte b) = true)
    (by decide +kernel) b

/-- What a name may not hold: spaces, dots, slashes and the marks of unused slots. -/
theorem ne_of_isNameByte {b : UInt8} (h : isNameByte b = true) :
    b ≠ 0x20 ∧ b ≠ 0x2E ∧ b ≠ slash ∧ b ≠ 0x00 ∧ b ≠ 0xFF := by
  refine ⟨?_, ?_, ?_, ?_, ?_⟩ <;> rintro rfl <;> exact absurd h (by decide)

/-- A name and an extension that a disk accepts. -/
structure IsName (base ext : Bytes) : Prop where
  ne_nil : base ≠ []
  base_le : base.length ≤ 8
  ext_le : ext.length ≤ 3
  base_bytes : ∀ b ∈ base, isNameByte b = true
  ext_bytes : ∀ b ∈ ext, isNameByte b = true

def rawName (base ext : Bytes) : Bytes :=
  (base ++ List.replicate (8 - base.length) 0x20) ++ (ext ++ List.replicate (3 - ext.length) 0x20)

def fullName (base ext : Bytes) : Bytes :=
  if ext = [] then base else base ++ 0x2E :: ext

def canonicalName (name : Bytes) : Bytes :=
  fullName (upper (splitName name).1) (upper (splitName name).2)

section IsName

variable {base ext : Bytes}

theorem upper_of_isNameByte {s : Bytes} (h : ∀ b ∈ s, isNameByte b = true) :
    upper s = s.map upperByte :=
  upper_of_ascii fun b hb => isAscii_of_isNameByte b (h b hb)

theorem isNameByte_upper {s : Bytes} (h : ∀ b ∈ s, isNameByte b = true) :
    ∀ b ∈ upper s, isNameByte b = true := by
  rw [upper_of_isNameByte h]
  intro b hb
  obtain ⟨a, ha, rfl⟩ := List.mem_map.1 hb
  exact isNameByte_upperByte a (h a ha)

theorem length_upper {s : Bytes} (h : ∀ b ∈ s, isNameByte b = true) :
    (upper s).length = s.length := by
  rw [upper_of_isNameByte h, List.length_map]

theorem upper_upper {s : Bytes} (h : ∀ b ∈ s, isNameByte b = true) :
    upper (upper s) = upper s := by
  rw [upper_of_isNameByte (isNameByte_upper h), upper_of_isNameByte h, List.map_map]
  refine List.map_congr_left fun b _ => upperByte_upperByte b

theorem IsName.upper (h : IsName base ext) : IsName (Text.upper base) (Text.upper ext) where
  ne_nil := by
    rw [← List.length_pos_iff, length_upper h.base_bytes]
    exact List.length_pos_iff.2 h.ne_nil
  base_le := (length_upper h.base_bytes).trans_le h.base_le
  ext_le := (length_upper h.ext_bytes).trans_le h.ext_le
  base_bytes := isNameByte_upper h.base_bytes
  ext_bytes := isNameByte_upper h.ext_bytes

theorem IsName.padRight_eq (h : IsName base ext) :
    padRight 8 (Text.upper base) ++ padRight 3 (Text.upper ext) =
      rawName (Text.upper base) (Text.upper ext) := by
  rw [padRight_of_ascii fun b hb => isAscii_of_isNameByte b (h.upper.base_bytes b hb),
    padRight_of_ascii fun b hb => isAscii_of_isNameByte b (h.upper.ext_bytes b hb), rawName]

theorem IsName.length_rawName (h : IsName base ext) : (rawName base ext).length = 11 := by
  have hbase := h.base_le
  have hext := h.ext_le
  simp only [rawName, List.length_append, List.length_replicate]
  omega

/-- The first byte of a directory form marks a slot that is in use. -/
theorem IsName.rawName_mark (h : IsName base ext) :
    (rawName base ext).getD 0 0 ≠ 0x00 ∧ (rawName base ext).getD 0 0 ≠ 0xFF := by
  cases base with
  | nil => exact absurd rfl h.ne_nil
  | cons b rest =>
    have hne := ne_of_isNameByte (h.base_bytes b List.mem_cons_self)
    exact ⟨hne.2.2.2.1, hne.2.2.2.2⟩

theorem IsName.entryName_rawName (h : IsName base ext) (rest : Bytes) :
    entryName (rawName base ext ++ rest) = fullName base ext := by
  have hbase : (base ++ List.replicate (8 - base.length) (0x20 : UInt8)).length = 8 := by
    have := h.base_le
    simp only [List.length_append, List.length_replicate]
    omega
  have hext : (ext ++ List.replicate (3 - ext.length) (0x20 : UInt8)).length = 3 := by
    have := h.ext_le
    simp only [List.length_append, List.length_replicate]
    omega
  have hspace {s : Bytes} (hs : ∀ b ∈ s, isNameByte b = true) (count : Nat) :
      trimEnd (· == 0x20) (s ++ List.replicate count 0x20) = s := by
    refine trimEnd_append (fun b hb => ?_) fun b hb => ?_
    · exact beq_eq_false_iff_ne.2 (ne_of_isNameByte (hs b hb)).1
    · exact beq_iff_eq.2 (List.eq_of_mem_replicate hb)
  rw [entryName, rawName, List.append_assoc, List.take_left' hbase, List.drop_left' hbase,
    List.take_left' hext, hspace h.base_bytes, hspace h.ext_bytes, fullName]

theorem IsName.splitName_fullName (h : IsName base ext) :
    splitName (fullName base ext) = (base, ext) := by
  have hslash {s : Bytes} (hs : ∀ b ∈ s, isNameByte b = true) : slash ∉ s :=
    fun hmem => (ne_of_isNameByte (hs _ hmem)).2.2.1 rfl
  have hdot {s : Bytes} (hs : ∀ b ∈ s, isNameByte b = true) : (0x2E : UInt8) ∉ s :=
    fun hmem => (ne_of_isNameByte (hs _ hmem)).2.1 rfl
  by_cases hext : ext = []
  · subst hext
    rw [fullName, if_pos rfl, splitName, Store.Path.base_of_notMem h.ne_nil (hslash h.base_bytes),
      cutLast?_of_notMem (hdot h.base_bytes)]
    rfl
  · have hmem : slash ∉ base ++ 0x2E :: ext := by
      rw [List.mem_append, List.mem_cons]
      rintro (hb | hb | hb)
      · exact hslash h.base_bytes hb
      · exact absurd hb (by decide)
      · exact hslash h.ext_bytes hb
    rw [fullName, if_neg hext, splitName, Store.Path.base_of_notMem (by simp) hmem,
      cutLast?_append (hdot h.ext_bytes)]
    rfl

end IsName

theorem dirName_eq_ok_iff {name raw : Bytes} : dirName name = .ok raw ↔
    IsName (splitName name).1 (splitName name).2 ∧
      raw = rawName (upper (splitName name).1) (upper (splitName name).2) := by
  rw [dirName]
  rcases splitName name with ⟨base, ext⟩
  dsimp only
  constructor
  · intro h
    split at h
    · cases h
    split at h
    · cases h
    next hlen hbytes =>
    simp only [not_or, Nat.not_lt, Bool.not_eq_true, Bool.not_eq_false', List.all_eq_true,
      List.mem_append] at hlen hbytes
    have hname : IsName base ext := ⟨hbytes.1, hlen.1, hlen.2, fun b hb => hbytes.2 b (.inl hb),
      fun b hb => hbytes.2 b (.inr hb)⟩
    exact ⟨hname, by rw [← hname.padRight_eq]; exact (Except.ok.inj h).symm⟩
  · rintro ⟨hname, rfl⟩
    have hall : (base ++ ext).all isNameByte = true := by
      rw [List.all_append, List.all_eq_true.2 hname.base_bytes,
        List.all_eq_true.2 hname.ext_bytes]
      rfl
    rw [if_neg (by have := hname.base_le; have := hname.ext_le; omega), hall, hname.padRight_eq,
      if_neg (by simp [hname.ne_nil])]

section DirName

variable {name raw : Bytes}

theorem length_of_dirName (h : dirName name = .ok raw) : raw.length = 11 := by
  obtain ⟨hname, rfl⟩ := dirName_eq_ok_iff.1 h
  exact hname.upper.length_rawName

theorem mark_of_dirName (h : dirName name = .ok raw) :
    raw.getD 0 0 ≠ 0x00 ∧ raw.getD 0 0 ≠ 0xFF := by
  obtain ⟨hname, rfl⟩ := dirName_eq_ok_iff.1 h
  exact hname.upper.rawName_mark

/-- A directory form is listed under the canonical name. -/
theorem entryName_of_dirName (h : dirName name = .ok raw) (rest : Bytes) :
    entryName (raw ++ rest) = canonicalName name := by
  obtain ⟨hname, rfl⟩ := dirName_eq_ok_iff.1 h
  exact hname.upper.entryName_rawName rest

/-- The canonical name has the same directory form. -/
theorem dirName_canonicalName (h : dirName name = .ok raw) :
    dirName (canonicalName name) = .ok raw := by
  obtain ⟨hname, rfl⟩ := dirName_eq_ok_iff.1 h
  rw [dirName_eq_ok_iff, canonicalName, hname.upper.splitName_fullName]
  exact ⟨hname.upper, by rw [upper_upper hname.base_bytes, upper_upper hname.ext_bytes]⟩

end DirName
end Disk
end Forge6809
