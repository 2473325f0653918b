import Forge6809.Proofs.Disk.Name

/-! # Canonical names

The last element of a path is a base with an extension after its last dot, or a base alone, in
exactly one way. A disk accepts the name if both are short enough and made of printable characters;
the directory form that it is given can be read back, marks a slot in use and tells two names apart
unless they differ only in directories and the case of letters. -/

namespace Forge6809.Disk

open Text

/-- A base and an extension of a path element: what stands before its last dot and what stands
after it. Without a dot there is only a base. -/
inductive LastDot : Bytes → Bytes → Bytes → Prop
  | plain {base : Bytes} : 0x2E ∉ base → LastDot base base []
  | dotted {base ext : Bytes} : 0x2E ∉ ext → LastDot (base ++ 0x2E :: ext) base ext

theorem exists_lastDot (element : Bytes) : ∃ base ext, LastDot element base ext := by
  induction element with
  | nil => exact ⟨[], [], .plain List.not_mem_nil⟩
  | cons b r ih =>
    -- The first byte matters only if it is the only dot.
    obtain ⟨base, ext, h⟩ := ih
    cases h with
    | plain hr =>
      by_cases hb : b = 0x2E
      · subst hb
        have hdot : LastDot ([] ++ 0x2E :: r) [] r := .dotted hr
        exact ⟨[], r, hdot⟩
      · exact ⟨b :: r, [], .plain (List.not_mem_cons_of_ne_of_not_mem (Ne.symm hb) hr)⟩
    | dotted hext =>
      have hdot : LastDot ((b :: base) ++ 0x2E :: ext) (b :: base) ext := .dotted hext
      exact ⟨b :: base, ext, hdot⟩

theorem LastDot.splitName_eq {name base ext : Bytes}
    (h : LastDot (Store.Path.base name) base ext) : splitName name = (base, ext) := by
  rw [splitName]
  generalize Store.Path.base name = element at h
  cases h with
  | plain hbase => rw [cutLast?_of_notMem hbase, Option.getD_none]
  | dotted hext => rw [cutLast?_append hext, Option.getD_some]

theorem lastDot_splitName (name : Bytes) :
    LastDot (Store.Path.base name) (splitName name).1 (splitName name).2 := by
  obtain ⟨base, ext, h⟩ := exists_lastDot (Store.Path.base name)
  rw [h.splitName_eq]
  exact h

/-- A base and an extension that fit a directory entry. -/
structure NameFits (base ext : Bytes) : Prop where
  base_length : 1 ≤ base.length ∧ base.length ≤ 8
  ext_length : ext.length ≤ 3
  printable : ∀ b ∈ base ++ ext, 0x21 ≤ b ∧ b ≤ 0x7E
  unmarked : ∀ b ∈ base ++ ext, b ≠ 0x2E ∧ b ≠ 0x2F

theorem isNameByte_iff (b : UInt8) :
    isNameByte b = true ↔ (0x21 ≤ b ∧ b ≤ 0x7E) ∧ b ≠ 0x2E ∧ b ≠ 0x2F :=
  forall_byte
    (p := fun b => isNameByte b = true ↔ (0x21 ≤ b ∧ b ≤ 0x7E) ∧ b ≠ 0x2E ∧ b ≠ 0x2F)
    (by decide +kernel) b

variable {base ext base' ext' : Bytes}

theorem nameFits_iff_isName : NameFits base ext ↔ IsName base ext := by
  constructor
  · intro h
    have hbyte (b : UInt8) (hb : b ∈ base ++ ext) : isNameByte b = true :=
      (isNameByte_iff b).2 ⟨h.printable b hb, h.unmarked b hb⟩
    exact ⟨List.length_pos_iff.1 h.base_length.1, h.base_length.2, h.ext_length,
      fun b hb => hbyte b (List.mem_append_left ext hb),
      fun b hb => hbyte b (List.mem_append_right base hb)⟩
  · intro h
    have hbyte (b : UInt8) (hb : b ∈ base ++ ext) :=
      (isNameByte_iff b).1 ((List.mem_append.1 hb).elim (h.base_bytes b) (h.ext_bytes b))
    exact ⟨⟨List.length_pos_iff.2 h.ne_nil, h.base_le⟩, h.ext_le,
      fun b hb => (hbyte b hb).1, fun b hb => (hbyte b hb).2⟩

/-- A directory form can be read back, so that it belongs to one name only. -/
theorem IsName.rawName_inj (h : IsName base ext) (h' : IsName base' ext') :
    rawName base ext = rawName base' ext' ↔ base = base' ∧ ext = ext' := by
  constructor
  · intro heq
    have hfull : fullName base ext = fullName base' ext' := by
      rw [← h.entryName_rawName [], heq, h'.entryName_rawName]
    have hsplit : (base, ext) = (base', ext') := by
      rw [← h.splitName_fullName, hfull, h'.splitName_fullName]
    exact Prod.mk.inj hsplit
  · rintro ⟨rfl, rfl⟩
    rfl

section Directory

variable {name name' raw raw' : Bytes}

theorem LastDot.dirName_eq_ok_iff (h : LastDot (Store.Path.base name) base ext) :
    dirName name = .ok raw ↔
      NameFits base ext ∧ raw = rawName (base.map upperByte) (ext.map upperByte) := by
  rw [Disk.dirName_eq_ok_iff, h.splitName_eq, nameFits_iff_isName]
  refine and_congr_right fun hname => ?_
  rw [upper_of_isNameByte hname.base_bytes, upper_of_isNameByte hname.ext_bytes]

theorem LastDot.dirName_eq_tooLong_iff (h : LastDot (Store.Path.base name) base ext) :
    dirName name = .error .nameTooLong ↔ 8 < base.length ∨ 3 < ext.length := by
  rw [dirName, h.splitName_eq]
  dsimp only
  split
  next hlong => exact iff_of_true rfl hlong
  next hshort =>
    refine iff_of_false (fun h => ?_) hshort
    split at h <;> cases h

theorem dirName_error {cause : Cause} (h : dirName name = .error cause) :
    cause = .nameTooLong ∨ cause = .nameInvalid := by
  rw [dirName] at h
  split at h
  split at h
  · exact .inl (Except.error.inj h).symm
  · split at h
    · exact .inr (Except.error.inj h).symm
    · cases h

theorem NameFits.isName_upper (h : NameFits base ext) :
    IsName (base.map upperByte) (ext.map upperByte) := by
  have hname := nameFits_iff_isName.1 h
  rw [← upper_of_isNameByte hname.base_bytes, ← upper_of_isNameByte hname.ext_bytes]
  exact hname.upper

/-- What stands in the directory under an accepted name. -/
structure Filed (base ext raw : Bytes) : Prop where
  length : raw.length = 11
  /-- The slot is neither deleted nor unused. -/
  mark : ∀ b, raw.head? = some b → b ≠ 0x00 ∧ b ≠ 0xFF
  entry : entryName raw = if ext = [] then base.map upperByte
    else base.map upperByte ++ 0x2E :: ext.map upperByte
  again : dirName (entryName raw) = .ok raw

theorem LastDot.filed (h : LastDot (Store.Path.base name) base ext)
    (hraw : dirName name = .ok raw) : Filed base ext raw := by
  obtain ⟨hfits, rfl⟩ := h.dirName_eq_ok_iff.1 hraw
  have hentry := hfits.isName_upper.entryName_rawName []
  rw [List.append_nil] at hentry
  refine ⟨length_of_dirName hraw, fun b hb => ?_, ?_, ?_⟩
  · have hmark := mark_of_dirName hraw
    rwa [List.getD_eq_getElem?_getD, ← List.head?_eq_getElem?, hb] at hmark
  · simp only [hentry, fullName, List.map_eq_nil_iff]
  · have hagain := dirName_canonicalName hraw
    rwa [← entryName_of_dirName hraw [], List.append_nil] at hagain

/-- Every path has one base and one extension, and they alone decide what a disk makes of it: which
names it accepts, which error it gives, how the file is listed and which other names mean it. -/
theorem dirName_canonical (name : Bytes) :
    (∃! p : Bytes × Bytes, LastDot (Store.Path.base name) p.1 p.2) ∧
    ∀ base ext, LastDot (Store.Path.base name) base ext →
      ((∃ raw, dirName name = .ok raw) ↔ NameFits base ext) ∧
      (dirName name = .error .nameTooLong ↔ 8 < base.length ∨ 3 < ext.length) ∧
      (∀ cause, dirName name = .error cause → cause = .nameTooLong ∨ cause = .nameInvalid) ∧
      ∀ raw, dirName name = .ok raw →
        Filed base ext raw ∧
        ∀ name' base' ext' raw', LastDot (Store.Path.base name') base' ext' →
          dirName name' = .ok raw' →
          (raw = raw' ↔
            base.map upperByte = base'.map upperByte ∧ ext.map upperByte = ext'.map upperByte) := by
  refine ⟨⟨splitName name, lastDot_splitName name, fun p hp => ?_⟩, fun base ext h => ?_⟩
  · exact hp.splitName_eq.symm
  refine ⟨?_, ?_, ?_, ?_⟩
  · simp only [h.dirName_eq_ok_iff, exists_and_left, exists_eq, and_true]
  · exact h.dirName_eq_tooLong_iff
  · exact fun cause => dirName_error
  · intro raw hraw
    refine ⟨h.filed hraw, fun name' base' ext' raw' h' hraw' => ?_⟩
    obtain ⟨hfits, rfl⟩ := h.dirName_eq_ok_iff.1 hraw
    obtain ⟨hfits', rfl⟩ := h'.dirName_eq_ok_iff.1 hraw'
    exact hfits.isName_upper.rawName_inj hfits'.isName_upper

/-- The path to a saved game, with a slash at its end, and the name that it has on the disk are two
names of one file, listed without directories and in upper case. -/
theorem savedGame_canonical :
    ∃ raw, dirName (ofString "saves/v1.2/Game.Bas/") = .ok raw ∧
      dirName (ofString "GAME.BAS") = .ok raw ∧ entryName raw = ofString "GAME.BAS" := by
  have hpath : LastDot (Store.Path.base (ofString "saves/v1.2/Game.Bas/"))
      (ofString "Game") (ofString "Bas") := by
    rw [show Store.Path.base (ofString "saves/v1.2/Game.Bas/") =
      ofString "Game" ++ 0x2E :: ofString "Bas" by decide +kernel]
    exact .dotted (by decide +kernel)
  have hfits : NameFits (ofString "Game") (ofString "Bas") := by
    constructor <;> decide +kernel
  obtain ⟨haccepted, -, -, hfiled⟩ := (dirName_canonical _).2 _ _ hpath
  obtain ⟨raw, hraw⟩ := haccepted.2 hfits
  have hentry : entryName raw = ofString "GAME.BAS" :=
    (hfiled raw hraw).1.entry.trans (by decide +kernel)
  refine ⟨raw, hraw, ?_, hentry⟩
  rw [← hentry]
  exact (hfiled raw hraw).1.again

end Directory
end Forge6809.Disk
