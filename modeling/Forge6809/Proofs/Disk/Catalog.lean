import Forge6809.Proofs.Disk.Placement
import Mathlib.Data.List.Forall2

/-! # A disk as a map of files

A new disk to which files are added is an ordered map from directory forms to contents. Its slots
are used one after the other: the directory lists the files that were accepted in the order in
which they were added, each of them can be read under every name that has its directory form, and
no other name is found. -/

namespace Forge6809.Disk

/-- Adds files in turn; those that are refused leave the disk as it is. -/
def addAll (d : Disk) (fs : List NewFile) : Disk :=
  fs.foldl (fun d f => (d.add f).2) d

/-- Those of some files that are accepted when they are added in turn. -/
def accepted (d : Disk) : List NewFile → List NewFile
  | [] => []
  | f :: rest =>
    match d.add f with
    | (.error _, d) => d.accepted rest
    | (.ok _, d) => f :: d.accepted rest

/-- An entry that lists a file, and under which the file is read. -/
structure Lists (d : Disk) (f : NewFile) (e : Entry) : Prop where
  name : e.name = canonicalName f.name
  type : e.type = f.type
  mode : e.mode = if f.mode.resolve f.type = .ascii then .ascii else .binary
  size : e.size = f.data.length
  read : d.read e.name = .ok f.data
  read_of_dirName (name : Bytes) : dirName name = dirName e.name → d.read name = .ok f.data

/-- A disk that is a map of files, in order. -/
structure Refines (d : Disk) (kept : List NewFile) : Prop where
  /-- No two files have the same directory form. -/
  nodup : (kept.map fun f => dirName f.name).Nodup
  /-- The directory can be listed to its end. -/
  complete : d.files.2 = none
  /-- The directory lists the files. -/
  listed : List.Forall₂ d.Lists kept d.files.1
  /-- Other names are not found. -/
  other (name raw : Bytes) : dirName name = .ok raw →
    (∀ e ∈ d.files.1, dirName e.name ≠ dirName name) → d.read name = .error ⟨name, .notFound⟩

/-- The placed files of a disk, one in each slot from the first one on. -/
structure Catalog (d : Disk) (ps : List Placement) : Prop where
  slots : ps.map (·.slot) = List.range ps.length
  stored (p : Placement) : p ∈ ps → d.Stores p
  unused (s : Nat) : ps.length ≤ s → s < entryCount → d.mark s = 0x00
  nodup : (ps.map (·.raw)).Nodup
  unformatted : d.formatted = false → ps = []

section Catalog

variable {d : Disk} {ps : List Placement} {p : Placement} {raw : Bytes} {s : Nat}

/-- Every slot holds a placed file or was never used. -/
theorem Catalog.cases (h : d.Catalog ps) (hs : s < entryCount) :
    (∃ p ∈ ps, p.slot = s) ∨ ps.length ≤ s ∧ d.mark s = 0x00 := by
  by_cases hlt : s < ps.length
  · left
    have hmem : s ∈ ps.map (·.slot) := by
      rw [h.slots]
      exact List.mem_range.2 hlt
    exact List.mem_map.1 hmem
  · exact .inr ⟨by omega, h.unused s (by omega) hs⟩

theorem Catalog.slot_lt (h : d.Catalog ps) (hp : p ∈ ps) : p.slot < ps.length := by
  rw [← List.mem_range, ← h.slots]
  exact List.mem_map_of_mem hp

theorem Catalog.mark_ne_end (h : d.Catalog ps) (hs : s < entryCount) : d.mark s ≠ 0xFF := by
  rcases h.cases hs with ⟨p, hp, rfl⟩ | ⟨-, hmark⟩
  · rw [(h.stored p hp).mark_eq]
    exact (h.stored p hp).named.2
  · rw [hmark]
    decide

theorem Catalog.names_iff (h : d.Catalog ps) (hs : s < entryCount) :
    d.Names raw s ↔ ∃ p ∈ ps, p.slot = s ∧ p.raw = raw := by
  constructor
  · intro hnames
    rcases h.cases hs with ⟨p, hp, rfl⟩ | ⟨-, hmark⟩
    · exact ⟨p, hp, rfl, ((h.stored p hp).names_iff.1 hnames).symm⟩
    · exact absurd hmark hnames.1
  · rintro ⟨p, hp, rfl, rfl⟩
    exact (h.stored p hp).names_iff.2 rfl

theorem Catalog.lookup?_of_mem (h : d.Catalog ps) (hp : p ∈ ps) :
    d.lookup? p.raw = some p.slot := by
  have hslot := (h.stored p hp).slot
  refine lookup?_eq_some_iff.2 ⟨hslot, h.mark_ne_end hslot, (h.stored p hp).names_iff.2 rfl, ?_⟩
  intro s hs
  refine ⟨h.mark_ne_end (hs.trans hslot), fun hnames => ?_⟩
  obtain ⟨q, hq, rfl, hraw⟩ := (h.names_iff (hs.trans hslot)).1 hnames
  have hsame : q = p := List.inj_on_of_nodup_map h.nodup hq hp hraw
  exact hs.ne (hsame ▸ rfl)

theorem Catalog.lookup?_of_notMem (h : d.Catalog ps) (hraw : ∀ p ∈ ps, p.raw ≠ raw) :
    d.lookup? raw = none := by
  refine lookup?_eq_none fun s hs hnames => ?_
  obtain ⟨p, hp, -, heq⟩ := (h.names_iff hs).1 hnames
  exact hraw p hp heq

theorem Catalog.contents_of_mem (h : d.Catalog ps) (hp : p ∈ ps) :
    d.contents p.raw = .ok p.data :=
  (h.stored p hp).contents_eq (h.lookup?_of_mem hp)

/-- The first slot that is not in use follows the slots in use. -/
theorem Catalog.slot_eq (h : d.Catalog ps) (hp : d.Room p) : p.slot = ps.length := by
  apply Nat.le_antisymm
  · by_contra hlt
    have hlen : ps.length < p.slot := by omega
    exact (hp.used _ hlen).1 (h.unused _ le_rfl (hlen.trans hp.slot))
  · rcases h.cases hp.slot with ⟨q, hq, hslot⟩ | ⟨hle, -⟩
    · have hnamed := (h.stored q hq).named
      rw [← (h.stored q hq).mark_eq, hslot] at hnamed
      exact absurd hp.unused (by simp [hnamed])
    · exact hle

theorem Stores.write (h : d.Stores p) {q : Placement} (hq : d.Room q) (hne : p.slot ≠ q.slot) :
    (d.write q).Stores p := by
  obtain ⟨hchain, hgather⟩ := entryChain_write hq h.chain
  exact {
    toFits := h.toFits
    named := h.named
    entry := (entry_write_of_ne hq.formatted hq.raw hne).trans h.entry
    chain := hchain
    contents := hgather.trans h.contents }

theorem Catalog.write (h : d.Catalog ps) (hp : d.Room p) : (d.write p).Catalog (ps ++ [p]) where
  slots := by
    rw [List.map_append, h.slots, List.length_append, List.map_singleton, List.length_singleton,
      List.range_succ, h.slot_eq hp]
  stored q hq := by
    rcases List.mem_append.1 hq with hq | hq
    · refine (h.stored q hq).write hp ?_
      have := h.slot_lt hq
      have := h.slot_eq hp
      omega
    · obtain rfl := List.mem_singleton.1 hq
      exact hp.stores
  unused s hle hs := by
    rw [List.length_append, List.length_singleton] at hle
    have hslot := h.slot_eq hp
    rw [mark_write_of_ne hp (by omega)]
    exact h.unused s (by omega) hs
  nodup := by
    rw [List.map_append, List.map_singleton, List.nodup_append_comm, List.singleton_append,
      List.nodup_cons]
    refine ⟨fun hmem => ?_, h.nodup⟩
    -- A name that the catalogue has is found, and this one was not.
    obtain ⟨q, hq, hraw⟩ := List.mem_map.1 hmem
    have hfound := h.lookup?_of_mem hq
    rw [hraw, hp.absent] at hfound
    cases hfound
  unformatted hd := by
    rw [formatted_write hp.formatted] at hd
    cases hd

end Catalog

section Blank

variable {d : Disk} {p : Placement} {f : NewFile}

theorem mark_new (s : Nat) : new.mark s = 0x00 := by
  rw [mark_eq, new, Vector.getElem?_replicate]
  split <;> rfl

theorem mark_blank (s : Nat) : blank.mark s = 0x00 := by
  rw [mark_eq, blank, getElem?_overwrite, if_neg, Vector.getElem?_replicate]
  · split <;> rfl
  · simp only [List.length_replicate, entriesOffset, tableOffset, sectorSize, granuleCount]
    omega

theorem allocation_blank {g : UInt8} (h : g.toNat < granuleCount) :
    blank.allocation g = freeMark := by
  rw [allocation_eq, blank, getElem?_overwrite, if_pos, Nat.add_sub_cancel_left,
    List.getElem?_replicate, if_pos h, Option.getD_some]
  simp only [List.length_replicate, tableOffset, sectorSize, granuleCount, trackSize] at *
  omega

theorem formatted_blank : blank.formatted = true :=
  rfl

theorem freeSlot?_blank : blank.freeSlot? = some 0 := by
  rw [freeSlot?_eq_some_iff formatted_blank]
  exact ⟨by decide, .inl (mark_blank 0), fun s hs => absurd hs (Nat.not_lt_zero s)⟩

theorem freeGranules_blank (count : Nat) : blank.freeGranules count = granuleOrder.take count := by
  rw [freeGranules, if_pos formatted_blank, List.filter_eq_self.2]
  intro g hg
  rw [allocation_blank (mem_granuleOrder.1 hg), beq_self_eq_true]

/-- An unformatted disk places files as a blank one does. -/
theorem place_blank (hd : d.formatted = false) (f : NewFile) : d.place f = blank.place f := by
  have hlookup (raw : Bytes) : blank.lookup? raw = none :=
    lookup?_eq_none fun s _ hnames => hnames.1 (mark_blank s)
  have hslot : d.freeSlot? = blank.freeSlot? := by
    rw [freeSlot?_blank, freeSlot?, if_neg (by simp [hd])]
  have hgranules (count : Nat) : d.freeGranules count = blank.freeGranules count := by
    rw [freeGranules_blank, freeGranules, if_neg (by simp [hd])]
  simp only [place, hd, hlookup, hslot, hgranules, Bool.false_and, Option.isSome_none,
    Bool.and_false]

/-- The disk that a file is written to: itself, or a blank one if it is not formatted. -/
def prepared (d : Disk) : Disk :=
  if d.formatted then d else blank

theorem prepared_of_formatted (hd : d.formatted = true) : d.prepared = d :=
  if_pos hd

theorem prepared_of_unformatted (hd : d.formatted = false) : d.prepared = blank :=
  if_neg (by simp [hd])

theorem formatted_prepared (d : Disk) : d.prepared.formatted = true := by
  cases hd : d.formatted with
  | true => rw [prepared_of_formatted hd, hd]
  | false => rw [prepared_of_unformatted hd, formatted_blank]

theorem write_prepared (d : Disk) (p : Placement) : d.write p = d.prepared.write p := by
  rw [write_of_formatted d.formatted_prepared, write, ← prepared]

/-- Every file is written into free room. -/
theorem room_prepared (h : d.place f = .ok p) : d.prepared.Room p := by
  apply room_of_place d.formatted_prepared (f := f)
  cases hd : d.formatted with
  | true => rwa [prepared_of_formatted hd]
  | false => rwa [prepared_of_unformatted hd, ← place_blank hd]

theorem catalog_nil (hd : ∀ s, d.mark s = 0x00) : d.Catalog [] where
  slots := rfl
  stored _ hp := by cases hp
  unused s _ _ := hd s
  nodup := List.nodup_nil
  unformatted _ := rfl

theorem Catalog.prepared {ps : List Placement} (h : d.Catalog ps) : d.prepared.Catalog ps := by
  cases hd : d.formatted with
  | true => rwa [prepared_of_formatted hd]
  | false =>
    rw [prepared_of_unformatted hd, h.unformatted hd]
    exact catalog_nil mark_blank

/-- A file that is accepted takes the next slot; the first one formats the disk. -/
theorem Catalog.place {ps : List Placement} (h : d.Catalog ps) (hplace : d.place f = .ok p) :
    (d.write p).Catalog (ps ++ [p]) := by
  rw [write_prepared]
  exact h.prepared.write (room_prepared hplace)

/-- A new disk takes every file with a proper name and type that is not too long. -/
theorem exists_add_new {raw : Bytes} (hraw : dirName f.name = .ok raw)
    (htype : f.type.isNamed = true) (hsize : granulesNeeded f.data.length ≤ granuleCount) :
    ∃ p d', new.add f = (.ok p, d') := by
  have hplace : new.place f = .ok ⟨raw, f.type, f.mode.resolve f.type, 0,
      granuleOrder.take (granulesNeeded f.data.length), f.data⟩ := by
    refine place_eq_ok_iff.2 ⟨⟨hraw, htype, rfl, rfl, rfl⟩, by simp [new], by simp [freeSlot?, new],
      by simp [freeGranules, new], ?_⟩
    rw [List.length_take]
    exact le_min le_rfl hsize
  exact ⟨_, _, add_eq_ok_iff.2 ⟨hplace, rfl⟩⟩

/-- What every accepted file preserves holds after any number of attempts, of the files that were
accepted in order. -/
theorem exists_addAll {P : Disk → List Placement → Prop}
    (hplace : ∀ {d : Disk} {ps : List Placement} {f : NewFile} {p : Placement},
      P d ps → d.place f = .ok p → P (d.write p) (ps ++ [p]))
    {ps : List Placement} (h : P d ps) (fs : List NewFile) :
    ∃ qs, P (d.addAll fs) (ps ++ qs) ∧ List.Forall₂ Placement.For qs (d.accepted fs) := by
  induction fs generalizing d ps with
  | nil => exact ⟨[], by rwa [List.append_nil], .nil⟩
  | cons f fs ih =>
    rw [Disk.addAll, List.foldl_cons, accepted, Disk.add]
    cases hf : d.place f with
    | error cause => exact ih h
    | ok p =>
      obtain ⟨qs, hP, hfor⟩ := ih (hplace h hf)
      refine ⟨p :: qs, ?_, .cons (place_eq_ok_iff.1 hf).1 hfor⟩
      rwa [List.append_assoc] at hP

/-- After any number of attempts the disk has the files that were accepted, in order. -/
theorem Catalog.addAll {ps : List Placement} (h : d.Catalog ps) (fs : List NewFile) :
    ∃ qs, (d.addAll fs).Catalog (ps ++ qs) ∧ List.Forall₂ Placement.For qs (d.accepted fs) :=
  exists_addAll Catalog.place h fs

end Blank

def Placement.listing (p : Placement) : Entry :=
  ⟨entryName p.entry, ⟨p.type.byte.toNat⟩, .ofFlag p.mode.flag, p.granules.headD 0, p.data.length⟩

section Listing

variable {d : Disk} {ps : List Placement} {p : Placement} {f : NewFile}

theorem listSlots_of_unused {slots : List Nat}
    (h : ∀ s ∈ slots, d.mark s = 0x00 ∨ d.mark s = 0xFF) : d.listSlots slots = ([], none) := by
  induction slots with
  | nil => rfl
  | cons s rest ih =>
    rw [List.forall_mem_cons] at h
    rcases h.1 with hmark | hmark <;> rw [mark] at hmark
    · simp only [listSlots, hmark]
      exact ih h.2
    · simp only [listSlots, hmark, if_true]

theorem listSlots_of_stores (h : ∀ p ∈ ps, d.Stores p) (rest : List Nat) :
    d.listSlots (ps.map (·.slot) ++ rest) =
      (ps.map Placement.listing ++ (d.listSlots rest).1, (d.listSlots rest).2) := by
  induction ps with
  | nil => rfl
  | cons p ps ih =>
    rw [List.forall_mem_cons] at h
    have htype : p.entry.getD 11 0 = p.type.byte := Placement.getD_entry h.1.raw 0
    have hmode : p.entry.getD 12 0 = p.mode.flag := Placement.getD_entry h.1.raw 1
    have hfirst : p.entry.getD 13 0 = p.granules.headD 0 := Placement.getD_entry h.1.raw 2
    rw [List.map_cons, List.cons_append, listSlots, h.1.entry]
    dsimp only
    rw [Placement.getD_entry_zero h.1.raw, if_neg h.1.named.2, if_neg h.1.named.1, h.1.chain]
    dsimp only
    rw [ih h.2, htype, hmode, hfirst]
    rfl

theorem Catalog.length_le (h : d.Catalog ps) : ps.length ≤ entryCount := by
  by_contra hlt
  have hmem : entryCount ∈ ps.map (·.slot) := by
    rw [h.slots]
    exact List.mem_range.2 (by omega)
  obtain ⟨p, hp, hslot⟩ := List.mem_map.1 hmem
  exact (h.stored p hp).slot.ne hslot

theorem Catalog.files_eq (h : d.Catalog ps) : d.files = (ps.map Placement.listing, none) := by
  obtain ⟨count, hcount⟩ := Nat.exists_eq_add_of_le h.length_le
  have hunused : d.listSlots ((List.range count).map (ps.length + ·)) = ([], none) := by
    refine listSlots_of_unused fun s hs => ?_
    obtain ⟨k, hk, rfl⟩ := List.mem_map.1 hs
    have := List.mem_range.1 hk
    exact .inl (h.unused _ (Nat.le_add_right _ _) (by omega))
  rw [files, hcount, List.range_add, ← h.slots, listSlots_of_stores h.stored, hunused,
    List.append_nil]

theorem FileType.ofNat_byte {t : FileType} (h : t.isNamed = true) : ⟨t.byte.toNat⟩ = t := by
  obtain ⟨code⟩ := t
  simp only [FileType.isNamed, Bool.and_eq_true, decide_eq_true_eq] at h
  obtain ⟨hle, hge⟩ := h
  interval_cases code <;> rfl

theorem FileMode.ofFlag_flag (m : FileMode) :
    FileMode.ofFlag m.flag = if m = .ascii then .ascii else .binary := by
  rw [FileMode.flag]
  split <;> rfl

theorem Placement.For.name_listing (hfor : p.For f) : p.listing.name = canonicalName f.name := by
  rw [listing, entry, List.append_assoc, List.append_assoc, entryName_of_dirName hfor.raw]

theorem Placement.For.dirName_listing (hfor : p.For f) : dirName p.listing.name = .ok p.raw := by
  rw [hfor.name_listing]
  exact dirName_canonicalName hfor.raw

/-- A listed file is read under every name that has its directory form. -/
theorem Catalog.lists (h : d.Catalog ps) (hp : p ∈ ps) (hfor : p.For f) :
    d.Lists f p.listing := by
  have hread (name : Bytes) (heq : dirName name = dirName p.listing.name) :
      d.read name = .ok f.data :=
    read_eq_ok_iff.2 ⟨p.raw, heq.trans hfor.dirName_listing, hfor.data ▸ h.contents_of_mem hp⟩
  exact {
    name := hfor.name_listing
    type := by
      rw [← FileType.ofNat_byte hfor.named, ← hfor.type]
      rfl
    mode := by
      rw [← hfor.mode, ← FileMode.ofFlag_flag]
      rfl
    size := congrArg List.length hfor.data
    read := hread _ rfl
    read_of_dirName := hread }

theorem map_dirName {kept : List NewFile} (hfor : List.Forall₂ Placement.For ps kept) :
    (kept.map fun f => dirName f.name) = (ps.map (·.raw)).map .ok := by
  induction hfor with
  | nil => rfl
  | cons h _ ih => rw [List.map_cons, ih, h.raw, List.map_cons, List.map_cons]

theorem map_data {β : Type} (measure : Bytes → β) {kept : List NewFile}
    (hfor : List.Forall₂ Placement.For ps kept) :
    (kept.map fun f => measure f.data) = ps.map fun p => measure p.data := by
  induction hfor with
  | nil => rfl
  | cons h _ ih => rw [List.map_cons, List.map_cons, h.data, ih]

theorem Catalog.refines (h : d.Catalog ps) {kept : List NewFile}
    (hfor : List.Forall₂ Placement.For ps kept) : d.Refines kept where
  nodup := by
    rw [map_dirName hfor]
    exact h.nodup.map fun _ _ => Except.ok.inj
  complete := by rw [h.files_eq]
  listed := by
    rw [h.files_eq, List.forall₂_map_right_iff]
    have hmem : List.Forall₂ (fun p f => p ∈ ps ∧ p.For f) ps kept :=
      (List.forall₂_and_left ps kept).2 ⟨fun _ hp => hp, hfor⟩
    exact (hmem.imp fun p f hp => h.lists hp.1 hp.2).flip
  other name raw hname hnot := by
    have hlisting : ∀ p ∈ ps, dirName p.listing.name = .ok p.raw :=
      ((List.forall₂_and_left ps kept).1 (hfor.imp fun p f hp => ⟨hp.dirName_listing, hp⟩)).1
    rw [h.files_eq, hname] at hnot
    have hlookup : d.lookup? raw = none := by
      refine h.lookup?_of_notMem fun p hp hraw => ?_
      exact hnot _ (List.mem_map_of_mem hp) (hraw ▸ hlisting p hp)
    rw [read_of_dirName hname, contents_of_lookup?_eq_none hlookup, Except.mapError]

end Listing

/-- The files that a new disk accepts make up the map that it is afterwards. -/
theorem addAll_refines (fs : List NewFile) : (new.addAll fs).Refines (new.accepted fs) := by
  obtain ⟨ps, hcatalog, hfor⟩ := (catalog_nil mark_new).addAll fs
  exact hcatalog.refines hfor

open Text

def namelessFile : NewFile := ⟨ofString ".dat", .data, .automatic, []⟩

/-- A file that fills two granules to the last byte. -/
def fullFile : NewFile := ⟨ofString "full.dat", .data, .automatic, List.replicate 4608 0x55⟩

theorem length_fullFile : fullFile.data.length = 4608 :=
  List.length_replicate

theorem dirName_fullFile : dirName fullFile.name = .ok (ofString "FULL    DAT") := by
  decide +kernel

theorem accepted_fullFile : new.accepted [namelessFile, fullFile] = [fullFile] := by
  have hbad : dirName namelessFile.name = .error .nameInvalid := by decide +kernel
  have hrefused : new.add namelessFile = (.error ⟨namelessFile.name, .nameInvalid⟩, new) := by
    simp [add, place, hbad, bind, Except.bind]
  obtain ⟨p, d, hadd⟩ := exists_add_new dirName_fullFile (by decide)
    (by rw [length_fullFile]; decide)
  simp [accepted, hrefused, hadd]

/-- The file is the only one in the directory, and is read under its name in any case. -/
theorem fullFile_refines : new.accepted [namelessFile, fullFile] = [fullFile] ∧
    ∃ e, (new.addAll [namelessFile, fullFile]).files = ([e], none) ∧
      e.name = ofString "FULL.DAT" ∧ e.size = 4608 ∧
      (new.addAll [namelessFile, fullFile]).read (ofString "Full.Dat") = .ok fullFile.data := by
  have h := addAll_refines [namelessFile, fullFile]
  rw [accepted_fullFile] at h
  obtain ⟨e, es, hlists, hnone, hfiles⟩ := List.forall₂_cons_left_iff.1 h.listed
  rw [List.forall₂_nil_left_iff.1 hnone] at hfiles
  have hname : canonicalName fullFile.name = ofString "FULL.DAT" := by decide +kernel
  refine ⟨accepted_fullFile, e, Prod.ext hfiles h.complete, hlists.name.trans hname,
    hlists.size.trans length_fullFile, hlists.read_of_dirName _ ?_⟩
  rw [hlists.name, hname]
  decide +kernel

end Forge6809.Disk
