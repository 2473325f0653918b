import Forge6809.Proofs.Disk.Catalog

/-! # The capacity of a disk

On a disk that was filled from new every granule is either free or belongs to exactly one file. The
free granules are therefore what the accepted files have left over, and another file is accepted
exactly if its name and its type are good, its name is new, and as many granules are left as it
takes. Every file takes a granule and there are more slots than granules, so that a slot is always
left. -/

namespace Forge6809.Disk

def granulesTaken (fs : List NewFile) : Nat :=
  (fs.map fun f => granulesNeeded f.data.length).sum

/-- A file that is not refused for what it is, on a disk that has accepted some files. -/
structure Acceptable (kept : List NewFile) (f : NewFile) : Prop where
  name : ∃ raw, dirName f.name = .ok raw
  type : f.type ∈ [FileType.basic, .data, .machineLanguage, .text]
  /-- No file that was accepted has the same directory form. -/
  fresh (g : NewFile) : g ∈ kept → dirName g.name ≠ dirName f.name

def occupied (ps : List Placement) : List UInt8 :=
  ps.flatMap (·.granules)

/-- A catalogue that accounts for every granule: none belongs to two files, and none is lost. -/
structure Ledger (d : Disk) (ps : List Placement) : Prop extends d.Catalog ps where
  apart : (occupied ps).Nodup
  free (g : UInt8) : d.formatted = true → g.toNat < granuleCount → g ∉ occupied ps →
    d.allocation g = freeMark

section Ledger

variable {d : Disk} {ps : List Placement} {p : Placement} {f : NewFile} {kept : List NewFile}

theorem occupied_append (ps : List Placement) (p : Placement) :
    occupied (ps ++ [p]) = occupied ps ++ p.granules := by
  simp [occupied]

theorem Stores.allocated (h : d.Stores p) {g : UInt8} (hg : g ∈ p.granules) :
    d.allocation g ≠ freeMark := by
  have hchain := h.chain
  rw [entryChain, Disk.chain, follow_eq_ok_iff] at hchain
  exact hchain.1.allocated g hg

theorem Ledger.free_iff (h : d.Ledger ps) (hd : d.formatted = true) {g : UInt8}
    (hg : g.toNat < granuleCount) : d.allocation g = freeMark ↔ g ∉ occupied ps := by
  constructor
  · intro hfree hmem
    obtain ⟨p, hp, hgp⟩ := List.mem_flatMap.1 hmem
    exact (h.stored p hp).allocated hgp hfree
  · exact h.free g hd hg

theorem ledger_nil (hd : ∀ s, d.mark s = 0x00)
    (hfree : d.formatted = true → ∀ g : UInt8, g.toNat < granuleCount → d.allocation g = freeMark) :
    d.Ledger [] where
  toCatalog := catalog_nil hd
  apart := List.nodup_nil
  free g hformatted hg _ := hfree hformatted g hg

theorem Ledger.write (h : d.Ledger ps) (hp : d.Room p) : (d.write p).Ledger (ps ++ [p]) where
  toCatalog := h.toCatalog.write hp
  apart := by
    rw [occupied_append]
    apply h.apart.append hp.nodup
    intro g hg hgp
    exact (h.free_iff hp.formatted (hp.exist g hgp)).1 (hp.free g hgp) hg
  free g _ hlt hg := by
    rw [occupied_append, List.mem_append, not_or] at hg
    rw [allocation_write_of_notMem hp.formatted hp.raw hg.2]
    exact h.free g hp.formatted hlt hg.1

theorem Ledger.prepared (h : d.Ledger ps) : d.prepared.Ledger ps := by
  cases hd : d.formatted with
  | true => rwa [prepared_of_formatted hd]
  | false =>
    rw [prepared_of_unformatted hd, h.unformatted hd]
    exact ledger_nil mark_blank fun _ g => allocation_blank

theorem Ledger.place (h : d.Ledger ps) (hplace : d.place f = .ok p) :
    (d.write p).Ledger (ps ++ [p]) := by
  rw [write_prepared]
  exact h.prepared.write (room_prepared hplace)

theorem Ledger.freeGranules_eq (h : d.Ledger ps) (count : Nat) :
    d.freeGranules count = (granuleOrder.filter fun g => g ∉ occupied ps).take count := by
  cases hd : d.formatted with
  | true =>
    rw [freeGranules, if_pos hd]
    congr 1
    apply List.filter_congr
    intro g hg
    rw [Bool.eq_iff_iff, beq_iff_eq, decide_eq_true_iff, h.free_iff hd (mem_granuleOrder.1 hg)]
  | false => simp [freeGranules, hd, h.unformatted hd, occupied]

/-- What is free and what is occupied make up all granules. -/
theorem Ledger.perm (h : d.Ledger ps) :
    ((granuleOrder.filter fun g => g ∉ occupied ps) ++ occupied ps).Perm granuleOrder := by
  have hnodup : ((granuleOrder.filter fun g => g ∉ occupied ps) ++ occupied ps).Nodup := by
    apply (nodup_granuleOrder.filter _).append h.apart
    intro g hg hmem
    simp [hmem] at hg
  have hexist : ∀ g ∈ occupied ps, g ∈ granuleOrder := by
    intro g hg
    obtain ⟨p, hp, hgp⟩ := List.mem_flatMap.1 hg
    exact mem_granuleOrder.2 ((h.stored p hp).exist g hgp)
  rw [List.perm_ext_iff_of_nodup hnodup nodup_granuleOrder]
  intro g
  by_cases hmem : g ∈ occupied ps <;> simp [hmem, hexist]

theorem Ledger.length_occupied (h : d.Ledger ps) (hfor : List.Forall₂ Placement.For ps kept) :
    (occupied ps).length = granulesTaken kept := by
  have hlength : ps.map (fun p => p.granules.length) =
      ps.map fun p => granulesNeeded p.data.length :=
    List.map_congr_left fun p hp => (h.stored p hp).needed
  rw [occupied, List.length_flatMap, hlength, granulesTaken,
    map_data (fun data => granulesNeeded data.length) hfor]

/-- The granules that are left are those that the accepted files do not take. -/
theorem Ledger.length_freeGranules (h : d.Ledger ps) (hfor : List.Forall₂ Placement.For ps kept)
    (count : Nat) :
    (d.freeGranules count).length = min count (granuleCount - granulesTaken kept) ∧
      granulesTaken kept ≤ granuleCount := by
  have htotal := h.perm.length_eq
  rw [List.length_append, h.length_occupied hfor, show granuleOrder.length = granuleCount from rfl]
    at htotal
  rw [h.freeGranules_eq, List.length_take]
  omega

theorem length_le_granulesTaken (kept : List NewFile) : kept.length ≤ granulesTaken kept := by
  have hpos : ∀ n ∈ kept.map fun f => granulesNeeded f.data.length, 1 ≤ n := by
    intro n hn
    obtain ⟨f, -, rfl⟩ := List.mem_map.1 hn
    exact Nat.le_max_left _ _
  simpa [granulesTaken] using List.card_nsmul_le_sum _ 1 hpos

/-- There are more slots than granules, so a slot is left. -/
theorem Ledger.exists_freeSlot? (h : d.Ledger ps) (hfor : List.Forall₂ Placement.For ps kept) :
    ∃ slot < entryCount, d.freeSlot? = some slot := by
  have hlt : ps.length < entryCount := by
    have htaken := (h.length_freeGranules hfor 0).2
    have hkept := length_le_granulesTaken kept
    rw [← hfor.length_eq] at hkept
    simp only [granuleCount, entryCount] at *
    omega
  cases hd : d.formatted with
  | true =>
    refine ⟨ps.length, hlt, (freeSlot?_eq_some_iff hd).2 ⟨hlt, .inl (h.unused _ le_rfl hlt), ?_⟩⟩
    intro s hs
    rcases h.cases (hs.trans hlt) with ⟨p, hp, rfl⟩ | ⟨hle, -⟩
    · rw [(h.stored p hp).mark_eq]
      exact (h.stored p hp).named
    · exact absurd hs (Nat.not_lt.2 hle)
  | false => exact ⟨0, by decide, by simp [freeSlot?, hd]⟩

end Ledger

section Acceptance

variable {d : Disk} {ps : List Placement} {f : NewFile} {kept : List NewFile}

theorem FileType.isNamed_iff (t : FileType) :
    t.isNamed = true ↔ t ∈ [FileType.basic, .data, .machineLanguage, .text] := by
  obtain ⟨code⟩ := t
  simp only [FileType.isNamed, FileType.basic, FileType.data, FileType.machineLanguage,
    FileType.text, List.mem_cons, FileType.mk.injEq, List.not_mem_nil, or_false,
    Bool.and_eq_true, decide_eq_true_eq]
  omega

theorem dirName_ne_full (name : Bytes) : dirName name ≠ .error .full := by
  simp only [dirName]
  split
  · simp
  · split <;> simp

/-- A name that is new to a catalogue is not found, and a name that is not found is new. -/
theorem Catalog.lookup?_eq_none_iff (h : d.Catalog ps)
    (hfor : List.Forall₂ Placement.For ps kept) {raw : Bytes} :
    d.lookup? raw = none ↔ ∀ g ∈ kept, dirName g.name ≠ .ok raw := by
  have hnames : (∀ g ∈ kept, dirName g.name ≠ .ok raw) ↔ ∀ p ∈ ps, p.raw ≠ raw := by
    have hmem : (Except.ok raw : Except Cause Bytes) ∈ kept.map (fun g => dirName g.name) ↔
        Except.ok raw ∈ (ps.map (·.raw)).map (Except.ok (ε := Cause)) := by
      rw [map_dirName hfor]
    simp only [List.mem_map, Except.ok.injEq, exists_eq_right] at hmem
    constructor
    · intro hfresh p hp heq
      obtain ⟨g, hg, hname⟩ := hmem.2 ⟨p, hp, heq⟩
      exact hfresh g hg hname
    · intro hfresh g hg hname
      obtain ⟨p, hp, heq⟩ := hmem.1 ⟨g, hg, hname⟩
      exact hfresh p hp heq
  rw [hnames]
  constructor
  · intro hnone p hp heq
    have hfound := h.lookup?_of_mem hp
    rw [heq, hnone] at hfound
    cases hfound
  · exact h.lookup?_of_notMem

/-- What can be refused, in this order: the name, the type, the name again, and the size. -/
theorem place_eq_ite {raw : Bytes} {slot : Nat} (hname : dirName f.name = .ok raw)
    (hslot : d.freeSlot? = some slot) :
    d.place f =
      if f.type.isNamed = false then .error .typeInvalid
      else if d.formatted = true ∧ d.lookup? raw ≠ none then .error .duplicate
      else if (d.freeGranules (granulesNeeded f.data.length)).length <
          granulesNeeded f.data.length then .error .full
      else .ok ⟨raw, f.type, f.mode.resolve f.type, slot,
        d.freeGranules (granulesNeeded f.data.length), f.data⟩ := by
  have hfound : (d.formatted && (d.lookup? raw).isSome) = true ↔
      d.formatted = true ∧ d.lookup? raw ≠ none := by
    rw [Bool.and_eq_true, Option.isSome_iff_ne_none]
  simp only [place, hname, hslot, bind, Except.bind, Bool.not_eq_true', hfound]
  split_ifs <;> rfl

theorem Ledger.acceptable_iff (h : d.Ledger ps) (hfor : List.Forall₂ Placement.For ps kept)
    {raw : Bytes} (hname : dirName f.name = .ok raw) : Acceptable kept f ↔
      f.type.isNamed = true ∧ ¬ (d.formatted = true ∧ d.lookup? raw ≠ none) := by
  have hfresh : ¬ (d.formatted = true ∧ d.lookup? raw ≠ none) ↔
      ∀ g ∈ kept, dirName g.name ≠ dirName f.name := by
    rw [hname, ← h.toCatalog.lookup?_eq_none_iff hfor]
    cases hd : d.formatted with
    | true => simp
    | false =>
      have hnone : d.lookup? raw = none := h.lookup?_of_notMem (by simp [h.unformatted hd])
      simp [hnone]
  rw [hfresh, FileType.isNamed_iff]
  constructor
  · intro ha
    exact ⟨ha.type, ha.fresh⟩
  · intro ha
    exact ⟨⟨raw, hname⟩, ha.1, ha.2⟩

/-- A file that is acceptable is placed if the granules that are left suffice, and otherwise finds
the disk full; no other file is placed or finds the disk full. -/
theorem Ledger.place_iff (h : d.Ledger ps) (hfor : List.Forall₂ Placement.For ps kept) :
    ((∃ p, d.place f = .ok p) ↔ Acceptable kept f ∧
      granulesTaken kept + granulesNeeded f.data.length ≤ granuleCount) ∧
    (d.place f = .error .full ↔ Acceptable kept f ∧
      granuleCount < granulesTaken kept + granulesNeeded f.data.length) := by
  obtain ⟨slot, -, hslot⟩ := h.exists_freeSlot? hfor
  obtain ⟨hleft, htaken⟩ := h.length_freeGranules hfor (granulesNeeded f.data.length)
  have hfull : (d.freeGranules (granulesNeeded f.data.length)).length <
      granulesNeeded f.data.length ↔
        granuleCount < granulesTaken kept + granulesNeeded f.data.length := by omega
  cases hname : dirName f.name with
  | error cause =>
    have hnot : ¬ Acceptable kept f := fun ha => by simpa [hname] using ha.name
    have hplace : d.place f = .error cause := by simp [Disk.place, hname, bind, Except.bind]
    have hcause : cause ≠ .full := fun heq => dirName_ne_full f.name (heq ▸ hname)
    simp [hnot, hplace, hcause]
  | ok raw =>
    rw [place_eq_ite hname hslot, h.acceptable_iff hfor hname, ← Nat.not_lt, ← hfull]
    split_ifs with htype hdup hsize
    · simp [htype]
    · simp [hdup]
    · simp [htype, hdup, hsize]
    · simp [htype, hdup, hsize]

end Acceptance

/-- A disk that was filled from new accepts a file exactly if the file is acceptable and takes no
more granules than the accepted files have left, and it is full for a file exactly if only the
latter fails. No granule is lost on the way, and there is always a slot left. -/
theorem add_iff_fits (fs : List NewFile) (f : NewFile) :
    let d := new.addAll fs
    let kept := new.accepted fs
    let need (f : NewFile) := max 1 ((f.data.length + 2303) / 2304)
    let used := (kept.map need).sum
    ((∃ p d', d.add f = (.ok p, d')) ↔ Acceptable kept f ∧ used + need f ≤ 68) ∧
    ((∃ d', d.add f = (.error ⟨f.name, .full⟩, d')) ↔ Acceptable kept f ∧ 68 < used + need f) ∧
    (d.freeGranules 68).length + used = 68 ∧
    ∃ slot < 72, d.freeSlot? = some slot := by
  intro d kept need used
  have hneed : need f = granulesNeeded f.data.length := rfl
  have hused : used = granulesTaken kept := rfl
  obtain ⟨ps, hledger, hfor⟩ := exists_addAll Ledger.place
    (ledger_nil mark_new fun hd => absurd hd (by decide)) fs
  obtain ⟨hplaced, hfull⟩ := hledger.place_iff (f := f) hfor
  rw [hneed, hused]
  refine ⟨?_, ?_, ?_, hledger.exists_freeSlot? hfor⟩
  · rw [← granuleCount, ← hplaced]
    simp [add_eq_ok_iff, d]
  · rw [← granuleCount, ← hfull, add]
    cases d.place f <;> simp
  · obtain ⟨hleft, htaken⟩ := hledger.length_freeGranules hfor granuleCount
    rw [Nat.min_eq_right (Nat.sub_le _ _)] at hleft
    exact (congrArg (· + granulesTaken kept) hleft).trans (Nat.sub_add_cancel htaken)

open Text

def restFile (size : Nat) : NewFile :=
  ⟨ofString "rest.bin", .machineLanguage, .automatic, List.replicate size 0x12⟩

/-- Two of the granules are taken, so that 66 more can be, but not 67. -/
theorem fullFile_fits :
    (∃ p d', (new.addAll [namelessFile, fullFile]).add (restFile 152064) = (.ok p, d')) ∧
      ∃ d', (new.addAll [namelessFile, fullFile]).add (restFile 152065) =
        (.error ⟨ofString "rest.bin", .full⟩, d') := by
  have hname : dirName (ofString "rest.bin") = .ok (ofString "REST    BIN") := by decide +kernel
  have hother : dirName fullFile.name ≠ dirName (ofString "rest.bin") := by decide +kernel
  have hacceptable (size : Nat) : Acceptable [fullFile] (restFile size) :=
    ⟨⟨_, hname⟩, by simp [restFile], fun g hg => by rwa [List.mem_singleton.1 hg]⟩
  have hsize (size : Nat) : (restFile size).data.length = size := List.length_replicate
  have hfits (size : Nat) := add_iff_fits [namelessFile, fullFile] (restFile size)
  simp only [accepted_fullFile, List.map_singleton, List.sum_singleton, length_fullFile,
    hsize] at hfits
  exact ⟨(hfits 152064).1.2 ⟨hacceptable _, by decide⟩,
    (hfits 152065).2.1.2 ⟨hacceptable _, by decide⟩⟩

end Forge6809.Disk
