import Forge6809.Proofs.Disk.Placement

/-! # Adding to a loaded image

An image may hold anything: chains that cross, chains that do not end, slots behind the end of the
directory. Whatever it holds, a file that is added can be read back, files that could be read can
still be read, and the image changes only where it was free. -/

namespace Forge6809.Disk

/-- The disks that come from loading an image and adding files to it. -/
inductive Loaded : Disk → Prop
  | unmarshal (d : Disk) {data : Bytes} : data.length = imageSize → Loaded (d.unmarshal data).2
  | add {d : Disk} (f : NewFile) : Loaded d → Loaded (d.add f).2

def allocationOffset (g : UInt8) : Nat :=
  directoryOffset + (tableOffset + g.toNat)

def slotOffset (slot : Nat) : Nat :=
  directoryOffset + (entriesOffset + slot * entrySize)

/-- The bytes of an image that adding a file to a slot may change: free granules, their allocation
entries, and the slot. -/
inductive Writable (d : Disk) (slot : Nat) : Nat → Prop
  | contents {g : UInt8} {i : Nat} : g.toNat < granuleCount →
      d.image[allocationOffset g]? = some freeMark → InGranule g i → Writable d slot i
  | allocation {g : UInt8} : g.toNat < granuleCount →
      d.image[allocationOffset g]? = some freeMark → Writable d slot (allocationOffset g)
  | entry {i : Nat} : slotOffset slot ≤ i → i < slotOffset slot + entrySize → Writable d slot i

/-- A formatted disk whose staged directory track is the one in the image. -/
structure Synced (d : Disk) : Prop where
  formatted : d.formatted = true
  track (j : Nat) : j < trackSize → d.image[directoryOffset + j]? = d.track[j]?

section Synced

variable {d : Disk} {p : Placement}

theorem unmarshal_of_length (d : Disk) {data : Bytes} (h : data.length = imageSize) :
    ∃ image : Vector UInt8 imageSize, image.toList = data ∧
      d.unmarshal data = (.ok (), ⟨image, overwrite (Vector.replicate trackSize 0) 0
        (sliceOf image directoryOffset trackSize), true⟩) := by
  refine ⟨⟨data.toArray, by simpa using h⟩, rfl, ?_⟩
  unfold unmarshal ofImage?
  rw [dif_pos h]

theorem synced_unmarshal (d : Disk) {data : Bytes} (h : data.length = imageSize) :
    (d.unmarshal data).2.Synced := by
  obtain ⟨image, -, hd⟩ := d.unmarshal_of_length h
  rw [hd]
  refine ⟨rfl, fun j hj => ?_⟩
  have hlen : (sliceOf image directoryOffset trackSize).length = trackSize :=
    length_sliceOf image (by decide)
  rw [getElem?_overwrite, if_pos (by omega), getElem?_sliceOf, Nat.sub_zero, if_pos hj]

theorem Synced.write (hd : d.Synced) (p : Placement) : (d.write p).Synced where
  formatted := formatted_write hd.formatted p
  track _ hj := getElem?_image_directory hd.formatted p hj

theorem Loaded.synced (h : Loaded d) : d.Synced := by
  induction h with
  | unmarshal d hlen => exact synced_unmarshal d hlen
  | @add d f _ ih =>
    rw [Disk.add]
    cases d.place f with
    | error cause => exact ih
    | ok p => exact ih.write p

theorem Synced.image_allocation (hd : d.Synced) (g : UInt8) :
    d.image[allocationOffset g]? = some (d.allocation g) := by
  have hlt : tableOffset + g.toNat < trackSize := by
    have := UInt8.toNat_lt g
    simp only [tableOffset, sectorSize, trackSize]
    omega
  rw [allocationOffset, hd.track _ hlt, allocation_eq, Vector.getElem?_eq_getElem hlt,
    Option.getD_some]

theorem Synced.image_mark (hd : d.Synced) {slot : Nat} (hslot : slot < entryCount) :
    d.image[slotOffset slot]? = some (d.mark slot) := by
  have hlt : entriesOffset + slot * entrySize < trackSize := by
    simp only [entryCount, entriesOffset, entrySize, sectorSize, trackSize] at *
    omega
  rw [slotOffset, hd.track _ hlt, mark_eq, Vector.getElem?_eq_getElem hlt, Option.getD_some]

theorem Synced.entry_eq (hd : d.Synced) {slot : Nat} (hslot : slot < entryCount) :
    d.entry slot = sliceOf d.image (slotOffset slot) entrySize := by
  apply List.ext_getElem?
  intro i
  rw [entry, getElem?_sliceOf, getElem?_sliceOf]
  split
  · have hlt : entriesOffset + slot * entrySize + i < trackSize := by
      simp only [entryCount, entriesOffset, entrySize, sectorSize, trackSize] at *
      omega
    rw [← hd.track _ hlt, slotOffset, Nat.add_assoc directoryOffset]
  · rfl

/-- Writing into free room changes nothing else. -/
theorem Synced.writable (hd : d.Synced) (hp : d.Room p) {i : Nat}
    (hi : (d.write p).image[i]? ≠ d.image[i]?) : d.Writable p.slot i := by
  have hfree : ∀ g ∈ p.granules, d.image[allocationOffset g]? = some freeMark :=
    fun g hg => (hd.image_allocation g).trans (congrArg some (hp.free g hg))
  by_contra hnot
  apply hi
  by_cases hout : i < directoryOffset ∨ directoryOffset + trackSize ≤ i
  · refine getElem?_image_write hd.formatted hout fun g hg hin => hnot ?_
    exact .contents (hp.exist g hg) (hfree g hg) hin
  -- In the directory track, image and staged track agree before and after.
  obtain ⟨j, rfl⟩ : ∃ j, i = directoryOffset + j := ⟨i - directoryOffset, by omega⟩
  have hj : j < trackSize := by omega
  rw [getElem?_image_directory hd.formatted p hj, hd.track j hj]
  refine getElem?_track_write hd.formatted hp.raw ?_ ?_
  · rintro g hg rfl
    exact hnot (.allocation (hp.exist g hg) (hfree g hg))
  · rintro ⟨hle, hlt⟩
    exact hnot (.entry (by rw [slotOffset]; omega) (by rw [slotOffset]; omega))

end Synced

/-- Adding a file to a loaded image makes it readable, keeps what could be read under other names,
and changes the image only in granules that were free, in their allocation entries and in one slot
that was not in use. -/
theorem add_preserves {d d' : Disk} {f : NewFile} {p : Placement} (hd : Loaded d)
    (h : d.add f = (.ok p, d')) :
    d'.read f.name = .ok f.data ∧
    (∀ name x, dirName name ≠ dirName f.name → d.read name = .ok x → d'.read name = .ok x) ∧
    ∃ slot < entryCount,
      (d.image[slotOffset slot]? = some 0x00 ∨ d.image[slotOffset slot]? = some 0xFF) ∧
      ∀ i, d'.image[i]? ≠ d.image[i]? → d.Writable slot i := by
  obtain ⟨hplace, rfl⟩ := add_eq_ok_iff.1 h
  have hsynced := hd.synced
  have hroom := room_of_place hsynced.formatted hplace
  have hfor := (place_eq_ok_iff.1 hplace).1
  refine ⟨?_, ?_, p.slot, hroom.slot, ?_, fun i => hsynced.writable hroom⟩
  · rw [read_eq_ok_iff, ← hfor.data]
    exact ⟨p.raw, hfor.raw, contents_write_self hroom⟩
  · intro name x hne hread
    obtain ⟨raw, hraw, hcontents⟩ := read_eq_ok_iff.1 hread
    refine read_eq_ok_iff.2 ⟨raw, hraw, contents_write_of_ne hroom ?_ hcontents⟩
    rintro rfl
    exact hne (hraw.trans hfor.raw.symm)
  · rw [hsynced.image_mark hroom.slot, Option.some_inj, Option.some_inj]
    exact hroom.unused

structure Erased (d : Disk) : Prop extends d.Synced where
  image (i : Nat) (b : UInt8) : d.image[i]? = some b → b = 0xFF

section Erased

variable {d : Disk} {f : NewFile} {name raw : Bytes} {slot : Nat}

theorem erased_unmarshal (d : Disk) {data : Bytes} (h : data.length = imageSize)
    (hdata : ∀ b ∈ data, b = 0xFF) : (d.unmarshal data).2.Erased where
  toSynced := d.synced_unmarshal h
  image i b hb := by
    obtain ⟨image, himage, hd⟩ := d.unmarshal_of_length h
    rw [hd] at hb
    dsimp only at hb
    rw [← Vector.getElem?_toList, himage] at hb
    exact hdata b (List.mem_of_getElem? hb)

theorem Erased.mark (hd : d.Erased) (h : slot < entryCount) : d.mark slot = 0xFF :=
  hd.image _ _ (hd.image_mark h)

theorem Erased.allocation (hd : d.Erased) (g : UInt8) : d.allocation g = freeMark :=
  hd.image _ _ (hd.image_allocation g)

theorem Erased.not_names (hd : d.Erased) (hraw : dirName name = .ok raw) (h : slot < entryCount) :
    ¬ d.Names raw slot := by
  intro hnames
  exact (mark_of_dirName hraw).2 (hnames.mark_eq ▸ hd.mark h)

theorem Erased.exists_place (hd : d.Erased) (hraw : dirName f.name = .ok raw)
    (hnamed : f.type.isNamed = true) (hneeded : granulesNeeded f.data.length ≤ granuleCount) :
    ∃ p, d.place f = .ok p := by
  have hfree : (granuleOrder.filter fun g => d.allocation g == freeMark) = granuleOrder :=
    List.filter_eq_self.2 fun g _ => beq_iff_eq.2 (hd.allocation g)
  refine Disk.exists_place hd.formatted hraw hnamed
    (lookup?_eq_none fun s hs => hd.not_names hraw hs) (s := 0) (by decide)
    (.inr (hd.mark (by decide))) ?_
  rwa [hfree]

/-- An erased disk has room for two small files. -/
theorem Erased.exists_place_write (hd : d.Erased) {p : Placement} (hp : d.Room p)
    (hraw : dirName f.name = .ok raw) (hne : raw ≠ p.raw) (hnamed : f.type.isNamed = true)
    (hneeded : granulesNeeded p.data.length + granulesNeeded f.data.length ≤ granuleCount) :
    ∃ q, (d.write p).place f = .ok q := by
  have hslot : p.slot = 0 := by
    by_contra hpos
    exact (hp.used 0 (Nat.pos_of_ne_zero hpos)).2 (hd.mark (by decide))
  refine Disk.exists_place (formatted_write hd.formatted p) hraw hnamed
    (lookup?_eq_none fun s hs => ?_) (s := 1) (by decide) (.inr ?_) ?_
  · by_cases hs' : s = p.slot
    · rwa [hs', hp.stores.names_iff]
    · rw [names_write_of_ne hp hs']
      exact hd.not_names hraw hs
  · rw [mark_write_of_ne hp (by omega), hd.mark (by decide)]
  · have hsub : granuleOrder ⊆ p.granules ++
        granuleOrder.filter fun g => (d.write p).allocation g == freeMark := by
      intro g hg
      rw [List.mem_append]
      by_cases hmem : g ∈ p.granules
      · exact .inl hmem
      · refine .inr (List.mem_filter.2 ⟨hg, beq_iff_eq.2 ?_⟩)
        rw [allocation_write_of_notMem hp.formatted hp.raw hmem, hd.allocation]
    have hle := (List.subperm_of_subset nodup_granuleOrder hsub).length_le
    rw [List.length_append, hp.needed] at hle
    have horder : granuleOrder.length = granuleCount := rfl
    omega

end Erased

open Text in
/-- Two files on an erased disk: one that fills a granule, and an empty one after it. -/
theorem add_preserves_erased :
    let first : NewFile :=
      ⟨ofString "dir/first.dat", .data, .automatic, List.replicate granuleSize 0x55⟩
    let second : NewFile := ⟨ofString "second", .machineLanguage, .binary, []⟩
    let d := ((new.unmarshal (List.replicate imageSize 0xFF)).2.add first).2
    ∃ p d', Loaded d ∧ d.add second = (.ok p, d') ∧ d'.read second.name = .ok [] ∧
      d.read (ofString "FIRST.DAT") = .ok first.data ∧
      d'.read (ofString "FIRST.DAT") = .ok first.data := by
  intro first second
  have hfirst : dirName first.name = .ok (ofString "FIRST   DAT") := by decide +kernel
  have hsecond : dirName second.name = .ok (ofString "SECOND     ") := by decide +kernel
  have hlisted : dirName (ofString "FIRST.DAT") = .ok (ofString "FIRST   DAT") := by decide +kernel
  have hneeded : granulesNeeded first.data.length = 1 := by
    rw [List.length_replicate]
    decide
  -- Only what an erased disk is counts here; its image is never computed.
  have hkeep {e : Disk} (hloaded : Loaded e) (he : e.Erased) : ∃ p d', Loaded (e.add first).2 ∧
      (e.add first).2.add second = (.ok p, d') ∧ d'.read second.name = .ok [] ∧
      (e.add first).2.read (ofString "FIRST.DAT") = .ok first.data ∧
      d'.read (ofString "FIRST.DAT") = .ok first.data := by
    obtain ⟨p, hp⟩ := he.exists_place hfirst (by decide) (by rw [hneeded]; decide)
    have hadd : e.add first = (.ok p, e.write p) := add_eq_ok_iff.2 ⟨hp, rfl⟩
    have hraw : p.raw = ofString "FIRST   DAT" :=
      Except.ok.inj ((place_eq_ok_iff.1 hp).1.raw.symm.trans hfirst)
    obtain ⟨q, hq⟩ : ∃ q, (e.write p).place second = .ok q := by
      refine he.exists_place_write (room_of_place he.formatted hp) hsecond ?_ (by decide) ?_
      · rw [hraw]
        decide +kernel
      · rw [(place_eq_ok_iff.1 hp).1.data, hneeded]
        decide
    have hadd' : (e.write p).add second = (.ok q, (e.write p).write q) :=
      add_eq_ok_iff.2 ⟨hq, rfl⟩
    have hloaded' : Loaded (e.write p) := by
      have hstep := hloaded.add first
      rwa [hadd] at hstep
    have hread : (e.write p).read (ofString "FIRST.DAT") = .ok first.data := by
      have hown := (add_preserves hloaded hadd).1
      rw [read_eq_ok_iff] at hown ⊢
      rwa [hlisted, ← hfirst]
    obtain ⟨hnew, hold, -⟩ := add_preserves hloaded' hadd'
    rw [hadd]
    refine ⟨q, _, hloaded', hadd', hnew, hread, hold _ _ ?_ hread⟩
    rw [hlisted, hsecond]
    decide +kernel
  exact hkeep (.unmarshal new List.length_replicate)
    (erased_unmarshal new List.length_replicate fun b => List.eq_of_mem_replicate)

end Forge6809.Disk
