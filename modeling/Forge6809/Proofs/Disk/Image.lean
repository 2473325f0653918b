import Forge6809.Disk.Add
import Mathlib.Tactic

/-! # Images byte by byte

Every byte of a disk lies in one granule, in the allocation entry of one granule, in one directory
slot, or in none of these. Writing a placed file changes only the granules that it was given, their
allocation entries and its directory slot; everything else that can be read off a disk follows from
that and from what stands in those places afterwards. -/

namespace Forge6809

section Vectors

variable {n : Nat} {v w : Vector UInt8 n} {offset count : Nat}

theorem getElem?_overwrite (v : Vector UInt8 n) (offset : Nat) (bytes : Bytes) (i : Nat) :
    (overwrite v offset bytes)[i]? =
      if offset ≤ i ∧ i < offset + bytes.length ∧ i < n then bytes[i - offset]? else v[i]? := by
  induction bytes generalizing v offset with
  | nil =>
    rw [overwrite, if_neg]
    simp only [List.length_nil]
    omega
  | cons b rest ih =>
    rw [overwrite, ih, Vector.getElem?_setIfInBounds, List.length_cons]
    by_cases hi : i = offset
    · subst hi
      by_cases hn : i < n <;> simp [hn]
    by_cases hin : offset + 1 ≤ i ∧ i < offset + 1 + rest.length ∧ i < n
    · obtain ⟨k, hk⟩ : ∃ k, i - offset = k + 1 := ⟨i - offset - 1, by omega⟩
      rw [if_pos hin, if_pos (by omega), hk, List.getElem?_cons_succ]
      congr 1
      omega
    · rw [if_neg hin, if_neg (Ne.symm hi), if_neg (by omega)]

theorem getElem?_sliceOf (v : Vector UInt8 n) (offset count i : Nat) :
    (sliceOf v offset count)[i]? = if i < count then v[offset + i]? else none := by
  simp only [sliceOf, Array.getElem?_toList, Array.getElem?_extract, Vector.size_toArray,
    Vector.getElem?_toArray]
  by_cases hn : offset + i < n
  · by_cases hi : i < count
    · rw [if_pos hi, if_pos (by omega)]
    · rw [if_neg hi, if_neg (by omega)]
  · rw [Vector.getElem?_eq_none (by omega), ite_self, ite_self]

theorem length_sliceOf (v : Vector UInt8 n) (h : offset + count ≤ n) :
    (sliceOf v offset count).length = count := by
  simp only [sliceOf, Array.length_toList, Array.size_extract, Vector.size_toArray]
  omega

theorem sliceOf_congr (h : ∀ i < count, v[offset + i]? = w[offset + i]?) :
    sliceOf v offset count = sliceOf w offset count := by
  apply List.ext_getElem?
  intro i
  rw [getElem?_sliceOf, getElem?_sliceOf]
  by_cases hi : i < count
  · rw [if_pos hi, if_pos hi, h i hi]
  · rw [if_neg hi, if_neg hi]

theorem sliceOf_overwrite_self {bytes : Bytes} (hlen : bytes.length = count)
    (h : offset + count ≤ n) : sliceOf (overwrite v offset bytes) offset count = bytes := by
  subst hlen
  apply List.ext_getElem?
  intro i
  rw [getElem?_sliceOf, getElem?_overwrite]
  by_cases hi : i < bytes.length
  · rw [if_pos hi, if_pos (by omega), Nat.add_sub_cancel_left]
  · rw [if_neg hi, List.getElem?_eq_none (by omega)]

end Vectors

namespace Disk

theorem mem_granuleOrder {g : UInt8} : g ∈ granuleOrder ↔ g.toNat < granuleCount := by
  exact forall_byte (p := fun g => g ∈ granuleOrder ↔ g.toNat < granuleCount) (by decide +kernel) g

theorem nodup_granuleOrder : granuleOrder.Nodup := by
  decide +kernel

def InGranule (g : UInt8) (i : Nat) : Prop :=
  granuleOffset g ≤ i ∧ i < granuleOffset g + granuleSize

/-- The bytes of the directory track that belong to a directory slot. -/
def InSlot (slot j : Nat) : Prop :=
  entriesOffset + slot * entrySize ≤ j ∧ j < entriesOffset + slot * entrySize + entrySize

/-- Granules are as long as they are apart, except where the directory track lies between them. -/
theorem granuleOffset_eq (g : UInt8) : granuleOffset g =
    g.toNat * granuleSize + if g.toNat < 34 then 0 else trackSize := by
  simp only [granuleOffset]
  by_cases h : g.toNat / 2 ≥ directoryTrack
  · rw [if_pos h]
    simp only [directoryTrack, trackSize, granuleSize] at *
    split <;> omega
  · rw [if_neg h]
    simp only [directoryTrack, trackSize, granuleSize] at *
    split <;> omega

theorem granuleOffset_add_le {g : UInt8} (h : g.toNat < granuleCount) :
    granuleOffset g + granuleSize ≤ imageSize := by
  rw [granuleOffset_eq]
  simp only [granuleCount, granuleSize, imageSize, trackSize] at *
  split <;> omega

theorem granule_eq_of_inGranule {g h : UInt8} {i : Nat} (hg : InGranule g i) (hh : InGranule h i) :
    g = h := by
  apply UInt8.toNat_inj.1
  simp only [InGranule, granuleOffset_eq, granuleSize, trackSize] at hg hh
  split at hg <;> split at hh <;> omega

/-- No granule reaches into the directory track. -/
theorem outside_of_inGranule {g : UInt8} {i : Nat} (h : InGranule g i) :
    i < directoryOffset ∨ directoryOffset + trackSize ≤ i := by
  simp only [InGranule, granuleOffset_eq, granuleSize, directoryTrack, trackSize,
    directoryOffset] at *
  split at h <;> omega

section Blocks

variable {d : Disk} {b : Block} {bs : List Block}

theorem getElem?_image_writeBlock {i : Nat} (hlen : b.data.length ≤ granuleSize)
    (hi : ¬ InGranule b.granule i) : (d.writeBlock b).image[i]? = d.image[i]? := by
  simp only [writeBlock, getElem?_overwrite]
  rw [if_neg]
  simp only [InGranule] at hi
  omega

theorem getElem?_track_writeBlock (d : Disk) (b : Block) (j : Nat) :
    (d.writeBlock b).track[j]? =
      if j = tableOffset + b.granule.toNat then some b.next else d.track[j]? := by
  have hlt := UInt8.toNat_lt b.granule
  simp only [writeBlock, Vector.getElem?_setIfInBounds]
  by_cases hj : tableOffset + b.granule.toNat = j
  · rw [if_pos hj, if_pos hj.symm, if_pos]
    simp only [tableOffset, sectorSize, trackSize] at *
    omega
  · rw [if_neg hj, if_neg (Ne.symm hj)]

theorem getElem?_image_writeBlocks {i : Nat} (hlen : ∀ b ∈ bs, b.data.length ≤ granuleSize)
    (hi : ∀ b ∈ bs, ¬ InGranule b.granule i) :
    (bs.foldl writeBlock d).image[i]? = d.image[i]? := by
  induction bs generalizing d with
  | nil => rfl
  | cons b bs ih =>
    rw [List.forall_mem_cons] at hlen hi
    rw [List.foldl_cons, ih hlen.2 hi.2, getElem?_image_writeBlock hlen.1 hi.1]

theorem getElem?_track_writeBlocks {j : Nat}
    (hj : ∀ b ∈ bs, j ≠ tableOffset + b.granule.toNat) :
    (bs.foldl writeBlock d).track[j]? = d.track[j]? := by
  induction bs generalizing d with
  | nil => rfl
  | cons b bs ih =>
    rw [List.forall_mem_cons] at hj
    rw [List.foldl_cons, ih hj.2, getElem?_track_writeBlock, if_neg hj.1]

/-- Blocks on different granules do not disturb each other. -/
theorem sliceOf_image_writeBlocks (hnodup : (bs.map (·.granule)).Nodup)
    (hlen : ∀ b ∈ bs, b.data.length ≤ granuleSize)
    (hlt : ∀ b ∈ bs, b.granule.toNat < granuleCount) (hb : b ∈ bs) :
    sliceOf (bs.foldl writeBlock d).image (granuleOffset b.granule) b.data.length = b.data := by
  induction bs generalizing d with
  | nil => cases hb
  | cons c bs ih =>
    rw [List.map_cons, List.nodup_cons] at hnodup
    rw [List.forall_mem_cons] at hlen hlt
    rw [List.foldl_cons]
    rcases List.mem_cons.1 hb with rfl | hb
    · have hself : sliceOf (d.writeBlock b).image (granuleOffset b.granule) b.data.length =
          b.data := by
        refine sliceOf_overwrite_self rfl ?_
        have := granuleOffset_add_le hlt.1
        omega
      refine (sliceOf_congr fun i hi => getElem?_image_writeBlocks hlen.2 ?_).trans hself
      intro c hc hin
      have heq : c.granule = b.granule := by
        refine granule_eq_of_inGranule hin ⟨Nat.le_add_right _ _, ?_⟩
        have := hlen.1
        omega
      exact hnodup.1 (heq ▸ List.mem_map_of_mem hc)
    · exact ih hnodup.2 hlen.2 hlt.2 hb

theorem allocation_eq (d : Disk) (g : UInt8) :
    d.allocation g = (d.track[tableOffset + g.toNat]?).getD 0 := by
  rw [allocation, Vector.getD, Array.getD_eq_getD_getElem?, Vector.getElem?_toArray]

theorem allocation_writeBlocks (hnodup : (bs.map (·.granule)).Nodup) (hb : b ∈ bs) :
    (bs.foldl writeBlock d).allocation b.granule = b.next := by
  induction bs generalizing d with
  | nil => cases hb
  | cons c bs ih =>
    rw [List.map_cons, List.nodup_cons] at hnodup
    rw [List.foldl_cons]
    rcases List.mem_cons.1 hb with rfl | hb
    · rw [allocation_eq, getElem?_track_writeBlocks, getElem?_track_writeBlock, if_pos rfl]
      · rfl
      · intro c hc heq
        have hsame : b.granule = c.granule := UInt8.toNat_inj.1 (Nat.add_left_cancel heq)
        exact hnodup.1 (hsame ▸ List.mem_map_of_mem hc)
    · exact ih hnodup.2 hb

end Blocks

theorem map_granule_blocks (granules : List UInt8) (data : Bytes) :
    (blocks granules data).map (·.granule) = granules := by
  fun_induction blocks granules data with
  | case1 => rfl
  | case2 => rfl
  | case3 g h rest data ih => rw [List.map_cons, ih]

theorem length_data_le {granules : List UInt8} {data : Bytes} {b : Block}
    (hb : b ∈ blocks granules data) : b.data.length ≤ granuleSize := by
  fun_induction blocks granules data with
  | case1 => cases hb
  | case2 g data part =>
    obtain rfl := List.mem_singleton.1 hb
    exact List.length_take_le _ _
  | case3 g h rest data ih =>
    rcases List.mem_cons.1 hb with rfl | hb
    · exact List.length_take_le _ _
    · exact ih hb

/-- A placement inside the disk: its slot exists, its name is in directory form, and its granules
exist, are different and are as many as the contents take. -/
structure Placement.Fits (p : Placement) : Prop where
  slot : p.slot < entryCount
  raw : p.raw.length = 11
  nodup : p.granules.Nodup
  exist (g : UInt8) : g ∈ p.granules → g.toNat < granuleCount
  needed : p.granules.length = granulesNeeded p.data.length

section Write

variable {d : Disk} {p : Placement} {i j : Nat}

theorem mem_granules_of_mem_blocks {b : Block} (hb : b ∈ p.blocks) : b.granule ∈ p.granules :=
  map_granule_blocks p.granules p.data ▸ List.mem_map_of_mem hb

theorem Placement.nodup_blocks (p : Placement) (h : p.granules.Nodup) :
    (p.blocks.map (·.granule)).Nodup := by
  rwa [blocks, map_granule_blocks]

theorem Placement.length_entry (h : p.raw.length = 11) : p.entry.length = entrySize := by
  simp [entry, wordBytes, h, entrySize]

theorem formatted_writeBlocks (d : Disk) (bs : List Block) :
    (bs.foldl writeBlock d).formatted = d.formatted := by
  induction bs generalizing d with
  | nil => rfl
  | cons b bs ih => rw [List.foldl_cons, ih, writeBlock]

theorem write_of_formatted (hd : d.formatted = true) (p : Placement) :
    d.write p = ((p.blocks.foldl writeBlock d).writeEntry p.slot p.entry).commitTrack := by
  rw [write, if_pos hd]

theorem formatted_write (hd : d.formatted = true) (p : Placement) :
    (d.write p).formatted = true := by
  rw [write_of_formatted hd]
  exact (formatted_writeBlocks d p.blocks).trans hd

/-- The image holds the directory track as it was staged. -/
theorem getElem?_image_directory (hd : d.formatted = true) (p : Placement) (hj : j < trackSize) :
    (d.write p).image[directoryOffset + j]? = (d.write p).track[j]? := by
  rw [write_of_formatted hd]
  simp only [commitTrack, getElem?_overwrite, Vector.length_toList]
  rw [if_pos, Nat.add_sub_cancel_left, Vector.getElem?_toList]
  simp only [directoryOffset, directoryTrack, trackSize, imageSize] at *
  omega

/-- Outside the directory track only the granules of the file are written. -/
theorem getElem?_image_write (hd : d.formatted = true)
    (hi : i < directoryOffset ∨ directoryOffset + trackSize ≤ i)
    (hg : ∀ g ∈ p.granules, ¬ InGranule g i) : (d.write p).image[i]? = d.image[i]? := by
  rw [write_of_formatted hd]
  simp only [commitTrack, getElem?_overwrite, Vector.length_toList]
  rw [if_neg (by omega)]
  refine getElem?_image_writeBlocks (fun b hb => length_data_le hb) ?_
  intro b hb
  exact hg b.granule (mem_granules_of_mem_blocks hb)

/-- In the directory track only the allocation entries of the file and its slot are written. -/
theorem getElem?_track_write (hd : d.formatted = true) (hraw : p.raw.length = 11)
    (hg : ∀ g ∈ p.granules, j ≠ tableOffset + g.toNat) (hslot : ¬ InSlot p.slot j) :
    (d.write p).track[j]? = d.track[j]? := by
  rw [write_of_formatted hd]
  simp only [commitTrack, writeEntry, getElem?_overwrite, Placement.length_entry hraw]
  rw [if_neg (by simp only [InSlot] at hslot; omega)]
  refine getElem?_track_writeBlocks fun b hb => ?_
  exact hg b.granule (mem_granules_of_mem_blocks hb)

theorem allocation_write_of_notMem (hd : d.formatted = true) (hraw : p.raw.length = 11) {g : UInt8}
    (hg : g ∉ p.granules) : (d.write p).allocation g = d.allocation g := by
  rw [allocation_eq, allocation_eq, getElem?_track_write hd hraw]
  · intro h hh heq
    have hsame : g = h := UInt8.toNat_inj.1 (Nat.add_left_cancel heq)
    exact hg (hsame ▸ hh)
  · have := UInt8.toNat_lt g
    simp only [InSlot, tableOffset, entriesOffset, sectorSize]
    omega

theorem allocation_write_of_mem (hd : d.formatted = true) (hp : p.Fits) {b : Block}
    (hb : b ∈ p.blocks) : (d.write p).allocation b.granule = b.next := by
  rw [← allocation_writeBlocks (p.nodup_blocks hp.nodup) hb, write_of_formatted hd, allocation_eq,
    allocation_eq]
  simp only [commitTrack, writeEntry, getElem?_overwrite]
  rw [if_neg]
  have := UInt8.toNat_lt b.granule
  simp only [tableOffset, entriesOffset, sectorSize]
  omega

theorem entry_write_of_ne (hd : d.formatted = true) (hraw : p.raw.length = 11) {slot : Nat}
    (hslot : slot ≠ p.slot) : (d.write p).entry slot = d.entry slot := by
  refine sliceOf_congr fun i hi => getElem?_track_write hd hraw ?_ ?_
  · intro g _
    have := UInt8.toNat_lt g
    simp only [tableOffset, entriesOffset, sectorSize]
    omega
  · simp only [InSlot, entrySize] at *
    omega

theorem entry_write_self (hd : d.formatted = true) (hp : p.Fits) :
    (d.write p).entry p.slot = p.entry := by
  have hslot := hp.slot
  rw [write_of_formatted hd]
  refine sliceOf_overwrite_self (Placement.length_entry hp.raw) ?_
  simp only [entryCount, entriesOffset, entrySize, sectorSize, trackSize] at *
  omega

theorem sliceOf_write_of_notMem (hd : d.formatted = true) {g : UInt8} {count : Nat}
    (hg : g ∉ p.granules) (hcount : count ≤ granuleSize) :
    sliceOf (d.write p).image (granuleOffset g) count =
      sliceOf d.image (granuleOffset g) count := by
  refine sliceOf_congr fun i hi => ?_
  have hin : InGranule g (granuleOffset g + i) := ⟨Nat.le_add_right _ _, by omega⟩
  refine getElem?_image_write hd (outside_of_inGranule hin) fun h hh hin' => ?_
  exact hg (granule_eq_of_inGranule hin hin' ▸ hh)

theorem sliceOf_write_of_mem (hd : d.formatted = true) (hp : p.Fits) {b : Block}
    (hb : b ∈ p.blocks) :
    sliceOf (d.write p).image (granuleOffset b.granule) b.data.length = b.data := by
  have hblocks := sliceOf_image_writeBlocks (d := d) (p.nodup_blocks hp.nodup)
    (fun b hb => length_data_le hb) (fun b hb => hp.exist _ (mem_granules_of_mem_blocks hb)) hb
  refine (sliceOf_congr fun i hi => ?_).trans hblocks
  have hlen : b.data.length ≤ granuleSize := length_data_le hb
  have hin : InGranule b.granule (granuleOffset b.granule + i) :=
    ⟨Nat.le_add_right _ _, by omega⟩
  have hout := outside_of_inGranule hin
  rw [write_of_formatted hd]
  simp only [commitTrack, getElem?_overwrite, Vector.length_toList]
  rw [if_neg (by omega)]
  rfl

end Write
end Disk
end Forge6809
