import Forge6809.Proofs.Disk.Capacity
import Forge6809.Proofs.Disk.Preservation

/-! # The allocation table of a filled disk

A disk that was filled from new gives out its granules in the order of allocation and takes none
back. The chains of its files therefore stand one after the other at the start of that order: none
of them meets another or itself, and together they are the granules that are not free. The last
entry of a chain and the directory say how many bytes its last granule holds, also where a file is
empty or ends with a sector or a granule. -/

namespace Forge6809.Disk

def lastSectorBytes (d : Disk) (slot : Nat) : Nat :=
  (wordOf ((d.entry slot).getD 14 0) ((d.entry slot).getD 15 0)).toNat

/-- A slot whose chain, from its first granule to its last one, is the given granules, and whose
file has `size` bytes, `part` of them in the last granule. -/
structure Occupies (d : Disk) (slot : Nat) (granules : List UInt8) (size part : Nat) :
    Prop where
  first : granules.head? = some ((d.entry slot).getD 13 0)
  links : granules.IsChain fun g next => d.allocation g = next
  /-- Reading the directory finds the chain. -/
  found : d.entryChain (d.entry slot) = .ok (granules, size)
  needed : granules.length = max 1 ((size + 2303) / 2304)
  parts : size = (granules.length - 1) * 2304 + part
  /-- The last allocation entry has the number of sectors. -/
  sectors (g : UInt8) : granules.getLast? = some g →
    (d.allocation g).toNat = 0xC0 + max 1 ((part + 255) / 256)
  sectors_le : max 1 ((part + 255) / 256) ≤ 9
  lastSector : d.lastSectorBytes slot = part - 256 * (max 1 ((part + 255) / 256) - 1)
  lastSector_le : d.lastSectorBytes slot ≤ 256

/-- The directory and the allocation table of a disk that holds files of some sizes, each of them
with its chain, in the order of the slots. -/
structure Allocates (d : Disk) (sizes : List Nat) (chains : List (List UInt8)) : Prop where
  /-- The directory track in the image is the staged one. -/
  synced (j : Nat) : j < trackSize → d.image[directoryOffset + j]? = d.track[j]?
  /-- The slots in use are the first ones. -/
  used (slot : Nat) : slot < entryCount →
    (d.mark slot ≠ 0x00 ∧ d.mark slot ≠ 0xFF ↔ slot < sizes.length)
  length_eq : chains.length = sizes.length
  occupies (slot size : Nat) : sizes[slot]? = some size →
    ∃ granules part, chains[slot]? = some granules ∧ d.Occupies slot granules size part
  acyclic (granules : List UInt8) : granules ∈ chains → granules.Nodup
  disjoint : chains.Pairwise List.Disjoint
  covered (g : UInt8) : g.toNat < granuleCount →
    (d.allocation g ≠ freeMark ↔ ∃ granules ∈ chains, g ∈ granules)
  /-- The chains take up the order of allocation from its start, one after the other. -/
  consecutive : chains.flatten <+: granuleOrder

section Blocks

variable {d : Disk} {granules : List UInt8} {data : Bytes}

theorem isChain_of_blocks (h : ∀ b ∈ blocks granules data, d.allocation b.granule = b.next) :
    granules.IsChain fun g next => d.allocation g = next := by
  fun_induction blocks granules data with
  | case1 => exact .nil
  | case2 => exact .singleton _
  | case3 g next rest data ih =>
    rw [List.forall_mem_cons] at h
    exact .cons_cons h.1 (ih h.2)

theorem allocation_last_of_blocks {g : UInt8} {part : Nat} (hpart : part ≤ granuleSize)
    (hlen : data.length = (granules.length - 1) * granuleSize + part)
    (h : ∀ b ∈ blocks granules data, d.allocation b.granule = b.next)
    (hg : granules.getLast? = some g) :
    d.allocation g = lastMark + UInt8.ofNat (sectorsNeeded part) := by
  fun_induction blocks granules data with
  | case1 => cases hg
  | case2 g' data taken =>
    obtain rfl : g' = g := by simpa using hg
    have htaken : taken.length = part := by
      simp only [taken, List.length_take, hlen, List.length_singleton]
      omega
    rw [← htaken]
    exact h _ (List.mem_singleton_self _)
  | case3 g' next rest data ih =>
    rw [List.forall_mem_cons] at h
    rw [List.getLast?_cons_cons] at hg
    apply ih _ h.2 hg
    simp only [List.length_drop, hlen, List.length_cons, Nat.add_sub_cancel, Nat.succ_mul]
    omega

end Blocks

/-- A ledger whose files have taken the first granules in the order of allocation. -/
structure Layout (d : Disk) (ps : List Placement) : Prop extends d.Ledger ps where
  /-- The allocation table has the blocks of the files. -/
  linked (p : Placement) : p ∈ ps → ∀ b ∈ p.blocks, d.allocation b.granule = b.next
  ordered : occupied ps <+: granuleOrder
  /-- From the first file on the image has the staged directory track. -/
  synced : ps ≠ [] → d.Synced

section Layout

variable {d : Disk} {ps : List Placement} {p : Placement} {f : NewFile}

theorem synced_write (d : Disk) (p : Placement) : (d.write p).Synced := by
  rw [write_prepared]
  exact ⟨formatted_write d.formatted_prepared p,
    fun j hj => getElem?_image_directory d.formatted_prepared p hj⟩

theorem layout_nil (h : d.Ledger []) : d.Layout [] where
  toLedger := h
  linked p hp := by cases hp
  ordered := List.nil_prefix
  synced h := absurd rfl h

/-- What follows the occupied granules in the order of allocation is free. -/
theorem Layout.exists_free (h : d.Layout ps) : ∃ free, granuleOrder = occupied ps ++ free ∧
    ∀ count, d.freeGranules count = free.take count := by
  obtain ⟨free, hfree⟩ := h.ordered
  refine ⟨free, hfree.symm, fun count => ?_⟩
  have hapart : ∀ g ∈ free, g ∉ occupied ps := by
    intro g hg hmem
    have hnodup := nodup_granuleOrder
    rw [← hfree] at hnodup
    exact List.disjoint_of_nodup_append hnodup hmem hg
  have htaken : (occupied ps).filter (fun g => g ∉ occupied ps) = [] := by simp
  rw [h.freeGranules_eq, ← hfree, List.filter_append, htaken, List.nil_append,
    List.filter_eq_self.2]
  simpa using hapart

theorem Layout.write (h : d.Layout ps) (hp : d.Room p) {count : Nat}
    (hgranules : p.granules = d.freeGranules count) : (d.write p).Layout (ps ++ [p]) where
  toLedger := h.toLedger.write hp
  linked q hq b hb := by
    rcases List.mem_append.1 hq with hq | hq
    · have hnotMem : b.granule ∉ p.granules := by
        intro hmem
        exact (h.stored q hq).allocated (mem_granules_of_mem_blocks hb) (hp.free _ hmem)
      rw [allocation_write_of_notMem hp.formatted hp.raw hnotMem]
      exact h.linked q hq b hb
    · obtain rfl := List.mem_singleton.1 hq
      exact allocation_write_of_mem hp.formatted hp.toFits hb
  ordered := by
    obtain ⟨free, horder, hfree⟩ := h.exists_free
    rw [occupied_append, hgranules, hfree, horder, List.prefix_append_right_inj]
    exact List.take_prefix count free
  synced _ := d.synced_write p

theorem Layout.prepared (h : d.Layout ps) : d.prepared.Layout ps := by
  cases hd : d.formatted with
  | true => rwa [prepared_of_formatted hd]
  | false =>
    have hledger := h.toLedger.prepared
    obtain rfl := h.unformatted hd
    exact layout_nil hledger

/-- A file that is accepted takes the next granules in the order of allocation. -/
theorem Layout.place (h : d.Layout ps) (hplace : d.place f = .ok p) :
    (d.write p).Layout (ps ++ [p]) := by
  have hgranules := (place_eq_ok_iff.1 hplace).2.2.2.1
  rw [h.freeGranules_eq, ← h.prepared.freeGranules_eq] at hgranules
  rw [write_prepared]
  exact h.prepared.write (room_prepared hplace) hgranules

theorem Layout.occupies (h : d.Layout ps) (hp : p ∈ ps) :
    ∃ part, d.Occupies p.slot p.granules p.data.length part := by
  have hstores := h.stored p hp
  obtain ⟨g, rest, part, hgranules, hpart, hlen⟩ := hstores.exists_part
  have hlast : d.lastSectorBytes p.slot = sectorRest part := by
    rw [lastSectorBytes, hstores.entry]
    exact Placement.toNat_wordOf_entry hstores.raw hgranules hpart hlen
  have hparts : p.data.length = (p.granules.length - 1) * granuleSize + part := by
    rw [hgranules, List.length_cons, Nat.add_sub_cancel, hlen]
  have hbounds := sectorsNeeded_bounds hpart
  exact ⟨part, {
    first := by
      rw [hstores.entry, Placement.getD_entry_first hstores.raw hgranules, hgranules,
        List.head?_cons]
    links := isChain_of_blocks (h.linked p hp)
    found := by rw [hstores.entry, hstores.chain]
    needed := hstores.needed
    parts := hparts
    sectors := by
      intro g hg
      rw [allocation_last_of_blocks hpart hparts (h.linked p hp) hg,
        toNat_lastMark_add hbounds.2.1]
      rfl
    sectors_le := hbounds.2.1
    lastSector := by
      rw [hlast, sectorRest, Nat.mul_comm]
      rfl
    lastSector_le := by
      rw [hlast]
      exact sectorRest_le hpart }⟩

theorem Layout.getElem?_slot (h : d.Layout ps) {slot : Nat} (hp : ps[slot]? = some p) :
    p.slot = slot := by
  have hslot : (ps.map (·.slot))[slot]? = (List.range ps.length)[slot]? := by rw [h.slots]
  rw [List.getElem?_map, hp, List.getElem?_range (List.getElem?_eq_some_iff.1 hp).1] at hslot
  exact Option.some.inj hslot

theorem Layout.allocates (h : d.Layout ps) (hps : ps ≠ []) :
    d.Allocates (ps.map (·.data.length)) (ps.map (·.granules)) := by
  have hsynced := h.synced hps
  have hflatten : (ps.map (·.granules)).flatten = occupied ps := rfl
  have hnodup := h.apart
  rw [← hflatten, List.nodup_flatten] at hnodup
  exact {
    synced := hsynced.track
    used := by
      intro slot hslot
      rw [List.length_map]
      rcases h.cases hslot with ⟨p, hp, rfl⟩ | ⟨hle, hmark⟩
      · rw [(h.stored p hp).mark_eq]
        exact iff_of_true (h.stored p hp).named (h.slot_lt hp)
      · exact iff_of_false (fun hused => hused.1 hmark) (Nat.not_lt.2 hle)
    length_eq := by rw [List.length_map, List.length_map]
    occupies := by
      intro slot size hsize
      rw [List.getElem?_map, Option.map_eq_some_iff] at hsize
      obtain ⟨p, hp, rfl⟩ := hsize
      obtain ⟨part, hpart⟩ := h.occupies (List.mem_of_getElem? hp)
      rw [h.getElem?_slot hp] at hpart
      exact ⟨p.granules, part, by rw [List.getElem?_map, hp, Option.map_some], hpart⟩
    acyclic := hnodup.1
    disjoint := hnodup.2
    covered := by
      intro g hg
      rw [ne_eq, h.free_iff hsynced.formatted hg, not_not, ← hflatten, List.mem_flatten]
    consecutive := by
      rw [hflatten]
      exact h.ordered }

end Layout

/-- On a disk that was filled from new and has accepted a file, the chains of the files are found in
the directory in the order in which the files were added; they are disjoint, they are exactly what
is not free, and they take up the order of allocation from its start. -/
theorem addAll_allocates (fs : List NewFile) (h : new.accepted fs ≠ []) :
    ∃ chains, (new.addAll fs).Allocates ((new.accepted fs).map (·.data.length)) chains := by
  obtain ⟨ps, hlayout, hfor⟩ := exists_addAll Layout.place
    (layout_nil (ledger_nil mark_new fun hd => absurd hd (by decide))) fs
  have hps : ps ≠ [] := by
    rintro rfl
    exact h (List.forall₂_nil_left_iff.1 hfor)
  rw [map_data List.length hfor]
  exact ⟨_, hlayout.allocates hps⟩

/-- A file that fills two granules to the last byte, after one that is refused. -/
theorem fullGranules_allocates : new.accepted [namelessFile, fullFile] = [fullFile] ∧
    ∃ chains, (new.addAll [namelessFile, fullFile]).Allocates [4608] chains := by
  have h := addAll_allocates [namelessFile, fullFile] (by simp [accepted_fullFile])
  rw [accepted_fullFile, List.map_singleton, length_fullFile] at h
  exact ⟨accepted_fullFile, h⟩

end Forge6809.Disk
