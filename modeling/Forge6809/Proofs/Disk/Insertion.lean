import Forge6809.Proofs.Disk.Catalog
import Forge6809.Proofs.Disk.Listing
import Forge6809.Proofs.Disk.Preservation

/-! # What a new file does to the listing

The slots before the slot of a new file are all in use. If that slot was given up, the listing gets
the entry of the file in its place. If it was the end of the directory, the mark of the end is
overwritten and no new one is set: the slots behind it, up to the next mark, count as in use from
then on, whatever an image has left in them. -/

namespace Forge6809.Disk

structure Entry.Describes (e : Entry) (f : NewFile) : Prop where
  name : e.name = canonicalName f.name
  type : e.type = f.type
  mode : e.mode = if f.mode.resolve f.type = .ascii then .ascii else .binary
  size : e.size = f.data.length

/-- Two disks whose listings are complete and differ in one entry, for a file that was added. -/
def Inserts (d d' : Disk) (f : NewFile) : Prop :=
  ∃ before e after, e.Describes f ∧ d.files = (before ++ after, none) ∧
    d'.files = (before ++ e :: after, none)

section Entry

variable {d : Disk} {p : Placement} {f : NewFile}

theorem Placement.For.describes (h : p.For f) : p.listing.Describes f where
  name := h.name_listing
  type := by
    rw [← FileType.ofNat_byte h.named, ← h.type]
    rfl
  mode := by
    rw [← h.mode, ← FileMode.ofFlag_flag]
    rfl
  size := congrArg List.length h.data

theorem Stores.entryAt (h : d.Stores p) : d.entryAt p.slot = .ok p.listing := by
  have htype : p.entry.getD 11 0 = p.type.byte := Placement.getD_entry h.raw 0
  have hmode : p.entry.getD 12 0 = p.mode.flag := Placement.getD_entry h.raw 1
  have hfirst : p.entry.getD 13 0 = p.granules.headD 0 := Placement.getD_entry h.raw 2
  rw [Disk.entryAt, h.entry, h.chain]
  dsimp only
  rw [htype, hmode, hfirst]
  rfl

end Entry

section Write

variable {d : Disk} {p : Placement} {slots : List Nat} {es : List Entry}

theorem usedSlots_room (hp : d.Room p) : d.usedSlots (List.range entryCount) =
    List.range p.slot ++ if d.mark p.slot = 0xFF then [] else d.usedSlots (behind p.slot) := by
  rw [usedSlots_range hp.slot hp.used, usedSlots_cons]
  split
  · rfl
  · next hend => rw [if_pos (hp.unused.resolve_right hend)]

theorem usedSlots_write (hp : d.Room p) : (d.write p).usedSlots (List.range entryCount) =
    List.range p.slot ++ p.slot :: d.usedSlots (behind p.slot) := by
  have hbefore : ∀ s < p.slot, (d.write p).mark s ≠ 0x00 ∧ (d.write p).mark s ≠ 0xFF := by
    intro s hs
    rw [mark_write_of_ne hp hs.ne]
    exact hp.used s hs
  have hbehind : ∀ s ∈ behind p.slot, (d.write p).mark s = d.mark s :=
    fun s hs => mark_write_of_ne hp (lt_of_mem_behind hs).ne'
  rw [usedSlots_range hp.slot hbefore, usedSlots_cons, hp.stores.mark_eq, if_neg hp.named.2,
    if_neg hp.named.1, usedSlots_congr hbehind]

/-- Slots that can be listed are listed as before. -/
theorem map_entryAt_write (hp : d.Room p) (hslots : ∀ s ∈ slots, s ≠ p.slot)
    (h : slots.map d.entryAt = es.map .ok) : slots.map (d.write p).entryAt = es.map .ok := by
  rw [← h]
  apply List.map_congr_left
  intro s hs
  have hok : d.entryAt s ∈ es.map Except.ok := h ▸ List.mem_map_of_mem hs
  obtain ⟨e, -, he⟩ := List.mem_map.1 hok
  rw [Disk.entryAt] at he
  cases hchain : d.entryChain (d.entry s) with
  | error cause =>
    rw [hchain] at he
    cases he
  | ok chain =>
    rw [Disk.entryAt, Disk.entryAt, entry_write_of_ne hp.formatted hp.raw (hslots s hs), hchain,
      (entryChain_write hp hchain).1]

/-- The listing up to the new entry stays as it was; what follows is what stands behind its slot. -/
theorem files_write (hp : d.Room p) (h : d.files = (es, none)) :
    let revealed := collect ((d.usedSlots (behind p.slot)).map (d.write p).entryAt)
    (d.write p).files = (es.take p.slot ++ p.listing :: revealed.1, revealed.2) := by
  rw [files_eq, collect_eq_iff, usedSlots_room hp] at h
  have hbefore : (List.range p.slot).map (d.write p).entryAt = (es.take p.slot).map .ok := by
    apply map_entryAt_write hp fun s hs => (List.mem_range.1 hs).ne
    rw [List.map_take, ← h, List.map_append, List.take_left' (by simp)]
  rw [files_eq, usedSlots_write hp, List.map_append, hbefore, List.map_cons, hp.stores.entryAt,
    collect_append, collect]

/-- The entry is inserted and nothing else if and only if the end of the directory was not
overwritten, or no slot in use was behind it. -/
theorem inserts_write_iff (hp : d.Room p) {f : NewFile} (hfor : p.For f)
    (h : d.files = (es, none)) :
    d.Inserts (d.write p) f ↔ d.mark p.slot = 0x00 ∨ d.usedSlots (behind p.slot) = [] := by
  constructor
  · rintro ⟨before, e, after, -, hold, hnew⟩
    have hlengths := length_usedSlots hold
    have hlengths' := length_usedSlots hnew
    rw [usedSlots_room hp, List.length_append, List.length_append] at hlengths
    rw [usedSlots_write hp, List.length_append, List.length_append, List.length_cons,
      List.length_cons] at hlengths'
    -- Where the listing stopped at the new slot, every slot behind it is one entry too many.
    refine hp.unused.imp_right fun hend => List.eq_nil_of_length_eq_zero ?_
    rw [if_pos hend, List.length_nil] at hlengths
    omega
  · intro hcond
    have htail : (if d.mark p.slot = 0xFF then [] else d.usedSlots (behind p.slot)) =
        d.usedSlots (behind p.slot) := by
      rcases hcond with hhole | hhidden
      · rw [if_neg (by rw [hhole]; decide)]
      · rw [hhidden, ite_self]
    have hused := h
    rw [files_eq, collect_eq_iff, usedSlots_room hp, htail] at hused
    have hafter : (d.usedSlots (behind p.slot)).map (d.write p).entryAt =
        (es.drop p.slot).map .ok := by
      apply map_entryAt_write hp
      · exact fun s hs => (lt_of_mem_behind (d.usedSlots_subset _ hs)).ne'
      · rw [List.map_drop, ← hused, List.map_append, List.drop_left' (by simp)]
    refine ⟨es.take p.slot, p.listing, es.drop p.slot, hfor.describes, ?_, ?_⟩
    · rw [List.take_append_drop, h]
    · rw [files_write hp h, collect_eq_iff.2 hafter]

end Write

/-- A file that is added to a loaded image whose directory can be listed is listed after the entries
of the slots before its own, as it was added. What follows it are the slots in use behind its own:
the entries that were listed there before, if the slot was given up, and otherwise entries that were
hidden behind the end of the directory. So the listing gets this entry and nothing else if and only
if the slot was given up or nothing was hidden behind it. -/
theorem add_listed {d d' : Disk} {f : NewFile} {p : Placement} (hd : Loaded d)
    (hfiles : d.files.2 = none) (h : d.add f = (.ok p, d')) :
    let revealed := collect ((d.usedSlots (behind p.slot)).map d'.entryAt)
    ∃ e : Entry, e.Describes f ∧
      d'.files = (d.files.1.take p.slot ++ e :: revealed.1, revealed.2) ∧
      (d.Inserts d' f ↔ d.mark p.slot = 0x00 ∨ d.usedSlots (behind p.slot) = []) := by
  obtain ⟨hplace, rfl⟩ := add_eq_ok_iff.1 h
  have hroom := room_of_place hd.synced.formatted hplace
  have hfor := (place_eq_ok_iff.1 hplace).1
  have hlisted : d.files = (d.files.1, none) := by
    rw [← hfiles]
  exact ⟨p.listing, hfor.describes, files_write hroom hlisted, inserts_write_iff hroom hfor hlisted⟩

section Empty

variable {d : Disk} {p : Placement} {raw : Bytes}

theorem files_of_end (h : d.mark 0 = 0xFF) : d.files = ([], none) := by
  have hused : d.usedSlots (List.range entryCount) = [] := by
    rw [usedSlots_range (by decide) fun s hs => absurd hs (Nat.not_lt_zero s), usedSlots_cons,
      if_pos h, List.range_zero, List.nil_append]
  rw [files_eq, hused, List.map_nil, collect]

theorem lookup?_of_end (h : d.mark 0 = 0xFF) : d.lookup? raw = none := by
  rw [Option.eq_none_iff_forall_ne_some]
  intro slot hslot
  obtain ⟨-, hend, -, hbefore⟩ := lookup?_eq_some_iff.1 hslot
  rcases Nat.eq_zero_or_pos slot with rfl | hpos
  · exact hend h
  · exact (hbefore 0 hpos).1 h

theorem Room.slot_of_end (hp : d.Room p) (h : d.mark 0 = 0xFF) : p.slot = 0 := by
  by_contra hpos
  exact (hp.used 0 (Nat.pos_of_ne_zero hpos)).2 h

end Empty

open Text in
/-- On an erased disk nothing is hidden. -/
theorem erased_add_listed :
    let f : NewFile := ⟨ofString "new.bin", .machineLanguage, .automatic, [0x12]⟩
    let d := (new.unmarshal (List.replicate imageSize 0xFF)).2
    ∃ p d', Loaded d ∧ d.files.2 = none ∧ d.add f = (.ok p, d') ∧ d.Inserts d' f := by
  intro f d
  have hname : dirName f.name = .ok (ofString "NEW     BIN") := by decide +kernel
  have hloaded : Loaded d := .unmarshal new List.length_replicate
  have herased : d.Erased :=
    erased_unmarshal new List.length_replicate fun b => List.eq_of_mem_replicate
  clear_value d
  obtain ⟨p, hp⟩ := herased.exists_place hname (by decide) (by decide)
  have hend : d.mark 0 = 0xFF := herased.mark (by decide)
  have hslot := (room_of_place herased.formatted hp).slot_of_end hend
  have hfiles : d.files.2 = none := by rw [files_of_end hend]
  have hadd : d.add f = (.ok p, d.write p) := add_eq_ok_iff.2 ⟨hp, rfl⟩
  obtain ⟨e, -, -, hiff⟩ := add_listed hloaded hfiles hadd
  refine ⟨p, d.write p, hloaded, hfiles, hadd, hiff.2 (.inr ?_)⟩
  rw [hslot, show behind 0 = 1 :: behind 1 from rfl, usedSlots_cons,
    if_pos (herased.mark (by decide))]

open Text in
def hiddenEntry : Bytes :=
  ofString "HIDDEN  BIN" ++ [0x02, 0x00, 0x20, 0x00, 0x05] ++ List.replicate 16 0

/-- An erased image but for the second directory slot, which has an entry, and its granule. -/
def hidingImage : Vector UInt8 imageSize :=
  overwrite (overwrite (Vector.replicate imageSize 0xFF) (allocationOffset 0x20) [0xC1])
    (slotOffset 1) hiddenEntry

/-- A disk that was loaded from that image. -/
structure Hiding (d : Disk) : Prop extends d.Synced where
  image : d.image = hidingImage

section Hiding

variable {d : Disk} {slot : Nat} {g : UInt8}

theorem hiding_unmarshal (d : Disk) : (d.unmarshal hidingImage.toList).2.Hiding where
  toSynced := d.synced_unmarshal Vector.length_toList
  image := by
    obtain ⟨image, himage, hd⟩ := d.unmarshal_of_length hidingImage.length_toList
    rw [hd]
    exact Vector.toList_inj.1 himage

theorem length_hiddenEntry : hiddenEntry.length = entrySize :=
  rfl

theorem Hiding.mark (hd : d.Hiding) (h : slot < entryCount) (hslot : slot ≠ 1) :
    d.mark slot = 0xFF := by
  have hmark := hd.image_mark h
  rw [hd.image, hidingImage, getElem?_overwrite, getElem?_overwrite, if_neg, if_neg,
    Vector.getElem?_replicate, if_pos] at hmark
  · exact (Option.some.inj hmark).symm
  all_goals
    simp only [slotOffset, allocationOffset, directoryOffset, directoryTrack, trackSize,
      entriesOffset, tableOffset, sectorSize, entrySize, entryCount, imageSize, length_hiddenEntry,
      List.length_singleton, UInt8.reduceToNat] at *
    omega

theorem Hiding.allocation (hd : d.Hiding) (g : UInt8) :
    d.allocation g = if g = 0x20 then 0xC1 else freeMark := by
  have hentry := hd.image_allocation g
  have hlt := UInt8.toNat_lt g
  have hslot : ¬ slotOffset 1 ≤ allocationOffset g := by
    simp only [slotOffset, allocationOffset, entriesOffset, tableOffset, sectorSize, entrySize]
    omega
  rw [hd.image, hidingImage, getElem?_overwrite, if_neg (fun hin => hslot hin.1),
    getElem?_overwrite] at hentry
  have hbound : allocationOffset g < imageSize := by
    simp only [allocationOffset, directoryOffset, directoryTrack, trackSize, tableOffset,
      sectorSize, imageSize]
    omega
  by_cases hg : g = 0x20
  · subst hg
    rw [if_pos rfl]
    exact (Option.some.inj hentry).symm
  · have hne : g.toNat ≠ 0x20 := fun heq => hg (UInt8.toNat_inj.1 heq)
    rw [if_neg, Vector.getElem?_replicate, if_pos hbound] at hentry
    · rw [if_neg hg]
      exact (Option.some.inj hentry).symm
    · simp only [allocationOffset, List.length_singleton, UInt8.reduceToNat]
      omega

theorem Hiding.entry_one (hd : d.Hiding) : d.entry 1 = hiddenEntry := by
  rw [hd.entry_eq (by decide), hd.image, hidingImage,
    sliceOf_overwrite_self length_hiddenEntry (by decide)]

open Text in
theorem Hiding.entryAt_one (hd : d.Hiding) : d.entryAt 1 =
    .ok ⟨ofString "HIDDEN.BIN", .machineLanguage, .binary, 0x20, 5⟩ := by
  have hallocation : d.allocation 0x20 = 0xC1 := by rw [hd.allocation, if_pos rfl]
  have hchain : Chain d 5 0x20 [0x20] (lastSize (d.allocation 0x20) 5) := by
    refine .last (by decide) ?_ (by decide)
    rw [hallocation, IsLast]
    decide
  rw [hallocation] at hchain
  have hentry : d.entryChain hiddenEntry = .ok ([0x20], 5) :=
    follow_eq_ok_iff.2 ⟨hchain, by decide⟩
  have hname : entryName hiddenEntry = ofString "HIDDEN.BIN" := by decide +kernel
  rw [entryAt, hd.entry_one, hentry]
  dsimp only
  rw [hname]
  rfl

theorem Hiding.exists_place (hd : d.Hiding) {f : NewFile} {raw : Bytes}
    (hraw : dirName f.name = .ok raw) (hnamed : f.type.isNamed = true)
    (hneeded : granulesNeeded f.data.length = 1) : ∃ p, d.place f = .ok p := by
  have hend : d.mark 0 = 0xFF := hd.mark (by decide) (by decide)
  refine Disk.exists_place hd.formatted hraw hnamed (lookup?_of_end hend) (s := 0) (by decide)
    (.inr hend) ?_
  have hfree : d.allocation 0x21 = freeMark := by rw [hd.allocation, if_neg (by decide)]
  rw [hneeded]
  exact List.length_pos_of_mem (List.mem_filter.2 ⟨mem_granuleOrder.2 (by decide),
    beq_iff_eq.2 hfree⟩)

end Hiding

open Text in
/-- The end of the directory is the first slot here; a file that is added to it uncovers the entry
in the second one. -/
theorem hidingImage_uncovered :
    let f : NewFile := ⟨ofString "new.bin", .machineLanguage, .automatic, [0x12]⟩
    let d := (new.unmarshal hidingImage.toList).2
    ∃ p d' e, Loaded d ∧ d.files = ([], none) ∧ d.add f = (.ok p, d') ∧
      d'.files = ([e, ⟨ofString "HIDDEN.BIN", .machineLanguage, .binary, 0x20, 5⟩], none) ∧
      ¬ d.Inserts d' f := by
  intro f d
  have hname : dirName f.name = .ok (ofString "NEW     BIN") := by decide +kernel
  have hloaded : Loaded d := .unmarshal new Vector.length_toList
  have hd : d.Hiding := hiding_unmarshal new
  clear_value d
  obtain ⟨p, hp⟩ := hd.exists_place hname (by decide) (by decide)
  have hroom := room_of_place hd.formatted hp
  have hend : d.mark 0 = 0xFF := hd.mark (by decide) (by decide)
  have hslot := hroom.slot_of_end hend
  have hbehind : d.usedSlots (behind p.slot) = [1] := by
    have hone : d.mark 1 = 0x48 := by rw [Disk.mark, hd.entry_one]; rfl
    rw [hslot, show behind 0 = 1 :: 2 :: behind 2 from rfl, usedSlots_cons, usedSlots_cons, hone,
      if_neg (by decide), if_neg (by decide), if_pos (hd.mark (by decide) (by decide))]
  have hrevealed : [1].map (d.write p).entryAt =
      [⟨ofString "HIDDEN.BIN", .machineLanguage, .binary, 0x20, 5⟩].map .ok := by
    apply map_entryAt_write hroom
    · rw [List.forall_mem_singleton, hslot]
      decide
    · rw [List.map_singleton, hd.entryAt_one, List.map_singleton]
  have hfiles := files_write hroom (files_of_end hend)
  dsimp only at hfiles
  rw [hbehind, collect_eq_iff.2 hrevealed, List.take_nil, List.nil_append] at hfiles
  have hadd : d.add f = (.ok p, d.write p) := add_eq_ok_iff.2 ⟨hp, rfl⟩
  refine ⟨p, d.write p, p.listing, hloaded, files_of_end hend, hadd, hfiles, ?_⟩
  rw [inserts_write_iff hroom (place_eq_ok_iff.1 hp).1 (files_of_end hend), hbehind, hslot, hend]
  decide

end Forge6809.Disk
