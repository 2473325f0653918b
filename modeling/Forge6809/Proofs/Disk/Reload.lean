import Forge6809.Proofs.Disk.Allocation

/-! # Saving and loading a disk

The image of a disk brings back the disk itself, once a file was added to it. A disk that is still
unformatted comes back formatted and erased: its slots are marked as the end of the directory where
a disk that was formatted for its first file has slots that were given up. The two images stay
different from then on, but only where no request looks: in slots that are not in use and in the
part of the directory track that has no entries. -/

namespace Forge6809.Disk

inductive Request where
  | add (f : NewFile)
  | read (name : Bytes)
  | files

inductive Answer where
  | added (r : Except Error Placement)
  | contents (r : Except Error Bytes)
  | listing (entries : List Entry) (error : Option Error)

/-- The answer to a request, and the disk after it. -/
def serve (d : Disk) : Request → Answer × Disk
  | .add f => (.added (d.add f).1, (d.add f).2)
  | .read name => (.contents (d.read name), d)
  | .files => (.listing d.files.1 d.files.2, d)

/-- The answers to requests that are made one after the other, each with the image after it. -/
def serveAll (d : Disk) : List Request → List (Answer × Vector UInt8 imageSize)
  | [] => []
  | r :: rs => ((d.serve r).1, (d.serve r).2.image) :: (d.serve r).2.serveAll rs

def answers (d : Disk) (rs : List Request) : List Answer :=
  (d.serveAll rs).map Prod.fst

/-- The slots in use are the first ones, however the others are marked. -/
structure Dense (d : Disk) (used : Nat) : Prop where
  le : used ≤ entryCount
  inUse (s : Nat) : s < used → d.mark s ≠ 0x00 ∧ d.mark s ≠ 0xFF
  unused (s : Nat) : used ≤ s → s < entryCount → d.mark s = 0x00 ∨ d.mark s = 0xFF

section Dense

variable {d : Disk} {used slot : Nat} {raw : Bytes} {p : Placement}

theorem Dense.lt_of_mark (h : d.Dense used) (hslot : slot < entryCount)
    (hmark : d.mark slot ≠ 0x00 ∧ d.mark slot ≠ 0xFF) : slot < used := by
  by_contra hle
  rcases h.unused slot (Nat.not_lt.1 hle) hslot with heq | heq
  · exact hmark.1 heq
  · exact hmark.2 heq

theorem Dense.lookup?_eq_some_iff (h : d.Dense used) : d.lookup? raw = some slot ↔
    slot < used ∧ (d.entry slot).take 11 = raw ∧ ∀ s < slot, (d.entry s).take 11 ≠ raw := by
  rw [Disk.lookup?_eq_some_iff]
  constructor
  · rintro ⟨hslot, hend, hnames, hbefore⟩
    have hlt := h.lt_of_mark hslot ⟨hnames.1, hend⟩
    refine ⟨hlt, hnames.2, fun s hs heq => (hbefore s hs).2 ?_⟩
    exact ⟨(h.inUse s (hs.trans hlt)).1, heq⟩
  · rintro ⟨hlt, heq, hbefore⟩
    refine ⟨hlt.trans_le h.le, (h.inUse slot hlt).2, ⟨(h.inUse slot hlt).1, heq⟩, fun s hs => ?_⟩
    exact ⟨(h.inUse s (hs.trans hlt)).2, fun hnames => hbefore s hs hnames.2⟩

theorem Dense.freeSlot?_eq_some_iff (h : d.Dense used) (hd : d.formatted = true) :
    d.freeSlot? = some slot ↔ slot = used ∧ used < entryCount := by
  rw [Disk.freeSlot?_eq_some_iff hd]
  constructor
  · rintro ⟨hslot, hmark, hbefore⟩
    have hle : used ≤ slot := by
      by_contra hlt
      have hused := h.inUse slot (Nat.not_le.1 hlt)
      exact hmark.elim hused.1 hused.2
    have hge : ¬ used < slot := by
      intro hlt
      have hused := hbefore used hlt
      exact (h.unused used le_rfl (hlt.trans hslot)).elim hused.1 hused.2
    omega
  · rintro ⟨rfl, hlt⟩
    exact ⟨hlt, h.unused slot le_rfl hlt, h.inUse⟩

theorem Dense.write (h : d.Dense used) (hp : d.Room p) (hslot : p.slot = used) :
    (d.write p).Dense (used + 1) where
  le := hslot ▸ hp.slot
  inUse s hs := by
    by_cases heq : s = p.slot
    · rw [heq, hp.stores.mark_eq]
      exact hp.named
    · rw [mark_write_of_ne hp heq]
      exact h.inUse s (by omega)
  unused s hle hs := by
    rw [mark_write_of_ne hp (by omega)]
    exact h.unused s (by omega) hs

end Dense

/-- Two formatted disks that agree on the entries in use, on the allocation table and on the
contents of the granules. -/
structure Alike (used : Nat) (d e : Disk) : Prop where
  formatted : d.formatted = true ∧ e.formatted = true
  dense : d.Dense used ∧ e.Dense used
  entries (s : Nat) : s < used → d.entry s = e.entry s
  table (g : UInt8) : g.toNat < granuleCount → d.allocation g = e.allocation g
  granules (g : UInt8) (i : Nat) : InGranule g i → d.image[i]? = e.image[i]?

section Alike

variable {d e : Disk} {used : Nat} {raw name : Bytes} {p : Placement} {f : NewFile}

theorem Alike.lookup?_eq (h : Alike used d e) (raw : Bytes) : d.lookup? raw = e.lookup? raw := by
  ext slot
  rw [h.dense.1.lookup?_eq_some_iff, h.dense.2.lookup?_eq_some_iff]
  apply and_congr_right
  intro hslot
  rw [h.entries slot hslot]
  apply and_congr_right
  intro _
  apply forall₂_congr
  intro s hs
  rw [h.entries s (hs.trans hslot)]

theorem Alike.freeSlot?_eq (h : Alike used d e) : d.freeSlot? = e.freeSlot? := by
  ext slot
  rw [h.dense.1.freeSlot?_eq_some_iff h.formatted.1, h.dense.2.freeSlot?_eq_some_iff h.formatted.2]

theorem Alike.freeGranules_eq (h : Alike used d e) (count : Nat) :
    d.freeGranules count = e.freeGranules count := by
  rw [freeGranules, if_pos h.formatted.1, freeGranules, if_pos h.formatted.2]
  congr 1
  apply List.filter_congr
  intro g hg
  rw [h.table g (mem_granuleOrder.1 hg)]

theorem Alike.place_eq (h : Alike used d e) (f : NewFile) : d.place f = e.place f := by
  simp only [place, h.formatted.1, h.formatted.2, h.lookup?_eq, h.freeSlot?_eq, h.freeGranules_eq]

theorem Alike.follow_eq (h : Alike used d e) (last bound : Nat) (g : UInt8) :
    d.follow last bound g = e.follow last bound g := by
  induction bound generalizing g with
  | zero => rfl
  | succ bound ih =>
    by_cases hg : g.toNat < granuleCount
    · simp only [follow, h.table g hg, ih]
    · simp [follow, Nat.not_lt.1 hg]

theorem Alike.entryChain_eq (h : Alike used d e) (entry : Bytes) :
    d.entryChain entry = e.entryChain entry :=
  h.follow_eq _ _ _

theorem Alike.gather_eq (h : Alike used d e) (granules : List UInt8) (size : Nat) :
    d.gather granules size = e.gather granules size := by
  apply gather_congr
  intro g _ count hcount
  apply sliceOf_congr
  intro i hi
  exact h.granules g _ ⟨Nat.le_add_right _ _, by omega⟩

theorem Alike.contents_eq (h : Alike used d e) (raw : Bytes) : d.contents raw = e.contents raw := by
  unfold contents
  rw [h.lookup?_eq]
  cases hlookup : e.lookup? raw with
  | none => rfl
  | some slot =>
    have hslot : slot < used := (h.dense.2.lookup?_eq_some_iff.1 hlookup).1
    dsimp only
    rw [h.entries slot hslot, h.entryChain_eq]
    cases e.entryChain (e.entry slot) with
    | error cause => rfl
    | ok chain => exact congrArg Except.ok (h.gather_eq chain.1 chain.2)

theorem Alike.read_eq (h : Alike used d e) (name : Bytes) : d.read name = e.read name := by
  cases hname : dirName name with
  | error cause => rw [read, read, hname, Except.bind, Except.bind]
  | ok raw => rw [read_of_dirName hname, read_of_dirName hname, h.contents_eq]

/-- Listing depends on the entries and the allocation table only. -/
theorem listSlots_append_congr {slots rest : List Nat}
    (hchain : ∀ entry, d.entryChain entry = e.entryChain entry)
    (hslots : ∀ s ∈ slots, d.entry s = e.entry s) (hrest : d.listSlots rest = e.listSlots rest) :
    d.listSlots (slots ++ rest) = e.listSlots (slots ++ rest) := by
  induction slots with
  | nil => exact hrest
  | cons s slots ih =>
    rw [List.forall_mem_cons] at hslots
    simp only [List.cons_append, listSlots, hslots.1, hchain, ih hslots.2]

theorem Dense.listSlots_rest (h : d.Dense used) :
    d.listSlots ((List.range (entryCount - used)).map (used + ·)) = ([], none) := by
  apply listSlots_of_unused
  intro s hs
  obtain ⟨k, hk, rfl⟩ := List.mem_map.1 hs
  have hlt := List.mem_range.1 hk
  exact h.unused _ (Nat.le_add_right _ _) (by omega)

theorem Alike.files_eq (h : Alike used d e) : d.files = e.files := by
  have hrange : List.range entryCount =
      List.range used ++ (List.range (entryCount - used)).map (used + ·) := by
    rw [← List.range_add, Nat.add_sub_cancel' h.dense.1.le]
  rw [files, files, hrange]
  apply listSlots_append_congr h.entryChain_eq
  · intro s hs
    exact h.entries s (List.mem_range.1 hs)
  · rw [h.dense.1.listSlots_rest, h.dense.2.listSlots_rest]

theorem getElem?_image_writeBlocks_congr {i : Nat} (bs : List Block)
    (h : d.image[i]? = e.image[i]?) :
    (bs.foldl writeBlock d).image[i]? = (bs.foldl writeBlock e).image[i]? := by
  induction bs generalizing d e with
  | nil => exact h
  | cons b bs ih =>
    apply ih
    simp only [writeBlock, getElem?_overwrite, h]

theorem getElem?_image_write_congr (hd : d.formatted = true) (he : e.formatted = true) {i : Nat}
    (hi : i < directoryOffset ∨ directoryOffset + trackSize ≤ i)
    (h : d.image[i]? = e.image[i]?) : (d.write p).image[i]? = (e.write p).image[i]? := by
  rw [write_of_formatted hd, write_of_formatted he]
  simp only [commitTrack, getElem?_overwrite, Vector.length_toList]
  rw [if_neg (by omega), if_neg (by omega)]
  exact getElem?_image_writeBlocks_congr p.blocks h

theorem Alike.write (h : Alike used d e) (hplace : d.place f = .ok p) :
    Alike (used + 1) (d.write p) (e.write p) := by
  have hd := room_of_place h.formatted.1 hplace
  have he := room_of_place h.formatted.2 ((h.place_eq f).symm.trans hplace)
  have hslot : p.slot = used := by
    have hfree := (place_eq_ok_iff.1 hplace).2.2.1
    exact ((h.dense.1.freeSlot?_eq_some_iff h.formatted.1).1 hfree).1
  exact {
    formatted := ⟨formatted_write h.formatted.1 p, formatted_write h.formatted.2 p⟩
    dense := ⟨h.dense.1.write hd hslot, h.dense.2.write he hslot⟩
    entries := by
      intro s hs
      by_cases heq : s = p.slot
      · rw [heq, hd.stores.entry, he.stores.entry]
      · rw [entry_write_of_ne hd.formatted hd.raw heq, entry_write_of_ne he.formatted he.raw heq]
        exact h.entries s (by omega)
    table := by
      intro g hg
      by_cases hmem : g ∈ p.granules
      · rw [← map_granule_blocks p.granules p.data] at hmem
        obtain ⟨b, hb, rfl⟩ := List.mem_map.1 hmem
        rw [allocation_write_of_mem hd.formatted hd.toFits hb,
          allocation_write_of_mem he.formatted he.toFits hb]
      · rw [allocation_write_of_notMem hd.formatted hd.raw hmem,
          allocation_write_of_notMem he.formatted he.raw hmem]
        exact h.table g hg
    granules := by
      intro g i hi
      exact getElem?_image_write_congr h.formatted.1 h.formatted.2 (outside_of_inGranule hi)
        (h.granules g i hi) }

end Alike

/-- A formatted disk, or a new one, with a disk that answers as it would once it is formatted. -/
structure Twins (d e : Disk) : Prop where
  fresh : d.formatted = true ∨ d = new
  alike : ∃ used, Alike used d.prepared e

section Twins

variable {d e : Disk}

theorem place_prepared (d : Disk) (f : NewFile) : d.prepared.place f = d.place f := by
  cases hd : d.formatted with
  | true => rw [prepared_of_formatted hd]
  | false => rw [prepared_of_unformatted hd, place_blank hd]

theorem read_new (name : Bytes) : new.read name = blank.read name := by
  cases hname : dirName name with
  | error cause => rw [read, read, hname, Except.bind, Except.bind]
  | ok raw =>
    rw [read_of_dirName hname, read_of_dirName hname,
      contents_of_lookup?_eq_none (lookup?_eq_none fun s _ hnames => hnames.1 (mark_new s)),
      contents_of_lookup?_eq_none (lookup?_eq_none fun s _ hnames => hnames.1 (mark_blank s))]

theorem files_new : new.files = blank.files := by
  rw [files, files, listSlots_of_unused fun s _ => .inl (mark_new s),
    listSlots_of_unused fun s _ => .inl (mark_blank s)]

theorem Twins.read_eq (h : Twins d e) (name : Bytes) : d.read name = e.read name := by
  obtain ⟨used, halike⟩ := h.alike
  rw [← halike.read_eq]
  rcases h.fresh with hd | rfl
  · rw [prepared_of_formatted hd]
  · rw [prepared_of_unformatted rfl, read_new]

theorem Twins.files_eq (h : Twins d e) : d.files = e.files := by
  obtain ⟨used, halike⟩ := h.alike
  rw [← halike.files_eq]
  rcases h.fresh with hd | rfl
  · rw [prepared_of_formatted hd]
  · rw [prepared_of_unformatted rfl, files_new]

theorem Twins.place_eq (h : Twins d e) (f : NewFile) : d.place f = e.place f := by
  obtain ⟨used, halike⟩ := h.alike
  rw [← halike.place_eq, place_prepared]

theorem Twins.write (h : Twins d e) {f : NewFile} {p : Placement} (hplace : d.place f = .ok p) :
    Twins (d.write p) (e.write p) := by
  obtain ⟨used, halike⟩ := h.alike
  rw [← place_prepared] at hplace
  have hformatted := (d.synced_write p).formatted
  refine ⟨.inl hformatted, used + 1, ?_⟩
  rw [prepared_of_formatted hformatted, write_prepared]
  exact halike.write hplace

/-- Twins answer a request alike and stay twins. -/
theorem Twins.serve (h : Twins d e) (r : Request) :
    (d.serve r).1 = (e.serve r).1 ∧ Twins (d.serve r).2 (e.serve r).2 := by
  cases r with
  | add f =>
    simp only [Disk.serve, Disk.add, ← h.place_eq]
    cases hplace : d.place f with
    | error cause => exact ⟨rfl, h⟩
    | ok p => exact ⟨rfl, h.write hplace⟩
  | read name => exact ⟨congrArg Answer.contents (h.read_eq name), h⟩
  | files => exact ⟨by simp only [Disk.serve, h.files_eq], h⟩

theorem Twins.answers_eq (h : Twins d e) (rs : List Request) : d.answers rs = e.answers rs := by
  induction rs generalizing d e with
  | nil => rfl
  | cons r rs ih =>
    obtain ⟨hanswer, htwins⟩ := h.serve r
    have hrest := ih htwins
    simp only [answers] at hrest
    simp only [answers, serveAll, List.map_cons, hanswer, hrest]

end Twins

section Images

variable {d : Disk}

/-- An image brings a disk back if the directory track in it is the staged one. -/
theorem Synced.unmarshal_marshal (hd : d.Synced) (other : Disk) :
    other.unmarshal d.marshal = (.ok (), d) := by
  have hlen : d.marshal.length = imageSize := Vector.length_toList
  have htrack : overwrite (Vector.replicate trackSize 0) 0
      (sliceOf d.image directoryOffset trackSize) = d.track := by
    have hslice : (sliceOf d.image directoryOffset trackSize).length = trackSize :=
      length_sliceOf d.image (by decide)
    ext j hj : 1
    apply Option.some.inj
    rw [← Vector.getElem?_eq_getElem hj, ← Vector.getElem?_eq_getElem hj, getElem?_overwrite,
      hslice, if_pos (by omega), getElem?_sliceOf, Nat.sub_zero, if_pos hj, hd.track j hj]
  unfold unmarshal ofImage?
  rw [dif_pos hlen]
  simp only [Prod.mk.injEq, true_and]
  obtain ⟨image, track, formatted⟩ := d
  cases hd.formatted
  exact congrArg (Disk.mk image · true) htrack

theorem alike_erased {e : Disk} (he : e.Erased) (himage : e.image = blank.image) :
    Alike 0 blank e where
  formatted := ⟨rfl, he.formatted⟩
  dense := by
    constructor
    · exact ⟨Nat.zero_le _, fun s hs => absurd hs (Nat.not_lt_zero s),
        fun s _ _ => .inl (mark_blank s)⟩
    · exact ⟨Nat.zero_le _, fun s hs => absurd hs (Nat.not_lt_zero s),
        fun s _ hs => .inr (he.mark hs)⟩
  entries s hs := absurd hs (Nat.not_lt_zero s)
  table g hg := by rw [allocation_blank hg, he.allocation]
  granules g i _ := by rw [himage]

/-- The image of a new disk brings back a disk that is erased. -/
theorem exists_unmarshal_new (other : Disk) :
    ∃ e, other.unmarshal new.marshal = (.ok (), e) ∧ Twins new e := by
  have hlen : new.marshal.length = imageSize := Vector.length_toList
  have hbytes : ∀ b ∈ new.marshal, b = 0xFF := by
    intro b hb
    simp only [marshal, new, Vector.toList_replicate] at hb
    exact List.eq_of_mem_replicate hb
  have herased := other.erased_unmarshal hlen hbytes
  obtain ⟨image, himage, hload⟩ := other.unmarshal_of_length hlen
  rw [hload] at herased
  have hsame : image = blank.image := by
    rw [marshal, Vector.toList_inj] at himage
    rw [himage]
    simp only [new, blank]
  refine ⟨_, hload, .inr rfl, 0, ?_⟩
  rw [prepared_of_unformatted rfl]
  exact alike_erased herased hsame

theorem addAll_of_accepted_eq_nil {fs : List NewFile} (h : d.accepted fs = []) :
    d.addAll fs = d := by
  induction fs with
  | nil => rfl
  | cons f fs ih =>
    rw [accepted, add] at h
    rw [addAll, List.foldl_cons, add]
    cases hplace : d.place f with
    | error cause =>
      rw [hplace] at h
      exact ih h
    | ok p =>
      rw [hplace] at h
      cases h

theorem synced_addAll {fs : List NewFile} (h : d.accepted fs ≠ []) : (d.addAll fs).Synced := by
  have hstart : ([] : List Placement) ≠ [] → d.Synced := fun hne => absurd rfl hne
  obtain ⟨ps, hsynced, hfor⟩ := exists_addAll (P := fun d ps => ps ≠ [] → d.Synced)
    (fun _ _ _ => synced_write _ _) hstart fs
  apply hsynced
  rintro rfl
  exact h (List.forall₂_nil_left_iff.1 hfor)

end Images

/-- A disk that was filled from new, or is still new, and any disk after it has loaded the image of
the first answer every sequence of requests alike. If a file was accepted before, their images stay
the same, too. -/
theorem reload_answers (fs : List NewFile) (other : Disk) :
    ∃ e, other.unmarshal (new.addAll fs).marshal = (.ok (), e) ∧
      (∀ rs, (new.addAll fs).answers rs = e.answers rs) ∧
      (new.accepted fs ≠ [] → ∀ rs, (new.addAll fs).serveAll rs = e.serveAll rs) := by
  by_cases h : new.accepted fs = []
  · obtain ⟨e, hload, htwins⟩ := exists_unmarshal_new other
    rw [addAll_of_accepted_eq_nil h]
    exact ⟨e, hload, htwins.answers_eq, fun hne => absurd h hne⟩
  · exact ⟨_, (synced_addAll h).unmarshal_marshal other, fun _ => rfl, fun _ _ => rfl⟩

/-- The file that was accepted is there again, and later images are the same. -/
theorem fullFile_answers : ∃ e, new.unmarshal (new.addAll [namelessFile, fullFile]).marshal =
      (.ok (), e) ∧
    new.accepted [namelessFile, fullFile] = [fullFile] ∧
    ∀ rs, (new.addAll [namelessFile, fullFile]).serveAll rs = e.serveAll rs := by
  obtain ⟨e, hload, -, himages⟩ := reload_answers [namelessFile, fullFile] new
  exact ⟨e, hload, accepted_fullFile, himages (by simp [accepted_fullFile])⟩

end Forge6809.Disk
