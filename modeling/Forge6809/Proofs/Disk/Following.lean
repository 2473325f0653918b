import Forge6809.Proofs.Disk.Catalog
import Forge6809.Proofs.Disk.Listing

/-! # Following the allocation table of any image

An allocation table is a map from granules to bytes, and a chain is what iterating it reaches. If an
iteration ends, it has passed through different granules: a granule that came back would come back
again and again. So no chain is longer than the disk, the bound on the number of steps refuses none,
and a chain that runs into itself or leads to a byte that is neither a granule nor an end mark is
always refused. What is read along a chain lies in its granules. -/

namespace Forge6809.Disk

/-- What following so many entries of the allocation table leads to. -/
def reach (d : Disk) (first : UInt8) (links : Nat) : UInt8 :=
  d.allocation^[links] first

def trail (d : Disk) (first : UInt8) (links : Nat) : List UInt8 :=
  (List.range (links + 1)).map (d.reach first)

/-- After so many links from granule to granule there is an end mark, with a number of sectors. -/
structure Ends (d : Disk) (first : UInt8) (links sectors : Nat) : Prop where
  through (j : Nat) : j ≤ links → (d.reach first j).toNat < 68
  marked : (d.reach first (links + 1)).toNat = 0xC0 + sectors
  sectors_le : sectors ≤ 9

/-- An allocation entry that is neither a granule nor an end mark. -/
def Stray (next : UInt8) : Prop :=
  0x44 ≤ next.toNat ∧ next.toNat ≤ 0xBF ∨ 0xC9 < next.toNat

/-- What is found by following the allocation table from a granule, with so many bytes in the last
sector. -/
structure Follows (d : Disk) (first : UInt8) (last : Nat) : Prop where
  complete : (∃ granules size, d.chain first last = .ok (granules, size)) ↔
    (∃ links sectors, d.Ends first links sectors) ∧ last ≤ 256
  found (granules : List UInt8) (size : Nat) : d.chain first last = .ok (granules, size) →
    granules.Nodup ∧ granules.length ≤ 68 ∧ ∃ links sectors, d.Ends first links sectors ∧
      granules = d.trail first links ∧
      size = 2304 * links + if sectors = 0 then 0 else 256 * (sectors - 1) + last
  refused (cause : Cause) : d.chain first last = .error cause → cause = .chain
  cycle (i j : Nat) : i < j → (∀ k ≤ j, (d.reach first k).toNat < 68) →
    d.reach first i = d.reach first j → d.chain first last = .error .chain
  stray (j : Nat) : (∀ k ≤ j, (d.reach first k).toNat < 68) → Stray (d.reach first (j + 1)) →
    d.chain first last = .error .chain

/-- The parts of some granules that their first `size` bytes are read from: the granule and the
number of bytes. -/
def portions : List UInt8 → Nat → List (UInt8 × Nat)
  | [], _ => []
  | g :: rest, size => (g, min granuleSize size) :: portions rest (size - min granuleSize size)

/-- The directory is listed only up to an earlier slot in use than the one at `i`, the chain of
which is bad. -/
def StopsBefore (d : Disk) (i : Nat) : Prop :=
  d.files.1[i]? = none ∧ ∃ j < i, ∃ earlier,
    (d.usedSlots (List.range entryCount))[j]? = some earlier ∧
    d.entryChain (d.entry earlier) = .error .chain ∧
    d.files.2 = some ⟨entryName (d.entry earlier), .chain⟩

/-- How the contents of a file are read: from its slot, along a chain. -/
structure ReadsAlong (d : Disk) (name x : Bytes) (slot : Nat) (granules : List UInt8)
    (size : Nat) : Prop where
  lookup : ∃ raw, dirName name = .ok raw ∧ d.lookup? raw = some slot
  chain : d.entryChain (d.entry slot) = .ok (granules, size)
  contents : x = (portions granules size).flatMap fun r =>
    sliceOf d.image (granuleOffset r.1) r.2
  within (r : UInt8 × Nat) : r ∈ portions granules size →
    r.1 ∈ granules ∧ r.2 ≤ granuleSize ∧ granuleOffset r.1 + r.2 ≤ imageSize
  length : x.length = size
  /-- The directory lists the slot with this size, unless it stops before. -/
  listed : ∃ (i : Nat) (e : Entry), (d.usedSlots (List.range entryCount))[i]? = some slot ∧
    e.name = canonicalName name ∧ e.size = size ∧
    (d.files.1[i]? = some e ∨ d.StopsBefore i)

section Ends

variable {d : Disk} {first : UInt8} {links sectors last size i j : Nat} {granules : List UInt8}

theorem reach_add (d : Disk) (first : UInt8) (i j : Nat) :
    d.reach first (j + i) = d.reach (d.reach first i) j :=
  Function.iterate_add_apply _ _ _ _

theorem trail_succ (d : Disk) (first : UInt8) (links : Nat) :
    d.trail first (links + 1) = first :: d.trail (d.allocation first) links := by
  rw [trail, List.range_succ_eq_map, List.map_cons, List.map_map]
  rfl

theorem ends_zero : d.Ends first 0 sectors ↔
    first.toNat < 68 ∧ (d.allocation first).toNat = 0xC0 + sectors ∧ sectors ≤ 9 := by
  constructor
  · intro h
    exact ⟨h.through 0 le_rfl, h.marked, h.sectors_le⟩
  · rintro ⟨hfirst, hmarked, hle⟩
    refine ⟨fun j hj => ?_, hmarked, hle⟩
    obtain rfl := Nat.le_zero.1 hj
    exact hfirst

theorem ends_succ : d.Ends first (links + 1) sectors ↔
    first.toNat < 68 ∧ d.Ends (d.allocation first) links sectors := by
  constructor
  · intro h
    exact ⟨h.through 0 (Nat.zero_le _), fun j hj => h.through (j + 1) (by omega), h.marked,
      h.sectors_le⟩
  · rintro ⟨hfirst, h⟩
    refine ⟨fun j hj => ?_, h.marked, h.sectors_le⟩
    cases j with
    | zero => exact hfirst
    | succ j => exact h.through j (by omega)

theorem isLast_iff {next : UInt8} : IsLast next ↔ ∃ sectors ≤ 9, next.toNat = 0xC0 + sectors := by
  have hmark : lastMark.toNat = 192 := rfl
  simp only [IsLast, UInt8.le_iff_toNat_le, sectorsPerGranule, hmark]
  constructor
  · rintro ⟨hle, hsectors⟩
    exact ⟨next.toNat - 192, hsectors, by omega⟩
  · rintro ⟨sectors, hle, hnext⟩
    omega

/-- The chains from a granule are the iterations of the table that end. -/
theorem chain_iff_ends : Chain d last first granules size ↔ ∃ links sectors,
    d.Ends first links sectors ∧ last ≤ 256 ∧ granules = d.trail first links ∧
      size = 2304 * links + if sectors = 0 then 0 else 256 * (sectors - 1) + last := by
  constructor
  · intro h
    induction h with
    | @last g hg hlast hle =>
      obtain ⟨sectors, hsectors, hnext⟩ := isLast_iff.1 hlast
      refine ⟨0, sectors, ends_zero.2 ⟨hg, hnext, hsectors⟩, hle, rfl, ?_⟩
      have hmark : lastMark.toNat = 192 := rfl
      rw [lastSize, hnext, hmark, Nat.add_sub_cancel_left, Nat.mul_zero, Nat.zero_add,
        Nat.mul_comm]
      rfl
    | link hg hnext _ ih =>
      obtain ⟨links, sectors, hends, hle, rfl, rfl⟩ := ih
      refine ⟨links + 1, sectors, ends_succ.2 ⟨hg, hends⟩, hle, (d.trail_succ _ links).symm, ?_⟩
      simp only [granuleSize]
      omega
  · rintro ⟨links, sectors, hends, hle, rfl, rfl⟩
    induction links generalizing first with
    | zero =>
      obtain ⟨hg, hnext, hsectors⟩ := ends_zero.1 hends
      have hchain := Chain.last hg (isLast_iff.2 ⟨sectors, hsectors, hnext⟩) hle
      have hmark : lastMark.toNat = 192 := rfl
      rw [lastSize, hnext, hmark, Nat.add_sub_cancel_left, Nat.mul_comm] at hchain
      rw [Nat.mul_zero, Nat.zero_add]
      exact hchain
    | succ links ih =>
      obtain ⟨hg, hends⟩ := ends_succ.1 hends
      rw [trail_succ, Nat.mul_succ, Nat.add_right_comm, Nat.add_comm _ 2304]
      exact .link hg (hends.through 0 (Nat.zero_le _)) (ih hends)

/-- An iteration that ends does not pass through a granule twice: it would do so forever. -/
theorem Ends.ne_of_lt (h : d.Ends first links sectors) (hij : i < j) (hj : j ≤ links) :
    d.reach first i ≠ d.reach first j := by
  intro heq
  have hends : d.reach first (links + 1 - j + i) = d.reach first (links + 1) := by
    rw [reach_add, heq, ← reach_add, Nat.sub_add_cancel (by omega)]
  have hthrough := h.through (links + 1 - j + i) (by omega)
  rw [hends, h.marked] at hthrough
  omega

theorem Ends.nodup (h : d.Ends first links sectors) : (d.trail first links).Nodup := by
  rw [trail, List.nodup_map_iff_inj_on List.nodup_range]
  intro i hi j hj heq
  have hi := Nat.lt_succ_iff.1 (List.mem_range.1 hi)
  have hj := Nat.lt_succ_iff.1 (List.mem_range.1 hj)
  rcases Nat.lt_trichotomy i j with hij | hij | hij
  · exact absurd heq (h.ne_of_lt hij hj)
  · exact hij
  · exact absurd heq.symm (h.ne_of_lt hij hi)

theorem Ends.toNat_lt (h : d.Ends first links sectors) {g : UInt8} (hg : g ∈ d.trail first links) :
    g.toNat < granuleCount := by
  obtain ⟨j, hj, rfl⟩ := List.mem_map.1 hg
  exact h.through j (Nat.lt_succ_iff.1 (List.mem_range.1 hj))

theorem Ends.length_le (h : d.Ends first links sectors) :
    (d.trail first links).length ≤ granuleCount :=
  (List.subperm_of_subset h.nodup fun _ hg => mem_granuleOrder.2 (h.toNat_lt hg)).length_le

/-- An iteration that ends is still on its way as long as it passes through granules. -/
theorem Ends.le_links (h : d.Ends first links sectors)
    (hthrough : ∀ k ≤ j, (d.reach first k).toNat < 68) : j ≤ links := by
  by_contra hlt
  have hend := hthrough (links + 1) (by omega)
  rw [h.marked] at hend
  omega

theorem chain_eq_ok_iff : d.chain first last = .ok (granules, size) ↔ ∃ links sectors,
    d.Ends first links sectors ∧ last ≤ 256 ∧ granules = d.trail first links ∧
      size = 2304 * links + if sectors = 0 then 0 else 256 * (sectors - 1) + last := by
  rw [chain, follow_eq_ok_iff, chain_iff_ends, and_iff_left_iff_imp]
  rintro ⟨links, sectors, hends, -, rfl, -⟩
  exact hends.length_le

theorem follow_eq_error {bound : Nat} {cause : Cause}
    (h : d.follow last bound first = .error cause) : cause = .chain := by
  induction bound generalizing first with
  | zero =>
    cases h
    rfl
  | succ bound ih =>
    rw [follow] at h
    dsimp only at h
    split at h
    · cases h
      rfl
    split at h
    · cases hrest : d.follow last bound (d.allocation first) with
      | error cause' =>
        rw [hrest] at h
        cases h
        exact ih hrest
      | ok rest =>
        rw [hrest] at h
        cases h
    · split at h <;> cases h
      rfl

theorem chain_eq_error (h : ∀ links sectors, ¬ d.Ends first links sectors) :
    d.chain first last = .error .chain := by
  cases hchain : d.chain first last with
  | error cause => rw [follow_eq_error hchain]
  | ok found =>
    obtain ⟨links, sectors, hends, -⟩ := chain_eq_ok_iff.1 hchain
    exact absurd hends (h links sectors)

theorem follows (d : Disk) (first : UInt8) (last : Nat) : d.Follows first last where
  complete := by
    constructor
    · rintro ⟨granules, size, h⟩
      obtain ⟨links, sectors, hends, hle, -⟩ := chain_eq_ok_iff.1 h
      exact ⟨⟨links, sectors, hends⟩, hle⟩
    · rintro ⟨⟨links, sectors, hends⟩, hle⟩
      exact ⟨_, _, chain_eq_ok_iff.2 ⟨links, sectors, hends, hle, rfl, rfl⟩⟩
  found granules size h := by
    obtain ⟨links, sectors, hends, -, rfl, rfl⟩ := chain_eq_ok_iff.1 h
    exact ⟨hends.nodup, hends.length_le, links, sectors, hends, rfl, rfl⟩
  refused _ h := follow_eq_error h
  cycle i j hij hthrough heq :=
    chain_eq_error fun _ _ hends => hends.ne_of_lt hij (hends.le_links hthrough) heq
  stray j hthrough hstray := by
    refine chain_eq_error fun links sectors hends => ?_
    have hle := hends.le_links hthrough
    have hsectors := hends.sectors_le
    rw [Stray] at hstray
    -- The stray entry is either behind the last granule or on the way to it.
    rcases Nat.eq_or_lt_of_le hle with rfl | hlt
    · have hmarked := hends.marked
      omega
    · have hgranule := hends.through (j + 1) hlt
      omega

end Ends

section Reads

variable {d : Disk} {granules : List UInt8} {size last : Nat} {first : UInt8} {name x : Bytes}

theorem gather_eq (d : Disk) (granules : List UInt8) (size : Nat) :
    d.gather granules size = (portions granules size).flatMap fun r =>
      sliceOf d.image (granuleOffset r.1) r.2 := by
  induction granules generalizing size with
  | nil => rfl
  | cons g rest ih => rw [gather, portions, List.flatMap_cons, ih]

theorem mem_portions {r : UInt8 × Nat} (h : r ∈ portions granules size) :
    r.1 ∈ granules ∧ r.2 ≤ granuleSize := by
  fun_induction portions granules size with
  | case1 => cases h
  | case2 size g rest ih =>
    rcases List.mem_cons.1 h with rfl | h
    · exact ⟨List.mem_cons_self, Nat.min_le_left _ _⟩
    · exact ⟨List.mem_cons_of_mem _ (ih h).1, (ih h).2⟩

theorem length_gather (hexist : ∀ g ∈ granules, g.toNat < granuleCount)
    (hsize : size ≤ granules.length * granuleSize) : (d.gather granules size).length = size := by
  induction granules generalizing size with
  | nil =>
    rw [List.length_nil, Nat.zero_mul, Nat.le_zero] at hsize
    rw [hsize, gather, List.length_nil]
  | cons g rest ih =>
    rw [List.forall_mem_cons] at hexist
    rw [List.length_cons, Nat.succ_mul] at hsize
    have hoffset := granuleOffset_add_le hexist.1
    rw [gather, List.length_append, length_sliceOf _ (by omega), ih hexist.2 (by omega)]
    omega

/-- The granules of a chain exist and have room for its bytes. -/
theorem chain_fits (h : d.chain first last = .ok (granules, size)) :
    (∀ g ∈ granules, g.toNat < granuleCount) ∧ size ≤ granules.length * granuleSize := by
  obtain ⟨links, sectors, hends, hle, rfl, rfl⟩ := chain_eq_ok_iff.1 h
  refine ⟨fun g => hends.toNat_lt, ?_⟩
  have hsectors := hends.sectors_le
  rw [trail, List.length_map, List.length_range, granuleSize]
  split <;> omega

theorem entryAt_eq_error {slot : Nat} {e : Error} (h : d.entryAt slot = .error e) :
    d.entryChain (d.entry slot) = .error .chain ∧ e = ⟨entryName (d.entry slot), .chain⟩ := by
  rw [entryAt] at h
  cases hchain : d.entryChain (d.entry slot) with
  | error cause =>
    obtain rfl := follow_eq_error hchain
    simp only [hchain] at h
    exact ⟨rfl, (Except.error.inj h).symm⟩
  | ok found => simp [hchain] at h

/-- What is listed of a slot in use that has a good chain. -/
theorem listed_or_stopsBefore {i slot : Nat} {e : Entry}
    (hi : (d.usedSlots (List.range entryCount))[i]? = some slot) (he : d.entryAt slot = .ok e) :
    d.files.1[i]? = some e ∨ d.StopsBefore i := by
  have hat : ((d.usedSlots (List.range entryCount)).map d.entryAt)[i]? = some (.ok e) := by
    rw [List.getElem?_map, hi, Option.map_some, he]
  rw [StopsBefore, files_eq]
  rcases collect_getElem? hat with hfound | ⟨hnone, j, hj, cause, hbad, hstop⟩
  · exact .inl hfound
  · rw [List.getElem?_map, Option.map_eq_some_iff] at hbad
    obtain ⟨earlier, hearlier, hbad⟩ := hbad
    obtain ⟨hchain, rfl⟩ := entryAt_eq_error hbad
    exact .inr ⟨hnone, j, hj, earlier, hearlier, hchain, hstop⟩

theorem readsAlong_of_read (h : d.read name = .ok x) :
    ∃ slot granules size, d.ReadsAlong name x slot granules size := by
  obtain ⟨raw, hraw, hcontents⟩ := read_eq_ok_iff.1 h
  obtain ⟨slot, granules, size, hlookup, hchain, rfl⟩ := contents_eq_ok_iff.1 hcontents
  obtain ⟨hexist, hsize⟩ := chain_fits hchain
  refine ⟨slot, granules, size, ⟨raw, hraw, hlookup⟩, hchain, d.gather_eq granules size, ?_,
    length_gather hexist hsize, ?_⟩
  · intro r hr
    obtain ⟨hmem, hle⟩ := mem_portions hr
    have hoffset := granuleOffset_add_le (hexist _ hmem)
    exact ⟨hmem, hle, by omega⟩
  · obtain ⟨i, hi⟩ := List.mem_iff_getElem?.1 (mem_usedSlots_of_lookup? hlookup)
    have hnames := (lookup?_eq_some_iff.1 hlookup).2.2.1.2
    have hname : entryName (d.entry slot) = canonicalName name := by
      rw [← entryName_of_dirName hraw ((d.entry slot).drop 11), ← hnames, List.take_append_drop]
    have hentry : ∃ e, d.entryAt slot = .ok e ∧ e.name = canonicalName name ∧ e.size = size := by
      rw [entryAt, hchain]
      exact ⟨_, rfl, hname, rfl⟩
    obtain ⟨e, hok, hename, hesize⟩ := hentry
    exact ⟨i, e, hi, hename, hesize, listed_or_stopsBefore hi hok⟩

end Reads

/-- Following the allocation table of any disk finds a chain if and only if there is one, a chain of
different granules, and refuses everything else; a file is read from within the granules of its
chain, and its length is the one with which the directory lists it. -/
theorem chain_safe (d : Disk) : (∀ first last, d.Follows first last) ∧
    ∀ name x, d.read name = .ok x →
      ∃ slot granules size, d.ReadsAlong name x slot granules size :=
  ⟨d.follows, fun _ _ => readsAlong_of_read⟩

theorem read_fullFile :
    (new.addAll [namelessFile, fullFile]).read fullFile.name = .ok fullFile.data := by
  obtain ⟨ps, hcatalog, hfor⟩ := (catalog_nil mark_new).addAll [namelessFile, fullFile]
  rw [accepted_fullFile] at hfor
  obtain ⟨p, ps, hp, -, rfl⟩ := List.forall₂_cons_right_iff.1 hfor
  have hlists := hcatalog.lists List.mem_cons_self hp
  apply hlists.read_of_dirName
  rw [hp.dirName_listing, hp.raw]

/-- The file with two full granules is read along two granules. -/
theorem fullFile_safe : ∃ slot granules,
    (new.addAll [namelessFile, fullFile]).ReadsAlong fullFile.name fullFile.data slot granules
      4608 := by
  obtain ⟨slot, granules, size, h⟩ :=
    (chain_safe (new.addAll [namelessFile, fullFile])).2 fullFile.name fullFile.data read_fullFile
  obtain rfl : size = 4608 := h.length.symm.trans length_fullFile
  exact ⟨slot, granules, h⟩

end Forge6809.Disk
