import Forge6809.Proofs.Disk.Chain
import Forge6809.Proofs.Disk.Directory
import Forge6809.Proofs.Disk.Image
import Forge6809.Proofs.Disk.Name
import Mathlib.Data.List.GetD

/-! # Files in free room

A file is placed in the first slot that is not in use and in granules that are free. Writing it
there makes its contents readable, and leaves every chain that could be followed before as it was:
no chain passes through a free granule, and no name is found in a slot that is not in use. -/

namespace Forge6809.Disk

section Entry

variable {d : Disk} {p : Placement}

theorem Placement.take_entry (h : p.raw.length = 11) : p.entry.take 11 = p.raw := by
  rw [entry, List.append_assoc, List.append_assoc, List.take_left' h]

theorem Placement.getD_entry_zero (h : p.raw.length = 11) : p.entry.getD 0 0 = p.raw.getD 0 0 := by
  rw [entry, List.append_assoc, List.append_assoc, List.getD_append _ _ _ _ (by omega)]

/-- What follows the name in a directory entry. -/
theorem Placement.getD_entry (h : p.raw.length = 11) (k : Nat) : p.entry.getD (11 + k) 0 =
    ([p.type.byte, p.mode.flag, p.granules.headD 0] ++ wordBytes (UInt16.ofNat p.lastBytes) ++
      List.replicate 16 0).getD k 0 := by
  rw [entry, List.append_assoc, List.append_assoc, List.getD_append_right _ _ _ _ (by omega), h,
    Nat.add_sub_cancel_left, List.append_assoc]

/-- The contents fill all granules but the last one. -/
theorem Placement.Fits.exists_part (hp : p.Fits) : ∃ g rest part, p.granules = g :: rest ∧
    part ≤ granuleSize ∧ p.data.length = rest.length * granuleSize + part := by
  have hneeded := hp.needed
  simp only [granulesNeeded, granuleSize] at hneeded ⊢
  cases hgranules : p.granules with
  | nil =>
    rw [hgranules, List.length_nil] at hneeded
    omega
  | cons g rest =>
    rw [hgranules, List.length_cons] at hneeded
    exact ⟨g, rest, p.data.length - rest.length * 2304, rfl, by omega, by omega⟩

theorem getLast?_blocks {g : UInt8} {rest : List UInt8} {data : Bytes} {part : Nat}
    (hpart : part ≤ granuleSize) (hlen : data.length = rest.length * granuleSize + part) :
    ((blocks (g :: rest) data).getLast?).map (·.data.length) = some part := by
  induction rest generalizing g data with
  | nil =>
    rw [List.length_nil, Nat.zero_mul, Nat.zero_add] at hlen
    rw [blocks, List.getLast?_singleton, Option.map_some, List.length_take, hlen,
      Nat.min_eq_right hpart]
  | cons h rest ih =>
    rw [List.length_cons, Nat.succ_mul] at hlen
    have hrest : ((blocks (h :: rest) (data.drop granuleSize)).getLast?).map (·.data.length) =
        some part := by
      refine ih ?_
      rw [List.length_drop]
      omega
    rw [blocks, List.getLast?_cons]
    cases hlast : (blocks (h :: rest) (data.drop granuleSize)).getLast? with
    | none =>
      rw [hlast] at hrest
      cases hrest
    | some b => rwa [hlast] at hrest

theorem Placement.lastBytes_eq {g : UInt8} {rest : List UInt8} {part : Nat}
    (hgranules : p.granules = g :: rest) (hpart : part ≤ granuleSize)
    (hlen : p.data.length = rest.length * granuleSize + part) : p.lastBytes = sectorRest part := by
  simp only [lastBytes, blocks, hgranules, getLast?_blocks hpart hlen, Option.getD_some, sectorRest]

theorem Placement.Fits.length_granules_le (hp : p.Fits) : p.granules.length ≤ granuleCount :=
  (List.subperm_of_subset hp.nodup fun g hg => mem_granuleOrder.2 (hp.exist g hg)).length_le

theorem Placement.getD_entry_first {g : UInt8} {rest : List UInt8} (h : p.raw.length = 11)
    (hgranules : p.granules = g :: rest) : p.entry.getD 13 0 = g := by
  rw [Placement.getD_entry h 2, hgranules]
  rfl

theorem Placement.toNat_wordOf_entry {g : UInt8} {rest : List UInt8} {part : Nat}
    (h : p.raw.length = 11) (hgranules : p.granules = g :: rest) (hpart : part ≤ granuleSize)
    (hlen : p.data.length = rest.length * granuleSize + part) :
    (wordOf (p.entry.getD 14 0) (p.entry.getD 15 0)).toNat = sectorRest part := by
  have hword : wordOf (p.entry.getD 14 0) (p.entry.getD 15 0) = UInt16.ofNat p.lastBytes := by
    rw [Placement.getD_entry h 3, Placement.getD_entry h 4]
    exact wordOf_highByte_lowByte _
  have hle := sectorRest_le hpart
  rw [hword, Placement.lastBytes_eq hgranules hpart hlen, UInt16.toNat_ofNat', Nat.mod_eq_of_lt]
  simp only [sectorSize] at hle
  omega

/-- The entry of a file that was written leads to its granules. -/
theorem entryChain_write_self (hd : d.formatted = true) (hp : p.Fits) :
    (d.write p).entryChain p.entry = .ok (p.granules, p.data.length) := by
  obtain ⟨g, rest, part, hgranules, hpart, hlen⟩ := hp.exists_part
  have hchain : Chain (d.write p) (sectorRest part) g (g :: rest) p.data.length := by
    refine chain_of_blocks hpart hlen (hgranules ▸ hp.exist) fun b hb => ?_
    exact allocation_write_of_mem hd hp (show b ∈ blocks p.granules p.data from hgranules ▸ hb)
  rw [entryChain, chain, Placement.getD_entry_first hp.raw hgranules,
    Placement.toNat_wordOf_entry hp.raw hgranules hpart hlen, hgranules, follow_eq_ok_iff]
  exact ⟨hchain, hgranules ▸ hp.length_granules_le⟩

theorem gather_write_self (hd : d.formatted = true) (hp : p.Fits) :
    (d.write p).gather p.granules p.data.length = p.data := by
  obtain ⟨g, rest, part, hgranules, hpart, hlen⟩ := hp.exists_part
  rw [hgranules]
  refine gather_of_blocks hpart hlen fun b hb => ?_
  exact sliceOf_write_of_mem hd hp (show b ∈ blocks p.granules p.data from hgranules ▸ hb)

end Entry

/-- Room for a file on a formatted disk: it fits, the directory does not have its name, its slot is
the first one that is not in use, and its granules are free. -/
structure Room (d : Disk) (p : Placement) : Prop extends p.Fits where
  formatted : d.formatted = true
  named : p.raw.getD 0 0 ≠ 0x00 ∧ p.raw.getD 0 0 ≠ 0xFF
  absent : d.lookup? p.raw = none
  unused : d.mark p.slot = 0x00 ∨ d.mark p.slot = 0xFF
  used (s : Nat) : s < p.slot → d.mark s ≠ 0x00 ∧ d.mark s ≠ 0xFF
  free (g : UInt8) : g ∈ p.granules → d.allocation g = freeMark

/-- A placement of a file as it was asked for. -/
structure Placement.For (p : Placement) (f : NewFile) : Prop where
  raw : dirName f.name = .ok p.raw
  named : f.type.isNamed = true
  type : p.type = f.type
  mode : p.mode = f.mode.resolve f.type
  data : p.data = f.data

section Place

variable {d : Disk} {f : NewFile} {p : Placement}

theorem place_eq_ok_iff : d.place f = .ok p ↔
    p.For f ∧ (d.formatted = true → d.lookup? p.raw = none) ∧ d.freeSlot? = some p.slot ∧
      p.granules = d.freeGranules (granulesNeeded f.data.length) ∧
      granulesNeeded f.data.length ≤ p.granules.length := by
  unfold place
  rw [bind_eq_ok_iff]
  constructor
  · rintro ⟨raw, hraw, h⟩
    dsimp only at h
    -- What can be refused, in this order: the type, the name, the slot and the granules.
    split at h
    · cases h
    split at h
    · cases h
    split at h
    · cases h
    split at h
    · cases h
    next htype hdup _ slot hslot hlen =>
    cases h
    refine ⟨⟨hraw, by simpa using htype, rfl, rfl, rfl⟩, fun hd => ?_, hslot, rfl,
      Nat.not_lt.1 hlen⟩
    simpa [hd] using hdup
  · rintro ⟨hfor, habsent, hslot, hgranules, hneeded⟩
    refine ⟨p.raw, hfor.raw, ?_⟩
    dsimp only
    have hdup : ¬ (d.formatted && (d.lookup? p.raw).isSome) = true := by
      rw [Bool.and_eq_true]
      rintro ⟨hd, hsome⟩
      rw [habsent hd] at hsome
      cases hsome
    rw [if_neg (by simp [hfor.named]), if_neg hdup, hslot]
    dsimp only
    rw [← hgranules, if_neg (Nat.not_lt.2 hneeded), ← hfor.mode, ← hfor.type, ← hfor.data]
    rfl

theorem add_eq_ok_iff {d' : Disk} : d.add f = (.ok p, d') ↔ d.place f = .ok p ∧ d' = d.write p := by
  rw [add]
  cases d.place f with
  | error cause => simp
  | ok q =>
    simp only [Prod.mk.injEq, Except.ok.injEq]
    constructor <;> (rintro ⟨rfl, rfl⟩; exact ⟨rfl, rfl⟩)

theorem mem_freeGranules (hd : d.formatted = true) {count : Nat} {g : UInt8}
    (hg : g ∈ d.freeGranules count) : g.toNat < granuleCount ∧ d.allocation g = freeMark := by
  rw [freeGranules, if_pos hd] at hg
  have hmem := List.mem_filter.1 (List.mem_of_mem_take hg)
  exact ⟨mem_granuleOrder.1 hmem.1, beq_iff_eq.1 hmem.2⟩

theorem nodup_freeGranules (hd : d.formatted = true) (count : Nat) :
    (d.freeGranules count).Nodup := by
  rw [freeGranules, if_pos hd]
  exact (nodup_granuleOrder.filter _).sublist (List.take_sublist _ _)

theorem length_freeGranules_le (hd : d.formatted = true) (count : Nat) :
    (d.freeGranules count).length ≤ count := by
  rw [freeGranules, if_pos hd]
  exact List.length_take_le _ _

/-- A file is placed in free room. -/
theorem room_of_place (hd : d.formatted = true) (h : d.place f = .ok p) : d.Room p := by
  obtain ⟨hfor, habsent, hslot, hgranules, hneeded⟩ := place_eq_ok_iff.1 h
  obtain ⟨hlt, hunused, hused⟩ := (freeSlot?_eq_some_iff hd).1 hslot
  have hfree : ∀ g ∈ p.granules, g.toNat < granuleCount ∧ d.allocation g = freeMark :=
    fun g hg => mem_freeGranules hd (hgranules ▸ hg)
  exact {
    formatted := hd
    slot := hlt
    raw := length_of_dirName hfor.raw
    nodup := hgranules ▸ nodup_freeGranules hd _
    exist := fun g hg => (hfree g hg).1
    needed := by
      rw [hfor.data]
      exact Nat.le_antisymm (hgranules ▸ length_freeGranules_le hd _) hneeded
    named := mark_of_dirName hfor.raw
    absent := habsent hd
    unused := hunused
    used := hused
    free := fun g hg => (hfree g hg).2 }

/-- A file is accepted if its name is new and there are a slot and granules for it. -/
theorem exists_place (hd : d.formatted = true) {raw : Bytes} (hraw : dirName f.name = .ok raw)
    (hnamed : f.type.isNamed = true) (habsent : d.lookup? raw = none) {s : Nat}
    (hs : s < entryCount) (hunused : d.mark s = 0x00 ∨ d.mark s = 0xFF)
    (hfree : granulesNeeded f.data.length ≤
      (granuleOrder.filter fun g => d.allocation g == freeMark).length) :
    ∃ p, d.place f = .ok p := by
  have hsome : d.freeSlot?.isSome = true := by
    rw [freeSlot?, if_pos hd, List.find?_isSome]
    refine ⟨s, List.mem_range.2 hs, ?_⟩
    simpa [mark] using hunused
  obtain ⟨slot, hslot⟩ := Option.isSome_iff_exists.1 hsome
  refine ⟨⟨raw, f.type, f.mode.resolve f.type, slot, d.freeGranules _, f.data⟩,
    place_eq_ok_iff.2 ⟨⟨hraw, hnamed, rfl, rfl, rfl⟩, fun _ => habsent, hslot, rfl, ?_⟩⟩
  rw [freeGranules, if_pos hd, List.length_take]
  exact le_min le_rfl hfree

end Place

/-- A slot that holds a placed file. -/
structure Stores (d : Disk) (p : Placement) : Prop extends p.Fits where
  named : p.raw.getD 0 0 ≠ 0x00 ∧ p.raw.getD 0 0 ≠ 0xFF
  entry : d.entry p.slot = p.entry
  chain : d.entryChain p.entry = .ok (p.granules, p.data.length)
  contents : d.gather p.granules p.data.length = p.data

section Write

variable {d : Disk} {p : Placement} {raw : Bytes}

theorem Stores.mark_eq (h : d.Stores p) : d.mark p.slot = p.raw.getD 0 0 := by
  rw [mark, h.entry, Placement.getD_entry_zero h.raw]

theorem Stores.names_iff (h : d.Stores p) : d.Names raw p.slot ↔ raw = p.raw := by
  rw [Names, h.mark_eq, h.entry, Placement.take_entry h.raw]
  constructor
  · rintro ⟨-, heq⟩
    exact heq.symm
  · rintro rfl
    exact ⟨h.named.1, rfl⟩

theorem Stores.contents_eq (h : d.Stores p) (hlookup : d.lookup? p.raw = some p.slot) :
    d.contents p.raw = .ok p.data := by
  refine contents_eq_ok_iff.2 ⟨p.slot, p.granules, p.data.length, hlookup, ?_, h.contents.symm⟩
  rw [h.entry, h.chain]

theorem Room.stores (hp : d.Room p) : (d.write p).Stores p where
  toFits := hp.toFits
  named := hp.named
  entry := entry_write_self hp.formatted hp.toFits
  chain := entryChain_write_self hp.formatted hp.toFits
  contents := gather_write_self hp.formatted hp.toFits

/-- A chain that can be followed stays as it is, and so does what is read along it. -/
theorem entryChain_write (hp : d.Room p) {e : Bytes} {granules : List UInt8} {size : Nat}
    (h : d.entryChain e = .ok (granules, size)) :
    (d.write p).entryChain e = .ok (granules, size) ∧
      (d.write p).gather granules size = d.gather granules size := by
  rw [entryChain, chain, follow_eq_ok_iff] at h
  have hnotMem : ∀ g ∈ granules, g ∉ p.granules :=
    fun g hg hmem => h.1.allocated g hg (hp.free g hmem)
  constructor
  · rw [entryChain, chain, follow_eq_ok_iff]
    refine ⟨h.1.congr fun g hg => ?_, h.2⟩
    exact allocation_write_of_notMem hp.formatted hp.raw (hnotMem g hg)
  · refine gather_congr fun g hg count hcount => ?_
    exact sliceOf_write_of_notMem hp.formatted (hnotMem g hg) hcount

theorem mark_write_of_ne (hp : d.Room p) {s : Nat} (hs : s ≠ p.slot) :
    (d.write p).mark s = d.mark s := by
  rw [mark, entry_write_of_ne hp.formatted hp.raw hs, mark]

theorem names_write_of_ne (hp : d.Room p) {s : Nat} (hs : s ≠ p.slot) :
    (d.write p).Names raw s ↔ d.Names raw s := by
  rw [Names, mark_write_of_ne hp hs, entry_write_of_ne hp.formatted hp.raw hs, Names]

theorem lookup?_write_self (hp : d.Room p) : (d.write p).lookup? p.raw = some p.slot := by
  rw [lookup?_eq_some_iff, hp.stores.mark_eq, hp.stores.names_iff]
  refine ⟨hp.slot, hp.named.2, rfl, fun s hs => ?_⟩
  rw [mark_write_of_ne hp hs.ne, names_write_of_ne hp hs.ne]
  refine ⟨(hp.used s hs).2, not_names_of_lookup?_eq_none hp.absent (hs.trans hp.slot) ?_⟩
  exact fun t ht => (hp.used t (ht.trans_lt hs)).2

/-- No name is found in the slot of a new file. -/
theorem Room.ne_of_lookup? (hp : d.Room p) {s : Nat} (h : d.lookup? raw = some s) :
    s ≠ p.slot := by
  obtain ⟨-, hend, hnames, -⟩ := lookup?_eq_some_iff.1 h
  rintro rfl
  exact hp.unused.elim hnames.1 hend

theorem lookup?_write_of_ne (hp : d.Room p) (hraw : raw ≠ p.raw) {s : Nat}
    (h : d.lookup? raw = some s) : (d.write p).lookup? raw = some s := by
  obtain ⟨hlt, hend, hnames, hbefore⟩ := lookup?_eq_some_iff.1 h
  have hne := hp.ne_of_lookup? h
  rw [lookup?_eq_some_iff, mark_write_of_ne hp hne, names_write_of_ne hp hne]
  refine ⟨hlt, hend, hnames, fun t ht => ?_⟩
  -- The new slot may lie before the slot that is found, but it does not end the search.
  by_cases hslot : t = p.slot
  · rw [hslot, hp.stores.mark_eq, hp.stores.names_iff]
    exact ⟨hp.named.2, hraw⟩
  · rw [mark_write_of_ne hp hslot, names_write_of_ne hp hslot]
    exact hbefore t ht

theorem contents_write_self (hp : d.Room p) : (d.write p).contents p.raw = .ok p.data :=
  hp.stores.contents_eq (lookup?_write_self hp)

theorem contents_write_of_ne (hp : d.Room p) (hraw : raw ≠ p.raw) {x : Bytes}
    (h : d.contents raw = .ok x) : (d.write p).contents raw = .ok x := by
  obtain ⟨s, granules, size, hlookup, hchain, rfl⟩ := contents_eq_ok_iff.1 h
  obtain ⟨hchain', hgather⟩ := entryChain_write hp hchain
  refine contents_eq_ok_iff.2
    ⟨s, granules, size, lookup?_write_of_ne hp hraw hlookup, ?_, hgather.symm⟩
  rwa [entry_write_of_ne hp.formatted hp.raw (hp.ne_of_lookup? hlookup)]

end Write
end Forge6809.Disk
