import Forge6809.Proofs.Disk.Image
import Forge6809.Proofs.Outcome

/-! # Looking into the directory

A name is found in the first slot that holds it, unless the directory ends before that slot. A
free slot is the first one that is not in use, whether it was given up or never used. Reading a
file is looking up its directory form and following the chain of its entry. -/

namespace Forge6809.Disk

/-- The first byte of a slot: zero if it was given up, all ones at the end of the directory. -/
def mark (d : Disk) (slot : Nat) : UInt8 :=
  (d.entry slot).getD 0 0

/-- A slot that is in use by a name in its directory form. -/
def Names (d : Disk) (raw : Bytes) (slot : Nat) : Prop :=
  d.mark slot ≠ 0x00 ∧ (d.entry slot).take 11 = raw

instance (d : Disk) (raw : Bytes) (slot : Nat) : Decidable (d.Names raw slot) :=
  inferInstanceAs (Decidable (_ ∧ _))

section Directory

variable {d : Disk} {raw name : Bytes} {slot : Nat}

theorem mark_eq (d : Disk) (slot : Nat) :
    d.mark slot = (d.track[entriesOffset + slot * entrySize]?).getD 0 := by
  rw [mark, entry, List.getD_eq_getElem?_getD, getElem?_sliceOf, if_pos (by decide), Nat.add_zero]

theorem Names.mark_eq (h : d.Names raw slot) : d.mark slot = raw.getD 0 0 := by
  rw [mark, ← h.2, List.getD_eq_getElem?_getD, List.getD_eq_getElem?_getD, List.getElem?_take,
    if_pos (by decide)]

theorem lookupIn_eq_find? (d : Disk) (raw : Bytes) (slots : List Nat) :
    d.lookupIn raw slots = (slots.find? fun s => d.mark s = 0xFF ∨ d.Names raw s).filter
      fun s => d.mark s ≠ 0xFF := by
  induction slots with
  | nil => rfl
  | cons s rest ih =>
    rw [lookupIn, List.find?_cons]
    change (if d.mark s = 0xFF then none else if d.Names raw s then some s else _) = _
    by_cases hend : d.mark s = 0xFF
    · simp [hend, Option.filter]
    by_cases hnames : d.Names raw s
    · simp [hend, hnames, Option.filter]
    · simp [hend, hnames, ih]

theorem lookup?_eq_some_iff : d.lookup? raw = some slot ↔
    slot < entryCount ∧ d.mark slot ≠ 0xFF ∧ d.Names raw slot ∧
      ∀ s < slot, d.mark s ≠ 0xFF ∧ ¬ d.Names raw s := by
  rw [lookup?, lookupIn_eq_find?, Option.filter_eq_some_iff, List.find?_range_eq_some]
  simp only [decide_eq_true_eq, List.mem_range, Bool.not_eq_true', decide_eq_false_iff_not, not_or]
  constructor
  · rintro ⟨⟨hor, hlt, hbefore⟩, hend⟩
    exact ⟨hlt, hend, hor.resolve_left hend, hbefore⟩
  · rintro ⟨hlt, hend, hnames, hbefore⟩
    exact ⟨⟨.inr hnames, hlt, hbefore⟩, hend⟩

theorem lookup?_eq_none (h : ∀ s < entryCount, ¬ d.Names raw s) : d.lookup? raw = none := by
  rw [Option.eq_none_iff_forall_ne_some]
  intro s hs
  obtain ⟨hlt, -, hnames, -⟩ := lookup?_eq_some_iff.1 hs
  exact h s hlt hnames

/-- A name that is not found is in no slot before the end of the directory. -/
theorem not_names_of_lookup?_eq_none (h : d.lookup? raw = none) (hlt : slot < entryCount)
    (hend : ∀ s ≤ slot, d.mark s ≠ 0xFF) : ¬ d.Names raw slot := by
  induction slot using Nat.strong_induction_on with
  | _ slot ih =>
    intro hnames
    have hfound : d.lookup? raw = some slot := by
      refine lookup?_eq_some_iff.2 ⟨hlt, hend slot le_rfl, hnames, fun s hs => ?_⟩
      exact ⟨hend s hs.le, ih s hs (hs.trans hlt) fun t ht => hend t (ht.trans hs.le)⟩
    rw [h] at hfound
    cases hfound

theorem freeSlot?_eq_some_iff (hd : d.formatted = true) : d.freeSlot? = some slot ↔
    slot < entryCount ∧ (d.mark slot = 0x00 ∨ d.mark slot = 0xFF) ∧
      ∀ s < slot, d.mark s ≠ 0x00 ∧ d.mark s ≠ 0xFF := by
  rw [freeSlot?, if_pos hd, List.find?_range_eq_some]
  change ((d.mark slot == 0x00 || d.mark slot == 0xFF) = true ∧ _ ∧
    ∀ s < slot, (!(d.mark s == 0x00 || d.mark s == 0xFF)) = true) ↔ _
  simp only [Bool.or_eq_true, beq_iff_eq, List.mem_range, Bool.not_or, Bool.and_eq_true,
    Bool.not_eq_true', beq_eq_false_iff_ne]
  tauto

theorem contents_eq_ok_iff {x : Bytes} : d.contents raw = .ok x ↔
    ∃ slot granules size, d.lookup? raw = some slot ∧
      d.entryChain (d.entry slot) = .ok (granules, size) ∧ x = d.gather granules size := by
  unfold contents
  cases hlookup : d.lookup? raw with
  | none => simp
  | some slot =>
    dsimp only
    rw [bind_eq_ok_iff]
    constructor
    · rintro ⟨⟨granules, size⟩, hchain, hok⟩
      exact ⟨slot, granules, size, rfl, hchain, (Except.ok.inj hok).symm⟩
    · rintro ⟨_, granules, size, hslot, hchain, rfl⟩
      cases hslot
      exact ⟨(granules, size), hchain, rfl⟩

theorem contents_of_lookup?_eq_none (h : d.lookup? raw = none) :
    d.contents raw = .error .notFound := by
  unfold contents
  rw [h]

theorem read_of_dirName (h : dirName name = .ok raw) :
    d.read name = (d.contents raw).mapError fun cause => ⟨name, cause⟩ := by
  unfold read
  rw [h, Except.bind]

theorem read_eq_ok_iff {x : Bytes} :
    d.read name = .ok x ↔ ∃ raw, dirName name = .ok raw ∧ d.contents raw = .ok x := by
  unfold read
  cases hname : dirName name with
  | error cause => simp [Except.bind, Except.mapError]
  | ok raw => cases hcontents : d.contents raw <;> simp [Except.bind, Except.mapError, hcontents]

end Directory
end Forge6809.Disk
