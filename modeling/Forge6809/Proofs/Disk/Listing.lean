import Forge6809.Proofs.Disk.Directory
import Mathlib.Tactic

/-! # What the directory lists

The slots before the first end mark are in use, but for those that were given up. Whatever an image
holds, the directory lists the slots in use in order, each with the length of its chain, up to the
first chain that cannot be followed. A slot in which a name is found is one of them. -/

namespace Forge6809.Disk

section Collect

variable {ε α : Type}

/-- The results before the first error, and that error. -/
def collect : List (Except ε α) → List α × Option ε
  | [] => ([], none)
  | .error e :: _ => ([], some e)
  | .ok a :: rest => (a :: (collect rest).1, (collect rest).2)

theorem collect_append (as : List α) (rest : List (Except ε α)) :
    collect (as.map .ok ++ rest) = (as ++ (collect rest).1, (collect rest).2) := by
  induction as with
  | nil => rfl
  | cons a as ih => rw [List.map_cons, List.cons_append, collect, ih, List.cons_append]

theorem collect_eq_iff {xs : List (Except ε α)} {as : List α} :
    collect xs = (as, none) ↔ xs = as.map .ok := by
  constructor
  · intro h
    fun_induction collect xs generalizing as with
    | case1 =>
      cases h
      rfl
    | case2 => cases h
    | case3 a rest ih =>
      obtain ⟨rfl, hrest⟩ := Prod.mk.inj h
      rw [List.map_cons, ← ih (Prod.ext rfl hrest)]
  · rintro rfl
    simpa [collect] using collect_append (ε := ε) as []

/-- A result is collected unless there was an error before it, which is then the first one. -/
theorem collect_getElem? {xs : List (Except ε α)} {i : Nat} {a : α} (h : xs[i]? = some (.ok a)) :
    (collect xs).1[i]? = some a ∨ (collect xs).1[i]? = none ∧
      ∃ j < i, ∃ e, xs[j]? = some (.error e) ∧ (collect xs).2 = some e := by
  induction xs generalizing i with
  | nil => cases h
  | cons x xs ih =>
    cases x with
    | error e =>
      cases i with
      | zero => cases h
      | succ i => exact .inr ⟨rfl, 0, Nat.succ_pos i, e, rfl, rfl⟩
    | ok b =>
      cases i with
      | zero => exact .inl (by simpa [collect] using h)
      | succ i =>
        rcases ih (i := i) h with hfound | ⟨hnone, j, hj, e, hbad⟩
        · exact .inl hfound
        · exact .inr ⟨hnone, j + 1, Nat.succ_lt_succ hj, e, hbad⟩

end Collect

/-- Those of some slots that are in use: before the end of the directory, and not given up. -/
def usedSlots (d : Disk) (slots : List Nat) : List Nat :=
  (slots.takeWhile fun s => d.mark s ≠ 0xFF).filter fun s => d.mark s ≠ 0x00

def behind (slot : Nat) : List Nat :=
  List.range' (slot + 1) (entryCount - (slot + 1))

/-- The entry under which a slot is listed, or why it is not. -/
def entryAt (d : Disk) (slot : Nat) : Except Error Entry :=
  let e := d.entry slot
  match d.entryChain e with
  | .error cause => .error ⟨entryName e, cause⟩
  | .ok (_, size) =>
    .ok ⟨entryName e, ⟨(e.getD 11 0).toNat⟩, .ofFlag (e.getD 12 0), e.getD 13 0, size⟩

section Listing

variable {d d' : Disk} {slots rest : List Nat} {raw : Bytes} {slot : Nat}

theorem range_entryCount (h : slot < entryCount) :
    List.range entryCount = List.range slot ++ slot :: behind slot := by
  obtain ⟨count, hcount⟩ := Nat.exists_eq_add_of_lt h
  rw [behind, hcount, Nat.add_right_comm, Nat.add_sub_cancel_left, List.range_add,
    ← List.range'_eq_map_range, List.range_succ, List.append_assoc, List.singleton_append]

theorem lt_of_mem_behind {s : Nat} (h : s ∈ behind slot) : slot < s :=
  (List.mem_range'_1.1 h).1

theorem usedSlots_subset (d : Disk) (slots : List Nat) : d.usedSlots slots ⊆ slots :=
  fun _ hs => (List.takeWhile_sublist _).subset (List.mem_of_mem_filter hs)

theorem usedSlots_cons (d : Disk) (s : Nat) (rest : List Nat) : d.usedSlots (s :: rest) =
    if d.mark s = 0xFF then [] else
      if d.mark s = 0x00 then d.usedSlots rest else s :: d.usedSlots rest := by
  by_cases hend : d.mark s = 0xFF
  · simp [usedSlots, hend]
  by_cases hhole : d.mark s = 0x00
  · simp [usedSlots, hhole]
  · simp [usedSlots, hend, hhole]

theorem usedSlots_append (h : ∀ s ∈ slots, d.mark s ≠ 0xFF) :
    d.usedSlots (slots ++ rest) = d.usedSlots slots ++ d.usedSlots rest := by
  induction slots with
  | nil => rfl
  | cons s slots ih =>
    rw [List.forall_mem_cons] at h
    rw [List.cons_append, usedSlots_cons, usedSlots_cons, if_neg h.1, if_neg h.1, ih h.2]
    split <;> rfl

theorem usedSlots_eq_self (h : ∀ s ∈ slots, d.mark s ≠ 0x00 ∧ d.mark s ≠ 0xFF) :
    d.usedSlots slots = slots := by
  induction slots with
  | nil => rfl
  | cons s slots ih =>
    rw [List.forall_mem_cons] at h
    rw [usedSlots_cons, if_neg h.1.2, if_neg h.1.1, ih h.2]

/-- If the slots before one are in use, it decides about those behind it. -/
theorem usedSlots_range (hslot : slot < entryCount)
    (h : ∀ s < slot, d.mark s ≠ 0x00 ∧ d.mark s ≠ 0xFF) :
    d.usedSlots (List.range entryCount) = List.range slot ++ d.usedSlots (slot :: behind slot) := by
  have hused : ∀ s ∈ List.range slot, d.mark s ≠ 0x00 ∧ d.mark s ≠ 0xFF :=
    fun s hs => h s (List.mem_range.1 hs)
  rw [range_entryCount hslot, usedSlots_append fun s hs => (hused s hs).2, usedSlots_eq_self hused]

theorem usedSlots_congr (h : ∀ s ∈ slots, d'.mark s = d.mark s) :
    d'.usedSlots slots = d.usedSlots slots := by
  induction slots with
  | nil => rfl
  | cons s slots ih =>
    rw [List.forall_mem_cons] at h
    rw [usedSlots_cons, usedSlots_cons, h.1, ih h.2]

/-- The slot in which a name is found is in use. -/
theorem mem_usedSlots_of_lookup? (h : d.lookup? raw = some slot) :
    slot ∈ d.usedSlots (List.range entryCount) := by
  obtain ⟨hlt, hend, hnames, hbefore⟩ := lookup?_eq_some_iff.1 h
  rw [range_entryCount hlt, usedSlots_append fun s hs => (hbefore s (List.mem_range.1 hs)).1,
    usedSlots_cons, if_neg hend, if_neg hnames.1]
  exact List.mem_append_right _ List.mem_cons_self

/-- The directory lists the slots in use, up to the first bad chain. -/
theorem listSlots_eq (d : Disk) (slots : List Nat) :
    d.listSlots slots = collect ((d.usedSlots slots).map d.entryAt) := by
  induction slots with
  | nil => rfl
  | cons s rest ih =>
    rw [listSlots, usedSlots_cons, mark]
    dsimp only
    split
    · rfl
    split
    · exact ih
    · rw [List.map_cons, entryAt]
      cases d.entryChain (d.entry s) with
      | error cause => rfl
      | ok chain => rw [ih, collect]

theorem files_eq (d : Disk) :
    d.files = collect ((d.usedSlots (List.range entryCount)).map d.entryAt) :=
  d.listSlots_eq _

theorem length_usedSlots {es : List Entry} (h : d.files = (es, none)) :
    (d.usedSlots (List.range entryCount)).length = es.length := by
  rw [files_eq, collect_eq_iff] at h
  simpa using congrArg List.length h

end Listing
end Forge6809.Disk
