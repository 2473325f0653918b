import Forge6809.Text.Bytes

/-! # Tables of named values

A table holds at most one value for a name, and lists its entries in the byte order of the names.
The order is part of the type, so two tables with the same look-ups are equal. -/

namespace Forge6809

structure Table (α : Type) where
  entries : List (Bytes × α)
  ordered : entries.Pairwise fun a b => a.1 < b.1

namespace Table

variable {α : Type}

instance [DecidableEq α] : DecidableEq (Table α) := fun s t =>
  if h : s.entries = t.entries then
    isTrue (by cases s; cases t; cases h; rfl)
  else
    isFalse (fun e => h (by rw [e]))

instance [Repr α] : Repr (Table α) where
  reprPrec t := reprPrec t.entries

def empty : Table α := ⟨[], .nil⟩

instance : EmptyCollection (Table α) := ⟨empty⟩

instance : Inhabited (Table α) := ⟨empty⟩

def size (t : Table α) : Nat :=
  t.entries.length

def get? (t : Table α) (name : Bytes) : Option α :=
  t.entries.lookup name

def contains (t : Table α) (name : Bytes) : Bool :=
  (t.get? name).isSome

/-- Puts an entry at its place in a list ordered by name, over an entry of the same name. -/
def place (name : Bytes) (value : α) : List (Bytes × α) → List (Bytes × α)
  | [] => [(name, value)]
  | (n, v) :: r =>
    if name < n then (name, value) :: (n, v) :: r
    else if name = n then (name, value) :: r
    else (n, v) :: place name value r

theorem mem_place {name : Bytes} {value : α} {l : List (Bytes × α)} {e : Bytes × α}
    (h : e ∈ place name value l) : e = (name, value) ∨ e ∈ l := by
  induction l with
  | nil => simpa [place] using h
  | cons head r ih =>
    simp only [place] at h
    split at h
    · simpa using h
    · split at h
      · simp only [List.mem_cons] at h ⊢
        exact h.imp_right Or.inr
      · simp only [List.mem_cons] at h ⊢
        rcases h with h | h
        · exact Or.inr (Or.inl h)
        · exact (ih h).imp_right Or.inr

theorem place_ordered (name : Bytes) (value : α) {l : List (Bytes × α)}
    (h : l.Pairwise fun a b => a.1 < b.1) :
    (place name value l).Pairwise fun a b => a.1 < b.1 := by
  induction l with
  | nil => simp [place]
  | cons head r ih =>
    rw [List.pairwise_cons] at h
    simp only [place]
    split
    · next lt =>
      refine List.pairwise_cons.2 ⟨fun e he => ?_, List.pairwise_cons.2 h⟩
      rcases List.mem_cons.1 he with rfl | he
      · exact lt
      · exact List.lt_trans lt (h.1 e he)
    · next nlt =>
      split
      · next eq => exact List.pairwise_cons.2 ⟨fun e he => eq ▸ h.1 e he, h.2⟩
      · next ne =>
        refine List.pairwise_cons.2 ⟨fun e he => ?_, ih h.2⟩
        rcases mem_place he with rfl | he
        · exact Std.lt_of_le_of_ne (List.not_lt.1 nlt) (Ne.symm ne)
        · exact h.1 e he

def insert (t : Table α) (name : Bytes) (value : α) : Table α :=
  ⟨place name value t.entries, place_ordered name value t.ordered⟩

def erase (t : Table α) (name : Bytes) : Table α :=
  ⟨t.entries.filter fun e => e.1 != name, t.ordered.filter _⟩

def toList (t : Table α) : List (Bytes × α) :=
  t.entries

/-- The entries of several tables, one table after the other. -/
def chain (ts : List (Table α)) : List (Bytes × α) :=
  ts.flatMap toList

/-- A table with the given entries; of two with one name the later stays. -/
def ofList (l : List (Bytes × α)) : Table α :=
  l.foldl (fun t e => t.insert e.1 e.2) ∅

def map {β : Type} (f : α → β) (t : Table α) : Table β :=
  ⟨t.entries.map fun e => (e.1, f e.2), List.pairwise_map.2 t.ordered⟩

@[simp] theorem get?_empty (name : Bytes) : (∅ : Table α).get? name = none := rfl

theorem lookup_cons_eq_ite (e : Bytes × α) (l : List (Bytes × α)) (name : Bytes) :
    (e :: l).lookup name = if name = e.1 then some e.2 else l.lookup name := by
  obtain ⟨n, v⟩ := e
  by_cases h : name = n
  · simp [h]
  · have hb : (name == n) = false := by simpa using h
    simp [List.lookup_cons, h, hb]

theorem lookup_place (name : Bytes) (value : α) (l : List (Bytes × α)) (other : Bytes) :
    (place name value l).lookup other = if other = name then some value else l.lookup other := by
  induction l with
  | nil => exact lookup_cons_eq_ite _ _ _
  | cons head r ih =>
    simp only [place]
    split
    · exact lookup_cons_eq_ite _ _ _
    · split
      · next eq =>
        rw [lookup_cons_eq_ite, lookup_cons_eq_ite]
        by_cases h : other = name <;> simp [h, ← eq]
      · next ne =>
        rw [lookup_cons_eq_ite, lookup_cons_eq_ite, ih]
        by_cases h : other = name <;> simp [h, ne]

@[simp] theorem get?_insert (t : Table α) (name : Bytes) (value : α) (other : Bytes) :
    (t.insert name value).get? other = if other = name then some value else t.get? other :=
  lookup_place name value t.entries other

@[simp] theorem get?_erase (t : Table α) (name other : Bytes) :
    (t.erase name).get? other = if other = name then none else t.get? other := by
  simp only [erase, get?]
  induction t.entries with
  | nil => simp
  | cons head r ih =>
    by_cases hn : head.1 = name
    · rw [List.filter_cons_of_neg (by simpa using hn), ih, lookup_cons_eq_ite]
      by_cases ho : other = name <;> simp [ho, hn]
    · rw [List.filter_cons_of_pos (by simpa using hn), lookup_cons_eq_ite, lookup_cons_eq_ite, ih]
      by_cases ho : other = head.1 <;> simp [ho, hn]

@[simp] theorem get?_map {β : Type} (f : α → β) (t : Table α) (name : Bytes) :
    (t.map f).get? name = (t.get? name).map f := by
  simp only [map, get?]
  induction t.entries with
  | nil => rfl
  | cons head r ih =>
    rw [List.map_cons, lookup_cons_eq_ite, lookup_cons_eq_ite, ih]
    by_cases h : name = head.1 <;> simp [h]

theorem lookup_eq_none_of_lt {name : Bytes} {l : List (Bytes × α)} (h : ∀ e ∈ l, name < e.1) :
    l.lookup name = none := by
  rw [List.lookup_eq_none_iff]
  intro e he
  have hlt := h e he
  have hne : name ≠ e.1 := fun heq => List.lt_irrefl _ (heq ▸ hlt)
  simpa using hne

theorem eq_of_lookup_eq {l m : List (Bytes × α)} (hl : l.Pairwise fun a b => a.1 < b.1)
    (hm : m.Pairwise fun a b => a.1 < b.1) (h : ∀ name, l.lookup name = m.lookup name) :
    l = m := by
  induction l generalizing m with
  | nil =>
    cases m with
    | nil => rfl
    | cons b m => simpa [lookup_cons_eq_ite] using h b.1
  | cons a l ih =>
    cases m with
    | nil => simpa [lookup_cons_eq_ite] using h a.1
    | cons b m =>
      rw [List.pairwise_cons] at hl hm
      -- Of two different first names the smaller one does not occur in the other list.
      have hab : a.1 = b.1 := by
        apply Classical.byContradiction
        intro hne
        by_cases hlt : a.1 < b.1
        · have hnone : ((b :: m).lookup a.1) = none := lookup_eq_none_of_lt (by
            intro e he
            rcases List.mem_cons.1 he with rfl | he
            · exact hlt
            · exact List.lt_trans hlt (hm.1 e he))
          simp [← h a.1, lookup_cons_eq_ite] at hnone
        · have hgt : b.1 < a.1 := Std.lt_of_le_of_ne (List.not_lt.1 hlt) (Ne.symm hne)
          have hnone : ((a :: l).lookup b.1) = none := lookup_eq_none_of_lt (by
            intro e he
            rcases List.mem_cons.1 he with rfl | he
            · exact hgt
            · exact List.lt_trans hgt (hl.1 e he))
          simp [h b.1, lookup_cons_eq_ite] at hnone
      have hvalue : a.2 = b.2 := by simpa [lookup_cons_eq_ite, hab] using h a.1
      have htail : l = m := ih hl.2 hm.2 fun name => by
        by_cases hn : name = a.1
        · rw [hn, lookup_eq_none_of_lt hl.1, hab, lookup_eq_none_of_lt hm.1]
        · have hn' : name ≠ b.1 := hab ▸ hn
          simpa [lookup_cons_eq_ite, hn, hn'] using h name
      rw [Prod.ext hab hvalue, htail]

/-- Tables with the same look-ups are equal. -/
@[ext] theorem ext {s t : Table α} (h : ∀ name, s.get? name = t.get? name) : s = t := by
  obtain ⟨l, hl⟩ := s
  obtain ⟨m, hm⟩ := t
  cases eq_of_lookup_eq hl hm h
  rfl

theorem insert_eq_self {t : Table α} {name : Bytes} {value : α} (h : t.get? name = some value) :
    t.insert name value = t := by
  ext other : 1
  rw [get?_insert]
  split
  · next ho => rw [ho, h]
  · rfl

theorem erase_eq_self {t : Table α} {name : Bytes} (h : t.get? name = none) :
    t.erase name = t := by
  ext other : 1
  rw [get?_erase]
  split
  · next ho => rw [ho, h]
  · rfl

theorem length_place {name : Bytes} {l : List (Bytes × α)} (h : l.lookup name = none) (value : α) :
    (place name value l).length = l.length + 1 := by
  induction l with
  | nil => rfl
  | cons head r ih =>
    rw [lookup_cons_eq_ite] at h
    by_cases hn : name = head.1
    · simp [hn] at h
    · simp only [place]
      split
      · rfl
      · simpa [hn] using ih (by simpa [hn] using h)

/-- A new name makes a table larger by one. -/
theorem size_insert {t : Table α} {name : Bytes} (h : t.get? name = none) (value : α) :
    (t.insert name value).size = t.size + 1 :=
  length_place h value

/-- The entries are the names that have a value, with their values. -/
theorem mem_toList_iff {t : Table α} {name : Bytes} {value : α} :
    (name, value) ∈ t.toList ↔ t.get? name = some value := by
  rw [get?, List.lookup_eq_some_iff, toList]
  constructor
  · intro h
    obtain ⟨l₁, l₂, hl⟩ := List.append_of_mem h
    refine ⟨l₁, l₂, hl, fun e he => ?_⟩
    have hlt : e.1 < name :=
      (List.pairwise_append.1 (hl ▸ t.ordered)).2.2 e he _ List.mem_cons_self
    rw [bne_iff_ne]
    rintro rfl
    exact List.lt_irrefl _ hlt
  · rintro ⟨l₁, l₂, hl, -⟩
    rw [hl]
    exact List.mem_append_right _ List.mem_cons_self

@[simp] theorem size_map {β : Type} (f : α → β) (t : Table α) : (t.map f).size = t.size :=
  List.length_map _

end Table
end Forge6809
