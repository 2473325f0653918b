import Forge6809.Proofs.Assembly.Statement
import Forge6809.Proofs.Expr.Evaluation
import Mathlib.Data.Finset.Card
import Mathlib.Logic.Relation

/-! # Systems of equates

The equates of a source are equations between names. A label scan goes through them once in their
order and assigns in place, with names that are not known yet counted as zero. If no name depends
on itself then the values are those of the only solution after as many scans as there are
equations, in whatever order the equations stand: a name settles one scan after the names that it
depends on. -/

namespace Forge6809.Assembly

open Forge6809.Expr (mentions)

abbrev Equation := Bytes × Bytes

/-- The value of an operand in a label scan, zero where it has none. -/
def provisional (equates : Table UInt16) (e : Bytes) : UInt16 :=
  match Expr.evaluate e equates false with
  | .ok v => v
  | .error _ => 0

def assign (equates : Table UInt16) (q : Equation) : Table UInt16 :=
  equates.insert q.1 (provisional equates q.2)

/-- The table after one scan. -/
def sweep (equates : Table UInt16) (qs : List Equation) : Table UInt16 :=
  qs.foldl assign equates

def sweeps (qs : List Equation) (n : Nat) (equates : Table UInt16) : Table UInt16 :=
  (fun t => sweep t qs)^[n] equates

/-- Every name has the value of its operand. -/
def Solves (equates : Table UInt16) (qs : List Equation) : Prop :=
  ∀ q ∈ qs, equates.get? q.1 = some (provisional equates q.2)

def definedNames (qs : List Equation) : List Bytes :=
  qs.map Prod.fst

/-- A name depends on the defined names that its operand mentions. -/
def DependsOn (qs : List Equation) (a b : Bytes) : Prop :=
  ∃ e, (a, e) ∈ qs ∧ b ∈ mentions e ∧ b ∈ definedNames qs

/-- No name depends on itself, directly or through other names. -/
def Acyclic (qs : List Equation) : Prop :=
  ∀ a, ¬Relation.TransGen (DependsOn qs) a a

section Values

variable {t t' : Table UInt16} {e : Bytes} {qs : List Equation}

theorem provisional_of_evaluate {strict : Bool} {v : UInt16}
    (h : Expr.evaluate e t strict = .ok v) : provisional t e = v := by
  rw [provisional, Expr.evaluate_lenient h]

theorem provisional_congr (h : ∀ a ∈ mentions e, t.get? a = t'.get? a) :
    provisional t e = provisional t' e := by
  cases he : Expr.evaluate e t false with
  | ok v => rw [provisional_of_evaluate he, provisional_of_evaluate (Expr.evaluate_congr he h)]
  | error c =>
    cases he' : Expr.evaluate e t' false with
    | ok v =>
      have hback := Expr.evaluate_congr he' fun a ha => (h a ha).symm
      rw [he] at hback
      cases hback
    | error c' => rw [provisional, provisional, he, he']

end Values

section Sweep

variable {t : Table UInt16} {qs qs' : List Equation} {q : Equation} {a : Bytes}

@[simp] theorem sweep_nil : sweep t [] = t := rfl

@[simp] theorem sweep_cons : sweep t (q :: qs) = sweep (assign t q) qs := rfl

theorem sweep_append : sweep t (qs ++ qs') = sweep (sweep t qs) qs' :=
  List.foldl_append

theorem get?_assign : (assign t q).get? a =
    if a = q.1 then some (provisional t q.2) else t.get? a := by
  rw [assign, Table.get?_insert]

theorem get?_sweep_of_notMem (h : a ∉ definedNames qs) : (sweep t qs).get? a = t.get? a := by
  induction qs generalizing t with
  | nil => rfl
  | cons q qs ih =>
    simp only [definedNames, List.map_cons, List.mem_cons, not_or] at h
    rw [sweep_cons, ih h.2, get?_assign, if_neg h.1]

/-- Where each name is defined once, a name has the value of its operand at its turn. -/
theorem get?_sweep (h : (definedNames (qs ++ q :: qs')).Nodup) :
    (sweep t (qs ++ q :: qs')).get? q.1 = some (provisional (sweep t qs) q.2) := by
  simp only [definedNames, List.map_append, List.map_cons] at h
  have hq : q.1 ∉ definedNames qs' := (List.nodup_cons.1 h.of_append_right).1
  rw [sweep_append, sweep_cons, get?_sweep_of_notMem hq, get?_assign, if_pos rfl]

/-- Within a scan a name has its new value from its turn on and its old one before. -/
theorem get?_sweep_left (h : (definedNames (qs ++ qs')).Nodup) :
    (sweep t qs).get? a =
      if a ∈ definedNames qs then (sweep t (qs ++ qs')).get? a else t.get? a := by
  split
  · next ha =>
    rw [definedNames, List.map_append, List.nodup_append'] at h
    rw [sweep_append, get?_sweep_of_notMem (h.2.2 ha)]
  · next ha => exact get?_sweep_of_notMem ha

theorem get?_sweep_isSome (h : a ∈ definedNames qs) : ((sweep t qs).get? a).isSome := by
  induction qs generalizing t with
  | nil => cases h
  | cons q qs ih =>
    by_cases ha : a ∈ definedNames qs
    · exact ih ha
    · have hq : a = q.1 := by
        simp only [definedNames, List.map_cons, List.mem_cons] at h ha
        exact h.resolve_right ha
      rw [sweep_cons, get?_sweep_of_notMem ha, get?_assign, if_pos hq]
      rfl

/-- A solution stays as it is through every part of a scan. -/
theorem Solves.sweep_eq (h : Solves t qs) : sweep t qs = t := by
  induction qs with
  | nil => rfl
  | cons q qs ih =>
    have hq : assign t q = t := Table.insert_eq_self (h q List.mem_cons_self)
    rw [sweep_cons, hq]
    exact ih fun q hq => h q (List.mem_cons_of_mem _ hq)

/-- A scan that changes nothing was made under a solution. -/
theorem solves_of_sweep_eq (hn : (definedNames qs).Nodup) (h : sweep t qs = t) :
    Solves t qs := by
  -- Each name is assigned once, so the scan has changed nothing before its turn either.
  have hpre (pre post : List Equation) (hqs : qs = pre ++ post) : sweep t pre = t := by
    ext a : 1
    rw [hqs] at hn h
    rw [get?_sweep_left hn, h, ite_self]
  intro q hq
  obtain ⟨pre, post, rfl⟩ := List.append_of_mem hq
  have hget := get?_sweep (t := t) hn
  rwa [h, hpre pre (q :: post) rfl] at hget

end Sweep

section Rank

open Classical in
/-- The number of defined names that a name depends on, directly or through other names. -/
noncomputable def rank (qs : List Equation) (a : Bytes) : Nat :=
  ((definedNames qs).toFinset.filter (Relation.TransGen (DependsOn qs) a)).card

variable {qs : List Equation} {a b : Bytes}

theorem rank_lt_of_dependsOn (hc : Acyclic qs) (h : DependsOn qs a b) :
    rank qs b < rank qs a := by
  apply Finset.card_lt_card
  rw [Finset.ssubset_iff_of_subset]
  · have hb : b ∈ definedNames qs := h.choose_spec.2.2
    exact ⟨b, by simpa [hb] using Relation.TransGen.single h, by simpa [hb] using hc b⟩
  · intro c hc
    simp only [Finset.mem_filter] at hc ⊢
    exact ⟨hc.1, Relation.TransGen.head h hc.2⟩

theorem rank_lt_length (hc : Acyclic qs) (h : a ∈ definedNames qs) :
    rank qs a < qs.length := by
  classical
  have hlt : rank qs a < (definedNames qs).toFinset.card := by
    apply Finset.card_lt_card
    apply Finset.filter_ssubset.2
    exact ⟨a, by simpa using h, hc a⟩
  have hle := List.toFinset_card_le (definedNames qs)
  rw [definedNames, List.length_map] at hle
  exact lt_of_lt_of_le hlt hle

/-- A ranking that every operand respects excludes circles. -/
theorem acyclic_of_rank (f : Bytes → Nat)
    (h : ∀ q ∈ qs, ∀ b ∈ mentions q.2, b ∈ definedNames qs → f b < f q.1) : Acyclic qs := by
  have hlt {a b : Bytes} (hab : Relation.TransGen (DependsOn qs) a b) : f b < f a := by
    induction hab with
    | single hd =>
      obtain ⟨e, hq, hm, hdef⟩ := hd
      exact h (a, e) hq _ hm hdef
    | tail _ hd ih =>
      obtain ⟨e, hq, hm, hdef⟩ := hd
      exact lt_trans (h (_, e) hq _ hm hdef) ih
  intro a ha
  exact lt_irrefl _ (hlt ha)

end Rank

section Sweeps

variable {qs : List Equation} {t t' : Table UInt16} {a : Bytes} {n : Nat}

theorem sweeps_succ : sweeps qs (n + 1) t = sweep (sweeps qs n t) qs :=
  Function.iterate_succ_apply' _ _ _

theorem get?_sweeps_of_notMem (h : a ∉ definedNames qs) :
    (sweeps qs n t).get? a = t.get? a := by
  induction n with
  | zero => rfl
  | succ n ih => rw [sweeps_succ, get?_sweep_of_notMem h, ih]

/-- A name has settled once there were more scans than its rank. -/
theorem get?_sweeps_settled (hn : (definedNames qs).Nodup) (hc : Acyclic qs)
    (ha : a ∈ definedNames qs) (hr : rank qs a < n) :
    (sweeps qs (n + 1) t).get? a = (sweeps qs n t).get? a := by
  induction hk : rank qs a using Nat.strong_induction_on generalizing a n with
  | _ k ih =>
    obtain ⟨m, rfl⟩ : ∃ m, n = m + 1 := ⟨n - 1, by omega⟩
    obtain ⟨⟨name, e⟩, hq, rfl⟩ := List.mem_map.1 ha
    dsimp only at hr hk
    obtain ⟨pre, post, hqs⟩ := List.append_of_mem hq
    have hnodup : (definedNames (pre ++ (name, e) :: post)).Nodup := hqs ▸ hn
    have hturn (t : Table UInt16) :
        (sweep t qs).get? name = some (provisional (sweep t pre) e) := by
      rw [hqs]
      exact get?_sweep (q := (name, e)) hnodup
    -- The names that the operand mentions have the same values at its turn in both scans.
    have hmention (i : Nat) (hi : m ≤ i) (hi' : i ≤ m + 1) {b : Bytes} (hb : b ∈ mentions e) :
        (sweep (sweeps qs i t) pre).get? b = (sweeps qs m t).get? b := by
      by_cases hdef : b ∈ definedNames qs
      · have hrank : rank qs b < rank qs name := rank_lt_of_dependsOn hc ⟨e, hq, hb, hdef⟩
        have hstep (j : Nat) (hj : m ≤ j) :
            (sweeps qs (j + 1) t).get? b = (sweeps qs j t).get? b :=
          ih (rank qs b) (by omega) hdef (by omega) rfl
        have hsweep : (sweep (sweeps qs i t) pre).get? b = (sweeps qs i t).get? b := by
          rw [get?_sweep_left hnodup, ← hqs, ← sweeps_succ, hstep i hi, ite_self]
        rw [hsweep]
        rcases Nat.eq_or_lt_of_le hi with rfl | hlt
        · rfl
        · obtain rfl : i = m + 1 := by omega
          exact hstep m le_rfl
      · have hpre : b ∉ definedNames pre := by
          intro hmem
          apply hdef
          rw [hqs, definedNames, List.map_append]
          exact List.mem_append_left _ hmem
        rw [get?_sweep_of_notMem hpre, get?_sweeps_of_notMem hdef, get?_sweeps_of_notMem hdef]
    have hvalue : provisional (sweep (sweeps qs (m + 1) t) pre) e =
        provisional (sweep (sweeps qs m t) pre) e := by
      apply provisional_congr
      intro b hb
      rw [hmention (m + 1) (by omega) le_rfl hb, hmention m le_rfl (by omega) hb]
    rw [sweeps_succ, hturn, hvalue, sweeps_succ, hturn]

/-- Without a cycle, as many scans as there are equations reach a solution. -/
theorem solves_sweeps (hn : (definedNames qs).Nodup) (hc : Acyclic qs) (h : qs.length ≤ n) :
    Solves (sweeps qs n t) qs := by
  apply solves_of_sweep_eq hn
  rw [← sweeps_succ]
  ext a : 1
  by_cases ha : a ∈ definedNames qs
  · exact get?_sweeps_settled hn hc ha (lt_of_lt_of_le (rank_lt_length hc ha) h)
  · rw [get?_sweeps_of_notMem ha, get?_sweeps_of_notMem ha]

/-- Further scans keep a solution. -/
theorem Solves.sweeps_eq {m : Nat} (h : Solves (sweeps qs n t) qs) (hm : n ≤ m) :
    sweeps qs m t = sweeps qs n t := by
  induction hm with
  | refl => rfl
  | step _ ih => rw [sweeps_succ, ih, h.sweep_eq]

/-- Without a cycle there is one solution for given values of the other names. -/
theorem Solves.unique (hc : Acyclic qs) (h : Solves t qs) (h' : Solves t' qs)
    (hother : ∀ a, a ∉ definedNames qs → t.get? a = t'.get? a) : t = t' := by
  ext a : 1
  by_cases ha : a ∈ definedNames qs
  · induction hk : rank qs a using Nat.strong_induction_on generalizing a with
    | _ k ih =>
      obtain ⟨⟨name, e⟩, hq, rfl⟩ := List.mem_map.1 ha
      dsimp only at hk
      rw [h _ hq, h' _ hq]
      congr 1
      apply provisional_congr
      intro b hb
      by_cases hdef : b ∈ definedNames qs
      · have hrank : rank qs b < rank qs name := rank_lt_of_dependsOn hc ⟨e, hq, hb, hdef⟩
        exact ih (rank qs b) (by omega) b hdef rfl
      · exact hother b hdef
  · exact hother a ha

end Sweeps

end Forge6809.Assembly
