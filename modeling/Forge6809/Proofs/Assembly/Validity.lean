import Forge6809.Proofs.Assembly.Phase
import Forge6809.Proofs.Assembly.Soundness

/-! # Valid sources

A source is valid under a table of equates if every operand is defined and fits under it and the
table solves the equates of the source. Without a circle of equates there is at most one such
table, and a valid source is assembled unless a label scan refuses one of its lines. The only lines
that a scan can refuse are indexed operands with an automatic mode, whose offset has to be zero
under the provisional values already. -/

namespace Forge6809.Assembly

open Text

/-- Every operand is valid under a table that solves the equates of the source, no label is
defined twice, and execution starts at a label. -/
structure Valid (predefined : Table UInt16) (texts : List Bytes) (equates : Table UInt16) :
    Prop where
  encodes (text : Bytes) : text ∈ texts →
    ∃ form code, Form.read? text = some form ∧ form.action.code? equates true = some code
  entry (text : Bytes) (form : Form) (name : Bytes) : text ∈ texts →
    Form.read? text = some form → form.action = .entry name → IsLabel texts name
  nodup : (labels texts).Nodup
  fresh (a : Bytes) : a ∈ labels texts → predefined.get? a = none
  solves : Solves equates (equations texts)
  other (a : Bytes) : a ∉ definedNames (equations texts) → equates.get? a = predefined.get? a

/-- Some scan meets an indexed operand with an automatic mode while its offset, under the values
of that moment, is not zero. -/
def Premature (predefined : Table UInt16) (texts : List Bytes) : Prop :=
  ∃ k pre text post form, texts = pre ++ text :: post ∧ Form.read? text = some form ∧
    form.action.Premature (sweep (sweeps (equations texts) k predefined) (equations pre))

theorem Valid.unique {predefined t t' : Table UInt16} {texts : List Bytes}
    (hc : Acyclic (equations texts)) (h : Valid predefined texts t)
    (h' : Valid predefined texts t') : t = t' := by
  apply h.solves.unique hc h'.solves
  intro a ha
  rw [h.other a ha, h'.other a ha]

section Assembled

variable {a : Assembler} {src : List (Bytes × Nat)} {s : Session} {ls : List Line}

/-- What the code pass accepts is valid under the table that the scans have left. -/
theorem valid_of_laid {n : Nat} (hs : Scanned a src n s)
    (hl : Laid s.equates s.symbols 0 src ls) :
    Valid a.predefined (src.map Prod.fst) s.equates := by
  have haccepts {text : Bytes} (ht : text ∈ src.map Prod.fst) : ∃ form offset code,
      Form.read? text = some form ∧ Accepts s.equates s.symbols offset form code := by
    obtain ⟨l, hmem, rfl⟩ := hl.exists_line ht
    obtain ⟨form, hr, ha⟩ := hl.accepts hmem
    exact ⟨form, l.offset, l.code, hr, ha⟩
  constructor
  case encodes =>
    intro text ht
    obtain ⟨form, offset, code, hr, ha⟩ := haccepts ht
    exact ⟨form, code, hr, ha.encodes⟩
  case entry =>
    intro text form name ht hr hentry
    obtain ⟨form', offset, code, hr', ha⟩ := haccepts ht
    cases hr.symm.trans hr'
    exact (hs.symbols name).1 (ha.entry name hentry)
  case nodup => exact hs.nodup
  case fresh => exact fun b hb => hs.predefined hb
  case solves =>
    rintro ⟨name, e⟩ hq
    obtain ⟨text, ht, heq⟩ := List.mem_filterMap.1 hq
    obtain ⟨v, hv, hget⟩ := hl.get?_equates ht (equation?_eq_some_iff.1 heq)
    rw [hget, provisional_of_evaluate hv]
  case other =>
    intro b hb
    rw [hs.equates, get?_sweeps_of_notMem hb]

/-- No scan of a source that is valid under the table of its scans was premature. -/
theorem not_premature_of_valid {n : Nat} (hs : Scanned a src n s)
    (hv : Valid a.predefined (src.map Prod.fst) s.equates) :
    ¬Premature a.predefined (src.map Prod.fst) := by
  rintro ⟨k, pre, text, post, form, hsplit, hr, hp⟩
  rcases Nat.lt_or_ge k n with hk | hk
  · obtain ⟨form', code, hr', hc⟩ := hs.code hk hsplit
    cases hr.symm.trans hr'
    exact Action.not_premature_of_code? hc hp
  · -- The scans that were not made would all have met the final values.
    have hsolves := hv.solves
    have hprefix : Solves s.equates (equations pre) := (hsplit ▸ hsolves).append_left
    rw [hs.equates] at hsolves
    rw [hsolves.sweeps_eq hk, ← hs.equates, hprefix.sweep_eq] at hp
    obtain ⟨form', code, hr', hc⟩ := hv.encodes text (by rw [hsplit]; simp)
    cases hr.symm.trans hr'
    exact Action.not_premature_of_code? (Action.code?_lenient hc) hp

/-- Tables that are in step with valid lines lay them out. -/
theorem InStep.exists_laid {equates symbols : Table UInt16} {offset : UInt16}
    (h : InStep equates symbols offset (src.map Prod.fst))
    (hencodes : ∀ text ∈ src.map Prod.fst, ∃ form code,
      Form.read? text = some form ∧ form.action.code? equates true = some code)
    (hsolves : Solves equates (equations (src.map Prod.fst)))
    (hentry : ∀ text ∈ src.map Prod.fst, ∀ form name, Form.read? text = some form →
      form.action = .entry name → (symbols.get? name).isSome) :
    ∃ ls, Laid equates symbols offset src ls := by
  induction src generalizing offset with
  | nil => exact ⟨[], .nil⟩
  | cons line rest ih =>
    rw [List.map_cons] at h hencodes hsolves hentry
    rw [solves_cons] at hsolves
    rw [List.forall_mem_cons] at hencodes hentry
    cases h with
    | cons hr hc hlabel hrest =>
      rename_i form code
      obtain ⟨form', code', hr', hc'⟩ := hencodes.1
      cases hr.symm.trans hr'
      obtain rfl : code = code' :=
        Option.some.inj (hc.symm.trans (Action.code?_lenient hc'))
      have haccepts : Accepts equates symbols offset form code := by
        refine ⟨hc', ?_, ?_, fun name => hentry.1 form name hr⟩
        · rw [Form.label_of_read? hr]
          exact hlabel
        · rintro name e v rfl hv
          have hget := hsolves.1 (name, e) (by
            rw [equation?_eq_some_iff.2 hr]
            exact List.mem_singleton_self _)
          rw [hget, provisional_of_evaluate hv]
      obtain ⟨ls, hls⟩ := ih hrest hencodes.2 hsolves.2 hentry.2
      exact ⟨_, .cons hr haccepts hls⟩

/-- A valid source goes through all scans if none of them is premature. -/
theorem Valid.exists_scanned {equates : Table UInt16}
    (hv : Valid a.predefined (src.map Prod.fst) equates)
    (hp : ¬Premature a.predefined (src.map Prod.fst)) : ∃ s, a.scanned src = .ok s := by
  apply Assembly.exists_scanned hv.nodup hv.fresh
  intro k pre text post hsplit
  obtain ⟨form, code, hr, hc⟩ := hv.encodes text (by rw [hsplit]; simp)
  have hpremature : ¬form.action.Premature
      (sweep (sweeps (equations (src.map Prod.fst)) k a.predefined) (equations pre)) :=
    fun h => hp ⟨k, pre, text, post, form, hsplit, hr, h⟩
  obtain ⟨code', hc'⟩ := Action.code?_lenient_total hc hpremature
  exact ⟨form, code', hr, hc'⟩

end Assembled

/-- Without a circle of equates a source is assembled exactly if it is valid under some table and
no scan is premature. -/
theorem exists_assemble_iff {a : Assembler} {source : Bytes}
    (hc : Acyclic (equations (lines source))) :
    (∃ p, a.assemble source = .ok p) ↔
      (∃ t, Valid a.predefined (lines source) t) ∧ ¬Premature a.predefined (lines source) := by
  rw [← map_fst_numberedLines] at hc ⊢
  constructor
  · rintro ⟨p, h⟩
    obtain ⟨s, hok, hl, -⟩ := assemble_eq_ok_iff.1 h
    obtain ⟨n, hs⟩ := exists_scanned_of_scanned hok
    have hv := valid_of_laid hs hl
    exact ⟨⟨s.equates, hv⟩, not_premature_of_valid hs hv⟩
  · rintro ⟨⟨t, hv⟩, hp⟩
    obtain ⟨s, hok⟩ := hv.exists_scanned hp
    have hset := settled_of_acyclic hc hok
    obtain ⟨n, hs⟩ := hset.scanned
    have ht : s.equates = t := by
      apply hset.solves.unique hc hv.solves
      intro b hb
      rw [hs.equates, get?_sweeps_of_notMem hb, hv.other b hb]
    obtain ⟨ls, hl⟩ := hset.inStep.exists_laid (ht ▸ hv.encodes) hset.solves
      fun text hmem form name hr he => (hs.symbols name).2 (hv.entry text form name hmem hr he)
    exact ⟨⟨_, _, ls.flatMap (·.code), ls, s.symbols, s.equates⟩,
      assemble_eq_ok_iff.2 ⟨s, hok, hl, rfl, rfl, rfl, rfl⟩⟩

end Forge6809.Assembly
