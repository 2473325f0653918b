import Forge6809.Assembly.Assembler
import Forge6809.Proofs.Assembly.Equation

/-! # Label scans

A label scan assigns the equates in place, gives every other label the offset of its line, and
lays out code whose operands have provisional values. What a scan of the whole source does is
derived from what it does with one line. Nothing in the operands can make a scan fail that would
not make every scan fail, except an indexed operand with an automatic mode: its offset has to be
zero already in the scan. -/

namespace Forge6809.Assembly

open Text

def equations (texts : List Bytes) : List Equation :=
  texts.filterMap equation?

/-- The labels of some lines, those of equates included. -/
def labels (texts : List Bytes) : List Bytes :=
  texts.filterMap label?

@[simp] theorem equations_nil : equations [] = [] := rfl

@[simp] theorem labels_nil : labels [] = [] := rfl

theorem equations_cons (text : Bytes) (texts : List Bytes) :
    equations (text :: texts) = (equation? text).toList ++ equations texts := by
  cases h : equation? text <;> simp [equations, h]

theorem labels_cons (text : Bytes) (texts : List Bytes) :
    labels (text :: texts) = (label? text).toList ++ labels texts := by
  cases h : label? text <;> simp [labels, h]

theorem label?_of_equation? {text name e : Bytes} (h : equation? text = some (name, e)) :
    label? text = some name :=
  (Form.label_of_read? (equation?_eq_some_iff.1 h)).symm

/-- The names of the equates are among the labels, in the same order. -/
theorem definedNames_equations_sublist (texts : List Bytes) :
    (definedNames (equations texts)).Sublist (labels texts) := by
  induction texts with
  | nil => exact List.Sublist.refl _
  | cons text texts ih =>
    rw [equations_cons, labels_cons, definedNames, List.map_append]
    refine List.Sublist.append ?_ ih
    cases h : equation? text with
    | none => simp
    | some q => simp [label?_of_equation? h]

theorem solves_cons {t : Table UInt16} {text : Bytes} {texts : List Bytes} :
    Solves t (equations (text :: texts)) ↔
      Solves t (equation? text).toList ∧ Solves t (equations texts) := by
  simp only [Solves, equations_cons, List.forall_mem_append]

theorem Solves.append_left {t : Table UInt16} {pre post : List Bytes}
    (h : Solves t (equations (pre ++ post))) : Solves t (equations pre) := by
  intro q hq
  apply h q
  rw [equations, List.filterMap_append]
  exact List.mem_append_left _ hq

/-- A table under which an indexed operand with an automatic mode has an offset other than
zero. -/
def Action.Premature (equates : Table UInt16) (action : Action) : Prop :=
  ∃ opcode negate text reg auto v, action = .indexed opcode negate text reg auto ∧
    auto ≠ .none ∧ offsetValue equates false text = .ok v ∧ v ≠ 0

theorem offsetValue_lenient {t : Table UInt16} {strict : Bool} {text : Bytes} {v : UInt16}
    (h : offsetValue t strict text = .ok v) : offsetValue t false text = .ok v := by
  rw [offsetValue] at h ⊢
  split at h
  · next ht => rw [if_pos ht]; exact h
  · next ht => rw [if_neg ht]; exact Expr.evaluate_lenient h

theorem offsetValue_lenient_total {t : Table UInt16} {strict : Bool} {text : Bytes} {v : UInt16}
    (h : offsetValue t strict text = .ok v) (t' : Table UInt16) :
    ∃ w, offsetValue t' false text = .ok w := by
  simp only [offsetValue] at h ⊢
  split at h
  · next ht => exact ⟨0, by rw [if_pos ht]⟩
  · next ht =>
    obtain ⟨w, hw⟩ := Expr.evaluate_lenient_total h t'
    exact ⟨w, by rw [if_neg ht]; exact hw⟩

namespace Action

variable {t : Table UInt16} {strict : Bool} {action : Action} {code : Bytes}

theorem not_premature_of_code? (h : action.code? t false = some code) : ¬action.Premature t := by
  rintro ⟨opcode, negate, text, reg, auto, v, rfl, ha, hv, hz⟩
  simp [code?, hv, ha, hz] at h

/-- Code found with every name known is the code without that demand. -/
theorem code?_lenient (h : action.code? t strict = some code) :
    action.code? t false = some code := by
  cases action with
  | nothing | entry | inherent => exact h
  | origin text | equate text =>
    simp only [code?] at h ⊢
    split at h
    · cases h
    · next hv => rw [Expr.evaluate_lenient hv]; exact h
  | immediate8 opcode text =>
    simp only [code?] at h ⊢
    split at h
    · cases h
    · next hv =>
      split at h
      · cases h
      · rw [Expr.evaluate_lenient hv]
        simpa using h
  | immediate16 opcode text =>
    simp only [code?] at h ⊢
    split at h
    · cases h
    · next hv => rw [Expr.evaluate_lenient hv]; exact h
  | indexed opcode negate text reg auto =>
    simp only [code?] at h ⊢
    split at h
    · cases h
    · next hv => rw [offsetValue_lenient hv]; exact h

/-- What can be encoded under one table can be encoded in a scan under any other, unless an offset
is not zero where it has to be. -/
theorem code?_lenient_total (h : action.code? t strict = some code) {t' : Table UInt16}
    (hp : ¬action.Premature t') : ∃ code', action.code? t' false = some code' := by
  cases action with
  | nothing | entry | inherent => exact ⟨_, rfl⟩
  | origin text | equate text | immediate8 opcode text | immediate16 opcode text =>
    simp only [code?] at h ⊢
    split at h
    · cases h
    · next hv =>
      obtain ⟨w, hw⟩ := Expr.evaluate_lenient_total hv t'
      simp [hw]
  | indexed opcode negate text reg auto =>
    simp only [code?] at h ⊢
    split at h
    · cases h
    · next hv =>
      obtain ⟨w, hw⟩ := offsetValue_lenient_total hv t'
      by_cases ha : auto = .none
      · simp [hw, ha]
      · by_cases hz : w = 0
        · simp [hw, hz]
        · exact absurd ⟨opcode, negate, text, reg, auto, w, rfl, ha, hw, hz⟩ hp

end Action

namespace Session

theorem labelled_scan {s s' : Session} {lineNo : Nat} {label : Option Bytes}
    (hs : s.strict = false) (h : s.labelled lineNo label = .ok s') :
    s'.offset = s.offset ∧ ∀ a, s'.symbols.get? a =
      if label = some a then some s.offset else s.symbols.get? a := by
  cases label with
  | none => cases h; exact ⟨rfl, fun a => by simp⟩
  | some name =>
    simp only [labelled, define] at h
    split at h
    · split at h <;> cases h
      exact ⟨rfl, fun a => by simp [eq_comm]⟩
    · cases h
      exact ⟨rfl, fun a => by simp [eq_comm]⟩
    · next hp => simp [strict, hp] at hs

/-- What a label scan does with a line. -/
structure ScansTo (s : Session) (text : Bytes) (s' : Session) (code : Bytes) : Prop where
  pass : s'.pass = s.pass
  equates : s'.equates = sweep s.equates (equation? text).toList
  offset : s'.offset = s.offset + UInt16.ofNat code.length
  form : ∃ form, Form.read? text = some form ∧ form.action.code? s.equates false = some code
  symbols (a : Bytes) : s'.symbols.get? a =
    if label? text = some a then if (equation? text).isSome then none else some s.offset
    else s.symbols.get? a

theorem ScansTo.strict_eq {s s' : Session} {text code : Bytes} (h : s.ScansTo text s' code) :
    s'.strict = s.strict := by
  rw [strict, strict, h.pass]

theorem statement_scansTo {s s' : Session} {lineNo : Nat} {text code : Bytes}
    (hs : s.strict = false) (h : s.statement lineNo text = .ok (s', code)) :
    s.ScansTo text s' code := by
  obtain ⟨form, s₁, hr, hl, hp⟩ := statement_eq_ok_iff.1 h
  obtain ⟨he, hpass⟩ := labelled_equates hl
  obtain ⟨ho, hsym⟩ := labelled_scan hs hl
  obtain ⟨hpass', -, hoffset⟩ := hp.frame
  have hs₁ : s₁.strict = false := by rw [strict, hpass]; exact hs
  have hc := hp.code?_eq
  rw [he, hs₁] at hc
  rw [Form.label_of_read? hr] at hsym
  have hq := equation?_of_read? hr
  rcases hp.tables with ⟨hnone, he', hsym'⟩ | ⟨name, e, v, hsome, hv, -, he', hsym'⟩
  · rw [hnone] at hq
    refine ⟨hpass'.trans hpass, ?_, by rw [hoffset, ho], ⟨form, hr, hc⟩, ?_⟩
    · rw [hq, he', he]
      rfl
    · intro a
      rw [hsym', hq]
      exact hsym a
  · rw [hsome] at hq
    rw [he, hs₁] at hv
    have hlabel := label?_of_equation? hq
    refine ⟨hpass'.trans hpass, ?_, by rw [hoffset, ho], ⟨form, hr, hc⟩, ?_⟩
    · rw [hq, he', he, ← provisional_of_evaluate hv]
      rfl
    · intro a
      rw [hsym', hq, hlabel, Table.get?_erase, hsym, hlabel]
      by_cases ha : a = name
      · simp [ha]
      · simp [ha, Ne.symm ha]

/-- A scan assembles every line that can be encoded, if its label is new where that matters. -/
theorem exists_statement {s : Session} (lineNo : Nat) {text code : Bytes} {form : Form}
    (hs : s.strict = false) (hr : Form.read? text = some form)
    (hc : form.action.code? s.equates false = some code)
    (hnew : s.pass = .collect → ∀ a, label? text = some a → s.defined.get? a = none) :
    ∃ s', s.statement lineNo text = .ok (s', code) := by
  have hcode : s.pass ≠ .code := by simpa [strict] using hs
  obtain ⟨s₁, hl⟩ : ∃ s₁, s.labelled lineNo form.label = .ok s₁ := by
    rw [Form.label_of_read? hr]
    cases hlab : label? text with
    | none => exact ⟨s, rfl⟩
    | some name =>
      simp only [labelled, define]
      cases hpass : s.pass with
      | collect => simp [hnew hpass name hlab]
      | settle => simp
      | code => exact absurd hpass hcode
  obtain ⟨he, hpass⟩ := labelled_equates hl
  have hcode₁ : s₁.pass ≠ .code := by rw [hpass]; exact hcode
  have hc₁ : form.action.code? s₁.equates s₁.strict = some code := by
    rw [he, strict, decide_eq_false hcode₁]
    exact hc
  obtain ⟨s', hp⟩ := exists_performs hc₁
    (fun e hf => exists_label_of_equate (hr.trans (by rw [← hf])))
    (fun hp => absurd hp hcode₁) (fun hp => absurd hp hcode₁)
  exact ⟨s', statement_eq_ok_iff.2 ⟨form, s₁, hr, hl, hp⟩⟩

/-- The first scan takes note of a label that is new; the others leave the notes alone. -/
theorem statement_defined {s s' : Session} {lineNo : Nat} {text code : Bytes}
    (h : s.statement lineNo text = .ok (s', code)) :
    if s.pass = .collect then
      match label? text with
      | none => s'.defined = s.defined
      | some a => s.defined.get? a = none ∧ s'.defined = s.defined.insert a lineNo
    else s'.defined = s.defined := by
  obtain ⟨form, s₁, hr, hl, hp⟩ := statement_eq_ok_iff.1 h
  obtain ⟨-, hd, -⟩ := hp.frame
  rw [Form.label_of_read? hr] at hl
  rw [hd]
  cases hlab : label? text with
  | none =>
    rw [hlab] at hl
    cases hl
    simp
  | some a =>
    rw [hlab] at hl
    simp only [labelled, define] at hl
    split at hl
    · next hpass =>
      split at hl
      · cases hl
      · next hget => cases hl; simp [hpass, hget]
    · next hpass => cases hl; simp [hpass]
    · next hpass =>
      split at hl
      · split at hl <;> cases hl
        simp [hpass]
      · cases hl
        simp [hpass]

/-- Names that differ from the label of a line stay new. -/
theorem statement_fresh {s s' : Session} {lineNo : Nat} {text code b : Bytes}
    (h : s.statement lineNo text = .ok (s', code)) (hb : s.defined.get? b = none)
    (hne : label? text ≠ some b) : s'.defined.get? b = none := by
  have hdef := statement_defined h
  split at hdef
  · split at hdef
    · rw [hdef, hb]
    · next a ha =>
      have hba : b ≠ a := fun heq => hne (heq ▸ ha)
      rw [hdef.2, Table.get?_insert, if_neg hba, hb]
  · rw [hdef, hb]

theorem run_cons_eq_ok_iff {s s'' : Session} {text : Bytes} {n : Nat}
    {rest : List (Bytes × Nat)} {ls : List Line} :
    s.run ((text, n) :: rest) = .ok (s'', ls) ↔ ∃ s' code ls',
      s.statement n text = .ok (s', code) ∧ s'.run rest = .ok (s'', ls') ∧
        ls = ⟨n, s.offset, text, code⟩ :: ls' := by
  rw [run]
  cases s.statement n text with
  | error e => simp
  | ok r =>
    obtain ⟨s', code⟩ := r
    dsimp only
    cases hrun : s'.run rest with
    | error e => simp [hrun]
    | ok r =>
      obtain ⟨s₂, ls'⟩ := r
      simp [hrun, eq_comm]

theorem run_cons_eq_error_iff {s : Session} {text : Bytes} {n : Nat} {rest : List (Bytes × Nat)}
    {e : SyntaxError} :
    s.run ((text, n) :: rest) = .error e ↔
      (∃ cause, s.statement n text = .error cause ∧ e = ⟨n, text, cause⟩) ∨
        ∃ s' code, s.statement n text = .ok (s', code) ∧ s'.run rest = .error e := by
  rw [run]
  cases s.statement n text with
  | error cause => simp [eq_comm]
  | ok r =>
    obtain ⟨s', code⟩ := r
    dsimp only
    cases hrun : s'.run rest with
    | error e' => simp [hrun]
    | ok r => simp [hrun]

section Run

variable {s s' : Session} {src : List (Bytes × Nat)} {ls : List Line}

theorem run_scan (hs : s.strict = false) (h : s.run src = .ok (s', ls)) :
    s'.pass = s.pass ∧ s'.equates = sweep s.equates (equations (src.map Prod.fst)) ∧
      ∀ a, a ∉ labels (src.map Prod.fst) → s'.symbols.get? a = s.symbols.get? a := by
  induction src generalizing s ls with
  | nil => cases h; exact ⟨rfl, rfl, fun _ _ => rfl⟩
  | cons line rest ih =>
    obtain ⟨s₁, code, ls', hst, hrun, -⟩ := run_cons_eq_ok_iff.1 h
    have hline := statement_scansTo hs hst
    have hs₁ : s₁.strict = false := hline.strict_eq.trans hs
    obtain ⟨hp, he, hsym⟩ := ih hs₁ hrun
    refine ⟨hp.trans hline.pass, ?_, ?_⟩
    · rw [he, hline.equates, List.map_cons, equations_cons, sweep_append]
    · intro a ha
      rw [List.map_cons, labels_cons, List.mem_append, not_or, Option.mem_toList] at ha
      rw [hsym a ha.2, hline.symbols, if_neg ha.1]

/-- After a scan the symbols of its lines are the labels of lines that are no equates. -/
theorem run_scan_symbols (hs : s.strict = false) (h : s.run src = .ok (s', ls))
    (hn : (labels (src.map Prod.fst)).Nodup) {text a : Bytes} (ht : text ∈ src.map Prod.fst)
    (ha : label? text = some a) : (s'.symbols.get? a).isSome ↔ equation? text = none := by
  induction src generalizing s ls with
  | nil => cases ht
  | cons line rest ih =>
    obtain ⟨s₁, code, ls', hst, hrun, -⟩ := run_cons_eq_ok_iff.1 h
    have hline := statement_scansTo hs hst
    have hs₁ : s₁.strict = false := hline.strict_eq.trans hs
    rw [List.map_cons, labels_cons] at hn
    rcases List.mem_cons.1 ht with rfl | ht
    · have hrest : a ∉ labels (rest.map Prod.fst) := by
        rw [ha] at hn
        exact (List.nodup_cons.1 hn).1
      rw [(run_scan hs₁ hrun).2.2 a hrest, hline.symbols, if_pos ha]
      cases equation? line.1 <;> simp
    · exact ih hs₁ hrun hn.of_append_right ht

/-- Every line can be encoded under the values it meets in the scan. -/
theorem run_scan_code (hs : s.strict = false) (h : s.run src = .ok (s', ls))
    {pre post : List Bytes} {text : Bytes} (ht : src.map Prod.fst = pre ++ text :: post) :
    ∃ form code, Form.read? text = some form ∧
      form.action.code? (sweep s.equates (equations pre)) false = some code := by
  induction src generalizing s ls pre with
  | nil => cases pre <;> cases ht
  | cons line rest ih =>
    obtain ⟨s₁, code, ls', hst, hrun, -⟩ := run_cons_eq_ok_iff.1 h
    have hline := statement_scansTo hs hst
    have hs₁ : s₁.strict = false := hline.strict_eq.trans hs
    cases pre with
    | nil =>
      cases ht
      obtain ⟨form, hr, hc⟩ := hline.form
      exact ⟨form, code, hr, hc⟩
    | cons head pre =>
      rw [List.map_cons, List.cons_append, List.cons.injEq] at ht
      obtain ⟨rfl, ht⟩ := ht
      rw [equations_cons, sweep_append, ← hline.equates]
      exact ih hs₁ hrun ht

/-- What a scan makes of the symbols depends on the equates that it starts from and on the symbols
that are no labels of the source. -/
theorem run_scan_congr {s₁ s₂ s₁' s₂' : Session} {ls₁ ls₂ : List Line} (hs₁ : s₁.strict = false)
    (hs₂ : s₂.strict = false) (he : s₁.equates = s₂.equates) (ho : s₁.offset = s₂.offset)
    (hsym : ∀ a, a ∉ labels (src.map Prod.fst) → s₁.symbols.get? a = s₂.symbols.get? a)
    (h₁ : s₁.run src = .ok (s₁', ls₁)) (h₂ : s₂.run src = .ok (s₂', ls₂)) :
    s₁'.symbols = s₂'.symbols := by
  induction src generalizing s₁ s₂ ls₁ ls₂ with
  | nil =>
    cases h₁
    cases h₂
    exact Table.ext fun a => hsym a (by simp)
  | cons line rest ih =>
    obtain ⟨u₁, code₁, ls₁', hst₁, hrun₁, -⟩ := run_cons_eq_ok_iff.1 h₁
    obtain ⟨u₂, code₂, ls₂', hst₂, hrun₂, -⟩ := run_cons_eq_ok_iff.1 h₂
    have hl₁ := statement_scansTo hs₁ hst₁
    have hl₂ := statement_scansTo hs₂ hst₂
    have hcode : code₁ = code₂ := by
      obtain ⟨form, hr, hc⟩ := hl₁.form
      obtain ⟨form', hr', hc'⟩ := hl₂.form
      cases hr.symm.trans hr'
      rw [he] at hc
      exact Option.some.inj (hc.symm.trans hc')
    apply ih (hl₁.strict_eq.trans hs₁) (hl₂.strict_eq.trans hs₂)
      (by rw [hl₁.equates, hl₂.equates, he]) (by rw [hl₁.offset, hl₂.offset, ho, hcode]) ?_
      hrun₁ hrun₂
    intro a ha
    rw [hl₁.symbols, hl₂.symbols, ho]
    by_cases hl : label? line.1 = some a
    · rw [if_pos hl, if_pos hl]
    · rw [if_neg hl, if_neg hl]
      apply hsym a
      rw [List.map_cons, labels_cons, List.mem_append, not_or, Option.mem_toList]
      exact ⟨hl, ha⟩

/-- No phase error is reported in a scan. -/
theorem run_scan_ne_phase (hs : s.strict = false) {e : SyntaxError} (h : s.run src = .error e)
    (name : Bytes) : e.cause ≠ .phase name := by
  induction src generalizing s with
  | nil => cases h
  | cons line rest ih =>
    rcases run_cons_eq_error_iff.1 h with ⟨cause, hst, rfl⟩ | ⟨s₁, code, hst, hrun⟩
    · rintro rfl
      have hp := (statement_phase hst).1
      simp [strict, hp] at hs
    · have hs₁ : s₁.strict = false := (statement_scansTo hs hst).strict_eq.trans hs
      exact ih hs₁ hrun

theorem run_collect (hs : s.pass = .collect) (h : s.run src = .ok (s', ls)) :
    (labels (src.map Prod.fst)).Nodup ∧
      (∀ a ∈ labels (src.map Prod.fst), s.defined.get? a = none) ∧
      s'.defined.size = s.defined.size + (labels (src.map Prod.fst)).length := by
  induction src generalizing s ls with
  | nil => cases h; simp
  | cons line rest ih =>
    obtain ⟨s₁, code, ls', hst, hrun, -⟩ := run_cons_eq_ok_iff.1 h
    have hpass : s₁.pass = .collect := by
      rw [← hs]
      exact (statement_scansTo (by simp [strict, hs]) hst).pass
    obtain ⟨hn, hnew, hsize⟩ := ih hpass hrun
    have hdef := statement_defined hst
    rw [if_pos hs] at hdef
    rw [List.map_cons, labels_cons]
    cases hl : label? line.1 with
    | none =>
      rw [hl] at hdef
      dsimp only at hdef
      rw [hdef] at hnew hsize
      exact ⟨hn, hnew, hsize⟩
    | some a =>
      rw [hl] at hdef
      obtain ⟨hget, hd⟩ := hdef
      -- Later labels differ from this one, which has been taken note of.
      have hne : ∀ b ∈ labels (rest.map Prod.fst), b ≠ a ∧ s.defined.get? b = none := by
        intro b hb
        have hb' := hnew b hb
        rw [hd, Table.get?_insert] at hb'
        split at hb'
        · cases hb'
        · next hba => exact ⟨hba, hb'⟩
      refine ⟨?_, ?_, ?_⟩
      · exact List.nodup_cons.2 ⟨fun ha => (hne a ha).1 rfl, hn⟩
      · intro b hb
        rcases List.mem_cons.1 hb with rfl | hb
        · exact hget
        · exact (hne b hb).2
      · rw [hsize, hd, Table.size_insert hget]
        simp only [Option.toList_some, List.cons_append, List.nil_append, List.length_cons]
        omega

/-- A scan goes through if every line can be encoded under the values it meets, and in the first
scan the labels are new and distinct. -/
theorem exists_run (hs : s.strict = false)
    (hcode : ∀ pre text post, src.map Prod.fst = pre ++ text :: post → ∃ form code,
      Form.read? text = some form ∧
        form.action.code? (sweep s.equates (equations pre)) false = some code)
    (hnew : s.pass = .collect → (labels (src.map Prod.fst)).Nodup ∧
      ∀ a ∈ labels (src.map Prod.fst), s.defined.get? a = none) :
    ∃ s' ls, s.run src = .ok (s', ls) := by
  induction src generalizing s with
  | nil => exact ⟨s, [], rfl⟩
  | cons line rest ih =>
    obtain ⟨form, code, hr, hc⟩ := hcode [] line.1 (rest.map Prod.fst) rfl
    have hfresh : s.pass = .collect → ∀ a, label? line.1 = some a → s.defined.get? a = none := by
      intro hp a ha
      apply (hnew hp).2 a
      rw [List.map_cons, labels_cons, ha]
      exact List.mem_cons_self
    obtain ⟨s₁, hst⟩ := exists_statement line.2 hs hr hc hfresh
    have hline := statement_scansTo hs hst
    have hs₁ : s₁.strict = false := hline.strict_eq.trans hs
    have hcode₁ : ∀ pre text post, rest.map Prod.fst = pre ++ text :: post → ∃ form code,
        Form.read? text = some form ∧
          form.action.code? (sweep s₁.equates (equations pre)) false = some code := by
      intro pre text post ht
      have h := hcode (line.1 :: pre) text post (by rw [List.map_cons, ht, List.cons_append])
      rwa [equations_cons, sweep_append, ← hline.equates] at h
    have hnew₁ : s₁.pass = .collect → (labels (rest.map Prod.fst)).Nodup ∧
        ∀ a ∈ labels (rest.map Prod.fst), s₁.defined.get? a = none := by
      intro hp
      have hp₀ : s.pass = .collect := hline.pass ▸ hp
      obtain ⟨hn, hget⟩ := hnew hp₀
      rw [List.map_cons, labels_cons] at hn hget
      refine ⟨hn.of_append_right, fun b hb => ?_⟩
      apply statement_fresh hst (hget b (List.mem_append_right _ hb))
      intro hl
      rw [hl] at hn
      exact (List.nodup_cons.1 hn).1 hb
    obtain ⟨s', ls, hrun⟩ := ih hs₁ hcode₁ hnew₁
    exact ⟨s', _, run_cons_eq_ok_iff.2 ⟨s₁, code, ls, hst, hrun, rfl⟩⟩

end Run

end Session

end Forge6809.Assembly
