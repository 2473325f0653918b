import Forge6809.Proofs.Assembly.Form

/-! # What a session does with a line

Assembling a line is taken apart into its form and what is done with it: the label is defined, and
then the form is carried out. What carrying out a form does to the session is one relation, from
which the passes over a whole source are derived. The last part says when a line is refused with a
phase error. -/

namespace Forge6809.Assembly

open Text

namespace Session

/-- What carrying out a form does to the session in which its label is defined, and the code. -/
inductive Performs (s : Session) : Form → Session → Bytes → Prop
  | nothing {l : Option Bytes} : Performs s ⟨l, .nothing⟩ s []
  | origin {l : Option Bytes} {e : Bytes} {v : UInt16} :
      Expr.evaluate e s.equates s.strict = .ok v →
        Performs s ⟨l, .origin e⟩ { s with origin := v } []
  | equate {name e : Bytes} {v : UInt16} : Expr.evaluate e s.equates s.strict = .ok v →
      (s.pass = .code → (s.equates.get? name).getD 0 = v) →
        Performs s ⟨some name, .equate e⟩
          { s with symbols := s.symbols.erase name, equates := s.equates.insert name v } []
  | entryUnused {l : Option Bytes} {name : Bytes} : s.pass ≠ .code →
      Performs s ⟨l, .entry name⟩ s []
  | entry {l : Option Bytes} {name : Bytes} {offset : UInt16} : s.pass = .code →
      s.symbols.get? name = some offset →
        Performs s ⟨l, .entry name⟩ { s with exec := offset + s.origin } []
  | instruction {l : Option Bytes} {action : Action} {code : Bytes} :
      action.isInstruction = true → action.code? s.equates s.strict = some code →
        Performs s ⟨l, action⟩ { s with offset := s.offset + UInt16.ofNat code.length } code

theorem isInstruction_of_instructionAction? {mnemonic : Bytes} {ts : List Token}
    {action : Action} (h : instructionAction? mnemonic ts = some action) :
    action.isInstruction = true := by
  have himmediate {ins : Instruction} {r : List Token}
      (h : immediateAction? ins r = some action) : action.isInstruction = true := by
    unfold immediateAction? at h
    split at h <;> cases h <;> rfl
  have hindexed {opcode : Bytes} {r : List Token}
      (h : indexedAction? opcode r = some action) : action.isInstruction = true := by
    simp only [indexedAction?] at h
    split at h
    · cases h
    · split at h <;> cases h
      rfl
  unfold instructionAction? at h
  split at h
  · cases h
  · split at h
    · cases h
      rfl
    · split at h
      · cases h
      · split at h
        · exact himmediate h
        · split at h
          · cases h
          · exact hindexed h

theorem originDirective_eq_ok_iff {s s' : Session} {ts : List Token} :
    s.originDirective ts = .ok s' ↔ ∃ v,
      Expr.evaluate (operandText [] false ts).1 s.equates s.strict = .ok v ∧
        s' = { s with origin := v } := by
  rw [originDirective, bind_eq_ok_iff]
  simp only [evaluate_eq_ok_iff, pure, Except.pure, Except.ok.injEq, eq_comm (b := s')]

theorem equateDirective_eq_ok_iff {s s' : Session} {label : Option Bytes} {ts : List Token} :
    s.equateDirective label ts = .ok s' ↔ ∃ name v, label = some name ∧
      Expr.evaluate (operandText [] false ts).1 s.equates s.strict = .ok v ∧
      (s.pass = .code → (s.equates.get? name).getD 0 = v) ∧
      s' = { s with symbols := s.symbols.erase name, equates := s.equates.insert name v } := by
  cases label with
  | none => simp [equateDirective]
  | some name =>
    rw [equateDirective, bind_eq_ok_iff]
    simp only [evaluate_eq_ok_iff, Option.some.injEq, exists_and_left, exists_eq_left']
    apply exists_congr
    intro v
    apply and_congr_right
    intro _
    by_cases hp : s.pass = .code
    · by_cases hv : (s.equates.get? name).getD 0 = v
      · simp [hp, hv, pure, Except.pure, eq_comm]
      · simp [hp, hv, throw, throwThe, MonadExceptOf.throw, bind, Except.bind]
    · simp [hp, pure, Except.pure, eq_comm]

theorem endDirective_eq_ok_iff {s s' : Session} {ts : List Token} :
    s.endDirective ts = .ok s' ↔ ∃ name, entryAction? ts = some (.entry name) ∧
      if s.pass = .code then
        ∃ offset, s.symbols.get? name = some offset ∧ s' = { s with exec := offset + s.origin }
      else s' = s := by
  rw [endDirective, entryAction?]
  cases skipBlanks ts with
  | nil => simp
  | cons t r =>
    by_cases ht : t.kind = .identifier
    · by_cases hp : s.pass = .code
      · cases hs : s.symbols.get? t.word <;> simp [ht, hp, hs, eq_comm (a := s')]
      · simp [ht, hp, eq_comm (a := s')]
    · simp [ht]

theorem entryAction?_eq_some {ts : List Token} {action : Action}
    (h : entryAction? ts = some action) : ∃ name, action = .entry name := by
  unfold entryAction? at h
  split at h
  · cases h
  · split at h <;> cases h
    exact ⟨_, rfl⟩

theorem directive_eq_ok_iff {s s' : Session} {label : Option Bytes} {word : Bytes}
    {ts : List Token} :
    s.directive label word ts = .ok s' ↔ ∃ action, directiveAction? label word ts = some action ∧
      Performs s ⟨label, action⟩ s' [] := by
  rw [directive, directiveAction?]
  split
  · rw [originDirective_eq_ok_iff]
    constructor
    · rintro ⟨v, hv, rfl⟩
      exact ⟨_, rfl, .origin hv⟩
    · rintro ⟨_, ⟨⟩, hp⟩
      cases hp with
      | origin hv => exact ⟨_, hv, rfl⟩
      | instruction hi => cases hi
  · split
    · rw [equateDirective_eq_ok_iff]
      constructor
      · rintro ⟨name, v, rfl, hv, hphase, rfl⟩
        exact ⟨_, rfl, .equate hv hphase⟩
      · rintro ⟨action, ha, hp⟩
        cases label with
        | none => cases ha
        | some name =>
          cases ha
          cases hp with
          | equate hv hphase => exact ⟨name, _, rfl, hv, hphase, rfl⟩
          | instruction hi => cases hi
    · split
      · rw [endDirective_eq_ok_iff]
        constructor
        · rintro ⟨name, hname, hs⟩
          split at hs
          · next hpass =>
            obtain ⟨offset, hget, rfl⟩ := hs
            exact ⟨_, hname, .entry hpass hget⟩
          · next hpass =>
            subst hs
            exact ⟨_, hname, .entryUnused hpass⟩
        · rintro ⟨action, ha, hp⟩
          obtain ⟨name, rfl⟩ := entryAction?_eq_some ha
          refine ⟨name, ha, ?_⟩
          cases hp with
          | entryUnused hpass => rw [if_neg hpass]
          | entry hpass hget => rw [if_pos hpass]; exact ⟨_, hget, rfl⟩
          | instruction hi => cases hi
      · constructor
        · rintro ⟨⟩
          exact ⟨_, rfl, .nothing⟩
        · rintro ⟨_, ⟨⟩, hp⟩
          cases hp with
          | nothing => rfl
          | instruction hi => cases hi

theorem isInstruction_of_directiveAction? {label : Option Bytes} {word : Bytes}
    {ts : List Token} {action : Action} (h : directiveAction? label word ts = some action) :
    action.isInstruction = false := by
  unfold directiveAction? at h
  split at h
  · cases h
    rfl
  · split at h
    · obtain ⟨_, _, rfl⟩ := Option.map_eq_some_iff.1 h
      rfl
    · split at h
      · obtain ⟨_, rfl⟩ := entryAction?_eq_some h
        rfl
      · cases h
        rfl

/-- An equate has a label. -/
theorem exists_label_of_equate {text e : Bytes} {l : Option Bytes}
    (h : Form.read? text = some ⟨l, .equate e⟩) : ∃ name, l = some name := by
  obtain ⟨action, ha, heq⟩ := Option.map_eq_some_iff.1 h
  cases heq
  unfold action? at ha
  split at ha
  · cases ha
  · split at ha
    · cases ha
    · cases ha
    · unfold directiveAction? at ha
      split at ha
      · cases ha
      · split at ha
        · obtain ⟨name, hl, -⟩ := Option.map_eq_some_iff.1 ha
          exact ⟨name, hl⟩
        · split at ha
          · obtain ⟨_, hentry⟩ := entryAction?_eq_some ha
            cases hentry
          · cases ha
    · have hi := isInstruction_of_instructionAction? ha
      cases hi
    · cases ha

/-- The code is what the form encodes to. -/
theorem Performs.code?_eq {s s' : Session} {form : Form} {code : Bytes}
    (h : Performs s form s' code) : form.action.code? s.equates s.strict = some code := by
  cases h with
  | instruction _ hc => exact hc
  | origin hv | equate hv _ => simp [Action.code?, hv]
  | nothing | entryUnused | entry => rfl

theorem Performs.code_eq_nil {s s' : Session} {form : Form} {code : Bytes}
    (h : Performs s form s' code) (hi : form.action.isInstruction = false) : code = [] := by
  cases h with
  | instruction hi' _ => rw [hi'] at hi; cases hi
  | nothing | origin | equate | entryUnused | entry => rfl

/-- Only an equate changes the tables. -/
theorem Performs.tables {s s' : Session} {form : Form} {code : Bytes}
    (h : Performs s form s' code) :
    (form.equation? = none ∧ s'.equates = s.equates ∧ s'.symbols = s.symbols) ∨
      ∃ name e v, form.equation? = some (name, e) ∧
        Expr.evaluate e s.equates s.strict = .ok v ∧
        (s.pass = .code → (s.equates.get? name).getD 0 = v) ∧
        s'.equates = s.equates.insert name v ∧ s'.symbols = s.symbols.erase name := by
  cases h with
  | equate hv hphase => exact Or.inr ⟨_, _, _, rfl, hv, hphase, rfl, rfl⟩
  | nothing | origin | entryUnused | entry => exact Or.inl ⟨rfl, rfl, rfl⟩
  | instruction hi hc =>
    refine Or.inl ⟨?_, rfl, rfl⟩
    rename_i l action
    clear hc
    cases action <;> first | rfl | cases hi

theorem Performs.frame {s s' : Session} {form : Form} {code : Bytes}
    (h : Performs s form s' code) : s'.pass = s.pass ∧ s'.defined = s.defined ∧
      s'.offset = s.offset + UInt16.ofNat code.length := by
  cases h <;> simp

/-- A form that can be encoded can be carried out. In the code pass the value of an equate has to
be the known one, and the label at which execution starts has to be known. -/
theorem exists_performs {s : Session} {form : Form} {code : Bytes}
    (hc : form.action.code? s.equates s.strict = some code)
    (hlabel : ∀ e, form.action = .equate e → ∃ name, form.label = some name)
    (hvalue : s.pass = .code → ∀ name e v, form = ⟨some name, .equate e⟩ →
      Expr.evaluate e s.equates s.strict = .ok v → (s.equates.get? name).getD 0 = v)
    (hentry : s.pass = .code → ∀ name, form.action = .entry name →
      ∃ offset, s.symbols.get? name = some offset) : ∃ s', Performs s form s' code := by
  obtain ⟨l, action⟩ := form
  cases action with
  | nothing => cases hc; exact ⟨_, .nothing⟩
  | origin e =>
    simp only [Action.code?] at hc
    split at hc
    · cases hc
    · next hv => cases hc; exact ⟨_, .origin hv⟩
  | equate e =>
    obtain ⟨name, rfl⟩ := hlabel e rfl
    simp only [Action.code?] at hc
    split at hc
    · cases hc
    · next v hv => cases hc; exact ⟨_, .equate hv fun hp => hvalue hp name e v rfl hv⟩
  | entry name =>
    cases hc
    by_cases hp : s.pass = .code
    · obtain ⟨offset, hget⟩ := hentry hp name rfl
      exact ⟨_, .entry hp hget⟩
    · exact ⟨_, .entryUnused hp⟩
  | inherent | immediate8 | immediate16 | indexed => exact ⟨_, .instruction rfl hc⟩

theorem body_eq_ok_iff {s s' : Session} {label : Option Bytes} {ts : List Token}
    {code : Bytes} :
    s.body label ts = .ok (s', code) ↔
      ∃ action, action? label ts = some action ∧ Performs s ⟨label, action⟩ s' code := by
  have hnothing : (pure (s, []) : Except Cause (Session × Bytes)) = .ok (s', code) ↔
      ∃ action, some Action.nothing = some action ∧ Performs s ⟨label, action⟩ s' code := by
    constructor
    · rintro ⟨⟩
      exact ⟨_, rfl, .nothing⟩
    · rintro ⟨_, ⟨⟩, hp⟩
      cases hp with
      | nothing => rfl
      | instruction hi => cases hi
  rw [body, action?]
  cases skipBlanks ts with
  | nil => exact hnothing
  | cons t r =>
    dsimp only
    split
    · exact hnothing
    · exact hnothing
    · rw [bind_eq_ok_iff]
      constructor
      · rintro ⟨_, hd, ⟨⟩⟩
        exact directive_eq_ok_iff.1 hd
      · rintro ⟨action, ha, hp⟩
        obtain rfl := hp.code_eq_nil (isInstruction_of_directiveAction? ha)
        exact ⟨s', directive_eq_ok_iff.2 ⟨action, ha, hp⟩, rfl⟩
    · rw [bind_eq_ok_iff]
      constructor
      · rintro ⟨_, hi, ⟨⟩⟩
        obtain ⟨action, ha, hc⟩ := instruction_eq_ok_iff.1 hi
        exact ⟨action, ha, .instruction (isInstruction_of_instructionAction? ha) hc⟩
      · rintro ⟨action, ha, hp⟩
        have hi := isInstruction_of_instructionAction? ha
        cases hp with
        | instruction _ hc => exact ⟨_, instruction_eq_ok_iff.2 ⟨action, ha, hc⟩, rfl⟩
        | nothing | origin | equate | entryUnused | entry => cases hi
    · simp [throw, throwThe, MonadExceptOf.throw]

/-- A line is assembled exactly if it has a form, its label can be defined, and the form can be
carried out after that. -/
theorem statement_eq_ok_iff {s s' : Session} {lineNo : Nat} {text code : Bytes} :
    s.statement lineNo text = .ok (s', code) ↔ ∃ form s₁, Form.read? text = some form ∧
      s.labelled lineNo form.label = .ok s₁ ∧ Performs s₁ form s' code := by
  rw [statement_eq, bind_eq_ok_iff]
  simp only [body_eq_ok_iff, Form.read?, Option.map_eq_some_iff]
  constructor
  · rintro ⟨s₁, hs, action, ha, hp⟩
    exact ⟨_, s₁, ⟨action, ha, rfl⟩, hs, hp⟩
  · rintro ⟨_, s₁, ⟨action, ha, rfl⟩, hs, hp⟩
    exact ⟨s₁, hs, action, ha, hp⟩

/-- A directive reports a phase error only for an equate that has another value than before. -/
theorem directive_phase {s : Session} {label : Option Bytes} {word name : Bytes}
    {ts : List Token} (h : s.directive label word ts = .error (.phase name)) :
    s.pass = .code ∧ ∃ e v, label = some name ∧ directiveAction? label word ts = some (.equate e) ∧
      Expr.evaluate e s.equates true = .ok v ∧ (s.equates.get? name).getD 0 ≠ v := by
  simp only [directive, directiveAction?] at h ⊢
  split at h
  · rcases bind_eq_error_iff.1 h with h | ⟨v, -, h⟩
    · exact absurd h evaluate_ne_phase
    · cases h
  · next horg =>
    split at h
    · next hequ =>
      simp only [equateDirective] at h
      split at h
      · cases h
      · next n =>
        rcases bind_eq_error_iff.1 h with h | ⟨v, hv, h⟩
        · exact absurd h evaluate_ne_phase
        · split at h
          · next hcheck =>
            cases h
            simp only [Bool.and_eq_true, decide_eq_true_eq, bne_iff_ne] at hcheck
            have hv' := evaluate_eq_ok_iff.1 hv
            rw [strict, decide_eq_true hcheck.1] at hv'
            exact ⟨hcheck.1, _, v, rfl, by rw [if_neg horg, if_pos hequ]; rfl, hv', hcheck.2⟩
          · cases h
    · split at h
      · simp only [endDirective] at h
        split at h
        · cases h
        · split at h
          · cases h
          · split at h
            · cases h
            · split at h <;> cases h
      · cases h

theorem labelled_equates {s s' : Session} {lineNo : Nat} {label : Option Bytes}
    (h : s.labelled lineNo label = .ok s') : s'.equates = s.equates ∧ s'.pass = s.pass := by
  cases label with
  | none => cases h; exact ⟨rfl, rfl⟩
  | some name =>
    simp only [labelled, define] at h
    split at h
    · split at h <;> cases h
      exact ⟨rfl, rfl⟩
    · cases h
      exact ⟨rfl, rfl⟩
    · split at h
      · split at h <;> cases h
        exact ⟨rfl, rfl⟩
      · cases h
        exact ⟨rfl, rfl⟩

/-- A label is refused with a phase error only if it has moved. -/
theorem labelled_phase {s : Session} {lineNo : Nat} {label : Option Bytes} {name : Bytes}
    (h : s.labelled lineNo label = .error (.phase name)) : s.pass = .code ∧ label = some name ∧
      ∃ offset, s.symbols.get? name = some offset ∧ offset ≠ s.offset := by
  cases label with
  | none => cases h
  | some l =>
    simp only [labelled, define] at h
    split at h
    · split at h <;> cases h
    · cases h
    · next hp =>
      split at h
      · next offset hget =>
        split at h
        · cases h
        · next hne =>
          cases h
          exact ⟨hp, rfl, offset, hget, hne⟩
      · cases h

theorem body_phase {s : Session} {label : Option Bytes} {ts : List Token} {name : Bytes}
    (h : s.body label ts = .error (.phase name)) : s.pass = .code ∧
      ∃ e v, label = some name ∧ action? label ts = some (.equate e) ∧
        Expr.evaluate e s.equates true = .ok v ∧ (s.equates.get? name).getD 0 ≠ v := by
  simp only [body] at h
  split at h
  · cases h
  · next t r hts =>
    split at h
    · cases h
    · cases h
    · next hk =>
      rcases bind_eq_error_iff.1 h with h | ⟨_, -, h⟩
      · obtain ⟨hcode, e, v, hl, ha, hv, hne⟩ := directive_phase h
        refine ⟨hcode, e, v, hl, ?_, hv, hne⟩
        rw [action?, hts]
        simp only [hk, ha]
      · cases h
    · rcases bind_eq_error_iff.1 h with h | ⟨_, -, h⟩
      · exact absurd h instruction_ne_phase
      · cases h
    · cases h

/-- A line reports a phase error only in the code pass, either because its label has moved or
because its equate has another value than before. -/
theorem statement_phase {s : Session} {lineNo : Nat} {text name : Bytes}
    (h : s.statement lineNo text = .error (.phase name)) : s.pass = .code ∧
      ((label? text = some name ∧ ∃ offset, s.symbols.get? name = some offset ∧
          offset ≠ s.offset) ∨
        ∃ e v, Form.read? text = some ⟨some name, .equate e⟩ ∧
          Expr.evaluate e s.equates true = .ok v ∧ (s.equates.get? name).getD 0 ≠ v) := by
  rw [statement_eq, bind_eq_error_iff] at h
  rcases h with h | ⟨s₁, hs, h⟩
  · obtain ⟨hcode, hmoved⟩ := labelled_phase h
    exact ⟨hcode, Or.inl hmoved⟩
  · obtain ⟨he, hp⟩ := labelled_equates hs
    obtain ⟨hcode, e, v, hl, ha, hv, hne⟩ := body_phase h
    rw [he] at hv hne
    refine ⟨hp ▸ hcode, Or.inr ⟨e, v, ?_, hv, hne⟩⟩
    rw [Form.read?, ha, hl]
    rfl

end Session

end Forge6809.Assembly
