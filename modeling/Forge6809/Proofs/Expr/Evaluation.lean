import Forge6809.Proofs.Expr.Grammar

/-! # Evaluation follows the grammar

The loop over the tokens and its two stacks compute exactly the values of the grammar. In one
direction a derivation drives the loop: reading what a nonterminal derives leaves the stacks as
they were, up to operators of at least the nonterminal's precedence that are still to be applied.
In the other direction the stacks between two tokens always describe a partial derivation of what
has been read. -/

namespace Forge6809.Expr

open Text

def Nonterminal.level : Nonterminal → Nat
  | expression => 1
  | term => 2
  | factor => 3

def Operator.left : Operator → Nonterminal
  | add => .expression
  | sub => .expression
  | mul => .term

def Operator.right : Operator → Nonterminal
  | add => .term
  | sub => .term
  | mul => .factor

@[simp] theorem Operator.level_left (o : Operator) : o.left.level = o.precedence := by
  cases o <;> rfl

@[simp] theorem Operator.level_right (o : Operator) : o.right.level = o.precedence + 1 := by
  cases o <;> rfl

theorem Operator.kind_of_ofKind? {k : Kind} {o : Operator} (h : Operator.ofKind? k = some o) :
    k = match o with
      | .add => .plus
      | .sub => .minus
      | .mul => .asterisk := by
  unfold Operator.ofKind? at h
  split at h <;> cases h <;> rfl

/-- The three binary rules of the grammar as one. -/
theorem Derives.operation {o : Operator} {t : Token} {ts us : List Token} {x y : Tree}
    (hl : Derives o.left ts x) (ht : Operator.ofKind? t.kind = some o)
    (hr : Derives o.right us y) : Derives o.left (ts ++ t :: us) (.binary o x y) := by
  have hk := Operator.kind_of_ofKind? ht
  cases o with
  | add => exact .sum hl hk hr
  | sub => exact .difference hl hk hr
  | mul => exact .product hl hk hr

/-- What a nonterminal derives is derived by every nonterminal of a lower level. -/
theorem Derives.weaken {g g' : Nonterminal} {ts : List Token} {x : Tree} (h : Derives g ts x)
    (hl : g'.level ≤ g.level) : Derives g' ts x := by
  cases g with
  | expression =>
    cases g' with
    | expression => exact h
    | term => simp [Nonterminal.level] at hl
    | factor => simp [Nonterminal.level] at hl
  | term =>
    cases g' with
    | expression => exact .term h
    | term => exact h
    | factor => simp [Nonterminal.level] at hl
  | factor =>
    cases g' with
    | expression => exact .term (.factor h)
    | term => exact .factor h
    | factor => exact h

def below (n : Nat) (o : Operator) : Bool :=
  o.precedence < n

theorem below_one : below 1 = fun _ => false := by
  funext o
  cases o <;> rfl

/-- Unwinding at a level leaves these pending operators alone. -/
def Stops (n : Nat) : List Pending → Prop
  | .op o :: _ => o.precedence < n
  | _ => True

theorem Stops.mono {m n : Nat} {ps : List Pending} (h : Stops m ps) (hmn : m ≤ n) :
    Stops n ps := by
  match ps with
  | [] => trivial
  | .paren :: _ => trivial
  | .op o :: _ => exact lt_of_lt_of_le h hmn

theorem stops_factor (ps : List Pending) : Stops Nonterminal.factor.level ps := by
  match ps with
  | [] => trivial
  | .paren :: _ => trivial
  | .op o :: _ => cases o <;> simp [Stops, Operator.precedence, Nonterminal.level]

theorem unwind_of_stops {n : Nat} {ps : List Pending} (h : Stops n ps) (vs : Stack UInt16) :
    unwind (below n) ps vs = .ok (ps, vs) := by
  match ps with
  | [] => rfl
  | .paren :: _ => rfl
  | .op o :: _ =>
    have hb : below n o = true := decide_eq_true h
    simp [unwind, hb]

theorem unwind_op {n : Nat} {o : Operator} (h : n ≤ o.precedence) (ps : List Pending)
    (r l : UInt16) (vs : List UInt16) :
    unwind (below n) (.op o :: ps) ⟨r :: l :: vs⟩ = unwind (below n) ps ⟨o.apply l r :: vs⟩ := by
  have hb : below n o = false := decide_eq_false (not_lt.2 h)
  simp [unwind, hb, reduce?]

/-- Unwinding to a level may be cut short at a higher one. -/
theorem unwind_unwind {m n : Nat} (hmn : m ≤ n) {ps ps' : List Pending} {vs vs' : Stack UInt16}
    (h : unwind (below n) ps vs = .ok (ps', vs')) :
    unwind (below m) ps vs = unwind (below m) ps' vs' := by
  induction ps generalizing vs with
  | nil => cases h; rfl
  | cons p ps ih =>
    cases p with
    | paren => cases h; rfl
    | op o =>
      by_cases hb : below n o = true
      · simp only [unwind, hb, if_true, Except.ok.injEq, Prod.mk.injEq] at h
        rw [← h.1, ← h.2]
      · have hb' : below m o = false := by
          simp only [below, decide_eq_true_eq, not_lt, decide_eq_false_iff_not] at hb ⊢
          omega
        simp only [unwind, hb, hb', Bool.false_eq_true, if_false] at h ⊢
        cases hr : reduce? o vs with
        | none => simp [hr] at h
        | some ws =>
          simp only [hr] at h ⊢
          exact ih h

theorem unwind_lower {m n : Nat} (hmn : m ≤ n) {ps ps' : List Pending} {vs vs' : Stack UInt16}
    (h : unwind (below n) ps vs = .ok (ps', vs')) (hs : Stops m ps') :
    unwind (below m) ps vs = .ok (ps', vs') := by
  rw [unwind_unwind hmn h, unwind_of_stops hs]

section Step

variable {names : Resolver} {strict : Bool}

theorem literal_eq_ok_iff {base : Nat} {digits : Bytes} {v : UInt16} :
    literal base digits = .ok v ↔ (Tree.literal (numeralValue base digits)).Defined names strict ∧
      v = (Tree.literal (numeralValue base digits)).word names.answer := by
  have hd : (Tree.literal (numeralValue base digits)).Defined names strict ↔
      numeralValue base digits < literalLimit := by
    simp only [Tree.Defined, Tree.literals, Tree.names, List.forall_mem_singleton,
      List.not_mem_nil, false_implies, implies_true, and_true]
  rw [hd, Tree.word_literal, literal]
  split
  · next h => simp only [h, true_and, Except.ok.injEq, eq_comm]
  · next h => simp only [h, false_and, reduceCtorEq]

theorem nameValue_eq_ok_iff {text : Bytes} {v : UInt16} :
    nameValue names strict text = .ok v ↔ (Tree.name text).Defined names strict ∧
      v = (Tree.name text).word names.answer := by
  have hd : (Tree.name text).Defined names strict ↔ (strict = true → (names text).2 = true) := by
    simp [Tree.Defined, Tree.literals, Tree.names]
  rw [hd, Tree.word_name, Resolver.answer, nameValue]
  obtain ⟨w, known⟩ := names text
  cases known <;> cases strict <;> simp [eq_comm]

/-- An operand has a value exactly if it is a leaf that is defined. -/
theorem operand?_eq_ok_iff {t : Token} {v : UInt16} :
    operand? names strict t = some (.ok v) ↔
      ∃ x, leaf? t = some x ∧ x.Defined names strict ∧ v = x.word names.answer := by
  cases hk : t.kind <;>
    simp [operand?, leaf?, hk, @literal_eq_ok_iff names strict,
      nameValue_eq_ok_iff]

theorem operand?_eq_none_iff {t : Token} : operand? names strict t = none ↔ leaf? t = none := by
  cases hk : t.kind <;> simp [operand?, leaf?, hk]

theorem step_leaf {t : Token} {x : Tree} (ht : leaf? t = some x) (hx : x.Defined names strict)
    (vs : List UInt16) (ps : List Pending) :
    step names strict ⟨⟨vs⟩, ⟨ps⟩, true⟩ t = .ok ⟨⟨x.word names.answer :: vs⟩, ⟨ps⟩, false⟩ := by
  have ho := operand?_eq_ok_iff.2 ⟨x, ht, hx, rfl⟩
  simp only [step, ho]
  rfl

theorem leaf?_of_ofKind? {t : Token} {o : Operator} (ht : Operator.ofKind? t.kind = some o) :
    leaf? t = none := by
  have hk := Operator.kind_of_ofKind? ht
  cases o <;> simp [leaf?, hk]

theorem step_operator {t : Token} {o : Operator} (ht : Operator.ofKind? t.kind = some o)
    (vs : Stack UInt16) (ps : List Pending) :
    step names strict ⟨vs, ⟨ps⟩, false⟩ t =
      (unwind (below o.precedence) ps vs).map fun r => ⟨r.2, ⟨.op o :: r.1⟩, true⟩ := by
  have ho : operand? names strict t = none := operand?_eq_none_iff.2 (leaf?_of_ofKind? ht)
  simp only [step, ho, ht]
  change (unwind (below o.precedence) ps vs >>= _) = _
  cases unwind (below o.precedence) ps vs <;> rfl

theorem step_leftParen {t : Token} (ht : t.kind = .leftParen) (vs : Stack UInt16)
    (ps : List Pending) :
    step names strict ⟨vs, ⟨ps⟩, true⟩ t = .ok ⟨vs, ⟨.paren :: ps⟩, true⟩ := by
  have ho : operand? names strict t = none := by simp [operand?, ht]
  simp only [step, ho, ht, Operator.ofKind?]
  rfl

theorem step_rightParen {t : Token} (ht : t.kind = .rightParen) (vs : Stack UInt16)
    (ps : List Pending) :
    step names strict ⟨vs, ⟨ps⟩, false⟩ t =
      (unwind (below 1) ps vs) >>= fun r =>
        match r.1 with
        | .paren :: qs => .ok ⟨r.2, ⟨qs⟩, false⟩
        | _ => .error .malformed := by
  have ho : operand? names strict t = none := by simp [operand?, ht]
  simp only [step, ho, ht, Operator.ofKind?, below_one]
  rfl

theorem step_spacing {t : Token} (ht : isSpacing t = true) (s : State) :
    step names strict s t = .ok s := by
  have hk : t.kind = .whitespace ∨ t.kind = .newline := by simpa [isSpacing] using ht
  rcases hk with hk | hk <;>
  · have ho : operand? names strict t = none := by simp [operand?, hk]
    simp only [step, ho, hk, Operator.ofKind?]
    rfl

/-- What a token other than a blank or a line break can do. -/
theorem step_cases {s s' : State} {t : Token} (h : step names strict s t = .ok s')
    (ht : isSpacing t = false) :
    (∃ x, leaf? t = some x ∧ x.Defined names strict ∧ s.expectOperand = true ∧
      s' = ⟨⟨x.word names.answer :: s.values.items⟩, s.pending, false⟩) ∨
    (∃ o ps vs, Operator.ofKind? t.kind = some o ∧ s.expectOperand = false ∧
      unwind (below o.precedence) s.pending.items s.values = .ok (ps, vs) ∧
      s' = ⟨vs, ⟨.op o :: ps⟩, true⟩) ∨
    (t.kind = .leftParen ∧ s.expectOperand = true ∧
      s' = ⟨s.values, ⟨.paren :: s.pending.items⟩, true⟩) ∨
    (t.kind = .rightParen ∧ s.expectOperand = false ∧
      ∃ ps vs, unwind (below 1) s.pending.items s.values = .ok (.paren :: ps, vs) ∧
        s' = ⟨vs, ⟨ps⟩, false⟩) := by
  obtain ⟨vs, ⟨ps⟩, expect⟩ := s
  cases ho : operand? names strict t with
  | some value =>
    cases expect with
    | false => simp only [step, ho] at h; cases h
    | true =>
      cases value with
      | error e => simp only [step, ho] at h; cases h
      | ok v =>
        obtain ⟨x, hx, hd, rfl⟩ := operand?_eq_ok_iff.1 ho
        simp only [step, ho] at h
        cases h
        exact Or.inl ⟨x, hx, hd, rfl, rfl⟩
  | none =>
    cases hk : Operator.ofKind? t.kind with
    | some o =>
      cases expect with
      | true => simp only [step, ho, hk] at h; cases h
      | false =>
        rw [step_operator hk] at h
        cases hu : unwind (below o.precedence) ps vs with
        | error e => rw [hu] at h; cases h
        | ok r =>
          rw [hu] at h
          cases h
          exact Or.inr (Or.inl ⟨o, r.1, r.2, rfl, rfl, hu, rfl⟩)
    | none =>
      have hstep : t.kind = .leftParen ∨ t.kind = .rightParen := by
        simp only [step, ho, hk] at h
        split at h
        · simp_all [isSpacing]
        · simp_all [isSpacing]
        · exact Or.inl ‹_›
        · exact Or.inr ‹_›
        · cases h
      rcases hstep with hp | hp
      · cases expect with
        | false => simp only [step, ho, hp, Operator.ofKind?] at h; cases h
        | true =>
          rw [step_leftParen hp] at h
          cases h
          exact Or.inr (Or.inr (Or.inl ⟨hp, rfl, rfl⟩))
      · cases expect with
        | true => simp only [step, ho, hp, Operator.ofKind?] at h; cases h
        | false =>
          rw [step_rightParen hp] at h
          cases hu : unwind (below 1) ps vs with
          | error e => rw [hu] at h; cases h
          | ok r =>
            rw [hu] at h
            obtain ⟨qs, ws⟩ := r
            match qs with
            | .paren :: qs =>
              cases h
              exact Or.inr (Or.inr (Or.inr ⟨hp, rfl, qs, ws, rfl, rfl⟩))
            | .op _ :: _ => cases h
            | [] => cases h

/-- Blanks and line breaks change nothing. -/
theorem foldlM_significant (ts : List Token) (s : State) :
    ts.foldlM (step names strict) s = (significant ts).foldlM (step names strict) s := by
  induction ts generalizing s with
  | nil => rfl
  | cons t ts ih =>
    by_cases ht : isSpacing t = true
    · have hc : significant (t :: ts) = significant ts := by simp [significant, ht]
      rw [hc, List.foldlM_cons, step_spacing ht, ← ih]
      rfl
    · have hc : significant (t :: ts) = t :: significant ts := by simp [significant, ht]
      rw [hc, List.foldlM_cons, List.foldlM_cons]
      exact congrArg _ (funext ih)

end Step

section Completeness

variable {names : Resolver} {strict : Bool}

/-- Reading the tokens where an operand is expected puts the value `v` on top of the stacks. The
pending operators may still have to be unwound to the level of the nonterminal for that. -/
def Drives (names : Resolver) (strict : Bool) (g : Nonterminal) (ts : List Token)
    (v : UInt16) : Prop :=
  ∀ (vs : List UInt16) (ps : List Pending), Stops g.level ps → ∃ vs' ps',
    ts.foldlM (step names strict) ⟨⟨vs⟩, ⟨ps⟩, true⟩ = .ok ⟨vs', ⟨ps'⟩, false⟩ ∧
      unwind (below g.level) ps' vs' = .ok (ps, ⟨v :: vs⟩)

theorem Drives.lower {g g' : Nonterminal} {ts : List Token} {v : UInt16}
    (h : Drives names strict g ts v) (hl : g'.level ≤ g.level) : Drives names strict g' ts v := by
  intro vs ps hs
  obtain ⟨vs', ps', hrun, hunwind⟩ := h vs ps (hs.mono hl)
  exact ⟨vs', ps', hrun, unwind_lower hl hunwind hs⟩

theorem drives_leaf {t : Token} {x : Tree} (ht : leaf? t = some x)
    (hx : x.Defined names strict) : Drives names strict .factor [t] (x.word names.answer) := by
  intro vs ps hs
  refine ⟨⟨x.word names.answer :: vs⟩, ps, ?_, unwind_of_stops hs _⟩
  rw [List.foldlM_cons, step_leaf ht hx]
  rfl

theorem drives_group {l r : Token} {ts : List Token} {v : UInt16} (hl : l.kind = .leftParen)
    (h : Drives names strict .expression ts v) (hr : r.kind = .rightParen) :
    Drives names strict .factor (l :: (ts ++ [r])) v := by
  intro vs ps hs
  obtain ⟨vs', ps', hrun, hunwind⟩ := h vs (.paren :: ps) trivial
  refine ⟨⟨v :: vs⟩, ps, ?_, unwind_of_stops hs _⟩
  rw [List.foldlM_cons, step_leftParen hl]
  change (ts ++ [r]).foldlM (step names strict) ⟨⟨vs⟩, ⟨.paren :: ps⟩, true⟩ = _
  rw [List.foldlM_append, hrun]
  change [r].foldlM (step names strict) ⟨vs', ⟨ps'⟩, false⟩ = _
  rw [List.foldlM_cons, step_rightParen hr, show unwind (below 1) ps' vs' = _ from hunwind]
  rfl

/-- The operator applies what is pending from its left operand and waits for its right one. -/
theorem drives_operation {o : Operator} {t : Token} {ts us : List Token} {x y : UInt16}
    (hl : Drives names strict o.left ts x) (ht : Operator.ofKind? t.kind = some o)
    (hr : Drives names strict o.right us y) :
    Drives names strict o.left (ts ++ t :: us) (o.apply x y) := by
  intro vs ps hs
  obtain ⟨vs₁, ps₁, hrun₁, hunwind₁⟩ := hl vs ps hs
  have hwait : Stops o.right.level (.op o :: ps) := by simp [Stops]
  obtain ⟨vs₂, ps₂, hrun₂, hunwind₂⟩ := hr (x :: vs) (.op o :: ps) hwait
  refine ⟨vs₂, ps₂, ?_, ?_⟩
  · rw [List.foldlM_append, hrun₁]
    change (t :: us).foldlM (step names strict) ⟨vs₁, ⟨ps₁⟩, false⟩ = _
    rw [Operator.level_left] at hunwind₁
    rw [List.foldlM_cons, step_operator ht, hunwind₁]
    exact hrun₂
  · have hle : o.left.level ≤ o.right.level := by simp
    rw [unwind_unwind hle hunwind₂, unwind_op (le_of_eq o.level_left), unwind_of_stops hs]

theorem Derives.drives {g : Nonterminal} {ts : List Token} {x : Tree} (h : Derives g ts x)
    (hx : x.Defined names strict) : Drives names strict g ts (x.word names.answer) := by
  induction h with
  | leaf ht => exact drives_leaf ht hx
  | group hl _ hr ih => exact drives_group hl (ih hx) hr
  | factor _ ih => exact (ih hx).lower (by decide)
  | term _ ih => exact (ih hx).lower (by decide)
  | product _ ht _ ihl ihr | sum _ ht _ ihl ihr | difference _ ht _ ihl ihr =>
    rw [Tree.defined_binary] at hx
    rw [Tree.word_binary]
    exact drives_operation (ihl hx.1) (by rw [ht]; rfl) (ihr hx.2)

/-- What the grammar derives is evaluated, to the value of the tree. -/
theorem evaluateTokens_of_derives {ts : List Token} {x : Tree}
    (h : Derives .expression (significant ts) x) (hx : x.Defined names strict) :
    evaluateTokens names strict ts = .ok (x.word names.answer) := by
  obtain ⟨vs, ps, hrun, hunwind⟩ := h.drives hx [] [] trivial
  have hrun' : ts.foldlM (step names strict) {} = .ok ⟨vs, ⟨ps⟩, false⟩ := by
    rw [foldlM_significant]
    exact hrun
  rw [evaluateTokens, hrun']
  change finish ⟨vs, ⟨ps⟩, false⟩ = _
  rw [finish, ← below_one, show unwind (below 1) ps vs = _ from hunwind]
  rfl

end Completeness

section Soundness

variable {names : Resolver} {strict : Bool}

/-- Tokens that end where an operand is expected: the pending operators and parentheses, the
innermost first, and the trees of the left operands. -/
inductive Awaiting : List Token → List Pending → List Tree → Prop
  | start : Awaiting [] [] []
  | paren {t : Token} {ts : List Token} {ps : List Pending} {xs : List Tree} :
      Awaiting ts ps xs → t.kind = .leftParen → Awaiting (ts ++ [t]) (.paren :: ps) xs
  | operator {t : Token} {o : Operator} {ts us : List Token} {ps : List Pending} {x : Tree}
      {xs : List Tree} :
      Awaiting ts ps xs → Stops o.precedence ps → Derives o.left us x →
        Operator.ofKind? t.kind = some o → Awaiting (ts ++ (us ++ [t])) (.op o :: ps) (x :: xs)

/-- Tokens that end after something that a nonterminal derives. -/
def Complete (g : Nonterminal) (ts : List Token) (ps : List Pending) (x : Tree)
    (xs : List Tree) : Prop :=
  ∃ before us, ts = before ++ us ∧ Awaiting before ps xs ∧ Derives g us x

/-- Unwinding never fails, and what it leaves on top is derived at the level it stops at. -/
theorem unwind_complete {g g' : Nonterminal} {ts : List Token} {ps : List Pending} {x : Tree}
    {xs : List Tree} (h : Complete g ts ps x xs) (hs : Stops g.level ps)
    (hl : g'.level ≤ g.level) (hx : ∀ y ∈ x :: xs, y.Defined names strict) :
    ∃ ps' x' xs', unwind (below g'.level) ps ⟨(x :: xs).map (·.word names.answer)⟩ =
        .ok (ps', ⟨(x' :: xs').map (·.word names.answer)⟩) ∧
      Complete g' ts ps' x' xs' ∧ Stops g'.level ps' ∧
      ∀ y ∈ x' :: xs', y.Defined names strict := by
  induction ps generalizing g x xs with
  | nil =>
    obtain ⟨before, us, rfl, hb, hd⟩ := h
    exact ⟨[], x, xs, rfl, ⟨before, us, rfl, hb, hd.weaken hl⟩, trivial, hx⟩
  | cons p ps ih =>
    obtain ⟨before, us, rfl, hb, hd⟩ := h
    by_cases hstop : Stops g'.level (p :: ps)
    · exact ⟨p :: ps, x, xs, unwind_of_stops hstop _, ⟨before, us, rfl, hb, hd.weaken hl⟩, hstop,
        hx⟩
    · cases hb with
      | paren => exact absurd trivial hstop
      | operator hb hps hd₀ ht =>
        -- The operator on top is applied: its two operands become one left operand.
        rename_i t o ts₀ us₀ x₀ xs₀
        have hlo : g'.level ≤ o.left.level := by
          rw [o.level_left]
          exact not_lt.1 hstop
        have hright : Derives o.right us x := hd.weaken (by rw [o.level_right]; exact hs)
        have hcomplete : Complete o.left (ts₀ ++ (us₀ ++ [t]) ++ us) ps (.binary o x₀ x) xs₀ :=
          ⟨ts₀, us₀ ++ t :: us, by simp, hb, hd₀.operation ht hright⟩
        have hx' : ∀ y ∈ Tree.binary o x₀ x :: xs₀, y.Defined names strict := by
          simp only [List.mem_cons, forall_eq_or_imp] at hx ⊢
          exact ⟨Tree.defined_binary.2 ⟨hx.2.1, hx.1⟩, hx.2.2⟩
        obtain ⟨ps', x', xs', hunwind, hrest⟩ :=
          ih hcomplete (by rw [o.level_left]; exact hps) hlo hx'
        refine ⟨ps', x', xs', ?_, hrest⟩
        rw [← hunwind, List.map_cons, List.map_cons, unwind_op (not_lt.1 hstop), List.map_cons,
          Tree.word_binary]

/-- The stacks describe the tokens read so far. -/
def Reads (names : Resolver) (strict : Bool) (ts : List Token) (s : State) : Prop :=
  if s.expectOperand then
    ∃ xs, Awaiting ts s.pending.items xs ∧ s.values.items = xs.map (·.word names.answer) ∧
      ∀ y ∈ xs, y.Defined names strict
  else
    ∃ x xs, Complete .factor ts s.pending.items x xs ∧
      s.values.items = (x :: xs).map (·.word names.answer) ∧ ∀ y ∈ x :: xs, y.Defined names strict

theorem Reads.awaiting {ts : List Token} {s : State} (h : Reads names strict ts s)
    (he : s.expectOperand = true) :
    ∃ xs, Awaiting ts s.pending.items xs ∧ s.values.items = xs.map (·.word names.answer) ∧
      ∀ y ∈ xs, y.Defined names strict := by
  simpa [Reads, he] using h

/-- Where no operand is expected, unwinding to any level succeeds. -/
theorem Reads.unwind {ts : List Token} {s : State} (h : Reads names strict ts s)
    (he : s.expectOperand = false) (g : Nonterminal) :
    ∃ ps x xs, unwind (below g.level) s.pending.items s.values =
        .ok (ps, ⟨(x :: xs).map (·.word names.answer)⟩) ∧
      Complete g ts ps x xs ∧ Stops g.level ps ∧ ∀ y ∈ x :: xs, y.Defined names strict := by
  obtain ⟨⟨vs⟩, ⟨ps⟩, expect⟩ := s
  subst he
  obtain ⟨x, xs, hc, hv, hd⟩ := h
  change vs = _ at hv
  have hl : g.level ≤ Nonterminal.factor.level := by cases g <;> decide
  rw [hv]
  exact unwind_complete hc (stops_factor ps) hl hd

theorem reads_step {ts : List Token} {s s' : State} {t : Token} (h : Reads names strict ts s)
    (ht : isSpacing t = false) (hstep : step names strict s t = .ok s') :
    Reads names strict (ts ++ [t]) s' := by
  rcases step_cases hstep ht with ⟨x, hx, hd, he, rfl⟩ | ⟨o, ps, vs, ho, he, hu, rfl⟩ |
    ⟨hp, he, rfl⟩ | ⟨hp, he, ps, vs, hu, rfl⟩
  · obtain ⟨xs, ha, hv, hds⟩ := h.awaiting he
    refine ⟨x, xs, ⟨ts, [t], rfl, ha, .leaf hx⟩, ?_, ?_⟩
    · simp [hv]
    · exact List.forall_mem_cons.2 ⟨hd, hds⟩
  · obtain ⟨ps', x, xs, hu', ⟨before, us, rfl, ha, hder⟩, hs, hds⟩ := h.unwind he o.left
    rw [o.level_left, hu, Except.ok.injEq, Prod.mk.injEq] at hu'
    obtain ⟨rfl, rfl⟩ := hu'
    refine ⟨x :: xs, ?_, rfl, hds⟩
    rw [List.append_assoc]
    exact ha.operator (by rwa [o.level_left] at hs) hder ho
  · obtain ⟨xs, ha, hv, hds⟩ := h.awaiting he
    exact ⟨xs, ha.paren hp, hv, hds⟩
  · obtain ⟨ps', x, xs, hu', ⟨before, us, rfl, ha, hder⟩, -, hds⟩ := h.unwind he .expression
    rw [show unwind (below Nonterminal.expression.level) _ _ = _ from hu, Except.ok.injEq,
      Prod.mk.injEq] at hu'
    obtain ⟨rfl, rfl⟩ := hu'
    cases ha with
    | paren ha hl =>
      rename_i l before
      exact ⟨x, xs, ⟨before, l :: (us ++ [t]), by simp, ha, .group hl hder hp⟩, rfl, hds⟩

theorem reads_foldlM {ts us : List Token} {s s' : State} (h : Reads names strict ts s)
    (hus : ∀ t ∈ us, isSpacing t = false) (hrun : us.foldlM (step names strict) s = .ok s') :
    Reads names strict (ts ++ us) s' := by
  induction us generalizing ts s with
  | nil => cases hrun; simpa using h
  | cons t us ih =>
    rw [List.foldlM_cons] at hrun
    cases hstep : step names strict s t with
    | error e => rw [hstep] at hrun; cases hrun
    | ok s₁ =>
      rw [hstep] at hrun
      have hread := reads_step h (hus t List.mem_cons_self) hstep
      simpa using ih hread (fun u hu => hus u (List.mem_cons_of_mem _ hu)) hrun

/-- What has been read from the start describes the stacks. -/
theorem reads_of_foldlM {ts : List Token} {s : State}
    (h : ts.foldlM (step names strict) {} = .ok s) : Reads names strict (significant ts) s := by
  rw [foldlM_significant] at h
  have hstart : Reads names strict [] {} := ⟨[], .start, rfl, by simp⟩
  have hus : ∀ t ∈ significant ts, isSpacing t = false := by simp [significant]
  simpa using reads_foldlM hstart hus h

/-- What is evaluated is derived by the grammar, and its value is that of the tree. -/
theorem derives_of_evaluateTokens {ts : List Token} {v : UInt16}
    (h : evaluateTokens names strict ts = .ok v) :
    ∃ x, Derives .expression (significant ts) x ∧ x.Defined names strict ∧
      v = x.word names.answer := by
  rw [evaluateTokens] at h
  cases hrun : ts.foldlM (step names strict) {} with
  | error e => rw [hrun] at h; cases h
  | ok s =>
    rw [hrun] at h
    change finish s = .ok v at h
    have hread := reads_of_foldlM hrun
    cases he : s.expectOperand with
    | true => simp only [finish, he] at h; cases h
    | false =>
      obtain ⟨ps, x, xs, hu, ⟨before, us, hts, ha, hder⟩, -, hds⟩ := hread.unwind he .expression
      rw [show Nonterminal.expression.level = 1 from rfl, below_one] at hu
      simp only [finish, he, hu] at h
      -- Only the empty stack of pending operators is accepted, so all tokens are in the tree.
      cases ha with
      | start =>
        cases h
        exact ⟨x, by simpa [hts] using hder, hds x List.mem_cons_self, rfl⟩
      | paren => cases h
      | operator => cases h

end Soundness

theorem evaluate_eq_ok_iff_tokens {text : Bytes} {names : Resolver} {strict : Bool}
    {v : UInt16} :
    evaluate text names strict = .ok v ↔
      evaluateTokens names strict (lexicon.tokens text) = .ok v := by
  rw [evaluate]
  cases h : evaluateTokens names strict (lexicon.tokens text) with
  | ok w => simp
  | error e => cases e <;> simp

/-- A text is an expression with the value `v`, if its names have the values `words`: its tokens,
blanks and line breaks left out, are derived by the grammar, every literal is below two to the 64th,
when names must be known every name is, and `v` is the value of the parse tree modulo 65536. -/
def Denotes (names : Resolver) (strict : Bool) (words : Bytes → UInt16) (text : Bytes)
    (v : UInt16) : Prop :=
  ∃ x : Tree, Derives .expression (significant (lexicon.tokens text)) x ∧
    (∀ n ∈ x.literals, n < 2 ^ 64) ∧ (strict = true → ∀ a ∈ x.names, (names a).2 = true) ∧
    v = UInt16.ofInt (x.value words)

theorem evaluate_eq_ok_iff_denotes {text : Bytes} {names : Resolver} {strict : Bool} {v : UInt16} :
    evaluate text names strict = .ok v ↔ Denotes names strict names.answer text v := by
  rw [evaluate_eq_ok_iff_tokens]
  constructor
  · intro h
    obtain ⟨x, hd, hx, hv⟩ := derives_of_evaluateTokens h
    exact ⟨x, hd, hx.1, hx.2, hv⟩
  · rintro ⟨x, hd, hl, hn, rfl⟩
    exact evaluateTokens_of_derives hd ⟨hl, hn⟩

/-- The names of an expression are among those that are known, where they have to be. -/
theorem Denotes.congr {text : Bytes} {names : Resolver} {strict : Bool}
    {words words' : Bytes → UInt16} {v : UInt16}
    (hwords : ∀ a, (strict = true → (names a).2 = true) → words a = words' a)
    (h : Denotes names strict words text v) : Denotes names strict words' text v := by
  obtain ⟨x, hd, hl, hknown, rfl⟩ := h
  have hvalue : x.value words = x.value words' :=
    Tree.value_congr fun a ha => hwords a fun hs => hknown hs a ha
  exact ⟨x, hd, hl, hknown, by rw [hvalue]⟩

/-- What a resolver gives for a name that it does not know is not looked at again. -/
example : evaluate (ofString "A") (fun _ => (7, false)) false = .ok 7 := by decide +kernel

/-- A value that is found with every name resolved is the value without that demand. -/
theorem evaluate_lenient {text : Bytes} {names : Resolver} {strict : Bool} {v : UInt16}
    (h : evaluate text names strict = .ok v) : evaluate text names false = .ok v := by
  rw [evaluate_eq_ok_iff_tokens] at h ⊢
  obtain ⟨x, hd, hx, rfl⟩ := derives_of_evaluateTokens h
  exact evaluateTokens_of_derives hd hx.lenient

/-- Whether an expression is well formed does not depend on the values of names. -/
theorem evaluate_lenient_total {text : Bytes} {names : Resolver} {strict : Bool} {v : UInt16}
    (h : evaluate text names strict = .ok v) (names' : Resolver) :
    ∃ w, evaluate text names' false = .ok w := by
  rw [evaluate_eq_ok_iff_tokens] at h
  obtain ⟨x, hd, hx, rfl⟩ := derives_of_evaluateTokens h
  exact ⟨_, evaluate_eq_ok_iff_tokens.2 (evaluateTokens_of_derives hd hx.lenient)⟩

/-- Tables that agree on the names of an expression give it the same value. -/
theorem evaluate_congr {text : Bytes} {equates equates' : Table UInt16} {strict : Bool}
    {v : UInt16} (h : evaluate text equates strict = .ok v)
    (hn : ∀ a ∈ mentions text, equates.get? a = equates'.get? a) :
    evaluate text equates' strict = .ok v := by
  rw [evaluate_eq_ok_iff_tokens] at h ⊢
  obtain ⟨x, hd, hx, rfl⟩ := derives_of_evaluateTokens h
  have hnames : ∀ a ∈ x.names, resolver equates a = resolver equates' a := by
    intro a ha
    rw [resolver, resolver, hn _ (hd.upper_mem_mentions ha)]
  have hvalue : x.value (resolver equates).answer = x.value (resolver equates').answer :=
    Tree.value_congr fun a ha => congrArg Prod.fst (hnames a ha)
  rw [Tree.word, hvalue]
  exact evaluateTokens_of_derives hd (hx.congr hnames)

end Forge6809.Expr
