import Forge6809.Proofs.Expr.Evaluation
import Forge6809.Proofs.Outcome
import Mathlib.Tactic

/-! # Where an expression goes wrong

Tokens are read from the left, and the first one that offends is the error. It offends if no
expression begins with the tokens up to it, or if it is a number that does not fit, or a name that
has to be known and is not. So the stacks must not outlive the last expression that begins with
what has been read, nor give up before it. What has been read can always be completed, by an operand
and by closing what is open; and how many parentheses are open is all that decides what may come
next. -/

namespace Forge6809.Expr

open Text

/-- Tokens with which an expression begins. -/
def Viable (ts : List Token) : Prop :=
  ∃ us x, Derives .expression (ts ++ us) x

section Viable

variable {ts : List Token} {ps : List Pending} {xs : List Tree}

/-- Where an operand is awaited, whatever binds tightly enough for the pending operators can be
completed to an expression. -/
theorem Awaiting.exists_derives (h : Awaiting ts ps xs) {g : Nonterminal} {us : List Token}
    {x : Tree} (hs : Stops g.level ps) (hd : Derives g us x) :
    ∃ vs y, Derives .expression (ts ++ us ++ vs) y := by
  induction h generalizing g us x with
  | start =>
    refine ⟨[], x, ?_⟩
    rw [List.nil_append, List.append_nil]
    exact hd.weaken (by cases g <;> decide)
  | @paren t ts ps xs _ ht ih =>
    -- The parenthesis is closed behind the operand, and what it encloses is an operand in turn.
    have hgroup : Derives .factor (t :: (us ++ [⟨.rightParen, ofString ")"⟩])) x :=
      .group ht (hd.weaken (by cases g <;> decide)) rfl
    obtain ⟨vs, y, hy⟩ := ih (stops_factor ps) hgroup
    exact ⟨⟨.rightParen, ofString ")"⟩ :: vs, y, by simpa using hy⟩
  | @operator t o ts us₀ ps x₀ xs _ hps hd₀ ht ih =>
    have hright : Derives o.right us x := hd.weaken (by rw [o.level_right]; exact hs)
    obtain ⟨vs, y, hy⟩ := ih (by rwa [o.level_left]) (hd₀.operation ht hright)
    exact ⟨vs, y, by simpa using hy⟩

theorem Awaiting.viable (h : Awaiting ts ps xs) : Viable ts := by
  have hleaf : Derives .factor [⟨.integer, ofString "0"⟩] (.literal _) := .leaf rfl
  obtain ⟨vs, y, hy⟩ := h.exists_derives (stops_factor ps) hleaf
  exact ⟨⟨.integer, ofString "0"⟩ :: vs, y, by simpa using hy⟩

theorem Complete.viable {x : Tree} (h : Complete .factor ts ps x xs) : Viable ts := by
  obtain ⟨before, us, rfl, hb, hd⟩ := h
  exact hb.exists_derives (stops_factor ps) hd

/-- What has been read begins an expression. -/
theorem Reads.viable {names : Resolver} {strict : Bool} {s : State}
    (h : Reads names strict ts s) : Viable ts := by
  cases he : s.expectOperand with
  | true =>
    obtain ⟨xs, ha, -⟩ := h.awaiting he
    exact ha.viable
  | false =>
    rw [Reads, he, if_neg Bool.false_ne_true] at h
    obtain ⟨x, xs, hc, -⟩ := h
    exact hc.viable

end Viable

/-- How many parentheses are open, and whether an operand has to come next. -/
structure Outline where
  depth : ℕ
  expectOperand : Bool

/-- The outline after a token; none if the token cannot come next. -/
def Outline.next? (o : Outline) (t : Token) : Option Outline :=
  match t.kind, o.expectOperand with
  | .hex, true | .binary, true | .integer, true | .identifier, true => some ⟨o.depth, false⟩
  | .plus, false | .minus, false | .asterisk, false => some ⟨o.depth, true⟩
  | .leftParen, true => some ⟨o.depth + 1, true⟩
  | .rightParen, false => if o.depth = 0 then none else some ⟨o.depth - 1, false⟩
  | _, _ => none

def State.outline (s : State) : Outline :=
  ⟨s.pending.items.count .paren, s.expectOperand⟩

section Outline

theorem Outline.next?_leaf {t : Token} {x : Tree} (ht : leaf? t = some x) (d : ℕ) :
    next? ⟨d, true⟩ t = some ⟨d, false⟩ := by
  unfold leaf? at ht
  split at ht <;> simp_all [next?]

theorem Outline.next?_operator {t : Token} {o : Operator} (ht : Operator.ofKind? t.kind = some o)
    (d : ℕ) : next? ⟨d, false⟩ t = some ⟨d, true⟩ := by
  have hk := Operator.kind_of_ofKind? ht
  cases o <;> simp [next?, hk]

theorem Outline.next?_leftParen {t : Token} (ht : t.kind = .leftParen) (d : ℕ) :
    next? ⟨d, true⟩ t = some ⟨d + 1, true⟩ := by
  simp [next?, ht]

theorem Outline.next?_rightParen {t : Token} (ht : t.kind = .rightParen) (d : ℕ) :
    next? ⟨d + 1, false⟩ t = some ⟨d, false⟩ := by
  simp [next?, ht]

/-- The tokens that may come next. -/
theorem Outline.next?_cases {o o' : Outline} {t : Token} (h : o.next? t = some o') :
    ((leaf? t).isSome ∧ o.expectOperand = true) ∨
    ((Operator.ofKind? t.kind).isSome ∧ o.expectOperand = false) ∨
    (t.kind = .leftParen ∧ o.expectOperand = true) ∨
    (t.kind = .rightParen ∧ o.expectOperand = false ∧ o.depth ≠ 0) := by
  unfold next? at h
  split at h <;> simp_all [leaf?, Operator.ofKind?]

/-- Where an operand is expected, reading what a nonterminal derives leaves the parentheses as they
were. -/
theorem Derives.outline {g : Nonterminal} {ts : List Token} {x : Tree} (h : Derives g ts x)
    (d : ℕ) : ts.foldlM Outline.next? ⟨d, true⟩ = some ⟨d, false⟩ := by
  induction h generalizing d with
  | leaf ht => simp [Outline.next?_leaf ht]
  | group hl _ hr ih =>
    simp [List.foldlM_append, Outline.next?_leftParen hl, ih, Outline.next?_rightParen hr]
  | factor _ ih | term _ ih => exact ih d
  | product _ ht _ ihl ihr | sum _ ht _ ihl ihr | difference _ ht _ ihl ihr =>
    have hnext := Outline.next?_operator (congrArg Operator.ofKind? ht) d
    simp [List.foldlM_append, ihl, hnext, ihr]

theorem Awaiting.outline {ts : List Token} {ps : List Pending} {xs : List Tree}
    (h : Awaiting ts ps xs) :
    ts.foldlM Outline.next? ⟨0, true⟩ = some ⟨ps.count .paren, true⟩ := by
  induction h with
  | start => rfl
  | paren _ ht ih => simp [List.foldlM_append, ih, Outline.next?_leftParen ht]
  | operator _ _ hd ht ih =>
    simp [List.foldlM_append, ih, hd.outline, Outline.next?_operator ht]

theorem Complete.outline {g : Nonterminal} {ts : List Token} {ps : List Pending} {x : Tree}
    {xs : List Tree} (h : Complete g ts ps x xs) :
    ts.foldlM Outline.next? ⟨0, true⟩ = some ⟨ps.count .paren, false⟩ := by
  obtain ⟨before, us, rfl, hb, hd⟩ := h
  simp [List.foldlM_append, hb.outline, hd.outline]

theorem Reads.outline {names : Resolver} {strict : Bool} {ts : List Token} {s : State}
    (h : Reads names strict ts s) : ts.foldlM Outline.next? ⟨0, true⟩ = some s.outline := by
  rw [State.outline]
  cases he : s.expectOperand with
  | true =>
    obtain ⟨xs, ha, -⟩ := h.awaiting he
    exact ha.outline
  | false =>
    rw [Reads, he, if_neg Bool.false_ne_true] at h
    obtain ⟨x, xs, hc, -⟩ := h
    exact hc.outline

/-- A token that keeps what has been read viable can come next. -/
theorem Reads.exists_next? {names : Resolver} {strict : Bool} {ts : List Token} {s : State}
    {t : Token} (h : Reads names strict ts s) (hv : Viable (ts ++ [t])) :
    ∃ o, s.outline.next? t = some o := by
  obtain ⟨us, x, hd⟩ := hv
  have hrun := hd.outline 0
  rw [List.append_assoc, List.foldlM_append, h.outline] at hrun
  cases hnext : s.outline.next? t with
  | some o => exact ⟨o, rfl⟩
  | none => simp [hnext] at hrun

end Outline

def OperandNext (ts : List Token) : Prop :=
  ∀ t ∈ ts.getLast?, t.kind = .leftParen ∨ (Operator.ofKind? t.kind).isSome

def Oversized (t : Token) : Prop :=
  ∃ n, leaf? t = some (.literal n) ∧ 2 ^ 64 ≤ n

/-- A name that stands for an operand, has to be known and is not. -/
def Unresolved (names : Resolver) (strict : Bool) (ts : List Token) (t : Token) : Prop :=
  strict = true ∧ t.kind = .identifier ∧ OperandNext ts ∧ (names t.text).2 = false

/-- A token with which something is wrong, behind the tokens before it. -/
def Offends (names : Resolver) (strict : Bool) (ts : List Token) (t : Token) : Prop :=
  ¬Viable (ts ++ [t]) ∨ Oversized t ∨ Unresolved names strict ts t

/-- Tokens with none of which anything is wrong. -/
def Inoffensive (names : Resolver) (strict : Bool) (ts : List Token) : Prop :=
  ∀ before t after, ts = before ++ t :: after → ¬Offends names strict before t

section Offences

variable {names : Resolver} {strict : Bool} {ts : List Token} {s : State} {t : Token}

theorem Awaiting.operandNext {ps : List Pending} {xs : List Tree} (h : Awaiting ts ps xs) :
    OperandNext ts := by
  cases h with
  | start => simp [OperandNext]
  | paren _ ht => simp [OperandNext, ht]
  | operator _ _ _ ht => simp [OperandNext, ← List.append_assoc, ht]

theorem unwind_eq_error {stop : Operator → Bool} {ps : List Pending} {vs : Stack UInt16} {e : Fault}
    (h : unwind stop ps vs = .error e) : e = .malformed := by
  fun_induction unwind stop ps vs with
  | case1 => cases h
  | case2 _ _ _ _ _ _ ih => exact ih h
  | case3 => cases h; rfl
  | case4 => cases h

theorem eq_nil_or_paren_of_stops {ps : List Pending} (h : Stops Nonterminal.expression.level ps) :
    ps = [] ∨ ∃ qs, ps = .paren :: qs := by
  match ps with
  | [] => exact .inl rfl
  | .paren :: qs => exact .inr ⟨qs, rfl⟩
  | .op o :: _ => cases o <;> simp [Stops, Operator.precedence, Nonterminal.level] at h

theorem literal_eq_error {base : ℕ} {digits : Bytes} {e : Fault}
    (h : literal base digits = .error e) :
    e = .malformed ∧ literalLimit ≤ numeralValue base digits := by
  rw [literal] at h
  split at h
  · cases h
  · next hlimit =>
    cases h
    exact ⟨rfl, not_lt.1 hlimit⟩

/-- An operand without a value is a number that does not fit or a name that has to be known. -/
theorem operand?_eq_error {e : Fault} (h : operand? names strict t = some (.error e)) :
    (e = .malformed ∧ Oversized t) ∨
      (e = .undefined (upper t.text) ∧ strict = true ∧ t.kind = .identifier ∧
        (names t.text).2 = false) := by
  unfold operand? at h
  split at h
  case h_1 hk | h_2 hk | h_3 hk =>
    obtain ⟨rfl, hsize⟩ := literal_eq_error (Option.some.inj h)
    exact .inl ⟨rfl, _, by rw [leaf?, hk], hsize⟩
  case h_4 hk =>
    have h := Option.some.inj h
    simp only [nameValue] at h
    split at h
    · next hunknown =>
      rw [Bool.and_eq_true, Bool.not_eq_true'] at hunknown
      cases h
      exact .inr ⟨rfl, hunknown.2, hk, hunknown.1⟩
    · cases h
  case h_5 => cases h

/-- A token that is taken does not offend. -/
theorem not_offends_of_step {s' : State} (h : Reads names strict ts s) (ht : isSpacing t = false)
    (hstep : step names strict s t = .ok s') : ¬Offends names strict ts t := by
  have hdefined {x : Tree} (hx : leaf? t = some x) : x.Defined names strict := by
    rcases step_cases hstep ht with ⟨x', hx', hd, -⟩ | ⟨o, _, _, ho, -⟩ | ⟨hp, -⟩ | ⟨hp, -⟩
    · rw [hx, Option.some.injEq] at hx'
      rwa [hx']
    · rw [leaf?_of_ofKind? ho] at hx
      cases hx
    · simp [leaf?, hp] at hx
    · simp [leaf?, hp] at hx
  rintro (hviable | ⟨n, hn, hsize⟩ | ⟨hstrict, hkind, -, hname⟩)
  · exact hviable (reads_step h ht hstep).viable
  · exact absurd ((hdefined hn).1 n (by simp [Tree.literals])) (not_lt.2 hsize)
  · have hsome := (hdefined (x := .name t.text) (by rw [leaf?, hkind])).2 hstrict t.text
      (by simp [Tree.names])
    rw [hname] at hsome
    cases hsome

/-- Only a name is reported to be undefined, and only where an operand is expected. -/
theorem step_eq_undefined {name : Bytes}
    (hstep : step names strict s t = .error (.undefined name)) :
    s.expectOperand = true ∧ strict = true ∧ t.kind = .identifier ∧ (names t.text).2 = false ∧
      name = upper t.text := by
  unfold step at hstep
  split at hstep
  · next value hvalue =>
    split at hstep
    · next he =>
      rcases bind_eq_error_iff.1 hstep with herror | ⟨_, _, hok⟩
      · rw [herror] at hvalue
        rcases operand?_eq_error hvalue with ⟨hmalformed, -⟩ | ⟨hname, hstrict, hk, hnone⟩
        · cases hmalformed
        · exact ⟨he, hstrict, hk, hnone, Fault.undefined.inj hname⟩
      · cases hok
    · cases hstep
  · split at hstep
    · split at hstep
      · cases hstep
      · rcases bind_eq_error_iff.1 hstep with hunwind | ⟨_, _, hok⟩
        · cases unwind_eq_error hunwind
        · cases hok
    · split at hstep
      · cases hstep
      · cases hstep
      · split at hstep <;> cases hstep
      · split at hstep
        · cases hstep
        · rcases bind_eq_error_iff.1 hstep with hunwind | ⟨_, _, hok⟩
          · cases unwind_eq_error hunwind
          · dsimp only at hok
            split at hok <;> cases hok
      · cases hstep

/-- A name that is reported to be undefined is nothing worse than unresolved. -/
theorem unresolved_of_step {name : Bytes} (h : Reads names strict ts s)
    (hstep : step names strict s t = .error (.undefined name)) :
    Viable (ts ++ [t]) ∧ ¬Oversized t ∧ Unresolved names strict ts t ∧ name = upper t.text := by
  obtain ⟨he, hstrict, hk, hnone, hname⟩ := step_eq_undefined hstep
  have hleaf : leaf? t = some (.name t.text) := by rw [leaf?, hk]
  obtain ⟨xs, ha, -⟩ := h.awaiting he
  refine ⟨?_, ?_, ⟨hstrict, hk, ha.operandNext, hnone⟩, hname⟩
  · exact ha.exists_derives (stops_factor _) (.leaf hleaf)
  · rintro ⟨n, hn, -⟩
    rw [hleaf] at hn
    cases hn

/-- A token that keeps what has been read viable is refused for its size only. -/
theorem step_eq_malformed (h : Reads names strict ts s) (hv : Viable (ts ++ [t]))
    (hstep : step names strict s t = .error .malformed) : Oversized t := by
  obtain ⟨o, hnext⟩ := h.exists_next? hv
  obtain ⟨vs, ⟨ps⟩, expect⟩ := s
  rcases Outline.next?_cases hnext with ⟨hleaf, he⟩ | ⟨ho, he⟩ | ⟨hp, he⟩ | ⟨hp, he, hdepth⟩ <;>
    cases (show expect = _ from he)
  · cases hvalue : operand? names strict t with
    | none => rw [operand?_eq_none_iff.1 hvalue] at hleaf; cases hleaf
    | some value =>
      simp only [step, hvalue] at hstep
      rcases bind_eq_error_iff.1 hstep with herror | ⟨_, _, hok⟩
      · rw [herror] at hvalue
        rcases operand?_eq_error hvalue with ⟨-, hsize⟩ | ⟨hundefined, -⟩
        · exact hsize
        · cases hundefined
      · cases hok
  · obtain ⟨o, ho⟩ := Option.isSome_iff_exists.1 ho
    obtain ⟨ps', x, xs, hunwind, -⟩ := h.unwind rfl o.left
    rw [step_operator ho, ← o.level_left, hunwind] at hstep
    cases hstep
  · rw [step_leftParen hp] at hstep
    cases hstep
  · obtain ⟨ps', x, xs, hunwind, hc, hstops, -⟩ := h.unwind rfl .expression
    have houtline := h.outline
    rw [hc.outline, Option.some.injEq, State.outline, Outline.mk.injEq] at houtline
    rw [step_rightParen hp, show unwind (below 1) ps vs = _ from hunwind] at hstep
    rcases eq_nil_or_paren_of_stops hstops with rfl | ⟨qs, rfl⟩
    · exact absurd houtline.1.symm hdepth
    · cases hstep

end Offences

section Run

variable {names : Resolver} {strict : Bool} {ts : List Token}

/-- Tokens none of which offends are all read. -/
theorem Inoffensive.exists_reads (h : Inoffensive names strict ts)
    (hts : ∀ t ∈ ts, isSpacing t = false) :
    ∃ s, ts.foldlM (step names strict) {} = .ok s ∧ Reads names strict ts s := by
  induction ts using List.reverseRecOn with
  | nil => exact ⟨{}, rfl, [], .start, rfl, by simp⟩
  | append_singleton ts t ih =>
    have hbefore : Inoffensive names strict ts := fun before u after hsplit =>
      h before u (after ++ [t]) (by simp [hsplit])
    obtain ⟨s, hrun, hreads⟩ := ih hbefore fun u hu => hts u (List.mem_append_left _ hu)
    have ht := hts t (by simp)
    have hoffends : ¬Offends names strict ts t := h ts t [] rfl
    rw [List.foldlM_append, hrun]
    cases hstep : step names strict s t with
    | ok s' =>
      refine ⟨s', ?_, reads_step hreads ht hstep⟩
      change [t].foldlM (step names strict) s = _
      rw [List.foldlM_cons, hstep]
      rfl
    | error e =>
      refine absurd ?_ hoffends
      cases e with
      | malformed =>
        by_cases hv : Viable (ts ++ [t])
        · exact .inr (.inl (step_eq_malformed hreads hv hstep))
        · exact .inl hv
      | undefined name =>
        obtain ⟨-, -, hunresolved, -⟩ := unresolved_of_step hreads hstep
        exact .inr (.inr hunresolved)

/-- Tokens that are all read are inoffensive. -/
theorem inoffensive_of_foldlM {s : State} (hts : ∀ t ∈ ts, isSpacing t = false)
    (h : ts.foldlM (step names strict) {} = .ok s) : Inoffensive names strict ts := by
  rintro before t after rfl
  rw [List.foldlM_append, bind_eq_ok_iff] at h
  obtain ⟨s₁, hbefore, h⟩ := h
  rw [List.foldlM_cons, bind_eq_ok_iff] at h
  obtain ⟨s₂, hstep, -⟩ := h
  have hstart : Reads names strict [] {} := ⟨[], .start, rfl, by simp⟩
  have hreads := reads_foldlM hstart (fun u hu => hts u (List.mem_append_left _ hu)) hbefore
  exact not_offends_of_step hreads (hts t (by simp)) hstep

/-- Reading ends at the first token that offends. -/
theorem Inoffensive.exists_fault {before after : List Token} {t : Token}
    (h : Inoffensive names strict before)
    (hts : ∀ u ∈ before ++ t :: after, isSpacing u = false)
    (hoffends : Offends names strict before t) :
    ∃ s e, Reads names strict before s ∧ step names strict s t = .error e ∧
      ((before ++ t :: after).foldlM (step names strict) {} >>= Expr.finish) = .error e := by
  obtain ⟨s, hs, hreads⟩ := h.exists_reads fun u hu => hts u (List.mem_append_left _ hu)
  cases hstep : step names strict s t with
  | ok s' => exact absurd hoffends (not_offends_of_step hreads (hts t (by simp)) hstep)
  | error e =>
    refine ⟨s, e, hreads, hstep, ?_⟩
    rw [List.foldlM_append, hs]
    change ((t :: after).foldlM (step names strict) s >>= Expr.finish) = _
    rw [List.foldlM_cons, hstep]
    rfl

/-- What is left at the end is a value exactly if all tokens make up an expression. -/
theorem Reads.finish {s : State} (h : Reads names strict ts s) :
    (∃ v x, finish s = .ok v ∧ Derives .expression ts x) ∨
      finish s = .error .malformed ∧ ∀ x, ¬Derives .expression ts x := by
  have houtline {x : Tree} (hx : Derives .expression ts x) : s.outline = ⟨0, false⟩ := by
    have hrun := h.outline
    rwa [hx.outline, Option.some.injEq, eq_comm] at hrun
  cases he : s.expectOperand with
  | true =>
    refine .inr ⟨by simp only [Expr.finish, he]; rfl, fun x hx => ?_⟩
    have hfalse : s.expectOperand = false := congrArg Outline.expectOperand (houtline hx)
    rw [he] at hfalse
    cases hfalse
  | false =>
    obtain ⟨ps, x, xs, hunwind, hc, hstops, -⟩ := h.unwind he .expression
    rw [Expr.finish, he, ← below_one, show Expr.unwind (below 1) _ _ = _ from hunwind]
    rcases eq_nil_or_paren_of_stops hstops with rfl | ⟨qs, rfl⟩
    · obtain ⟨before, us, rfl, hb, hd⟩ := hc
      cases hb
      exact .inl ⟨_, x, rfl, hd⟩
    · refine .inr ⟨rfl, fun y hy => ?_⟩
      have hrun := hy.outline 0
      rw [hc.outline, List.count_cons_self] at hrun
      simp at hrun

end Run

/-- An expression is reported to be wrong at the first token that offends. If that token offends as
an unresolved name alone, the error is its name in upper case, and in all other cases the whole
text; and so it is if no token offends but the tokens are no whole expression. Otherwise there is a
value. -/
theorem evaluate_diagnosis (text : Bytes) (names : Resolver) (strict : Bool) :
    (∀ before t after, significant (lexicon.tokens text) = before ++ t :: after →
      Inoffensive names strict before →
      (Unresolved names strict before t → Viable (before ++ [t]) → ¬Oversized t →
        evaluate text names strict = .error (.undefined (upper t.text))) ∧
      (¬Viable (before ++ [t]) ∨ Oversized t →
        evaluate text names strict = .error (.malformed text))) ∧
    (Inoffensive names strict (significant (lexicon.tokens text)) →
      ((∃ x, Derives .expression (significant (lexicon.tokens text)) x) →
        ∃ v, evaluate text names strict = .ok v) ∧
      ((¬∃ x, Derives .expression (significant (lexicon.tokens text)) x) →
        evaluate text names strict = .error (.malformed text))) := by
  have htokens : ∀ t ∈ significant (lexicon.tokens text), isSpacing t = false := by
    simp [significant]
  have hrun : evaluateTokens names strict (lexicon.tokens text) =
      (significant (lexicon.tokens text)).foldlM (step names strict) {} >>= finish := by
    rw [evaluateTokens, foldlM_significant]
  rw [evaluate, hrun]
  generalize significant (lexicon.tokens text) = ts at *
  constructor
  · rintro before t after rfl hbefore
    constructor
    · intro hunresolved hv hsize
      obtain ⟨s, e, hreads, hstep, herror⟩ :=
        hbefore.exists_fault htokens (.inr (.inr hunresolved))
      cases e with
      | malformed => exact absurd (step_eq_malformed hreads hv hstep) hsize
      | undefined name =>
        obtain ⟨-, -, -, rfl⟩ := unresolved_of_step hreads hstep
        rw [herror]
    · intro hbad
      obtain ⟨s, e, hreads, hstep, herror⟩ :=
        hbefore.exists_fault htokens (hbad.imp_right .inl)
      cases e with
      | malformed => rw [herror]
      | undefined name =>
        obtain ⟨hv, hsize, -⟩ := unresolved_of_step hreads hstep
        exact absurd hbad (not_or.2 ⟨not_not.2 hv, hsize⟩)
  · intro h
    obtain ⟨s, hs, hreads⟩ := h.exists_reads htokens
    rw [hs, show (Except.ok s >>= finish) = finish s from rfl]
    rcases hreads.finish with ⟨v, x, hv, hx⟩ | ⟨hmalformed, hnone⟩
    · rw [hv]
      exact ⟨fun _ => ⟨v, rfl⟩, fun hno => absurd ⟨x, hx⟩ hno⟩
    · rw [hmalformed]
      exact ⟨fun hex => absurd hex (not_exists.2 hnone), fun _ => rfl⟩

/-- An unknown name before a parenthesis that closes nothing and a number that does not fit; a
parenthesis that closes nothing before an unknown name; a parenthesis that is not closed; and a name
that need not be known. -/
theorem diagnosis_earliest :
    evaluate (ofString "2*nope)-18446744073709551616") (fun _ => (0, false)) true =
      .error (.undefined (ofString "NOPE")) ∧
    evaluate (ofString "(2)) nope") (fun _ => (0, false)) true =
      .error (.malformed (ofString "(2)) nope")) ∧
    evaluate (ofString "(2") (fun _ => (0, false)) true = .error (.malformed (ofString "(2")) ∧
    ∃ v, evaluate (ofString "(nope)") (fun _ => (0, false)) false = .ok v := by
  refine ⟨?_, ?_, ?_, ?_⟩
  · have htokens : significant (lexicon.tokens (ofString "2*nope)-18446744073709551616")) =
        [⟨.integer, ofString "2"⟩, ⟨.asterisk, ofString "*"⟩] ++ ⟨.identifier, ofString "nope"⟩ ::
          [⟨.rightParen, ofString ")"⟩, ⟨.minus, ofString "-"⟩,
            ⟨.integer, ofString "18446744073709551616"⟩] := by decide +kernel
    have hbefore : Inoffensive (fun _ => (0, false)) true
        [⟨.integer, ofString "2"⟩, ⟨.asterisk, ofString "*"⟩] :=
      inoffensive_of_foldlM (by decide) rfl
    have hunresolved : Unresolved (fun _ => (0, false)) true
        [⟨.integer, ofString "2"⟩, ⟨.asterisk, ofString "*"⟩] ⟨.identifier, ofString "nope"⟩ :=
      ⟨rfl, rfl, by simp [OperandNext, Operator.ofKind?], rfl⟩
    have hviable : Viable ([⟨.integer, ofString "2"⟩, ⟨.asterisk, ofString "*"⟩] ++
        [⟨.identifier, ofString "nope"⟩]) :=
      ⟨[], _, .term (.product (.factor (.leaf rfl)) rfl (.leaf rfl))⟩
    have hsize : ¬Oversized ⟨.identifier, ofString "nope"⟩ := by simp [Oversized, leaf?]
    exact ((evaluate_diagnosis _ _ _).1 _ _ _ htokens hbefore).1 hunresolved hviable hsize
  · have htokens : significant (lexicon.tokens (ofString "(2)) nope")) =
        [⟨.leftParen, ofString "("⟩, ⟨.integer, ofString "2"⟩, ⟨.rightParen, ofString ")"⟩] ++
          ⟨.rightParen, ofString ")"⟩ :: [⟨.identifier, ofString "nope"⟩] := by decide +kernel
    have hbefore : Inoffensive (fun _ => (0, false)) true
        [⟨.leftParen, ofString "("⟩, ⟨.integer, ofString "2"⟩, ⟨.rightParen, ofString ")"⟩] :=
      inoffensive_of_foldlM (by decide) rfl
    have hviable : ¬Viable ([⟨.leftParen, ofString "("⟩, ⟨.integer, ofString "2"⟩,
        ⟨.rightParen, ofString ")"⟩] ++ [⟨.rightParen, ofString ")"⟩]) := by
      rintro ⟨us, x, hx⟩
      have hrun := hx.outline 0
      rw [List.foldlM_append] at hrun
      cases hrun
    exact ((evaluate_diagnosis _ _ _).1 _ _ _ htokens hbefore).2 (.inl hviable)
  · have htokens : significant (lexicon.tokens (ofString "(2")) =
        [⟨.leftParen, ofString "("⟩, ⟨.integer, ofString "2"⟩] := by decide +kernel
    have hall := (evaluate_diagnosis (ofString "(2") (fun _ => (0, false)) true).2
    rw [htokens] at hall
    refine (hall (inoffensive_of_foldlM (by decide) rfl)).2 ?_
    rintro ⟨x, hx⟩
    cases hx.outline 0
  · have htokens : significant (lexicon.tokens (ofString "(nope)")) =
        [⟨.leftParen, ofString "("⟩, ⟨.identifier, ofString "nope"⟩,
          ⟨.rightParen, ofString ")"⟩] := by decide +kernel
    have hall := (evaluate_diagnosis (ofString "(nope)") (fun _ => (0, false)) false).2
    rw [htokens] at hall
    refine (hall (inoffensive_of_foldlM (by decide) rfl)).1 ?_
    exact ⟨_, .term (.factor (.group rfl (.term (.factor (.leaf rfl))) rfl))⟩

end Forge6809.Expr
