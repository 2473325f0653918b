import Forge6809.Proofs.Expr.Evaluation
import Mathlib.Tactic

/-! # The stacks keep in balance

There is a value for every pending operator, and one more where no operand is expected, because the
values are those of the left operands and of what was read last. From one open parenthesis to the
next the pending operators bind more and more tightly. So an operator that is applied finds both of
its operands, and a whole expression leaves one value: the evaluation is refused for its tokens
only, never for what is on the stacks. -/

namespace Forge6809.Expr

open Text

def operators (ps : List Pending) : List Operator :=
  ps.filterMap fun
    | .paren => none
    | .op o => some o

/-- What holds of the stacks between two tokens. -/
structure State.Balanced (s : State) : Prop where
  size : s.values.size = (operators s.pending.items).length + if s.expectOperand then 0 else 1
  /-- Operators without a parenthesis between them, from the bottom to the top. -/
  pairwise (below above : List Pending) (os : List Operator) :
    s.pending.toList = below ++ os.map .op ++ above →
      os.Pairwise fun o o' => o.precedence < o'.precedence

/-- An operator binds more tightly than one right below it. -/
def Tighter : Pending → Pending → Prop
  | .op o, .op o' => o'.precedence < o.precedence
  | _, _ => True

section Awaiting

variable {ts : List Token} {ps : List Pending} {xs : List Tree}

/-- Every pending operator has a left operand. -/
theorem Awaiting.length_eq (h : Awaiting ts ps xs) : xs.length = (operators ps).length := by
  induction h with
  | start => rfl
  | paren _ _ ih => exact ih
  | operator _ _ _ _ ih => exact congrArg (· + 1) ih

theorem Awaiting.isChain (h : Awaiting ts ps xs) : ps.IsChain Tighter := by
  induction h with
  | start => exact .nil
  | @paren _ _ ps _ _ _ ih =>
    cases ps with
    | nil => exact .singleton _
    | cons p ps => exact .cons_cons trivial ih
  | @operator _ _ _ _ ps _ _ _ hstops _ _ ih =>
    match ps with
    | [] => exact .singleton _
    | .paren :: _ => exact .cons_cons trivial ih
    | .op _ :: _ => exact .cons_cons hstops ih

end Awaiting

theorem pairwise_of_isChain {ps below above : List Pending} {os : List Operator}
    (h : ps.IsChain Tighter) (hps : ps.reverse = below ++ os.map .op ++ above) :
    os.Pairwise fun o o' => o.precedence < o'.precedence := by
  rw [← List.isChain_reverse, hps] at h
  have hrun := h.left_of_append.right_of_append
  rw [List.isChain_map] at hrun
  have : IsTrans Operator fun o o' => o.precedence < o'.precedence := ⟨fun _ _ _ => lt_trans⟩
  exact List.isChain_iff_pairwise.1 hrun

section Reads

variable {names : Resolver} {strict : Bool} {ts : List Token} {s : State}

/-- The values are those of the left operands, and of what was read last. -/
theorem Reads.exists_awaiting (h : Reads names strict ts s) :
    ∃ before xs, Awaiting before s.pending.items xs ∧
      s.values.size = xs.length + if s.expectOperand then 0 else 1 := by
  cases he : s.expectOperand with
  | true =>
    obtain ⟨xs, ha, hvalues, -⟩ := h.awaiting he
    exact ⟨ts, xs, ha, by simp [Stack.size, hvalues]⟩
  | false =>
    rw [Reads, he, if_neg Bool.false_ne_true] at h
    obtain ⟨x, xs, ⟨before, us, -, ha, -⟩, hvalues, -⟩ := h
    exact ⟨before, xs, ha, by simp [Stack.size, hvalues]⟩

theorem Reads.balanced (h : Reads names strict ts s) : s.Balanced := by
  obtain ⟨before, xs, ha, hsize⟩ := h.exists_awaiting
  exact {
    size := by rw [hsize, ha.length_eq]
    pairwise := fun _ _ _ => pairwise_of_isChain ha.isChain }

end Reads

/-- The operators that unwinding applies, each with the values it is applied to. -/
inductive Applies (stop : Operator → Bool) :
    List Pending → Stack UInt16 → Operator → Stack UInt16 → Prop
  | first {o : Operator} {ps : List Pending} {vs : Stack UInt16} :
      stop o = false → Applies stop (.op o :: ps) vs o vs
  | later {o o' : Operator} {ps : List Pending} {vs ws us : Stack UInt16} :
      stop o = false → reduce? o vs = some ws → Applies stop ps ws o' us →
        Applies stop (.op o :: ps) vs o' us

/-- Unwinding succeeds exactly if every operator that it applies finds its operands. -/
theorem exists_unwind_eq_ok_iff {stop : Operator → Bool} {ps : List Pending} {vs : Stack UInt16} :
    (∃ r, unwind stop ps vs = .ok r) ↔
      ∀ o us, Applies stop ps vs o us → ∃ ws, reduce? o us = some ws := by
  induction ps generalizing vs with
  | nil => exact iff_of_true ⟨_, rfl⟩ fun o us h => by cases h
  | cons p ps ih =>
    cases p with
    | paren => exact iff_of_true ⟨_, rfl⟩ fun o us h => by cases h
    | op o =>
      cases hstop : stop o with
      | true =>
        refine iff_of_true ⟨(.op o :: ps, vs), by simp [unwind, hstop]⟩ fun o' us h => ?_
        cases h <;> simp_all
      | false =>
        cases hreduce : reduce? o vs with
        | none =>
          refine iff_of_false (by simp [unwind, hstop, hreduce]) fun h => ?_
          obtain ⟨ws, hws⟩ := h o vs (.first hstop)
          rw [hreduce] at hws
          cases hws
        | some ws =>
          have hunwind : unwind stop (.op o :: ps) vs = unwind stop ps ws := by
            simp [unwind, hstop, hreduce]
          rw [hunwind, ih]
          constructor
          · intro h o' us happlies
            cases happlies with
            | first => exact ⟨ws, hreduce⟩
            | later _ hws happlies =>
              rw [hreduce, Option.some.injEq] at hws
              exact h o' us (hws ▸ happlies)
          · exact fun h o' us happlies => h o' us (.later hstop hreduce happlies)

/-- The operators that are applied when tokens are evaluated: before an operator or a closing
parenthesis is taken, and at the end. -/
inductive Reduces (names : Resolver) (strict : Bool) (ts : List Token) (o : Operator)
    (vs : Stack UInt16) : Prop
  | operator {before after : List Token} {t : Token} {s : State} {o' : Operator} :
      ts = before ++ t :: after → before.foldlM (step names strict) {} = .ok s →
        s.expectOperand = false → Operator.ofKind? t.kind = some o' →
        Applies (fun top => top.precedence < o'.precedence) s.pending.items s.values o vs →
        Reduces names strict ts o vs
  | close {before after : List Token} {t : Token} {s : State} :
      ts = before ++ t :: after → before.foldlM (step names strict) {} = .ok s →
        s.expectOperand = false → t.kind = .rightParen →
        Applies (fun _ => false) s.pending.items s.values o vs → Reduces names strict ts o vs
  | finish {s : State} :
      ts.foldlM (step names strict) {} = .ok s → s.expectOperand = false →
        Applies (fun _ => false) s.pending.items s.values o vs → Reduces names strict ts o vs

section Reduces

variable {names : Resolver} {strict : Bool} {ts : List Token} {s : State} {o : Operator}
  {vs : Stack UInt16}

/-- Down to any level, the operators that are applied find their operands. -/
theorem exists_reduce?_of_applies (hrun : ts.foldlM (step names strict) {} = .ok s)
    (he : s.expectOperand = false) (g : Nonterminal)
    (h : Applies (below g.level) s.pending.items s.values o vs) : ∃ ws, reduce? o vs = some ws := by
  obtain ⟨ps, x, xs, hunwind, -⟩ := (reads_of_foldlM hrun).unwind he g
  exact exists_unwind_eq_ok_iff.1 ⟨_, hunwind⟩ o vs h

theorem Reduces.exists_reduce? (h : Reduces names strict ts o vs) :
    ∃ ws, reduce? o vs = some ws := by
  cases h with
  | @operator _ _ _ _ o' _ hrun he _ h =>
    refine exists_reduce?_of_applies hrun he o'.left ?_
    rw [Operator.level_left]
    exact h
  | close _ hrun he _ h =>
    rw [← below_one] at h
    exact exists_reduce?_of_applies hrun he .expression h
  | finish hrun he h =>
    rw [← below_one] at h
    exact exists_reduce?_of_applies hrun he .expression h

/-- Nothing pending leaves one value. -/
theorem exists_items_eq_singleton (hrun : ts.foldlM (step names strict) {} = .ok s)
    (he : s.expectOperand = false)
    (h : unwind (fun _ => false) s.pending.items s.values = .ok ([], vs)) :
    ∃ v, vs.items = [v] := by
  obtain ⟨ps, x, xs, hunwind, ⟨before, us, -, ha, -⟩, -⟩ :=
    (reads_of_foldlM hrun).unwind he .expression
  rw [show Nonterminal.expression.level = 1 from rfl, below_one, h] at hunwind
  cases hunwind
  cases ha
  exact ⟨_, rfl⟩

end Reduces

/-- Between any two tokens the stacks are in balance. So every operator that is applied finds its
operands, and if nothing is pending at the end, there is one value. -/
theorem evaluation_balanced (text : Bytes) (names : Resolver) (strict : Bool) :
    (∀ before after s, lexicon.tokens text = before ++ after →
      before.foldlM (step names strict) {} = .ok s → s.Balanced) ∧
    (∀ o vs, Reduces names strict (lexicon.tokens text) o vs → ∃ ws, reduce? o vs = some ws) ∧
    ∀ s vs, (lexicon.tokens text).foldlM (step names strict) {} = .ok s →
      s.expectOperand = false → unwind (fun _ => false) s.pending.items s.values = .ok ([], vs) →
        ∃ v, vs.items = [v] :=
  ⟨fun _ _ _ _ hrun => (reads_of_foldlM hrun).balanced, fun _ _ h => h.exists_reduce?,
    fun _ _ hrun he h => exists_items_eq_singleton hrun he h⟩

/-- A sum with a product in it, in parentheses behind a difference: the operators before the
parenthesis is closed, the sum that is applied then, and the value that is left. -/
theorem nestedSum_balanced : ∃ before s s',
    lexicon.tokens (ofString "8-(1+2*3)") = before ++ [⟨.rightParen, ofString ")"⟩] ∧
    before.foldlM (step (fun _ => (0, false)) true) {} = .ok s ∧ s.Balanced ∧
    s.pending.toList = [.op .sub, .paren, .op .add, .op .mul] ∧
    (∃ ws, reduce? .add ⟨[6, 1, 8]⟩ = some ws) ∧
    (lexicon.tokens (ofString "8-(1+2*3)")).foldlM (step (fun _ => (0, false)) true) {} = .ok s' ∧
    unwind (fun _ => false) s'.pending.items s'.values = .ok ([], ⟨[1]⟩) ∧
    ∃ v, [(1 : UInt16)] = [v] := by
  have htokens : lexicon.tokens (ofString "8-(1+2*3)") =
      [⟨.integer, ofString "8"⟩, ⟨.minus, ofString "-"⟩, ⟨.leftParen, ofString "("⟩,
        ⟨.integer, ofString "1"⟩, ⟨.plus, ofString "+"⟩, ⟨.integer, ofString "2"⟩,
        ⟨.asterisk, ofString "*"⟩, ⟨.integer, ofString "3"⟩] ++ [⟨.rightParen, ofString ")"⟩] := by
    decide +kernel
  obtain ⟨hbalanced, hreduces, hend⟩ :=
    evaluation_balanced (ofString "8-(1+2*3)") (fun _ => (0, false)) true
  rw [htokens] at hbalanced hreduces hend ⊢
  refine ⟨_, _, _, rfl, rfl, hbalanced _ _ _ rfl rfl, rfl, ?_, rfl, rfl, ?_⟩
  · exact hreduces .add ⟨[6, 1, 8]⟩ (.close rfl rfl rfl rfl (.later rfl rfl (.first rfl)))
  · exact hend _ ⟨[1]⟩ rfl rfl rfl

end Forge6809.Expr
