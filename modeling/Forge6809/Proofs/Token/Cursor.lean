import Forge6809.Expr.Lexicon
import Forge6809.Proofs.Token.Lexing
import Forge6809.Token.Cursor
import Mathlib.Tactic

/-! # Cursors as places in a list of tokens

A cursor reads tokens when it has to and keeps those that were looked at. None of that can be seen
from outside: whatever it is asked, and in whatever order, a cursor answers like a place in the list
of all tokens of its text. What is left to a cursor is what it holds and what it has not read; every
request leaves that list as it is or cuts off its front. -/

namespace Forge6809

open Text

namespace Cursor

inductive Request where
  | next
  | peek
  | peekAfter (look : Lookahead)
  | skip (kinds : List Kind)

inductive Answer where
  | token (t : Option Token)
  | look (l : Option Lookahead)
  | skipped
deriving DecidableEq

def Request.peeks : Request → Bool
  | peek | peekAfter _ => true
  | next | skip _ => false

def serve (c : Cursor) : Request → Answer × Cursor
  | .next => (.token c.next.1, c.next.2)
  | .peek => (.look c.peek.1, c.peek.2)
  | .peekAfter look => (.look (c.peekAfter look).1, (c.peekAfter look).2)
  | .skip kinds => (.skipped, c.skip kinds)

def answers (c : Cursor) : List Request → List Answer
  | [] => []
  | r :: rs => (c.serve r).1 :: (c.serve r).2.answers rs

end Cursor

/-- A place in a list of tokens, given by the number of tokens before it. -/
structure Place where
  tokens : List Token
  index : Nat := 0

namespace Place

open Cursor (Request Answer)

def lookahead? (p : Place) (i : Nat) : Option Lookahead :=
  p.tokens[i]?.map fun t => ⟨t, i⟩

/-- The answer to a request at a place, and the place after it. A lookahead that lies behind the
place is followed by nothing. -/
def serve (p : Place) : Request → Answer × Place
  | .next => (.token p.tokens[p.index]?, { p with index := min (p.index + 1) p.tokens.length })
  | .peek => (.look (p.lookahead? p.index), p)
  | .peekAfter look =>
    (.look (if p.index ≤ look.seq then p.lookahead? (look.seq + 1) else none), p)
  | .skip kinds =>
    (.skipped, { p with
      index := p.index + ((p.tokens.drop p.index).takeWhile fun t => t.kind ∈ kinds).length })

def answers (p : Place) : List Request → List Answer
  | [] => []
  | r :: rs => (p.serve r).1 :: (p.serve r).2.answers rs

def after (p : Place) (rs : List Request) : Place :=
  rs.foldl (fun p r => (p.serve r).2) p

theorem tokens_serve (p : Place) (r : Request) : (p.serve r).2.tokens = p.tokens := by
  cases r <;> rfl

/-- Looking does not move a place. -/
theorem serve_of_peeks (p : Place) {r : Request} (h : r.peeks = true) : (p.serve r).2 = p := by
  cases r with
  | peek | peekAfter => rfl
  | next | skip => cases h

theorem length_answers (p : Place) (rs : List Request) : (p.answers rs).length = rs.length := by
  induction rs generalizing p with
  | nil => rfl
  | cons r rs ih => rw [answers, List.length_cons, List.length_cons, ih]

theorem answers_append (p : Place) (rs rs' : List Request) :
    p.answers (rs ++ rs') = p.answers rs ++ (p.after rs).answers rs' := by
  induction rs generalizing p with
  | nil => rfl
  | cons r rs ih =>
    rw [List.cons_append, answers, answers, ih]
    rfl

/-- The answers after some requests are the answers from the place that these lead to. -/
theorem drop_answers (p : Place) (rs rs' : List Request) :
    (p.answers (rs ++ rs')).drop rs.length = (p.after rs).answers rs' := by
  rw [answers_append, ← p.length_answers rs, List.drop_left]

theorem seq_of_lookahead? {p : Place} {i : Nat} {l : Lookahead} (h : p.lookahead? i = some l) :
    p.tokens[l.seq]? = some l.token := by
  obtain ⟨t, ht, rfl⟩ := Option.map_eq_some_iff.1 h
  exact ht

theorem getElem?_seq_of_serve {p : Place} {r : Request} {l : Lookahead}
    (h : (p.serve r).1 = .look (some l)) : p.tokens[l.seq]? = some l.token := by
  cases r with
  | next | skip => cases h
  | peek => exact seq_of_lookahead? (Answer.look.inj h)
  | peekAfter look =>
    have hl := Answer.look.inj h
    split at hl
    · exact seq_of_lookahead? hl
    · cases hl

/-- A lookahead that was given out has the token of its index. -/
theorem getElem?_seq_of_mem_answers {p : Place} {rs : List Request} {l : Lookahead}
    (h : .look (some l) ∈ p.answers rs) : p.tokens[l.seq]? = some l.token := by
  induction rs generalizing p with
  | nil => cases h
  | cons r rs ih =>
    rcases List.mem_cons.1 h with h | h
    · exact getElem?_seq_of_serve h.symm
    · rw [← p.tokens_serve r]
      exact ih h

end Place

namespace Cursor

/-- The tokens that a cursor holds, and those of the text that it has not read. -/
def remaining (c : Cursor) : List Token :=
  c.ahead ++ c.lexicon.tokens c.rest

theorem remaining_read? {c c' : Cursor} (h : c.read? = some c') :
    c'.remaining = c.remaining ∧ c'.seq = c.seq := by
  obtain ⟨⟨t, rest⟩, hn, rfl⟩ := Option.map_eq_some_iff.1 h
  simp only [remaining, Lexicon.tokens_eq_cons hn, List.append_assoc, List.singleton_append,
    and_self]

theorem remaining_of_read?_eq_none {c : Cursor} (h : c.read? = none) : c.remaining = c.ahead := by
  have hn : c.lexicon.next? c.rest = none := Option.map_eq_none_iff.1 h
  have htokens : c.lexicon.tokens c.rest = [] := by
    rw [Lexicon.tokens]
    split
    · rfl
    · next hs => rw [hn] at hs; cases hs
  rw [remaining, htokens, List.append_nil]

/-- Reading ahead changes nothing of what is left. -/
theorem remaining_fill (c : Cursor) (n : Nat) :
    (c.fill n).remaining = c.remaining ∧ (c.fill n).seq = c.seq := by
  fun_induction fill c n with
  | case1 => exact ⟨rfl, rfl⟩
  | case2 => exact ⟨rfl, rfl⟩
  | case3 c _ c' h ih =>
    obtain ⟨hrem, hseq⟩ := remaining_read? h
    exact ⟨ih.1.trans hrem, ih.2.trans hseq⟩

/-- A cursor holds as many tokens as it was made to read, or all that are left. -/
theorem ahead_fill (c : Cursor) (n : Nat) :
    n ≤ (c.fill n).ahead.length ∨ (c.fill n).remaining = (c.fill n).ahead := by
  fun_induction fill c n with
  | case1 c h => exact Or.inl h
  | case2 c _ h => exact Or.inr (remaining_of_read?_eq_none h)
  | case3 c _ c' _ ih => exact ih

theorem getElem?_ahead_fill (c : Cursor) {i n : Nat} (h : i < n) :
    (c.fill n).ahead[i]? = c.remaining[i]? := by
  rw [← (c.remaining_fill n).1]
  rcases c.ahead_fill n with hn | hall
  · rw [remaining, List.getElem?_append_left (by omega)]
  · rw [hall]

theorem head?_ahead_fill (c : Cursor) : (c.fill 1).ahead.head? = c.remaining.head? := by
  rw [List.head?_eq_getElem?, List.head?_eq_getElem?, c.getElem?_ahead_fill Nat.one_pos]

theorem peek_eq (c : Cursor) :
    c.peek = (c.remaining.head?.map fun t => ⟨t, c.seq⟩, c.fill 1) := by
  simp only [peek, head?_ahead_fill, (c.remaining_fill 1).2]

theorem next_of_remaining_eq_nil {c : Cursor} (h : c.remaining = []) :
    c.next = (none, c.fill 1) := by
  have hhead := c.head?_ahead_fill
  rw [h, List.head?_nil, List.head?_eq_none_iff] at hhead
  simp only [next, hhead]

theorem next_of_remaining_eq_cons {c : Cursor} {t : Token} {ts : List Token}
    (h : c.remaining = t :: ts) : ∃ c', c.next = (some t, c') ∧ c'.remaining = ts ∧
      c'.seq = c.seq + 1 := by
  have hhead := c.head?_ahead_fill
  obtain ⟨hrem, hseq⟩ := c.remaining_fill 1
  rw [h, List.head?_cons, List.head?_eq_some_iff] at hhead
  obtain ⟨r, hr⟩ := hhead
  rw [remaining, hr, h, List.cons_append] at hrem
  refine ⟨{ c.fill 1 with ahead := r, seq := (c.fill 1).seq + 1 }, ?_, ?_, ?_⟩
  · simp only [next, hr]
  · exact (List.cons.inj hrem).2
  · rw [hseq]

/-- Skipping cuts off the longest run of the given kinds. -/
theorem remaining_skip (c : Cursor) (kinds : List Kind) :
    (c.skip kinds).remaining = c.remaining.dropWhile (fun t => t.kind ∈ kinds) ∧
      (c.skip kinds).seq =
        c.seq + (c.remaining.takeWhile fun t => t.kind ∈ kinds).length := by
  induction hts : c.remaining generalizing c with
  | nil =>
    obtain ⟨hrem, hseq⟩ := c.remaining_fill 1
    rw [skip, peek_eq, hts]
    exact ⟨hrem.trans hts, hseq⟩
  | cons t ts ih =>
    obtain ⟨hrem, hseq⟩ := c.remaining_fill 1
    rw [skip, peek_eq, hts]
    by_cases ht : t.kind ∈ kinds
    · obtain ⟨c', hnext, hrem', hseq'⟩ := next_of_remaining_eq_cons hts
      obtain ⟨hskip, hseq''⟩ := ih c' hrem'
      simp only [List.head?_cons, Option.map_some, ht, if_true]
      split
      · next hn => rw [hnext] at hn; cases hn
      · next hn =>
        cases hnext.symm.trans hn
        simp only [hskip, hseq'', hseq', List.dropWhile_cons, List.takeWhile_cons, ht,
          decide_true, if_true, List.length_cons]
        exact ⟨trivial, by omega⟩
    · simp only [List.head?_cons, Option.map_some, ht, if_false, List.dropWhile_cons,
        List.takeWhile_cons, decide_false, Bool.false_eq_true, List.length_nil]
      exact ⟨hrem.trans hts, hseq⟩

structure At (c : Cursor) (p : Place) : Prop where
  seq : c.seq = p.index
  remaining : c.remaining = p.tokens.drop p.index
  le : p.index ≤ p.tokens.length

section At

variable {c : Cursor} {p : Place}

theorem At.getElem?_remaining (h : c.At p) (i : Nat) :
    c.remaining[i]? = p.tokens[p.index + i]? := by
  rw [h.remaining, List.getElem?_drop]

theorem At.fill (h : c.At p) (n : Nat) : (c.fill n).At p := by
  obtain ⟨hrem, hseq⟩ := c.remaining_fill n
  exact ⟨hseq.trans h.seq, hrem.trans h.remaining, h.le⟩

theorem At.serve_next (h : c.At p) :
    (c.serve .next).1 = (p.serve .next).1 ∧ (c.serve .next).2.At (p.serve .next).2 := by
  have hhead := h.getElem?_remaining 0
  rw [Nat.add_zero] at hhead
  cases hts : c.remaining with
  | nil =>
    rw [hts, List.getElem?_nil] at hhead
    have hend : p.index = p.tokens.length :=
      Nat.le_antisymm h.le (List.getElem?_eq_none_iff.1 hhead.symm)
    have hmin : min (p.index + 1) p.tokens.length = p.index := by omega
    simp only [serve, Place.serve, next_of_remaining_eq_nil hts, ← hhead, hmin, true_and]
    exact h.fill 1
  | cons t ts =>
    rw [hts, List.getElem?_cons_zero] at hhead
    have hlt : p.index < p.tokens.length := (List.getElem?_eq_some_iff.1 hhead.symm).1
    have hmin : min (p.index + 1) p.tokens.length = p.index + 1 := by omega
    obtain ⟨c', hnext, hrem, hseq⟩ := next_of_remaining_eq_cons hts
    simp only [serve, Place.serve, hnext, ← hhead, hmin, true_and]
    refine ⟨by rw [hseq, h.seq], ?_, hlt⟩
    rw [hrem, ← List.tail_drop, ← h.remaining, hts, List.tail_cons]

theorem At.serve_peek (h : c.At p) :
    (c.serve .peek).1 = (p.serve .peek).1 ∧ (c.serve .peek).2.At (p.serve .peek).2 := by
  have hhead := h.getElem?_remaining 0
  rw [Nat.add_zero, ← List.head?_eq_getElem?] at hhead
  simp only [serve, Place.serve, peek_eq, Place.lookahead?, hhead, h.seq, true_and]
  exact h.fill 1

theorem At.serve_peekAfter (h : c.At p) (look : Lookahead) :
    (c.serve (.peekAfter look)).1 = (p.serve (.peekAfter look)).1 ∧
      (c.serve (.peekAfter look)).2.At (p.serve (.peekAfter look)).2 := by
  simp only [serve, Place.serve, peekAfter, h.seq]
  by_cases hlook : look.seq < p.index
  · simp only [hlook, if_true, if_neg (Nat.not_le.2 hlook), true_and]
    exact h
  · -- The buffer is asked for the difference of the two numbers, which adds up to the index.
    have hindex : p.index + (look.seq + 1 - p.index) = look.seq + 1 := by omega
    simp only [hlook, if_false, if_pos (Nat.not_lt.1 hlook), Place.lookahead?,
      c.getElem?_ahead_fill (Nat.lt_succ_self _), h.getElem?_remaining, hindex, true_and]
    exact h.fill _

theorem At.serve_skip (h : c.At p) (kinds : List Kind) :
    (c.serve (.skip kinds)).1 = (p.serve (.skip kinds)).1 ∧
      (c.serve (.skip kinds)).2.At (p.serve (.skip kinds)).2 := by
  obtain ⟨hrem, hseq⟩ := c.remaining_skip kinds
  rw [h.remaining] at hrem hseq
  have hle := (List.takeWhile_sublist (l := p.tokens.drop p.index)
    fun t => decide (t.kind ∈ kinds)).length_le
  rw [List.length_drop] at hle
  refine ⟨rfl, by rw [serve, hseq, h.seq]; rfl, ?_, ?_⟩
  · have hsplit := congrArg (List.drop (List.takeWhile (fun t => decide (t.kind ∈ kinds))
      (p.tokens.drop p.index)).length) (List.takeWhile_append_dropWhile
        (p := fun t => decide (t.kind ∈ kinds)) (l := p.tokens.drop p.index))
    rw [List.drop_left, List.drop_drop] at hsplit
    exact hrem.trans hsplit
  · have := h.le
    simp only [Place.serve]
    omega

/-- A request is answered alike, and keeps the cursor at the place. -/
theorem At.serve (h : c.At p) (r : Request) :
    (c.serve r).1 = (p.serve r).1 ∧ (c.serve r).2.At (p.serve r).2 := by
  cases r with
  | next => exact h.serve_next
  | peek => exact h.serve_peek
  | peekAfter look => exact h.serve_peekAfter look
  | skip kinds => exact h.serve_skip kinds

theorem At.answers_eq (h : c.At p) (rs : List Request) : c.answers rs = p.answers rs := by
  induction rs generalizing c p with
  | nil => rfl
  | cons r rs ih =>
    obtain ⟨hanswer, hat⟩ := h.serve r
    rw [answers, Place.answers, hanswer, ih hat]

end At

theorem at_start (lx : Lexicon) (text : Bytes) : (Cursor.mk lx text [] 0).At ⟨lx.tokens text, 0⟩ :=
  ⟨rfl, rfl, Nat.zero_le _⟩

/-- A cursor over a text answers all requests, in whatever order they come, like a place in the list
of all tokens of the text. The number of a lookahead is the index of its token, and a request that
only looks changes none of the later answers. -/
theorem answers_eq_place (lx : Lexicon) (text : Bytes) :
    (∀ rs, (Cursor.mk lx text [] 0).answers rs = (Place.mk (lx.tokens text) 0).answers rs) ∧
    (∀ rs l, .look (some l) ∈ (Cursor.mk lx text [] 0).answers rs →
      (lx.tokens text)[l.seq]? = some l.token) ∧
    ∀ pre r post, r.peeks = true →
      ((Cursor.mk lx text [] 0).answers (pre ++ r :: post)).drop (pre.length + 1) =
        ((Cursor.mk lx text [] 0).answers (pre ++ post)).drop pre.length := by
  have hsame := (at_start lx text).answers_eq
  refine ⟨hsame, ?_, ?_⟩
  · intro rs l hl
    rw [hsame] at hl
    exact Place.getElem?_seq_of_mem_answers hl
  · intro pre r post hr
    have hcount : pre.length + 1 = (pre ++ [r]).length := by simp
    have hafter : (Place.mk (lx.tokens text) 0).after (pre ++ [r]) =
        (Place.mk (lx.tokens text) 0).after pre := by
      rw [Place.after, List.foldl_append]
      exact Place.serve_of_peeks _ hr
    rw [hsame, hsame, List.append_cons, hcount, Place.drop_answers, Place.drop_answers, hafter]

/-- A token is looked at and consumed, and then it is followed by nothing, although the token behind
it was read. -/
def followTwice : List Request :=
  [.peekAfter ⟨⟨.identifier, ofString "a"⟩, 0⟩, .next, .peekAfter ⟨⟨.identifier, ofString "a"⟩, 0⟩]

theorem followTwice_answers :
    (Cursor.mk Expr.lexicon (ofString "a 1") [] 0).answers followTwice =
      [.look (some ⟨⟨.whitespace, ofString " "⟩, 1⟩), .token (some ⟨.identifier, ofString "a"⟩),
        .look none] ∧
    (Expr.lexicon.tokens (ofString "a 1"))[1]? = some ⟨.whitespace, ofString " "⟩ ∧
    ((Cursor.mk Expr.lexicon (ofString "a 1") [] 0).answers [.peek, .next]).drop 1 =
      (Cursor.mk Expr.lexicon (ofString "a 1") [] 0).answers [.next] := by
  obtain ⟨hplace, hlook, hpeek⟩ := answers_eq_place Expr.lexicon (ofString "a 1")
  have hanswers : (Cursor.mk Expr.lexicon (ofString "a 1") [] 0).answers followTwice =
      [.look (some ⟨⟨.whitespace, ofString " "⟩, 1⟩), .token (some ⟨.identifier, ofString "a"⟩),
        .look none] := by
    rw [hplace]
    decide +kernel
  refine ⟨hanswers, hlook followTwice ⟨⟨.whitespace, ofString " "⟩, 1⟩ ?_, ?_⟩
  · rw [hanswers]
    exact List.mem_cons_self
  · exact hpeek [] .peek [.next] rfl

end Cursor
end Forge6809
