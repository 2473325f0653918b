import Forge6809.Assembly.Lexicon

/-! # Operand texts

The text of an operand is put together from the tokens of its line. Blanks between tokens are left
out. An asterisk that follows a blank, or nothing, begins a comment; one that follows other text is
a product sign, and what stands after it is lexed anew. -/

namespace Forge6809.Assembly

def textSize (ts : List Token) : Nat :=
  (ts.flatMap (·.text)).length

@[simp] theorem textSize_nil : textSize [] = 0 := rfl

@[simp] theorem textSize_cons (t : Token) (ts : List Token) :
    textSize (t :: ts) = t.text.length + textSize ts := by
  rw [textSize, List.flatMap_cons, List.length_append, textSize]

/-- Lexing loses nothing. -/
theorem textSize_tokens (lx : Lexicon) (s : Bytes) : textSize (lx.tokens s) = s.length := by
  fun_induction Lexicon.tokens lx s with
  | case1 s h =>
    unfold Lexicon.next? at h
    split at h
    · next hs => rw [hs, textSize_nil, List.length_nil]
    · contradiction
  | case2 s t rest h ih =>
    rw [textSize_cons, ih, ← List.length_append, Lexicon.next?_append h]

def withText (text : Bytes) (operand : Bytes × Option (List Token)) :
    Bytes × Option (List Token) :=
  (text ++ operand.1, operand.2)

/-- Collects the text of an operand up to the end of the line or the first token of one of the
kinds `stop`, after which the second component has the tokens that follow it. `started` tells
whether the operand has text already. -/
def operandText (stop : List Kind) (started : Bool) (ts : List Token) :
    Bytes × Option (List Token) :=
  match ts with
  | [] => ([], none)
  | t :: rest =>
    if t.kind ∈ stop then ([], some rest)
    else
      match t.kind with
      | .newline => ([], none)
      | .whitespace =>
        if rest.head?.any fun next => next.kind = .comment then ([], none)
        else operandText stop started rest
      | .comment =>
        if started then withText [0x2A] (operandText stop true (lexicon.tokens t.text.tail))
        else ([], none)
      | _ => withText t.text (operandText stop true rest)
termination_by textSize ts * textSize ts + ts.length
decreasing_by
  · simp only [textSize_cons, List.length_cons]
    exact Nat.add_lt_add_of_le_of_lt (Nat.mul_self_le_mul_self (Nat.le_add_left _ _))
      (Nat.lt_succ_self _)
  · have hlength := lexicon.length_tokens_le t.text.tail
    rw [textSize_tokens, textSize_cons, List.length_cons]
    cases h : t.text with
    | nil =>
      simp only [List.tail_nil, Lexicon.tokens_nil, List.length_nil]
      omega
    | cons b r =>
      rw [h, List.tail_cons] at hlength
      have hsquare := Nat.mul_self_le_mul_self (Nat.le_add_right (r.length + 1) (textSize rest))
      simp only [List.tail_cons, List.length_cons, Nat.mul_add, Nat.add_mul] at hsquare ⊢
      omega
  · simp only [textSize_cons, List.length_cons]
    exact Nat.add_lt_add_of_le_of_lt (Nat.mul_self_le_mul_self (Nat.le_add_left _ _))
      (Nat.lt_succ_self _)

section Cases

variable {stop : List Kind} {started : Bool} {t : Token} {rest : List Token}

theorem operandText_nil : operandText stop started [] = ([], none) := by
  rw [operandText]

theorem operandText_stopped (h : t.kind ∈ stop) :
    operandText stop started (t :: rest) = ([], some rest) := by
  rw [operandText, if_pos h]

theorem operandText_lineBreak (h : t.kind ∉ stop) (hk : t.kind = .newline) :
    operandText stop started (t :: rest) = ([], none) := by
  rw [operandText, if_neg h, hk]

theorem operandText_remark (h : t.kind ∉ stop) (hk : t.kind = .whitespace)
    (hnext : (rest.head?.any fun next => next.kind = .comment) = true) :
    operandText stop started (t :: rest) = ([], none) := by
  rw [operandText, if_neg h, hk]
  dsimp only
  rw [if_pos hnext]

theorem operandText_blanks (h : t.kind ∉ stop) (hk : t.kind = .whitespace)
    (hnext : (rest.head?.any fun next => next.kind = .comment) = false) :
    operandText stop started (t :: rest) = operandText stop started rest := by
  rw [operandText, if_neg h, hk]
  dsimp only
  rw [hnext]
  rfl

theorem operandText_product (h : t.kind ∉ stop) (hk : t.kind = .comment) :
    operandText stop true (t :: rest) =
      withText [0x2A] (operandText stop true (lexicon.tokens t.text.tail)) := by
  rw [operandText, if_neg h, hk]
  rfl

theorem operandText_unstarted (h : t.kind ∉ stop) (hk : t.kind = .comment) :
    operandText stop false (t :: rest) = ([], none) := by
  rw [operandText, if_neg h, hk]
  rfl

theorem operandText_text (h : t.kind ∉ stop) (hnewline : t.kind ≠ .newline)
    (hblank : t.kind ≠ .whitespace) (hcomment : t.kind ≠ .comment) :
    operandText stop started (t :: rest) = withText t.text (operandText stop true rest) := by
  rw [operandText, if_neg h]
  split <;> first | contradiction | rfl

end Cases

/-- Induction along the tokens of an operand, with one case for each way in which its text ends or
goes on. -/
theorem operandText_induction (stop : List Kind) {motive : Bool → List Token → Prop}
    (nil : ∀ started, motive started [])
    (stopped : ∀ started t rest, t.kind ∈ stop → motive started (t :: rest))
    (lineBreak : ∀ started t rest, t.kind ∉ stop → t.kind = .newline → motive started (t :: rest))
    (remark : ∀ started t rest, t.kind ∉ stop → t.kind = .whitespace →
      (rest.head?.any fun next => next.kind = .comment) = true → motive started (t :: rest))
    (blanks : ∀ started t rest, t.kind ∉ stop → t.kind = .whitespace →
      (rest.head?.any fun next => next.kind = .comment) = false → motive started rest →
        motive started (t :: rest))
    (product : ∀ t rest, t.kind ∉ stop → t.kind = .comment →
      motive true (lexicon.tokens t.text.tail) → motive true (t :: rest))
    (unstarted : ∀ t rest, t.kind ∉ stop → t.kind = .comment → motive false (t :: rest))
    (text : ∀ started t rest, t.kind ∉ stop → t.kind ≠ .newline → t.kind ≠ .whitespace →
      t.kind ≠ .comment → motive true rest → motive started (t :: rest))
    (started : Bool) (ts : List Token) : motive started ts := by
  fun_induction operandText stop started ts with
  | case1 started => exact nil started
  | case2 started t rest h => exact stopped started t rest h
  | case3 started t rest h hk => exact lineBreak started t rest h hk
  | case4 started t rest h hk hnext => exact remark started t rest h hk hnext
  | case5 started t rest h hk hnext ih =>
    exact blanks started t rest h hk (Bool.eq_false_iff.2 hnext) ih
  | case6 t rest h hk ih => exact product t rest h hk ih
  | case7 started t rest h hk hstart =>
    cases Bool.eq_false_iff.2 hstart
    exact unstarted t rest h hk
  | case8 started t rest h hnewline hblank hcomment ih =>
    exact text started t rest h hnewline hblank hcomment ih

def skipBlanks (ts : List Token) : List Token :=
  ts.dropWhile fun t => t.kind = .whitespace

end Forge6809.Assembly
