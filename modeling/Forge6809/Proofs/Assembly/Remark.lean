import Forge6809.Proofs.Assembly.Operand
import Mathlib.Data.List.DropRight
import Mathlib.Data.List.TakeWhile

/-! # Remarks behind a line

A remark is blanks, an asterisk and any text, written behind a line. It is lexed as blanks and a
comment, unless the line has a comment or an asterisk already, with which it is one token. If that
asterisk turns out to be a product sign, what follows it is lexed again, and the remark is blanks
and a comment there. So the functions that read the tokens of a line find in a line with a remark
what they find in the line, and both have the same form. -/

namespace Forge6809.Assembly

open Text

/-- Blanks, an asterisk and a text without line breaks. -/
structure Remark where
  blanks : Bytes
  text : Bytes
  blanks_ne_nil : blanks ≠ []
  isBlank_blanks : ∀ b ∈ blanks, isBlank b = true
  unbroken : ∀ b ∈ text, b ≠ 0x0D ∧ b ≠ 0x0A

def Remark.bytes (r : Remark) : Bytes :=
  r.blanks ++ 0x2A :: r.text

/-- What stands behind the text of a line: a remark, and before it the carriage returns that ended
the line. -/
def Trailer (tail : Bytes) : Prop :=
  ∃ (returns : Bytes) (r : Remark), (∀ b ∈ returns, b = 0x0D) ∧ tail = returns ++ r.bytes

/-- Tokens with which a line ends: a line break, or blanks and a comment. -/
inductive Closing : List Token → Prop
  | lineBreak {x : Token} {ts : List Token} : x.kind = .newline → Closing (x :: ts)
  | comment {x y : Token} {ts : List Token} : x.kind = .whitespace → y.kind = .comment →
      Closing (x :: y :: ts)

/-- A remark stands on one line. -/
theorem Remark.ne_break (r : Remark) : ∀ b ∈ r.bytes, b ≠ 0x0D ∧ b ≠ 0x0A := by
  intro b hb
  rw [bytes, List.mem_append, List.mem_cons] at hb
  rcases hb with hb | rfl | hb
  · have hblank := r.isBlank_blanks b hb
    constructor <;> rintro rfl <;> cases hblank
  · decide
  · exact r.unbroken b hb

/-- Blanks in front of a remark are lexed with it. -/
theorem Remark.closing_append (r : Remark) {w : Bytes} (hw : ∀ b ∈ w, isBlank b = true) :
    Closing (lexicon.tokens (w ++ r.bytes)) := by
  have hblanks : ∀ b ∈ w ++ r.blanks, isBlank b = true := by
    intro b hb
    rcases List.mem_append.1 hb with hb | hb
    · exact hw b hb
    · exact r.isBlank_blanks b hb
  have hne : w ++ r.blanks ≠ [] := List.append_ne_nil_of_right_ne_nil w r.blanks_ne_nil
  have hm : lexicon.measure (w ++ r.blanks ++ 0x2A :: r.text) =
      (.whitespace, (w ++ r.blanks).length) := measure_blanks hblanks hne (by simp [ending])
  rw [bytes, ← List.append_assoc, Lexicon.tokens_eq_cons (Lexicon.next?_of_measure hne hm),
    tokens_asterisk]
  exact .comment rfl rfl

namespace Trailer

variable {tail : Bytes}

theorem head (h : Trailer tail) : ∀ b ∈ tail.head?, b = 0x0D ∨ isBlank b = true := by
  obtain ⟨returns, r, hreturns, rfl⟩ := h
  intro b hb
  cases returns with
  | cons c returns =>
    obtain rfl : c = b := by simpa using hb
    exact Or.inl (hreturns c List.mem_cons_self)
  | nil =>
    cases hr : r.blanks with
    | nil => exact absurd hr r.blanks_ne_nil
    | cons c w =>
      obtain rfl : c = b := by simpa [Remark.bytes, hr] using hb
      exact Or.inr (r.isBlank_blanks c (hr ▸ List.mem_cons_self))

theorem separated (h : Trailer tail) : Separated tail := by
  intro b hb
  rcases h.head b hb with rfl | hblank
  · rfl
  · exact separates_of_isBlank hblank

theorem head_ne (h : Trailer tail) : tail.head? ≠ some 0x0A := by
  intro hhead
  rcases h.head _ hhead with hb | hb <;> cases hb

theorem ne_feed (h : Trailer tail) : ∀ b ∈ tail, b ≠ 0x0A := by
  obtain ⟨returns, r, hreturns, rfl⟩ := h
  intro b hb
  rcases List.mem_append.1 hb with hb | hb
  · rw [hreturns b hb]
    decide
  · exact (r.ne_break b hb).2

end Trailer

/-- The tokens of a line, and those of the line with a remark behind it. -/
inductive Trailed : List Token → List Token → Prop
  | ends {ts' : List Token} : Closing ts' → Trailed [] ts'
  | blanks {x : Token} {ts' : List Token} : x.kind = .whitespace → Closing ts' → Trailed [x] ts'
  | comment {v tail : Bytes} : (∀ b ∈ v, b ≠ 0x0A) → Trailer tail →
      Trailed [⟨.comment, 0x2A :: v⟩] [⟨.comment, 0x2A :: (v ++ tail)⟩]
  | cons {x : Token} {ts ts' : List Token} : x.kind ≠ .comment → Trailed ts ts' →
      Trailed (x :: ts) (x :: ts')

theorem Trailer.closing {tail : Bytes} (h : Trailer tail) : Closing (lexicon.tokens tail) := by
  obtain ⟨returns, r, hreturns, rfl⟩ := h
  cases returns with
  | nil => exact r.closing_append (w := []) (by simp)
  | cons c returns =>
    obtain rfl := hreturns c List.mem_cons_self
    obtain ⟨x, ts, hts, hx, -⟩ := Lexicon.exists_tokens_cons lexicon 0x0D (returns ++ r.bytes)
    rw [kind_ending (by decide)] at hx
    rw [List.cons_append, hts]
    exact .lineBreak hx

theorem trailed_blanks {w tail : Bytes} (hw : ∀ b ∈ w, isBlank b = true) (hne : w ≠ [])
    (htail : Trailer tail) : Trailed (lexicon.tokens w) (lexicon.tokens (w ++ tail)) := by
  have hm : lexicon.measure (w ++ []) = (.whitespace, w.length) :=
    measure_blanks hw hne (by simp)
  have htokens : lexicon.tokens w = [⟨.whitespace, w⟩] := by
    have hcons := Lexicon.tokens_eq_cons (Lexicon.next?_of_measure hne hm)
    rwa [List.append_nil, Lexicon.tokens_nil] at hcons
  obtain ⟨returns, r, hreturns, rfl⟩ := htail
  rw [htokens]
  cases returns with
  | nil => exact .blanks rfl (r.closing_append hw)
  | cons c returns =>
    obtain rfl := hreturns c List.mem_cons_self
    have hm' : lexicon.measure (w ++ (0x0D :: returns ++ r.bytes)) = (.whitespace, w.length) :=
      measure_blanks hw hne (by simp [ending])
    rw [Lexicon.tokens_eq_cons (Lexicon.next?_of_measure hne hm')]
    apply Trailed.cons (by simp)
    exact .ends (Trailer.closing ⟨0x0D :: returns, r, hreturns, rfl⟩)

/-- A remark stands behind the tokens of a line and leaves them as they are, except for a comment
and for blanks, which go on with it. -/
theorem trailed_tokens {text tail : Bytes} (htext : ∀ b ∈ text, b ≠ 0x0A) (htail : Trailer tail) :
    Trailed (lexicon.tokens text) (lexicon.tokens (text ++ tail)) := by
  induction hlen : text.length using Nat.strong_induction_on generalizing text with
  | _ n ih =>
  by_cases hblank : ∀ b ∈ text, isBlank b = true
  · cases text with
    | nil =>
      rw [Lexicon.tokens_nil, List.nil_append]
      exact .ends htail.closing
    | cons b r => exact trailed_blanks hblank (List.cons_ne_nil b r) htail
  · push Not at hblank
    cases text with
    | nil => simp at hblank
    | cons b r =>
      by_cases hstar : b = 0x2A
      · subst hstar
        have hr : ∀ c ∈ r, c ≠ 0x0A := fun c hc => htext c (List.mem_cons_of_mem _ hc)
        have hline (s : Bytes) (hs : ∀ c ∈ s, c ≠ 0x0A) :
            lexicon.tokens (0x2A :: s) = [⟨.comment, 0x2A :: s⟩] := by
          have hall : ∀ c ∈ s, (c != 0x0A) = true := fun c hc => bne_iff_ne.2 (hs c hc)
          rw [tokens_asterisk, List.takeWhile_eq_self_iff.2 hall, List.dropWhile_eq_nil_iff.2 hall,
            Lexicon.tokens_nil]
        rw [hline r hr, List.cons_append, hline (r ++ tail)]
        · exact .comment hr htail
        · intro c hc
          rcases List.mem_append.1 hc with hc | hc
          · exact hr c hc
          · exact htail.ne_feed c hc
      · obtain ⟨x, rest, hn⟩ := Lexicon.exists_next?_cons lexicon b r
        have hx : x.kind ≠ .comment := by
          have hfst : (lexicon.measure (b :: r)).1 = x.kind := by rw [Lexicon.measure_of_next? hn]
          rw [← hfst]
          exact kind_ne_of_sign rfl hstar r
        have hne : ∃ c ∈ b :: r, isBlank c = false := by simpa using hblank
        have hnext := next?_append_tail hne (fun _ => htail.head_ne) (by simpa using hstar)
          htail.separated hn
        have hrest : ∀ c ∈ rest, c ≠ 0x0A := by
          intro c hc
          apply htext c
          rw [← Lexicon.next?_append hn]
          exact List.mem_append_right _ hc
        rw [Lexicon.tokens_eq_cons hn, Lexicon.tokens_eq_cons hnext]
        exact .cons hx (ih _ (hlen ▸ Lexicon.length_lt_of_next? hn) hrest rfl)

/-- Tokens that begin with no sign, number or name: none at all, or blanks, a comment or a line
break. -/
def Inert (ts : List Token) : Prop :=
  ∀ x ∈ ts.head?, x.kind = .whitespace ∨ x.kind = .comment ∨ x.kind = .newline

/-- Tokens from which nothing more is read: none at all, or a comment or a line break. -/
def Finished (ts : List Token) : Prop :=
  ∀ x ∈ ts.head?, x.kind = .comment ∨ x.kind = .newline

theorem Finished.inert {ts : List Token} (h : Finished ts) : Inert ts :=
  fun x hx => Or.inr (h x hx)

theorem Closing.inert {ts : List Token} (h : Closing ts) : Inert ts := by
  cases h with
  | lineBreak hx => simp [Inert, hx]
  | comment hx => simp [Inert, hx]

theorem Closing.skipBlanks {ts : List Token} (h : Closing ts) : Finished (skipBlanks ts) := by
  cases h with
  | lineBreak hx => simp [Finished, Assembly.skipBlanks, hx]
  | comment hx hy => simp [Finished, Assembly.skipBlanks, hx, hy]

/-- The register with which tokens begin and its automatic mode, after the decrement before it. -/
def target? (auto : AutoMode) : List Token → Option (IndexRegister × AutoMode)
  | [] => none
  | t :: r =>
    if t.kind = .register then
      (IndexRegister.ofName? t.word).map fun reg =>
        (reg, if auto = .none then Session.autoIncrement r else auto)
    else none

theorem toOption_indexTarget (ts : List Token) : (Session.indexTarget ts).toOption =
    target? (Session.autoDecrement (skipBlanks ts)).1
      (Session.autoDecrement (skipBlanks ts)).2 := by
  rw [Session.indexTarget]
  rcases Session.autoDecrement (skipBlanks ts) with ⟨auto, _ | ⟨t, r⟩⟩
  · rfl
  · by_cases hk : t.kind = .register
    · cases hr : IndexRegister.ofName? t.word <;> simp [target?, hk, hr, Except.toOption]
    · simp [target?, hk, Except.toOption]

namespace Inert

variable {ts : List Token}

theorem offsetSign_eq (h : Inert ts) : Session.offsetSign ts = (false, ts) := by
  cases ts with
  | nil => rfl
  | cons t r => rcases h t rfl with hk | hk | hk <;> simp [Session.offsetSign, hk]

theorem autoDecrement_eq (h : Inert ts) : Session.autoDecrement ts = (.none, ts) := by
  cases ts with
  | nil => rfl
  | cons t r => rcases h t rfl with hk | hk | hk <;> simp [Session.autoDecrement, hk]

theorem autoIncrement_eq (h : Inert ts) : Session.autoIncrement ts = .none := by
  cases ts with
  | nil => rfl
  | cons t r => rcases h t rfl with hk | hk | hk <;> simp [Session.autoIncrement, hk]

theorem target?_eq (h : Inert ts) (auto : AutoMode) : target? auto ts = none := by
  cases ts with
  | nil => rfl
  | cons t r => rcases h t rfl with hk | hk | hk <;> simp [target?, hk]

end Inert

section Collecting

variable {stop : List Kind} {ts : List Token}

theorem Closing.operandText_eq (hstop : ∀ k ∈ stop, k = .comma) (h : Closing ts)
    (started : Bool) : operandText stop started ts = ([], none) := by
  have hnot {t : Token} (hk : t.kind ≠ .comma) : t.kind ∉ stop := fun hmem => hk (hstop _ hmem)
  cases h with
  | lineBreak hx => exact operandText_lineBreak (hnot (by simp [hx])) hx
  | comment hx hy => exact operandText_remark (hnot (by simp [hx])) hx (by simp [hy])

theorem Finished.operandText_eq (hstop : ∀ k ∈ stop, k = .comma) (h : Finished ts) :
    operandText stop false ts = ([], none) := by
  have hnot {t : Token} (hk : t.kind ≠ .comma) : t.kind ∉ stop := fun hmem => hk (hstop _ hmem)
  cases ts with
  | nil => exact operandText_nil
  | cons t r =>
    rcases h t rfl with hk | hk
    · exact operandText_unstarted (hnot (by simp [hk])) hk
    · exact operandText_lineBreak (hnot (by simp [hk])) hk

end Collecting

namespace Trailed

variable {ts ts' : List Token}

theorem head_cases (h : Trailed ts ts') : (Inert ts ∧ Inert ts') ∨
    ∃ x r r', ts = x :: r ∧ ts' = x :: r' ∧ Trailed r r' := by
  cases h with
  | ends hclosing => exact Or.inl ⟨by simp [Inert], hclosing.inert⟩
  | blanks hx hclosing => exact Or.inl ⟨by simp [Inert, hx], hclosing.inert⟩
  | comment => exact Or.inl ⟨by simp [Inert], by simp [Inert]⟩
  | cons _ hr => exact Or.inr ⟨_, _, _, rfl, rfl, hr⟩

theorem skipBlanks_cases (h : Trailed ts ts') :
    (Finished (skipBlanks ts) ∧ Finished (skipBlanks ts')) ∨
      ∃ x r r', skipBlanks ts = x :: r ∧ skipBlanks ts' = x :: r' ∧ x.kind ≠ .comment ∧
        Trailed r r' := by
  induction h with
  | ends hclosing => exact Or.inl ⟨by simp [Finished, skipBlanks], hclosing.skipBlanks⟩
  | blanks hx hclosing => exact Or.inl ⟨by simp [Finished, skipBlanks, hx], hclosing.skipBlanks⟩
  | comment => exact Or.inl ⟨by simp [Finished, skipBlanks], by simp [Finished, skipBlanks]⟩
  | @cons x r r' hx hr ih =>
    by_cases hk : x.kind = .whitespace
    · have hskip (us : List Token) : skipBlanks (x :: us) = skipBlanks us := by
        simp [skipBlanks, hk]
      rw [hskip, hskip]
      exact ih
    · have hkeep (us : List Token) : skipBlanks (x :: us) = x :: us := by
        simp [skipBlanks, hk]
      exact Or.inr ⟨x, r, r', hkeep r, hkeep r', hx, hr⟩

/-- A comment comes next in both or in neither. -/
theorem any_comment (h : Trailed ts ts') :
    ts'.head?.any (fun x => x.kind = .comment) = ts.head?.any fun x => x.kind = .comment := by
  have hclosing {us : List Token} (hus : Closing us) :
      us.head?.any (fun x => x.kind = .comment) = false := by
    cases hus with
    | lineBreak hx => simp [hx]
    | comment hx => simp [hx]
  cases h with
  | ends hus => exact hclosing hus
  | blanks hx hus => simpa [hx] using hclosing hus
  | comment | cons => rfl

/-- The same text is collected for an operand, and if it ends at a comma, a remark stands behind
what follows. -/
theorem operandText_eq {stop : List Kind} (hstop : ∀ k ∈ stop, k = .comma)
    (h : Trailed ts ts') (started : Bool) :
    (operandText stop started ts').1 = (operandText stop started ts).1 ∧
      Option.Rel Trailed (operandText stop started ts).2 (operandText stop started ts').2 := by
  induction started, ts using operandText_induction stop generalizing ts' with
  | nil started =>
    cases h with
    | ends hclosing =>
      rw [hclosing.operandText_eq hstop, operandText_nil]
      exact ⟨rfl, .none⟩
  | stopped started t rest hmem =>
    have hk := hstop _ hmem
    cases h with
    | blanks hx => rw [hk] at hx; cases hx
    | comment => cases hk
    | cons hx hrest =>
      rw [operandText_stopped hmem, operandText_stopped hmem]
      exact ⟨rfl, .some hrest⟩
  | lineBreak started t rest hmem hk =>
    cases h with
    | blanks hx => rw [hk] at hx; cases hx
    | comment => cases hk
    | cons hx hrest =>
      rw [operandText_lineBreak hmem hk, operandText_lineBreak hmem hk]
      exact ⟨rfl, .none⟩
  | remark started t rest hmem hk hnext =>
    cases h with
    | blanks => cases hnext
    | comment => cases hk
    | cons hx hrest =>
      rw [operandText_remark hmem hk hnext,
        operandText_remark hmem hk (hrest.any_comment.trans hnext)]
      exact ⟨rfl, .none⟩
  | blanks started t rest hmem hk hnext ih =>
    cases h with
    | blanks hx hclosing =>
      rw [hclosing.operandText_eq hstop, operandText_blanks hmem hk hnext, operandText_nil]
      exact ⟨rfl, .none⟩
    | comment => cases hk
    | cons hx hrest =>
      rw [operandText_blanks hmem hk hnext,
        operandText_blanks hmem hk (hrest.any_comment.trans hnext)]
      exact ih hrest
  | product t rest hmem hk ih =>
    cases h with
    | blanks hx => rw [hk] at hx; cases hx
    | @comment v tail hv htail =>
      -- The comment is a product sign, and what stands behind it is lexed again with the remark.
      obtain ⟨htext, hrest⟩ := ih (trailed_tokens hv htail)
      rw [operandText_product hmem hk,
        operandText_product (t := ⟨.comment, 0x2A :: (v ++ tail)⟩) hmem rfl]
      exact ⟨congrArg ([0x2A] ++ ·) htext, hrest⟩
    | cons hx hrest => exact absurd hk hx
  | unstarted t rest hmem hk =>
    cases h with
    | blanks hx => rw [hk] at hx; cases hx
    | @comment v tail =>
      rw [operandText_unstarted hmem hk,
        operandText_unstarted (t := ⟨.comment, 0x2A :: (v ++ tail)⟩) hmem rfl]
      exact ⟨rfl, .none⟩
    | cons hx hrest => exact absurd hk hx
  | text started t rest hmem hnewline hblank hcomment ih =>
    cases h with
    | blanks hx => exact absurd hx hblank
    | comment => exact absurd rfl hcomment
    | cons hx hrest =>
      obtain ⟨htext, hrest⟩ := ih hrest
      rw [operandText_text hmem hnewline hblank hcomment,
        operandText_text hmem hnewline hblank hcomment]
      exact ⟨congrArg (t.text ++ ·) htext, hrest⟩

theorem offsetSign_eq (h : Trailed ts ts') :
    (Session.offsetSign ts').1 = (Session.offsetSign ts).1 ∧
      Trailed (Session.offsetSign ts).2 (Session.offsetSign ts').2 := by
  rcases h.head_cases with ⟨hts, hts'⟩ | ⟨x, r, r', rfl, rfl, hr⟩
  · rw [hts.offsetSign_eq, hts'.offsetSign_eq]
    exact ⟨rfl, h⟩
  · rw [Session.offsetSign, Session.offsetSign]
    split
    · exact ⟨rfl, hr⟩
    · exact ⟨rfl, h⟩

theorem autoIncrement_eq (h : Trailed ts ts') :
    Session.autoIncrement ts' = Session.autoIncrement ts := by
  rcases h.head_cases with ⟨hts, hts'⟩ | ⟨x, r, r', rfl, rfl, hr⟩
  · rw [hts.autoIncrement_eq, hts'.autoIncrement_eq]
  · rfl

theorem target?_eq (h : Trailed ts ts') (auto : AutoMode) : target? auto ts' = target? auto ts := by
  rcases h.head_cases with ⟨hts, hts'⟩ | ⟨x, r, r', rfl, rfl, hr⟩
  · rw [hts.target?_eq, hts'.target?_eq]
  · rw [target?, target?, hr.autoIncrement_eq]

theorem toOption_indexTarget_eq (h : Trailed ts ts') :
    (Session.indexTarget ts').toOption = (Session.indexTarget ts).toOption := by
  rw [toOption_indexTarget, toOption_indexTarget]
  rcases h.skipBlanks_cases with ⟨hts, hts'⟩ | ⟨x, r, r', hts, hts', hx, hr⟩
  · rw [hts.inert.autoDecrement_eq, hts'.inert.autoDecrement_eq, hts.inert.target?_eq,
      hts'.inert.target?_eq]
  · rw [hts, hts', Session.autoDecrement, Session.autoDecrement]
    split
    · exact hr.target?_eq _
    · split
      · exact hr.target?_eq _
      · exact (Trailed.cons hx hr).target?_eq _

end Trailed

theorem indexedAction?_eq (opcode : Bytes) (ts : List Token) : indexedAction? opcode ts =
    (operandText [.comma] false (Session.offsetSign ts).2).2.bind fun rest =>
      (Session.indexTarget rest).toOption.map fun target =>
        .indexed opcode (Session.offsetSign ts).1
          (operandText [.comma] false (Session.offsetSign ts).2).1 target.1 target.2 := by
  rw [indexedAction?]
  rcases operandText [.comma] false (Session.offsetSign ts).2 with ⟨text, _ | rest⟩
  · rfl
  · dsimp only [Option.bind_some]
    cases Session.indexTarget rest <;> rfl

namespace Finished

variable {ts : List Token}

theorem indexedAction?_eq_none (h : Finished ts) (opcode : Bytes) :
    indexedAction? opcode ts = none := by
  rw [indexedAction?_eq, h.inert.offsetSign_eq, h.operandText_eq (by simp)]
  rfl

/-- Without an operand only an inherent instruction is complete. -/
theorem instructionAction?_eq (h : Finished (skipBlanks ts)) (mnemonic : Bytes) :
    instructionAction? mnemonic ts = (instruction? mnemonic).bind fun ins =>
      ins.inherent.map .inherent := by
  rw [instructionAction?]
  cases instruction? mnemonic with
  | none => rfl
  | some ins =>
    dsimp only [Option.bind_some]
    cases ins.inherent with
    | some opcode => rfl
    | none =>
      dsimp only [Option.map_none]
      generalize skipBlanks ts = us at h
      cases us with
      | nil => rfl
      | cons t r =>
        have hk : t.kind ≠ .pound := by rcases h t rfl with hk | hk <;> simp [hk]
        dsimp only
        rw [if_neg hk]
        split
        · rfl
        · exact h.indexedAction?_eq_none _

theorem entryAction?_eq (h : Finished (skipBlanks ts)) : entryAction? ts = none := by
  rw [entryAction?]
  generalize skipBlanks ts = us at h
  cases us with
  | nil => rfl
  | cons t r => rcases h t rfl with hk | hk <;> simp [hk]

theorem splitLabel_eq (h : Finished (skipBlanks ts)) : splitLabel ts = (none, skipBlanks ts) := by
  rw [splitLabel]
  generalize skipBlanks ts = us at h
  cases us with
  | nil => rfl
  | cons t r => rcases h t rfl with hk | hk <;> simp [hk]

theorem action?_eq (h : Finished ts) (label : Option Bytes) :
    action? label ts = some .nothing := by
  cases ts with
  | nil => rfl
  | cons t r => rcases h t rfl with hk | hk <;> simp [action?, skipBlanks, hk]

end Finished

namespace Trailed

variable {ts ts' : List Token}

theorem indexedAction?_congr (h : Trailed ts ts') (opcode : Bytes) :
    indexedAction? opcode ts' = indexedAction? opcode ts := by
  obtain ⟨hsign, hrest⟩ := h.offsetSign_eq
  have hcomma : ∀ k ∈ [Kind.comma], k = .comma := by simp
  obtain ⟨htext, hrel⟩ := hrest.operandText_eq hcomma false
  rw [indexedAction?_eq, indexedAction?_eq, hsign, htext]
  generalize (operandText [.comma] false (Session.offsetSign ts).2).2 = rest at hrel ⊢
  generalize (operandText [.comma] false (Session.offsetSign ts').2).2 = rest' at hrel ⊢
  cases hrel with
  | none => rfl
  | some hr => rw [Option.bind_some, Option.bind_some, hr.toOption_indexTarget_eq]

theorem immediateAction?_eq (h : Trailed ts ts') (ins : Instruction) :
    immediateAction? ins ts' = immediateAction? ins ts := by
  rw [immediateAction?, immediateAction?, (h.operandText_eq (by simp) _).1]

theorem instructionAction?_eq (h : Trailed ts ts') (mnemonic : Bytes) :
    instructionAction? mnemonic ts' = instructionAction? mnemonic ts := by
  rcases h.skipBlanks_cases with ⟨hts, hts'⟩ | ⟨x, r, r', hts, hts', hx, hr⟩
  · rw [hts.instructionAction?_eq, hts'.instructionAction?_eq]
  · simp only [instructionAction?, hts, hts', hr.immediateAction?_eq,
      (Trailed.cons hx hr).indexedAction?_congr]

theorem entryAction?_eq (h : Trailed ts ts') : entryAction? ts' = entryAction? ts := by
  rcases h.skipBlanks_cases with ⟨hts, hts'⟩ | ⟨x, r, r', hts, hts', -⟩
  · rw [hts.entryAction?_eq, hts'.entryAction?_eq]
  · rw [entryAction?, entryAction?, hts, hts']

theorem directiveAction?_eq (h : Trailed ts ts') (label : Option Bytes) (word : Bytes) :
    directiveAction? label word ts' = directiveAction? label word ts := by
  rw [directiveAction?, directiveAction?, (h.operandText_eq (by simp) _).1, h.entryAction?_eq]

theorem action?_eq (h : Trailed ts ts') (label : Option Bytes) :
    action? label ts' = action? label ts := by
  have hskip (us : List Token) : action? label (skipBlanks us) = action? label us := by
    rw [action?, action?, skipBlanks, skipBlanks, List.dropWhile_idempotent]
  rcases h.skipBlanks_cases with ⟨hts, hts'⟩ | ⟨x, r, r', hts, hts', -, hr⟩
  · rw [← hskip ts, ← hskip ts', hts.action?_eq, hts'.action?_eq]
  · simp only [action?, hts, hts', hr.directiveAction?_eq, hr.instructionAction?_eq]

/-- The label is the same, and so is what follows it. -/
theorem splitLabel_eq (h : Trailed ts ts') : (splitLabel ts').1 = (splitLabel ts).1 ∧
    ∀ label, action? label (splitLabel ts').2 = action? label (splitLabel ts).2 := by
  rcases h.skipBlanks_cases with ⟨hts, hts'⟩ | ⟨x, r, r', hts, hts', hx, hr⟩
  · rw [hts.splitLabel_eq, hts'.splitLabel_eq]
    refine ⟨rfl, fun label => ?_⟩
    rw [hts.action?_eq, hts'.action?_eq]
  · rw [splitLabel, splitLabel, hts, hts']
    dsimp only
    split
    · exact ⟨rfl, hr.action?_eq⟩
    · exact ⟨rfl, (Trailed.cons hx hr).action?_eq⟩

end Trailed

/-- A line with a remark has the form of the line. -/
theorem read?_append {text tail : Bytes} (htext : ∀ b ∈ text, b ≠ 0x0A) (htail : Trailer tail) :
    Form.read? (text ++ tail) = Form.read? text := by
  obtain ⟨hlabel, haction⟩ := (trailed_tokens htext htail).splitLabel_eq
  rw [Form.read?, Form.read?, label?, label?, hlabel, haction]

end Forge6809.Assembly
