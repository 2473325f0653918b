import Forge6809.Proofs.Assembly.Form
import Forge6809.Proofs.Expr.Spacing
import Mathlib.Tactic

/-! # Operands as they are written

An operand is lexed twice: with the rules of source lines, to collect its text, and with those of
expressions, to evaluate that text. The text that is collected is the operand with blanks left out,
except for the blanks that belong to a keyword or a label. The operand is evaluated as it is
written unless tokens join where the blanks were. -/

namespace Forge6809.Assembly

open Text

theorem keyword_words {w : String} (hw : w ∈ mnemonics ++ directives) :
    ofString w ≠ [] ∧ ∀ b ∈ ofString w, isWordByte b = true := by
  have hall : (mnemonics ++ directives).all (fun w =>
      !(ofString w).isEmpty && (ofString w).all isWordByte) = true := by decide +kernel
  simpa using List.all_eq_true.1 hall w hw

def keywords : Lexicon :=
  keywordRules .mnemonic mnemonics ++ keywordRules .directive directives

theorem lexicon_eq : lexicon = keywords ++ plainRules := rfl

theorem mem_keywords {r : Rule} (hr : r ∈ keywords) :
    (r.kind = .mnemonic ∨ r.kind = .directive) ∧
      ∃ word, r.pattern = .keyword word ∧ word ≠ [] ∧ ∀ b ∈ word, isWordByte b = true := by
  simp only [keywords, keywordRules, List.mem_append, List.mem_map] at hr
  rcases hr with ⟨w, hw, rfl⟩ | ⟨w, hw, rfl⟩
  · exact ⟨Or.inl rfl, _, rfl, keyword_words (List.mem_append_left _ hw)⟩
  · exact ⟨Or.inr rfl, _, rfl, keyword_words (List.mem_append_right _ hw)⟩

theorem signs : ofString "#" = [0x23] ∧ ofString "," = [0x2C] ∧ ofString "++" = [0x2B, 0x2B] ∧
    ofString "+" = [0x2B] ∧ ofString "--" = [0x2D, 0x2D] ∧ ofString "-" = [0x2D] ∧
    ofString "(" = [0x28] ∧ ofString ")" = [0x29] := by
  decide

theorem bounded_of_mem {r : Rule} (hr : r ∈ lexicon) : r.pattern.Bounded := by
  rcases List.mem_append.1 hr with hr | hr
  · obtain ⟨-, word, hp, -, hword⟩ := mem_keywords hr
    rw [hp]
    exact hword
  · have hdigits : ∀ b, separates b = true →
        isHexDigit b = false ∧ isBinaryDigit b = false ∧ isDigit b = false := by
      have h : ∀ c ∈ [(0x20 : UInt8), 0x09, 0x2C, 0x0D, 0x0A],
          isHexDigit c = false ∧ isBinaryDigit c = false ∧ isDigit c = false := by decide +kernel
      intro b hb
      apply h
      simpa [separates, isBlank, or_assoc] using hb
    have hsigns : separates 0x2B = false ∧ separates 0x2D = false := by decide
    have hplain : ∀ r ∈ plainRules, r.pattern.Bounded := by
      simp only [plainRules, signs, List.forall_mem_cons, Pattern.Bounded, true_and, and_true,
        List.tail_cons, List.not_mem_nil, false_implies, implies_true, hsigns, true_or]
      exact ⟨fun b hb => (hdigits b hb).1, fun b hb => (hdigits b hb).2.1,
        Or.inr fun b hb => (hdigits b hb).2.2⟩
    exact hplain r hr

/-- The token at the start of a text does not depend on what stands behind a separator, unless it
is a comment or the text is blank. -/
theorem measure_append {t tail : Bytes} (ht : ∃ b ∈ t, isBlank b = false)
    (hcut : t.getLast? = some 0x0D → tail.head? ≠ some 0x0A) (hstar : t.head? ≠ some 0x2A)
    (htail : Separated tail) : lexicon.measure (t ++ tail) = lexicon.measure t := by
  apply Lexicon.measure_congr
  · intro r hr
    apply Pattern.width_append (bounded_of_mem hr) ht hcut _ htail
    intro mark hp
    rcases List.mem_append.1 hr with hr | hr
    · obtain ⟨-, word, hword, -⟩ := mem_keywords hr
      rw [hp] at hword
      cases hword
    · have hplain : ∀ r ∈ plainRules, r.pattern = .toLineEnd mark → mark = 0x2A := by
        simp [plainRules, eq_comm]
      rwa [hplain r hr hp]
  · apply Utf8.width_append _ htail
    rintro rfl
    simp at ht

theorem next?_append_tail {t rest tail : Bytes} {x : Token} (ht : ∃ b ∈ t, isBlank b = false)
    (hcut : t.getLast? = some 0x0D → tail.head? ≠ some 0x0A) (hstar : t.head? ≠ some 0x2A)
    (htail : Separated tail) (h : lexicon.next? t = some (x, rest)) :
    lexicon.next? (t ++ tail) = some (x, rest ++ tail) := by
  have hm := measure_append ht hcut hstar htail
  rw [Lexicon.measure_of_next? h, ← Lexicon.next?_append h, List.append_assoc] at hm
  rw [← Lexicon.next?_append h, List.append_assoc]
  exact Lexicon.next?_of_measure (Lexicon.next?_text_ne_nil h) hm

/-- A token of a kind that only one pattern yields is what this pattern takes. -/
theorem measure_of_kind {k : Kind} {p : Pattern} {s : Bytes}
    (hk : k ≠ .undefined ∧ k ≠ .mnemonic ∧ k ≠ .directive)
    (hp : ∀ r ∈ plainRules, r.kind = k → r.pattern = p) (h : (lexicon.measure s).1 = k) :
    p.width s = (lexicon.measure s).2 ∧ p.width s ≠ 0 := by
  obtain ⟨r, hr, hkind, hwidth⟩ := Lexicon.exists_rule_of_measure (h ▸ hk.1)
  rw [h] at hkind
  rcases List.mem_append.1 hr with hr | hr
  · obtain ⟨hword | hword, -⟩ := mem_keywords hr
    · exact absurd (hkind.symm.trans hword) hk.2.1
    · exact absurd (hkind.symm.trans hword) hk.2.2
  · rwa [hp r hr hkind] at hwidth

def sign? : Kind → Option UInt8
  | .comma => some 0x2C
  | .comment => some 0x2A
  | .pound => some 0x23
  | .decrement1 => some 0x2D
  | _ => none

theorem kind_ne_of_sign {k : Kind} {b c : UInt8} (hk : sign? k = some c) (hb : b ≠ c) (s : Bytes) :
    (lexicon.measure (b :: s)).1 ≠ k := by
  rintro rfl
  have hu : (lexicon.measure (b :: s)).1 ≠ .undefined := fun h => by simp [h, sign?] at hk
  obtain ⟨r, hr, hkind, -, hpos⟩ := Lexicon.exists_rule_of_measure hu
  rw [← hkind] at hk
  rcases List.mem_append.1 hr with hr | hr
  · obtain ⟨hword | hword, -⟩ := mem_keywords hr <;> simp [hword, sign?] at hk
  · have hplain : ∀ r ∈ plainRules, sign? r.kind = some c → r.pattern.width (b :: s) ≠ 0 →
        b = c := by
      simp [plainRules, signs, sign?, Pattern.width]
      grind
    exact hb (hplain r hr hk hpos)

theorem kind_ne_newline {b : UInt8} (hb : b ≠ 0x0D ∧ b ≠ 0x0A) (s : Bytes) :
    (lexicon.measure (b :: s)).1 ≠ .newline := by
  intro h
  have hp := measure_of_kind (p := .lineBreak) (by decide) (by simp [plainRules]) h
  exact hp.2 (Pattern.width_lineBreak_eq_zero s hb)

theorem any_comment_eq_false {s : Bytes} (hs : s.head? ≠ some 0x2A) :
    (lexicon.tokens s).head?.any (fun x => x.kind = .comment) = false := by
  cases s with
  | nil =>
    rw [Lexicon.tokens_nil]
    rfl
  | cons b r =>
    obtain ⟨x, ts, hts, hx, -⟩ := Lexicon.exists_tokens_cons lexicon b r
    have hb : b ≠ 0x2A := by simpa using hs
    simpa [hts, hx] using kind_ne_of_sign rfl hb r

/-- A token of blanks takes all the blanks there are. -/
theorem span_of_whitespace {s rest : Bytes} {x : Token} (h : lexicon.next? s = some (x, rest))
    (hk : x.kind = .whitespace) : s.head?.any isBlank = true ∧ rest = s.dropWhile isBlank := by
  have hm := Lexicon.measure_of_next? h
  have hp := measure_of_kind (p := .run isBlank) (by decide) (by simp [plainRules])
    ((congrArg Prod.fst hm).trans hk)
  rw [hm] at hp
  obtain ⟨htext, hrest⟩ : x.text = s.takeWhile isBlank ∧ rest = s.dropWhile isBlank := by
    apply List.append_inj _ hp.1.symm
    rw [Lexicon.next?_append h, List.takeWhile_append_dropWhile]
  have hne := Lexicon.next?_text_ne_nil h
  rw [htext] at hne
  cases s with
  | nil => contradiction
  | cons b s => exact ⟨by by_contra hb; simp_all, hrest⟩

theorem kind_ne_whitespace {b : UInt8} (hb : isBlank b = false) (s : Bytes) :
    (lexicon.measure (b :: s)).1 ≠ .whitespace := by
  intro h
  have hp := measure_of_kind (p := .run isBlank) (by decide) (by simp [plainRules]) h
  simp [Pattern.width, hb] at hp

/-- The bytes that can follow the blanks behind an operand. -/
def ending : List UInt8 := [0x2C, 0x2A, 0x0D, 0x0A]

theorem not_word_ending {b : UInt8} (hb : b ∈ ending) : isBlank b = false ∧ b < 0x80 ∧
    isWordByte b = false ∧ upperByte b = b := by
  have h : ∀ c ∈ ending, isBlank c = false ∧ c < 0x80 ∧ isWordByte c = false ∧ upperByte c = c := by
    decide +kernel
  exact h b hb

theorem kind_ending {b : UInt8} (hb : b ∈ ending) (s : Bytes) :
    (lexicon.measure (b :: s)).1 =
      if b = 0x2C then .comma else if b = 0x2A then .comment else .newline := by
  have hkeys : ∀ r ∈ keywords, r.pattern.width (b :: s) = 0 := by
    intro r hr
    obtain ⟨-, word, hp, -⟩ := mem_keywords hr
    simp [hp, Pattern.width, Pattern.keywordWidth, not_word_ending hb]
  have hno : ∀ c ∈ ending, isBlank c = false ∧ isNameStart c = false ∧ isDigit c = false ∧
      isRegisterLetter c = false := by decide +kernel
  have hb' := hno b hb
  rw [lexicon_eq, Lexicon.measure_append_of_width hkeys]
  simp only [ending, List.mem_cons, List.not_mem_nil, or_false] at hb
  rcases hb with rfl | rfl | rfl | rfl <;>
    simp [plainRules, signs, Lexicon.measure_rule, Pattern.width_lineBreak_ne_zero, hb',
      Pattern.width_exact_singleton, Pattern.width_marked_cons, Pattern.width_run_cons]
  all_goals simp [Pattern.width, Pattern.nameWidth, hb']

/-- Blanks in front of the end of an operand belong to no keyword and no label. -/
theorem measure_blanks {w rest : Bytes} (hw : ∀ b ∈ w, isBlank b = true) (hne : w ≠ [])
    (hrest : ∀ b ∈ rest.head?, b ∈ ending) :
    lexicon.measure (w ++ rest) = (.whitespace, w.length) := by
  have hhead : rest.head?.any isBlank = false := by
    cases rest with
    | nil => rfl
    | cons c rest => simpa using (not_word_ending (hrest c rfl)).1
  have htake : (w ++ rest).takeWhile isBlank = w := by
    rw [List.takeWhile_append_of_pos hw]
    cases rest <;> simp_all
  have hdrop : (w ++ rest).dropWhile isBlank = rest := by
    rw [List.dropWhile_append_of_pos hw, dropWhile_eq_self_of_head? hhead]
  have hkeys : ∀ r ∈ keywords, r.pattern.width (w ++ rest) = 0 := by
    intro r hr
    obtain ⟨-, word, hp, hword, hbytes⟩ := mem_keywords hr
    have hafter : Pattern.afterWord? word rest = none :=
      Pattern.afterWord?_eq_none hword hbytes fun c hc => (not_word_ending (hrest c hc)).2
    simp [hp, Pattern.width, Pattern.keywordWidth, hdrop, hafter]
  rw [lexicon_eq, Lexicon.measure_append_of_width hkeys]
  cases w with
  | nil => exact absurd rfl hne
  | cons b w =>
    have hname : Pattern.nameWidth 4 (w ++ rest) = 0 := by
      cases w with
      | nil =>
        cases rest with
        | nil => rfl
        | cons c rest => exact Pattern.nameWidth_eq_zero (not_word_ending (hrest c rfl)).2.2.1
      | cons c w =>
        have hc : isBlank c = true := hw c (by simp)
        exact Pattern.nameWidth_eq_zero (separator (separates_of_isBlank hc)).2.1
    have hb : b ∈ [(0x20 : UInt8), 0x09] := by simpa [isBlank] using hw b List.mem_cons_self
    have hno : ∀ c ∈ [(0x20 : UInt8), 0x09], isDigit c = false ∧ isRegisterLetter c = false ∧
        isBlank c = true ∧ c ≠ 0x24 ∧ c ≠ 0x25 ∧ c ≠ 0x23 ∧ c ≠ 0x2C ∧ c ≠ 0x2B ∧ c ≠ 0x2D ∧
        c ≠ 0x28 ∧ c ≠ 0x29 ∧ c ≠ 0x2A := by decide +kernel
    have hrun : Pattern.width (.run isBlank) (b :: (w ++ rest)) = w.length + 1 :=
      congrArg List.length htake
    have hb' := hno b hb
    simp [plainRules, signs, Lexicon.measure_rule, hrun]
    simp [Pattern.width, hname, hb', Ne.symm]

section Collecting

variable {stop : List Kind} {started : Bool}

theorem operandText_spacing (hstop : ∀ k ∈ stop, k = .comma) {w : Bytes} {ts : List Token}
    (hts : ts.head?.any (fun x => x.kind = .comment) = false) :
    operandText stop started (⟨.whitespace, w⟩ :: ts) = operandText stop started ts := by
  apply operandText_blanks _ rfl hts
  intro h
  cases hstop _ h

theorem operandText_other (hstop : ∀ k ∈ stop, k = .comma) {x : Token} (ts : List Token)
    (hx : x.kind ≠ .comma ∧ x.kind ≠ .newline ∧ x.kind ≠ .whitespace ∧ x.kind ≠ .comment) :
    operandText stop started (x :: ts) = withText x.text (operandText stop true ts) :=
  operandText_text (fun h => hx.1 (hstop _ h)) hx.2.1 hx.2.2.1 hx.2.2.2

theorem operandText_comment (hstop : ∀ k ∈ stop, k = .comma) (text : Bytes) (ts : List Token) :
    operandText stop true (⟨.comment, text⟩ :: ts) =
      withText [0x2A] (operandText stop true (lexicon.tokens text.tail)) := by
  apply operandText_product _ rfl
  intro h
  cases hstop _ h

/-- What can stand behind an operand: nothing, a line break, a comment after a blank, or a comma if
the operand ends there. -/
inductive Closes (stop : List Kind) : Bytes → Prop
  | nothing : Closes stop []
  | lineBreak {b : UInt8} {r : Bytes} : b = 0x0D ∨ b = 0x0A → Closes stop (b :: r)
  | comment {b : UInt8} {r : Bytes} : isBlank b = true → Closes stop (b :: 0x2A :: r)
  | comma {r : Bytes} : .comma ∈ stop → Closes stop (0x2C :: r)

theorem Closes.separated {tail : Bytes} (h : Closes stop tail) : Separated tail := by
  cases h with
  | nothing => simp [Separated]
  | lineBreak hb => rcases hb with rfl | rfl <;> simp [Separated, separates]
  | comment hb => simpa [Separated] using separates_of_isBlank hb
  | comma => simp [Separated, separates]

/-- What closes an operand closes it up to the end of the line. -/
theorem Closes.takeWhile {tail : Bytes} (h : Closes stop tail) :
    Closes stop (tail.takeWhile (· != 0x0A)) := by
  cases h with
  | nothing => exact .nothing
  | lineBreak hb =>
    rcases hb with rfl | rfl
    · exact .lineBreak (Or.inl rfl)
    · exact .nothing
  | comment hb =>
    rename_i b r
    have hne : b ≠ 0x0A := by
      rintro rfl
      cases hb
    have htake : (b :: 0x2A :: r).takeWhile (· != 0x0A) = b :: 0x2A :: r.takeWhile (· != 0x0A) := by
      simp [hne]
    rw [htake]
    exact .comment hb
  | comma hstop => exact .comma hstop

/-- Nothing is collected from blanks at the end of an operand. -/
theorem operandText_closes (hstop : ∀ k ∈ stop, k = .comma) {w tail : Bytes}
    (hw : ∀ b ∈ w, isBlank b = true) (htail : Closes stop tail) :
    (operandText stop started (lexicon.tokens (w ++ tail))).1 = [] := by
  have hnil : (operandText stop started []).1 = [] := by rw [operandText]
  have hblanks {rest : Bytes} (hrest : ∀ b ∈ rest.head?, b ∈ ending ∧ b ≠ 0x2A)
      (h : (operandText stop started (lexicon.tokens rest)).1 = []) :
      (operandText stop started (lexicon.tokens (w ++ rest))).1 = [] := by
    by_cases hne : w = []
    · rwa [hne]
    · have hstar : rest.head? ≠ some 0x2A := fun h => (hrest _ h).2 rfl
      have hm := measure_blanks hw hne fun b hb => (hrest b hb).1
      rw [Lexicon.tokens_eq_cons (Lexicon.next?_of_measure hne hm),
        operandText_spacing hstop (any_comment_eq_false hstar), h]
  cases htail with
  | nothing => exact hblanks (by simp) (by rw [Lexicon.tokens_nil, hnil])
  | lineBreak hb =>
    rename_i b r
    have hmem : b ∈ ending ∧ b ≠ 0x2A ∧ b ≠ 0x2C := by rcases hb with rfl | rfl <;> decide
    apply hblanks (by simpa using ⟨hmem.1, hmem.2.1⟩)
    obtain ⟨x, ts, hts, hx, -⟩ := Lexicon.exists_tokens_cons lexicon b r
    rw [kind_ending hmem.1, if_neg hmem.2.2, if_neg hmem.2.1] at hx
    have hk : Kind.newline ∉ stop := fun h => by cases hstop _ h
    rw [hts, operandText, hx, if_neg hk]
  | comment hb =>
    rename_i b r
    obtain ⟨x, ts, hts, hx, -⟩ := Lexicon.exists_tokens_cons lexicon 0x2A r
    rw [kind_ending (by decide)] at hx
    have hw' : ∀ c ∈ w ++ [b], isBlank c = true := by
      simpa [or_imp, forall_and] using ⟨hw, hb⟩
    have hm : lexicon.measure (w ++ [b] ++ 0x2A :: r) = (.whitespace, (w ++ [b]).length) :=
      measure_blanks hw' (by simp) (by simp [ending])
    have hk : Kind.whitespace ∉ stop := fun h => by cases hstop _ h
    rw [List.append_cons, Lexicon.tokens_eq_cons (Lexicon.next?_of_measure (by simp) hm), hts,
      operandText]
    simp [hk, hx]
  | comma hcomma =>
    rename_i r
    apply hblanks (by simp [ending])
    obtain ⟨x, ts, hts, hx, -⟩ := Lexicon.exists_tokens_cons lexicon 0x2C r
    rw [kind_ending (by decide), if_pos rfl] at hx
    rw [hts, operandText, hx, if_pos hcomma]

/-- Whether the blanks at the start of a text are a token by themselves. -/
def dropsBlanks (s : Bytes) : Bool :=
  (lexicon.measure s).1 = .whitespace

/-- A text at no place of which an operand ends: it holds no comma, no line break and no asterisk
behind a blank, which would begin a comment. -/
structure Unbroken (t : Bytes) : Prop where
  bytes : ∀ b ∈ t, b ≠ 0x2C ∧ b ≠ 0x0D ∧ b ≠ 0x0A
  asterisks : t.IsChain fun a b => isBlank a = true → b ≠ 0x2A

namespace Unbroken

variable {t : Bytes}

theorem suffix (h : Unbroken t) {t' : Bytes} (ht : t' <:+ t) : Unbroken t' :=
  ⟨fun b hb => h.bytes b (ht.mem hb), h.asterisks.suffix ht⟩

theorem head?_dropWhile_ne (h : Unbroken t) (hb : t.head?.any isBlank = true) :
    (t.dropWhile isBlank).head? ≠ some 0x2A := by
  have hchain := h.asterisks
  rw [← List.takeWhile_append_dropWhile (p := isBlank) (l := t), List.isChain_append] at hchain
  intro hstar
  cases t with
  | nil => cases hb
  | cons b r =>
    have hne : (b :: r).takeWhile isBlank ≠ [] := by
      have hb' : isBlank b = true := by simpa using hb
      simp [hb']
    have hlast := List.getLast?_eq_some_getLast hne
    have hblank := List.all_eq_true.1 List.all_takeWhile _ (List.getLast_mem hne)
    exact hchain.2.2 _ hlast _ hstar hblank rfl

end Unbroken

theorem thinned_blanks {w : Bytes} (hw : ∀ b ∈ w, isBlank b = true) :
    Expr.Thinned dropsBlanks w [] := by
  cases w with
  | nil => exact .nil
  | cons b r =>
    have hm : lexicon.measure (b :: r ++ []) = (.whitespace, (b :: r).length) :=
      measure_blanks hw (by simp) (by simp)
    rw [List.append_nil] at hm
    apply Expr.Thinned.drop
    · simpa using hw b List.mem_cons_self
    · simp [dropsBlanks, hm]
    · rw [← List.append_nil (b :: r), List.dropWhile_append_of_pos hw]
      exact .nil

theorem tokens_asterisk (s : Bytes) :
    lexicon.tokens (0x2A :: s) = ⟨.comment, 0x2A :: s.takeWhile (· != 0x0A)⟩ ::
      lexicon.tokens (s.dropWhile (· != 0x0A)) := by
  have hk : (lexicon.measure (0x2A :: s)).1 = .comment := kind_ending (by decide) s
  have hp := (measure_of_kind (p := .toLineEnd 0x2A) (by decide) (by simp [plainRules]) hk).1
  have hm : lexicon.measure (0x2A :: s) = (.comment, (0x2A :: s.takeWhile (· != 0x0A)).length) :=
    Prod.ext hk (by rw [← hp]; simp [Pattern.width])
  have hsplit : 0x2A :: s = (0x2A :: s.takeWhile (· != 0x0A)) ++ s.dropWhile (· != 0x0A) := by
    rw [List.cons_append, List.takeWhile_append_dropWhile]
  conv_lhs => rw [hsplit]
  rw [hsplit] at hm
  exact Lexicon.tokens_eq_cons (Lexicon.next?_of_measure (List.cons_ne_nil _ _) hm)

/-- One token of an operand: blanks are left out and any other text is kept. -/
theorem thinned_token (hstop : ∀ k ∈ stop, k = .comma) {b : UInt8} {r tail : Bytes}
    (ht : Unbroken (b :: r)) (hne : ∃ c ∈ b :: r, isBlank c = false) (hstar : b ≠ 0x2A)
    (htail : Closes stop tail)
    (hrest : ∀ rest started, rest <:+ b :: r → rest.length < (b :: r).length →
      (rest.head? = some 0x2A → started = true) → Expr.Thinned dropsBlanks rest
        (operandText stop started (lexicon.tokens (rest ++ tail))).1) :
    Expr.Thinned dropsBlanks (b :: r)
      (operandText stop started (lexicon.tokens (b :: r ++ tail))).1 := by
  have hbreak : ∀ c ∈ b :: r, c ≠ 0x0D ∧ c ≠ 0x0A := fun c hc => (ht.bytes c hc).2
  have hstar' : (b :: r).head? ≠ some 0x2A := by simpa using hstar
  obtain ⟨x, rest, hn⟩ := Lexicon.exists_next?_cons lexicon b r
  have hsplit := Lexicon.next?_append hn
  have hm := Lexicon.measure_of_next? hn
  have hlt := Lexicon.length_lt_of_next? hn
  rw [Lexicon.tokens_eq_cons (next?_append_tail hne (Pattern.uncut hbreak) hstar'
    htail.separated hn)]
  by_cases hk : x.kind = .whitespace
  · obtain ⟨hb, rfl⟩ := span_of_whitespace hn hk
    have hnext := ht.head?_dropWhile_ne hb
    have hafter : ((b :: r).dropWhile isBlank ++ tail).head? ≠ some 0x2A := by
      cases hq : (b :: r).dropWhile isBlank with
      | nil => exact fun h => absurd (htail.separated _ h) (by decide)
      | cons d q => simpa [hq] using hnext
    have hx : x = ⟨.whitespace, x.text⟩ := by rw [← hk]
    rw [hx, operandText_spacing hstop (any_comment_eq_false hafter)]
    apply Expr.Thinned.drop hb
    · simp [dropsBlanks, hm, hk]
    · exact hrest _ started ⟨x.text, hsplit⟩ hlt fun h => absurd h hnext
  · have hkinds : x.kind ≠ .comma ∧ x.kind ≠ .newline ∧ x.kind ≠ .whitespace ∧
        x.kind ≠ .comment := by
      have hfst : (lexicon.measure (b :: r)).1 = x.kind := congrArg Prod.fst hm
      rw [← hfst] at hk ⊢
      exact ⟨kind_ne_of_sign rfl (ht.bytes b List.mem_cons_self).1 r,
        kind_ne_newline (hbreak b List.mem_cons_self) r, hk, kind_ne_of_sign rfl hstar r⟩
    have htoken := hrest rest true ⟨x.text, hsplit⟩ hlt fun _ => rfl
    rw [operandText_other hstop _ hkinds, ← hsplit]
    exact htoken.append_left x.text

/-- What is collected from an operand is its text with blanks left out. -/
theorem thinned_operandText (hstop : ∀ k ∈ stop, k = .comma) {t tail : Bytes} (ht : Unbroken t)
    (hstart : t.head? = some 0x2A → started = true) (htail : Closes stop tail) :
    Expr.Thinned dropsBlanks t (operandText stop started (lexicon.tokens (t ++ tail))).1 := by
  induction hlen : t.length using Nat.strong_induction_on generalizing t tail started with
  | _ n ih =>
  by_cases hblank : ∀ b ∈ t, isBlank b = true
  · rw [operandText_closes hstop hblank htail]
    exact thinned_blanks hblank
  · push Not at hblank
    cases t with
    | nil => simp at hblank
    | cons b r =>
      by_cases hstar : b = 0x2A
      · -- The rest of the line was lexed as a comment and is lexed again.
        subst hstar
        cases hstart rfl
        have hr : ∀ c ∈ r, (c != 0x0A) = true := by
          intro c hc
          simpa using (ht.bytes c (List.mem_cons_of_mem _ hc)).2.2
        rw [List.cons_append, tokens_asterisk, operandText_comment hstop, List.tail_cons,
          List.takeWhile_append_of_pos hr]
        exact (ih r.length (by simp [← hlen]) (ht.suffix (List.suffix_cons _ _)) (fun _ => rfl)
          htail.takeWhile rfl).keep 0x2A
      · apply thinned_token hstop ht (by simpa using hblank) hstar htail
        intro rest started hsuffix hlt hstart
        exact ih _ (hlen ▸ hlt) (ht.suffix hsuffix) hstart htail rfl

end Collecting

def Action.operand? : Action → Option Bytes
  | origin text | equate text | immediate8 _ text | immediate16 _ text => some text
  | indexed _ _ text _ _ => some text
  | nothing | entry _ | inherent _ => none

/-- The keyword of a line, behind its label if it has one, and the tokens that follow it. -/
def Keyword (line : Bytes) (k : Token) (ts : List Token) : Prop :=
  skipBlanks (splitLabel (lexicon.tokens line)).2 = k :: ts

/-- An operand as it is written in a line, and the text that is collected for it. The text of an
immediate operand or of a directive ends with the line or at a comment, that of an offset at the
comma. A written offset is not blank, and begins with neither the sign that negates it nor the mark
of an immediate operand. -/
inductive OperandOf (line : Bytes) : Bytes → Bytes → Prop
  | directive {k : Token} {ts : List Token} {t tail : Bytes} : Keyword line k ts →
      k.kind = .directive → k.word = ofString "ORG" ∨ k.word = ofString "EQU" →
      ts.flatMap (·.text) = t ++ tail → Closes [] tail →
        OperandOf line t (operandText [] false ts).1
  | immediate {k p : Token} {ts us : List Token} {t tail : Bytes} : Keyword line k ts →
      k.kind = .mnemonic → skipBlanks ts = p :: us → p.kind = .pound →
      us.flatMap (·.text) = t ++ tail → Closes [] tail →
        OperandOf line t (operandText [] false us).1
  | offset {k : Token} {ts : List Token} {t rest : Bytes} {b : UInt8} : Keyword line k ts →
      k.kind = .mnemonic → ts.flatMap (·.text) = t ++ 0x2C :: rest →
      (t.dropWhile isBlank).head? = some b → b ≠ 0x2D → b ≠ 0x23 →
        OperandOf line t (operandText [.comma] false (Session.offsetSign (skipBlanks ts)).2).1

theorem skipBlanks_suffix (ts : List Token) : skipBlanks ts <:+ ts :=
  List.dropWhile_suffix _

theorem splitLabel_suffix (ts : List Token) : (splitLabel ts).2 <:+ ts := by
  have h := skipBlanks_suffix ts
  unfold splitLabel
  split
  · exact List.nil_suffix
  · next t r hts =>
    rw [hts] at h
    split
    · exact (List.suffix_cons t r).trans h
    · exact h

/-- The tokens behind the keyword are those of the text behind it. -/
theorem Keyword.tokens_eq {line : Bytes} {k : Token} {ts us : List Token} (h : Keyword line k ts)
    (hus : us <:+ ts) : lexicon.tokens (us.flatMap (·.text)) = us := by
  apply Lexicon.tokens_of_suffix
  have hts : ts <:+ lexicon.tokens line :=
    (List.suffix_cons k ts).trans (h ▸ (skipBlanks_suffix _).trans (splitLabel_suffix _))
  exact hus.trans hts

theorem Keyword.action?_of_directive {line : Bytes} {k : Token} {ts : List Token}
    (h : Keyword line k ts) (hk : k.kind = .directive) (label : Option Bytes) :
    action? label (splitLabel (lexicon.tokens line)).2 = directiveAction? label k.word ts := by
  simp only [action?, show skipBlanks _ = _ from h, hk]

theorem Keyword.action?_of_mnemonic {line : Bytes} {k : Token} {ts : List Token}
    (h : Keyword line k ts) (hk : k.kind = .mnemonic) (label : Option Bytes) :
    action? label (splitLabel (lexicon.tokens line)).2 = instructionAction? k.word ts := by
  simp only [action?, show skipBlanks _ = _ from h, hk]

/-- The first token of an offset, after blanks that are a token by themselves, is no sign and no
mark, and the text of the offset is collected from there. -/
theorem exists_skipBlanks_offset {t tail : Bytes} {b : UInt8} (ht : Unbroken t)
    (hstar : t.head? ≠ some 0x2A) (htail : Separated tail)
    (hb : (t.dropWhile isBlank).head? = some b) (hminus : b ≠ 0x2D) (hpound : b ≠ 0x23) :
    ∃ x ts, skipBlanks (lexicon.tokens (t ++ tail)) = x :: ts ∧ x.kind ≠ .decrement1 ∧
      x.kind ≠ .pound ∧ operandText [.comma] false (x :: ts) =
        operandText [.comma] false (lexicon.tokens (t ++ tail)) := by
  have hbreak : ∀ c ∈ t, c ≠ 0x0D ∧ c ≠ 0x0A := fun c hc => (ht.bytes c hc).2
  have hblank : isBlank b = false := by
    have h := any_head?_dropWhile isBlank t
    rwa [hb] at h
  have hne : ∃ c ∈ t, isBlank c = false :=
    ⟨b, (List.dropWhile_suffix _).mem (List.mem_of_head? hb), hblank⟩
  cases t with
  | nil => cases hb
  | cons c r =>
    obtain ⟨x, rest, hn⟩ := Lexicon.exists_next?_cons lexicon c r
    have hkind : (lexicon.measure (c :: r)).1 = x.kind :=
      congrArg Prod.fst (Lexicon.measure_of_next? hn)
    rw [Lexicon.tokens_eq_cons (next?_append_tail hne (Pattern.uncut hbreak) hstar htail hn)]
    by_cases hk : x.kind = .whitespace
    · obtain ⟨hc, rfl⟩ := span_of_whitespace hn hk
      have hbstar : b ≠ 0x2A := fun h => ht.head?_dropWhile_ne hc (h ▸ hb)
      obtain ⟨q, hq⟩ := List.head?_eq_some_iff.1 hb
      rw [hq, List.cons_append]
      obtain ⟨y, ys, hys, hy, -⟩ := Lexicon.exists_tokens_cons lexicon b (q ++ tail)
      have hyk : y.kind ≠ .whitespace := hy ▸ kind_ne_whitespace hblank _
      have hx : x = ⟨.whitespace, x.text⟩ := by rw [← hk]
      have hcomment := any_comment_eq_false (s := b :: (q ++ tail)) (by simpa using hbstar)
      refine ⟨y, ys, by simp [skipBlanks, hk, hys, hyk], ?_, ?_, ?_⟩
      · exact hy ▸ kind_ne_of_sign rfl hminus _
      · exact hy ▸ kind_ne_of_sign rfl hpound _
      · rw [hx, operandText_spacing (by simp) hcomment, hys]
    · have hc : c ≠ 0x2D ∧ c ≠ 0x23 := by
        by_cases hc : isBlank c = true
        · constructor <;>
          · rintro rfl
            cases hc
        · have hcb : c = b := by simpa [hc] using hb
          exact hcb ▸ ⟨hminus, hpound⟩
      refine ⟨x, _, by simp [skipBlanks, hk], ?_, ?_, rfl⟩
      · exact hkind ▸ kind_ne_of_sign rfl hc.1 r
      · exact hkind ▸ kind_ne_of_sign rfl hc.2 r

theorem OperandOf.thinned {line t u : Bytes} (h : OperandOf line t u) (ht : Unbroken t)
    (hstar : t.head? ≠ some 0x2A) : Expr.Thinned dropsBlanks t u := by
  have hstart : t.head? = some 0x2A → false = true := fun h => absurd h hstar
  cases h with
  | directive hline _ _ htext hclose =>
    rw [← hline.tokens_eq (List.suffix_refl _), htext]
    exact thinned_operandText (by simp) ht hstart hclose
  | immediate hline _ hskip _ htext hclose =>
    have hus := (List.suffix_cons _ _).trans (hskip ▸ skipBlanks_suffix _)
    rw [← hline.tokens_eq hus, htext]
    exact thinned_operandText (by simp) ht hstart hclose
  | offset hline hk htext hb hminus hpound =>
    rename_i k ts rest b
    have hclose : Closes [.comma] (0x2C :: rest) := .comma (List.mem_singleton_self _)
    obtain ⟨x, us, hskip, hx, -, hcollect⟩ :=
      exists_skipBlanks_offset ht hstar hclose.separated hb hminus hpound
    have hsign : (Session.offsetSign (x :: us)).2 = x :: us := by simp [Session.offsetSign, hx]
    rw [← hline.tokens_eq (List.suffix_refl _), htext, hskip, hsign, hcollect]
    exact thinned_operandText (by simp) ht hstart hclose

theorem instructionAction?_operand? {mnemonic e : Bytes} {ts : List Token} {action : Action}
    (h : instructionAction? mnemonic ts = some action) (he : action.operand? = some e) :
    ∃ p us, skipBlanks ts = p :: us ∧
      e = if p.kind = .pound then (operandText [] false us).1
        else (operandText [.comma] false (Session.offsetSign (p :: us)).2).1 := by
  unfold instructionAction? at h
  split at h
  · cases h
  · split at h
    · cases h
      cases he
    · split at h
      · cases h
      · next p us hskip =>
        refine ⟨p, us, hskip, ?_⟩
        split at h
        · next hp =>
          rw [if_pos hp]
          unfold immediateAction? at h
          split at h <;> cases h <;> cases he <;> rfl
        · next hp =>
          rw [if_neg hp]
          split at h
          · cases h
          · simp only [indexedAction?] at h
            split at h
            · cases h
            · next htext =>
              split at h <;> cases h
              cases he
              rw [htext]

/-- The form of a line has the text that is collected. -/
theorem OperandOf.operand?_eq {line t u : Bytes} (h : OperandOf line t u) (ht : Unbroken t)
    (hstar : t.head? ≠ some 0x2A) {form : Form} (hform : Form.read? line = some form) {e : Bytes}
    (he : form.action.operand? = some e) : e = u := by
  obtain ⟨action, haction, rfl⟩ := Option.map_eq_some_iff.1 hform
  cases h with
  | directive hline hk hword _ _ =>
    rw [hline.action?_of_directive hk, directiveAction?] at haction
    rcases hword with hword | hword
    · rw [if_pos hword] at haction
      cases haction
      cases he
      rfl
    · rw [if_neg (by rw [hword]; decide), if_pos hword] at haction
      obtain ⟨_, -, rfl⟩ := Option.map_eq_some_iff.1 haction
      cases he
      rfl
  | immediate hline hk hskip hp _ _ =>
    rw [hline.action?_of_mnemonic hk] at haction
    obtain ⟨p, us, hskip', rfl⟩ := instructionAction?_operand? haction he
    cases hskip.symm.trans hskip'
    rw [if_pos hp]
  | offset hline hk htext hb hminus hpound =>
    rename_i k ts rest b
    rw [hline.action?_of_mnemonic hk] at haction
    obtain ⟨p, us, hskip, rfl⟩ := instructionAction?_operand? haction he
    have htail : Separated (0x2C :: rest) := by simp [Separated, separates]
    obtain ⟨x, xs, hskip', -, hx, -⟩ := exists_skipBlanks_offset ht hstar htail hb hminus hpound
    rw [← htext, hline.tokens_eq (List.suffix_refl _)] at hskip'
    cases hskip.symm.trans hskip'
    rw [if_neg hx, hskip]

/-- What is wrong with an expression in a line, if that is why the line is refused. -/
def Cause.fault? : Cause → Option Expr.Fault
  | expression e => some e.fault
  | _ => none

/-- The operand of a line is evaluated as it is written, with the same value or the same fault,
unless tokens of it join when blanks are left out. If they do, what is written has no value. In
either case the text that is evaluated is that of the form of the line. -/
theorem evaluate_operand {line t u : Bytes} (s : Session) (h : OperandOf line t u)
    (ht : Unbroken t) (hstar : t.head? ≠ some 0x2A) :
    (Expr.joins dropsBlanks (Expr.lexicon.tokens t) = false →
      (s.evaluate u).mapError Cause.fault? =
        (Expr.evaluate t s.equates s.strict).mapError fun e => some e.fault) ∧
    (Expr.joins dropsBlanks (Expr.lexicon.tokens t) = true →
      ∃ e, Expr.evaluate t s.equates s.strict = .error e) ∧
    ∀ form, Form.read? line = some form → ∀ e ∈ form.action.operand?, e = u := by
  have hbreak : ∀ b ∈ t, b ≠ 0x0D ∧ b ≠ 0x0A := fun b hb => (ht.bytes b hb).2
  refine ⟨?_, ?_, ?_⟩
  · intro hj
    have hsame := Expr.evaluate_thinned (h.thinned ht hstar) hbreak hj s.equates s.strict
    have hmap (r : Except Expr.Error UInt16) : (r.mapError Cause.expression).mapError Cause.fault? =
        (r.mapError Expr.Error.fault).mapError some := by cases r <;> rfl
    have hmap' (r : Except Expr.Error UInt16) : r.mapError (fun e => some e.fault) =
        (r.mapError Expr.Error.fault).mapError some := by cases r <;> rfl
    rw [Session.evaluate, hmap, hmap']
    exact congrArg (Except.mapError some) hsame
  · intro hj
    exact Expr.exists_evaluate_eq_error_of_joins hbreak hj s.equates s.strict
  · intro form hform e he
    exact h.operand?_eq ht hstar hform he

/-- An offset with blanks in many places. The asterisk is a product, for it follows a digit. -/
def spacedLine : Bytes :=
  ofString "\tLDB\t 2*( $1F +COUNT ),X"

def countSession : Session where
  pass := .code
  symbols := ∅
  equates := (∅ : Table UInt16).insert (ofString "COUNT") 3
  defined := ∅

theorem operandOf_spacedLine :
    OperandOf spacedLine (ofString "\t 2*( $1F +COUNT )") (ofString "2*($1F+COUNT)") := by
  have hline : Keyword spacedLine ⟨.mnemonic, ofString "\tLDB"⟩
      [⟨.whitespace, ofString "\t "⟩, ⟨.integer, ofString "2"⟩,
        ⟨.comment, ofString "*( $1F +COUNT ),X"⟩] := by
    unfold Keyword
    decide +kernel
  have htext : (operandText [.comma] false (Session.offsetSign (skipBlanks
      [⟨.whitespace, ofString "\t "⟩, ⟨.integer, ofString "2"⟩,
        ⟨.comment, ofString "*( $1F +COUNT ),X"⟩])).2).1 = ofString "2*($1F+COUNT)" := by
    decide +kernel
  have hwritten : ofString "\t 2*( $1F +COUNT ),X" =
      ofString "\t 2*( $1F +COUNT )" ++ 0x2C :: ofString "X" := by decide
  have hfirst : ((ofString "\t 2*( $1F +COUNT )").dropWhile isBlank).head? = some 0x32 := by decide
  rw [← htext]
  exact .offset hline rfl hwritten hfirst (by decide) (by decide)

theorem spacedLine_evaluate :
    OperandOf spacedLine (ofString "\t 2*( $1F +COUNT )") (ofString "2*($1F+COUNT)") ∧
      Unbroken (ofString "\t 2*( $1F +COUNT )") ∧
      Expr.joins dropsBlanks (Expr.lexicon.tokens (ofString "\t 2*( $1F +COUNT )")) = false ∧
      (countSession.evaluate (ofString "2*($1F+COUNT)")).mapError Cause.fault? = .ok 68 := by
  have hunbroken : Unbroken (ofString "\t 2*( $1F +COUNT )") :=
    ⟨by decide +kernel, by decide +kernel⟩
  have hj : Expr.joins dropsBlanks (Expr.lexicon.tokens (ofString "\t 2*( $1F +COUNT )")) =
      false := by decide +kernel
  have hvalue : Expr.evaluate (ofString "\t 2*( $1F +COUNT )") countSession.equates true =
      .ok 68 := by decide +kernel
  have hsame :=
    (evaluate_operand countSession operandOf_spacedLine hunbroken (by decide)).1 hj
  refine ⟨operandOf_spacedLine, hunbroken, hj, hsame.trans ?_⟩
  exact congrArg _ hvalue

def adjacentLine : Bytes :=
  ofString "\tLDA\t#1 2"

theorem operandOf_adjacentLine : OperandOf adjacentLine (ofString "1 2") (ofString "12") := by
  have hline : Keyword adjacentLine ⟨.mnemonic, ofString "\tLDA"⟩
      [⟨.whitespace, ofString "\t"⟩, ⟨.pound, ofString "#"⟩, ⟨.integer, ofString "1"⟩,
        ⟨.whitespace, ofString " "⟩, ⟨.integer, ofString "2"⟩] := by
    unfold Keyword
    decide +kernel
  have htext : (operandText [] false [⟨.integer, ofString "1"⟩, ⟨.whitespace, ofString " "⟩,
      ⟨.integer, ofString "2"⟩]).1 = ofString "12" := by decide +kernel
  have hskip : skipBlanks [⟨.whitespace, ofString "\t"⟩, ⟨.pound, ofString "#"⟩,
      ⟨.integer, ofString "1"⟩, ⟨.whitespace, ofString " "⟩, ⟨.integer, ofString "2"⟩] =
      ⟨.pound, ofString "#"⟩ :: [⟨.integer, ofString "1"⟩, ⟨.whitespace, ofString " "⟩,
        ⟨.integer, ofString "2"⟩] := rfl
  have hwritten : ofString "1" ++ (ofString " " ++ (ofString "2" ++ [])) =
      ofString "1 2" ++ [] := by decide
  rw [← htext]
  exact .immediate hline rfl hskip rfl hwritten .nothing

/-- What is written is no expression, and the assembler takes it for one number. -/
theorem adjacentLine_joins :
    ¬∀ (s : Session) (line t u : Bytes), OperandOf line t u → Unbroken t →
      t.head? ≠ some 0x2A → (s.evaluate u).mapError Cause.fault? =
        (Expr.evaluate t s.equates s.strict).mapError fun e => some e.fault := by
  intro hcommutes
  have hunbroken : Unbroken (ofString "1 2") := ⟨by decide +kernel, by decide +kernel⟩
  have hsame := hcommutes countSession _ _ _ operandOf_adjacentLine hunbroken (by decide)
  have hwritten : Expr.evaluate (ofString "1 2") countSession.equates countSession.strict =
      .error (.malformed (ofString "1 2")) := by decide +kernel
  have hjoined : countSession.evaluate (ofString "12") = .ok 12 := by decide +kernel
  rw [hwritten, hjoined] at hsame
  cases hsame

end Forge6809.Assembly
