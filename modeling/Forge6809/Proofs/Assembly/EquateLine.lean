import Forge6809.Proofs.Assembly.Operand
import Mathlib.Data.List.TakeWhile

/-! # Equates as they are written

A name, a tab, the directive, a tab and a decimal number make up a line that is read as an equate of
that name, and its operand has the value of the number whatever else is known. Lines that stand in
front of a source are read before it and leave its lines as they are. -/

namespace Forge6809

namespace Text

/-- Strings that begin outside a class of bytes are not stripped from a text of that class. -/
theorem stripAny_of_all {member : UInt8 → Bool} {ps : List Bytes}
    (hps : ps.all (fun p => p.head?.any fun b => !member b) = true) {s : Bytes}
    (hs : ∀ b ∈ s, member b = true) : stripAny ps s = s := by
  cases s with
  | nil => rw [stripAny]
  | cons b r =>
    have hnone : ps.find? (·.isPrefixOf (b :: r)) = none := by
      rw [List.find?_eq_none]
      intro p hp
      have hhead := List.all_eq_true.1 hps p hp
      cases p with
      | nil => cases hhead
      | cons c p =>
        have hne : c ≠ b := by
          rintro rfl
          simp [hs c List.mem_cons_self] at hhead
        simp [hne]
    rw [stripAny, hnone]

/-- A text of letters, digits and underscores has no white space around it. -/
theorem trim_of_words {s : Bytes} (h : ∀ b ∈ s, isWordByte b = true) : trim s = s := by
  have hreverse : ∀ b ∈ s.reverse, isWordByte b = true :=
    fun b hb => h b (List.mem_reverse.1 hb)
  rw [trim, stripAny_of_all (by decide) h, stripAny_of_all (by decide) hreverse,
    List.reverse_reverse]

theorem rawLines_append {s : Bytes} (h : ∀ b ∈ s, b ≠ 0x0A) (rest : Bytes) :
    rawLines (s ++ 0x0A :: rest) = s :: rawLines rest := by
  have hall : ∀ b ∈ s, (b != 0x0A) = true := fun b hb => bne_iff_ne.2 (h b hb)
  have htake : (s ++ 0x0A :: rest).takeWhile (· != 0x0A) = s := by
    rw [List.takeWhile_append_of_pos hall]
    simp
  have hdrop : (s ++ 0x0A :: rest).dropWhile (· != 0x0A) = 0x0A :: rest := by
    rw [List.dropWhile_append_of_pos hall]
    simp
  rw [rawLines.eq_def]
  split
  · next hnil => simp at hnil
  · next b r hcons => rw [← hcons, htake, hdrop, List.tail_cons]

theorem lines_append {s : Bytes} (h : ∀ b ∈ s, b ≠ 0x0D ∧ b ≠ 0x0A) (rest : Bytes) :
    lines (s ++ 0x0A :: rest) = s :: lines rest := by
  have htrim : trimEnd (fun b => b == 0x0D || b == 0x0A) s = s := by
    have hend := trimEnd_append (p := fun b => b == 0x0D || b == 0x0A) (s := s) (t := [])
      (by simpa using h) (by simp)
    rwa [List.append_nil] at hend
  rw [lines, rawLines_append fun b hb => (h b hb).2, List.map_cons, htrim, ← lines]

theorem toNat_of_isDigit {c : Char} (h : c.isDigit = true) :
    0x30 ≤ c.toNat ∧ c.toNat ≤ 0x39 ∧ c.toNat.toUInt8.toNat = c.toNat := by
  simp only [Char.isDigit, Bool.and_eq_true, decide_eq_true_eq, ge_iff_le,
    UInt32.le_iff_toNat_le] at h
  have hbounds : 0x30 ≤ c.toNat ∧ c.toNat ≤ 0x39 := h
  refine ⟨hbounds.1, hbounds.2, ?_⟩
  rw [Nat.toUInt8, UInt8.toNat_ofNat']
  omega

theorem isDigit_toUInt8 {c : Char} (h : c.isDigit = true) : isDigit c.toNat.toUInt8 = true := by
  obtain ⟨hlow, hhigh, hbyte⟩ := toNat_of_isDigit h
  simp only [isDigit, Bool.and_eq_true, decide_eq_true_eq, UInt8.le_iff_toNat_le, hbyte]
  exact ⟨hlow, hhigh⟩

theorem isDigit_of_mem_decimal {n : Nat} {b : UInt8} (h : b ∈ decimal n) : isDigit b = true := by
  obtain ⟨c, hc, rfl⟩ := List.mem_map.1 h
  exact isDigit_toUInt8 (Nat.isDigit_of_mem_toDigits (by decide) (by decide) hc)

theorem decimal_ne_nil (n : Nat) : decimal n ≠ [] := by
  simp [decimal, digits, Nat.toDigits_ne_nil]

theorem foldl_digitValue? {cs : List Char} (h : ∀ c ∈ cs, c.isDigit = true) (init : Nat) :
    (cs.map fun c => c.toNat.toUInt8).foldl (fun n b => n * 10 + (digitValue? b).getD 0) init =
      Nat.ofDigitChars 10 cs init := by
  induction cs generalizing init with
  | nil => rfl
  | cons c cs ih =>
    rw [List.forall_mem_cons] at h
    obtain ⟨-, -, hbyte⟩ := toNat_of_isDigit h.1
    rw [List.map_cons, List.foldl_cons, ih h.2, Nat.ofDigitChars_cons, digitValue?,
      if_pos (isDigit_toUInt8 h.1), hbyte, Nat.mul_comm init]
    rfl

/-- A decimal numeral stands for its number. -/
theorem numeralValue_decimal (n : Nat) : numeralValue 10 (decimal n) = n := by
  rw [numeralValue, decimal, digits, foldl_digitValue?, Nat.ofDigitChars_ten_toDigits]
  exact fun c => Nat.isDigit_of_mem_toDigits (by decide) (by decide)

end Text

open Text

theorem digit {b : UInt8} (h : isDigit b = true) : isWordByte b = true ∧ isNameStart b = false ∧
    b ≠ 0x24 ∧ b ≠ 0x25 ∧ Expr.opens b none = .integer ∧ upperByte b = b ∧ b ≠ 0xC5 := by
  have hne : ∀ c : UInt8, isDigit c = false → b ≠ c := by
    rintro c hc rfl
    exact absurd h (Bool.eq_false_iff.1 hc)
  have hbounds : 0x30 ≤ b ∧ b ≤ 0x39 := by simpa [isDigit] using h
  have hstart : isNameStart b = false := by
    simp only [isNameStart, isLetter, beq_eq_false_iff_ne.2 (hne 0x5F rfl), Bool.or_false,
      Bool.or_eq_false_iff, Bool.and_eq_false_iff, decide_eq_false_iff_not]
    grind
  have hupper : upperByte b = b := by
    simp only [upperByte, Bool.and_eq_true, decide_eq_true_eq]
    grind
  refine ⟨by rw [isWordByte, h, Bool.or_true], hstart, hne _ rfl, hne _ rfl, ?_, hupper, hne _ rfl⟩
  simp [Expr.opens, hne 0x28 rfl, hne 0x29 rfl, hne 0x2A rfl, hne 0x2B rfl, hne 0x2D rfl, hstart, h]

theorem wordByte {b : UInt8} (h : isWordByte b = true) :
    isBlank b = false ∧ b ≠ 0x0D ∧ b ≠ 0x0A ∧ b ≠ 0x2A := by
  refine ⟨Expr.isBlank_of_isWordByte h, ?_, ?_, ?_⟩ <;>
    rintro rfl <;>
    exact absurd h (by decide)

theorem Expr.tokens_decimal (n : Nat) :
    Expr.lexicon.tokens (decimal n) = [⟨.integer, decimal n⟩] := by
  cases hn : decimal n with
  | nil => exact absurd hn (decimal_ne_nil n)
  | cons b r =>
    have hdigit : ∀ c ∈ b :: r, isDigit c = true := fun c hc => isDigit_of_mem_decimal (hn ▸ hc)
    rw [List.forall_mem_cons] at hdigit
    obtain ⟨hword, -, hdollar, hpercent, hinteger, -⟩ := digit hdigit.1
    obtain ⟨-, hreturn, hfeed, -⟩ := wordByte hword
    have hopens : Expr.opens b r.head? = .integer := by
      rw [Expr.opens_of_ne hdollar hpercent _ none, hinteger]
    have hnext := Expr.next?_cons ⟨hreturn, hfeed⟩ hopens (by decide)
    have htake : r.takeWhile (Expr.continues .integer) = r := List.takeWhile_eq_self_iff.2 hdigit.2
    have hdrop : r.dropWhile (Expr.continues .integer) = [] := List.dropWhile_eq_nil_iff.2 hdigit.2
    rw [htake, hdrop] at hnext
    rw [Lexicon.tokens_eq_cons hnext, Lexicon.tokens_nil]

/-- A decimal operand has the value of its number, whatever names are known. -/
theorem Expr.evaluate_decimal {n : Nat} (h : n < 2 ^ 64) (names : Expr.Resolver) (strict : Bool) :
    Expr.evaluate (decimal n) names strict = .ok (UInt16.ofNat n) := by
  rw [Expr.evaluate_eq_ok_iff_denotes, Expr.Denotes, Expr.tokens_decimal]
  refine ⟨.literal n, .term (.factor (.leaf ?_)), ?_, ?_, ?_⟩
  · simp [Expr.leaf?, numeralValue_decimal]
  · simpa [Expr.Tree.literals] using h
  · simp [Expr.Tree.names]
  · exact (Expr.Tree.word_literal _ n).symm

namespace Assembly

/-- Whether a text can stand as a label: a letter or an underscore and at least four letters,
digits and underscores. -/
def isName : Bytes → Bool
  | [] => false
  | b :: r => isNameStart b && r.all isWordByte && 4 ≤ r.length

theorem isWordByte_of_isName {name : Bytes} (h : isName name = true) :
    name ≠ [] ∧ ∀ b ∈ name, isWordByte b = true := by
  cases name with
  | nil => cases h
  | cons b r =>
    simp only [isName, Bool.and_eq_true, List.all_eq_true] at h
    refine ⟨List.cons_ne_nil b r, List.forall_mem_cons.2 ⟨?_, h.1.2⟩⟩
    rw [isWordByte, h.1.1, Bool.true_or]

/-- Keywords follow a blank. -/
theorem measure_of_not_blank {s : Bytes} (h : s.head?.any isBlank = false) :
    lexicon.measure s = Lexicon.measure plainRules s := by
  rw [lexicon_eq, Lexicon.measure_append_of_width]
  intro r hr
  obtain ⟨-, word, hp, -⟩ := mem_keywords hr
  simp [hp, Pattern.width, Pattern.keywordWidth, h]

theorem measure_name {name : Bytes} (h : isName name = true) :
    lexicon.measure name = (.identifier, name.length) := by
  cases name with
  | nil => cases h
  | cons b r =>
    have hblank : isBlank b = false :=
      (wordByte ((isWordByte_of_isName h).2 b List.mem_cons_self)).1
    simp only [isName, Bool.and_eq_true, List.all_eq_true, decide_eq_true_eq] at h
    have htake : r.takeWhile isWordByte = r := List.takeWhile_eq_self_iff.2 h.1.2
    have hwidth : Pattern.width (.name true 4) (b :: r) = (b :: r).length := by
      simp [Pattern.width, Pattern.nameWidth, hblank, htake, h.1.1, h.2]
    rw [measure_of_not_blank (by simpa using hblank), plainRules, Lexicon.measure_rule, hwidth,
      if_neg (by simp)]

theorem measure_decimal (n : Nat) :
    lexicon.measure (decimal n) = (.integer, (decimal n).length) := by
  cases hn : decimal n with
  | nil => exact absurd hn (decimal_ne_nil n)
  | cons b r =>
    have hdigits : ∀ c ∈ b :: r, isDigit c = true := fun c hc => isDigit_of_mem_decimal (hn ▸ hc)
    obtain ⟨hword, hstart, hdollar, hpercent, -⟩ := digit (hdigits b List.mem_cons_self)
    obtain ⟨hblank, -⟩ := wordByte hword
    have hrun : Pattern.width (.run isDigit) (b :: r) = (b :: r).length :=
      congrArg List.length (List.takeWhile_eq_self_iff.2 hdigits)
    rw [measure_of_not_blank (by simpa using hblank)]
    simp [plainRules, Lexicon.measure_rule, hrun]
    simp [Pattern.width, Pattern.nameWidth, hblank, hstart, hdollar, hpercent]

/-- No keyword begins with a digit. -/
theorem afterWord?_digit {r : Rule} (hr : r ∈ keywords) {word : Bytes}
    (h : r.pattern = .keyword word) {b : UInt8} (hb : isDigit b = true) (s : Bytes) :
    Pattern.afterWord? word (b :: s) = none := by
  have hall : keywords.all (fun r => match r.pattern with
      | .keyword word => word.head?.any fun w => !isDigit w
      | _ => true) = true := by decide
  have hword := List.all_eq_true.1 hall r hr
  simp only [h] at hword
  cases word with
  | nil => cases hword
  | cons w ws =>
    have hne : b ≠ w := by
      rintro rfl
      simp [hb] at hword
    simp [Pattern.afterWord?, digit hb, hne]

theorem measure_tab_decimal (n : Nat) :
    lexicon.measure ([0x09] ++ decimal n) = (.whitespace, [(0x09 : UInt8)].length) := by
  cases hn : decimal n with
  | nil => exact absurd hn (decimal_ne_nil n)
  | cons b r =>
    have hdigit : isDigit b = true := isDigit_of_mem_decimal (hn ▸ List.mem_cons_self)
    obtain ⟨hword, hstart, -⟩ := digit hdigit
    obtain ⟨hblank, -⟩ := wordByte hword
    have htab : isBlank 0x09 = true := rfl
    have hkeys : ∀ r' ∈ keywords, r'.pattern.width ([0x09] ++ b :: r) = 0 := by
      intro r' hr'
      obtain ⟨-, word, hp, -⟩ := mem_keywords hr'
      simp [hp, Pattern.width, Pattern.keywordWidth, htab, hblank, afterWord?_digit hr' hp hdigit]
    have hrun : Pattern.width (.run isBlank) (0x09 :: b :: r) = 1 := by
      simp [Pattern.width, htab, hblank]
    have hno : isDigit 0x09 = false ∧ isRegisterLetter 0x09 = false := by decide
    rw [lexicon_eq, Lexicon.measure_append_of_width hkeys]
    simp [plainRules, signs, Lexicon.measure_rule, hrun]
    simp [Pattern.width, Pattern.nameWidth, htab, hstart, hno]

def equateLine (name : Bytes) (value : UInt16) : Bytes :=
  name ++ ofString "\tEQU\t" ++ decimal value.toNat

theorem equateLine_eq (name : Bytes) (value : UInt16) : equateLine name value =
    name ++ (ofString "\tEQU" ++ ([0x09] ++ decimal value.toNat)) := by
  have htab : ofString "\tEQU\t" = ofString "\tEQU" ++ [0x09] := by decide
  rw [equateLine, htab, List.append_assoc, List.append_assoc]

theorem tokens_equateLine {name : Bytes} (h : isName name = true) (value : UInt16) :
    lexicon.tokens (equateLine name value) = [⟨.identifier, name⟩, ⟨.directive, ofString "\tEQU"⟩,
      ⟨.whitespace, [0x09]⟩, ⟨.integer, decimal value.toNat⟩] := by
  obtain ⟨hne, hword⟩ := isWordByte_of_isName h
  obtain ⟨b, hb⟩ := List.exists_mem_of_ne_nil name hne
  have hequ : ofString "\tEQU" = [0x09, 0x45, 0x51, 0x55] := by decide
  have htabbed (s : Bytes) : Separated ([0x09] ++ s) := by simp [Separated, separates, isBlank]
  have hname : lexicon.next? (name ++ (ofString "\tEQU" ++ ([0x09] ++ decimal value.toNat))) =
      some (⟨.identifier, name⟩, ofString "\tEQU" ++ ([0x09] ++ decimal value.toNat)) := by
    apply Lexicon.next?_of_measure hne
    rw [measure_append ⟨b, hb, (wordByte (hword b hb)).1⟩, measure_name h]
    · exact Pattern.uncut fun c hc =>
        ⟨(wordByte (hword c hc)).2.1, (wordByte (hword c hc)).2.2.1⟩
    · intro hstar
      exact (wordByte (hword _ (List.mem_of_mem_head? hstar))).2.2.2 rfl
    · rw [hequ]
      exact htabbed _
  have hdirective : lexicon.next? (ofString "\tEQU" ++ ([0x09] ++ decimal value.toNat)) =
      some (⟨.directive, ofString "\tEQU"⟩, [0x09] ++ decimal value.toNat) := by
    have hnext : lexicon.next? (ofString "\tEQU") = some (⟨.directive, ofString "\tEQU"⟩, []) := by
      decide +kernel
    apply next?_append_tail _ _ _ (htabbed _) hnext
    · exact ⟨0x45, by simp [hequ], rfl⟩
    · simp [hequ]
    · simp [hequ]
  have htab : lexicon.next? ([0x09] ++ decimal value.toNat) =
      some (⟨.whitespace, [0x09]⟩, decimal value.toNat) :=
    Lexicon.next?_of_measure (List.cons_ne_nil _ _) (measure_tab_decimal value.toNat)
  have hnumber : lexicon.next? (decimal value.toNat) =
      some (⟨.integer, decimal value.toNat⟩, []) := by
    rw [Lexicon.next?_eq_of_measure (decimal_ne_nil _) (measure_decimal _), List.take_length,
      List.drop_length]
  rw [equateLine_eq, Lexicon.tokens_eq_cons hname, Lexicon.tokens_eq_cons hdirective,
    Lexicon.tokens_eq_cons htab, Lexicon.tokens_eq_cons hnumber, Lexicon.tokens_nil]

/-- The line is read as an equate. -/
theorem read?_equateLine {name : Bytes} (h : isName name = true) (value : UInt16) :
    Form.read? (equateLine name value) =
      some ⟨some (upper name), .equate (decimal value.toNat)⟩ := by
  have hlabel : splitLabel (lexicon.tokens (equateLine name value)) = (some (upper name),
      [⟨.directive, ofString "\tEQU"⟩, ⟨.whitespace, [0x09]⟩,
        ⟨.integer, decimal value.toNat⟩]) := by
    rw [tokens_equateLine h]
    simp [splitLabel, skipBlanks, Token.word, trim_of_words (isWordByte_of_isName h).2]
  have hoperand : (operandText [] false [⟨.whitespace, [0x09]⟩,
      ⟨.integer, decimal value.toNat⟩]).1 = decimal value.toNat := by
    rw [operandText_spacing (by simp) rfl, operandText_other (by simp) _ (by simp), operandText,
      withText, List.append_nil]
  have hword : Token.word ⟨.directive, ofString "\tEQU"⟩ = ofString "EQU" := by decide +kernel
  have hne : ofString "EQU" ≠ ofString "ORG" := by decide
  rw [Form.read?, label?, hlabel]
  simp [action?, skipBlanks, directiveAction?, hword, hne, hoperand]

theorem equation?_equateLine {name : Bytes} (h : isName name = true) (value : UInt16) :
    equation? (equateLine name value) = some (upper name, decimal value.toNat) :=
  equation?_eq_some_iff.2 (read?_equateLine h value)

def withEquates (defs : List (Bytes × UInt16)) (source : Bytes) : Bytes :=
  defs.flatMap (fun d => equateLine d.1 d.2 ++ [0x0A]) ++ source

theorem equateLine_bytes {name : Bytes} (h : isName name = true) (value : UInt16) :
    ∀ b ∈ equateLine name value, b ≠ 0x0D ∧ b ≠ 0x0A := by
  have hwords {s : Bytes} (hs : ∀ b ∈ s, isWordByte b = true) : ∀ b ∈ s, b ≠ 0x0D ∧ b ≠ 0x0A :=
    fun b hb => ⟨(wordByte (hs b hb)).2.1, (wordByte (hs b hb)).2.2.1⟩
  have hequ : ofString "\tEQU" = [0x09, 0x45, 0x51, 0x55] := by decide
  rw [equateLine_eq, List.forall_mem_append, List.forall_mem_append, List.forall_mem_append, hequ]
  exact ⟨hwords (isWordByte_of_isName h).2, by simp, by simp,
    hwords fun b hb => (digit (isDigit_of_mem_decimal hb)).1⟩

theorem lines_withEquates {defs : List (Bytes × UInt16)} (h : ∀ d ∈ defs, isName d.1 = true)
    (source : Bytes) : lines (withEquates defs source) =
      defs.map (fun d => equateLine d.1 d.2) ++ lines source := by
  induction defs with
  | nil => rfl
  | cons d defs ih =>
    rw [List.forall_mem_cons] at h
    rw [withEquates, List.flatMap_cons, List.append_assoc, List.append_assoc,
      List.singleton_append, lines_append (equateLine_bytes h.1 d.2), ← withEquates, ih h.2,
      List.map_cons, List.cons_append]

end Assembly
end Forge6809
