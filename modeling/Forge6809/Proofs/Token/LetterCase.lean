import Forge6809.Assembly.Lexicon
import Forge6809.Expr.Lexicon
import Forge6809.Proofs.Text.Uppercase
import Forge6809.Proofs.Token.Lexing
import Forge6809.Word

/-! # Texts that differ in the case of letters

Putting the letters of a text in upper case moves no byte out of a class in which the lexical rules
are written, and makes no sign, blank, line break or byte outside ASCII of any other byte. So a text
and its upper case have the same lines, white space and tokens, up to the case of what they say, and
names that differ in case only are the same word. -/

namespace Forge6809

namespace Text

/-- Only letters change, and only to letters. -/
theorem upperByte_eq_self_or (b : UInt8) :
    upperByte b = b ∨ isLetter b = true ∧ isLetter (upperByte b) = true := by
  revert b
  apply forall_byte
  decide +kernel

theorem upperByte_eq_iff {b c : UInt8} (hc : isLetter c = false) : upperByte b = c ↔ b = c := by
  rcases upperByte_eq_self_or b with h | ⟨hb, hu⟩
  · rw [h]
  · have hne {d : UInt8} (hd : isLetter d = true) : d ≠ c := by
      rintro rfl
      rw [hd] at hc
      cases hc
    exact iff_of_false (hne hu) (hne hb)

/-- A class of bytes that contains both cases of a letter or neither. -/
def CaseBlind (p : UInt8 → Bool) : Prop :=
  ∀ b, p (upperByte b) = p b

/-- The classes of the lexical rules. -/
theorem caseBlind_classes : CaseBlind isBlank ∧ CaseBlind isDigit ∧ CaseBlind isBinaryDigit ∧
    CaseBlind isHexDigit ∧ CaseBlind isNameStart ∧ CaseBlind isWordByte ∧
    CaseBlind Assembly.isRegisterLetter := by
  refine ⟨?_, ?_, ?_, ?_, ?_, ?_, ?_⟩ <;> exact forall_byte (by decide +kernel)

theorem caseBlind_bne {c : UInt8} (hc : isLetter c = false) : CaseBlind (· != c) := by
  intro b
  rw [Bool.eq_iff_iff, bne_iff_ne, bne_iff_ne, ne_eq, ne_eq, upperByte_eq_iff hc]

theorem digitValue?_upperByte (b : UInt8) : digitValue? (upperByte b) = digitValue? b := by
  revert b
  apply forall_byte
  decide +kernel

theorem numeralValue_map_upperByte (base : Nat) (s : Bytes) :
    numeralValue base (s.map upperByte) = numeralValue base s := by
  simp only [numeralValue, List.foldl_map, digitValue?_upperByte]

theorem takeWhile_map_upperByte {p : UInt8 → Bool} (hp : CaseBlind p) (s : Bytes) :
    (s.map upperByte).takeWhile p = (s.takeWhile p).map upperByte := by
  rw [List.takeWhile_map]
  congr 2
  funext b
  exact hp b

theorem dropWhile_map_upperByte {p : UInt8 → Bool} (hp : CaseBlind p) (s : Bytes) :
    (s.map upperByte).dropWhile p = (s.dropWhile p).map upperByte := by
  rw [List.dropWhile_map]
  congr 2
  funext b
  exact hp b

theorem any_head?_map_upperByte {p : UInt8 → Bool} (hp : CaseBlind p) (s : Bytes) :
    (s.map upperByte).head?.any p = s.head?.any p := by
  cases s with
  | nil => rfl
  | cons b r => exact hp b

theorem isPrefixOf_map_upperByte {text : Bytes} (htext : text.any isLetter = false)
    (s : Bytes) : text.isPrefixOf (s.map upperByte) = text.isPrefixOf s := by
  induction text generalizing s with
  | nil => rfl
  | cons a text ih =>
    rw [List.any_cons, Bool.or_eq_false_iff] at htext
    cases s with
    | nil => rfl
    | cons b s =>
      have hab : (a == upperByte b) = (a == b) := by
        rw [Bool.eq_iff_iff, beq_iff_eq, beq_iff_eq, eq_comm, upperByte_eq_iff htext.1, eq_comm]
      rw [List.map_cons, List.isPrefixOf_cons_cons, List.isPrefixOf_cons_cons, hab, ih htext.2]

namespace Utf8

theorem upperByte_of_le {b : UInt8} (h : 0x80 ≤ b.toNat) : upperByte b = b := by
  rw [← UInt8.toNat_inj, toNat_upperByte]
  split <;> omega

theorem decode_of_lt {a : UInt8} (h : a.toNat < 0x80) (r : Bytes) :
    decode (a :: r) = some (a.toNat, 1) := by
  have hsize : sizeOfFirst a = 1 := by rw [sizeOfFirst_eq, if_pos h]
  simp only [decode, hsize]

theorem upperCode_toNat_upperByte {a : UInt8} (h : a.toNat < 0x80) :
    (upperByte a).toNat < 0x80 ∧ upperCode (upperByte a).toNat = upperCode a.toNat := by
  have hupper : (upperByte a).toNat < 0x80 := by
    rw [toNat_upperByte]
    split <;> omega
  rw [upperCode_of_lt hupper, upperCode_of_lt h, ← toNat_upperByte, ← toNat_upperByte,
    upperByte_upperByte]
  exact ⟨hupper, rfl⟩

/-- Outside ASCII nothing changes: the bytes that belong to a character are outside ASCII too. -/
theorem decode_map_upperByte_of_le {a : UInt8} (h : 0x80 ≤ a.toNat) (r : Bytes) :
    decode (upperByte a :: r.map upperByte) = decode (a :: r) := by
  have htail (b : UInt8) : isTail (upperByte b) = isTail b := by
    rw [Bool.eq_iff_iff, isTail_eq_true_iff, isTail_eq_true_iff, toNat_upperByte]
    split <;> omega
  have hsecond (b : UInt8) : isSecond a (upperByte b) = isSecond a b := by
    rw [Bool.eq_iff_iff, isSecond_eq_true_iff, isSecond_eq_true_iff, toNat_upperByte]
    split <;> omega
  have htail' {b : UInt8} (hb : isTail b = true) : upperByte b = b :=
    upperByte_of_le (isTail_eq_true_iff.1 hb).1
  have hsecond' {b : UInt8} (hb : isSecond a b = true) : upperByte b = b :=
    upperByte_of_le (isSecond_eq_true_iff.1 hb).1
  rw [upperByte_of_le h]
  simp only [decode]
  generalize sizeOfFirst a = n
  rcases r with _ | ⟨b₁, _ | ⟨b₂, _ | ⟨b₃, r⟩⟩⟩ <;> grind

/-- The first character of a text in another case is the same but for its case. -/
theorem decode_map_upperByte (s : Bytes) :
    (decode (s.map upperByte)).map (fun c => (upperCode c.1, c.2)) =
      (decode s).map fun c => (upperCode c.1, c.2) := by
  cases s with
  | nil => rfl
  | cons a r =>
    by_cases ha : a.toNat < 0x80
    · obtain ⟨hupper, hcode⟩ := upperCode_toNat_upperByte ha
      rw [List.map_cons, decode_of_lt ha, decode_of_lt hupper, Option.map_some, Option.map_some,
        hcode]
    · rw [List.map_cons, decode_map_upperByte_of_le (Nat.le_of_not_lt ha)]

theorem width_map_upperByte (s : Bytes) : width (s.map upperByte) = width s := by
  cases s with
  | nil => rfl
  | cons a r =>
    have h := congrArg (Option.map Prod.snd) (decode_map_upperByte (a :: r))
    simp only [Option.map_map, Function.comp_def, List.map_cons] at h
    simp only [width, List.map_cons]
    cases hu : decode (upperByte a :: r.map upperByte) <;> cases hd : decode (a :: r) <;>
      simp_all

end Utf8

theorem mapChars_map_upperByte (s : Bytes) :
    mapChars upperCode (s.map upperByte) = mapChars upperCode s := by
  fun_induction mapChars upperCode s with
  | case1 => rw [List.map_nil, mapChars]
  | case2 a r code n hdecode ih =>
    have h := Utf8.decode_map_upperByte (a :: r)
    rw [hdecode, Option.map_some, Option.map_eq_some_iff] at h
    obtain ⟨⟨code', n'⟩, hd, heq⟩ := h
    obtain ⟨hcode, rfl⟩ := Prod.mk.inj heq
    rw [List.map_cons] at hd
    rw [List.map_cons, mapChars, hd]
    dsimp only
    rw [hcode, ← List.map_drop, ih]
  | case3 a r hdecode ih =>
    have h := Utf8.decode_map_upperByte (a :: r)
    rw [hdecode, Option.map_none, Option.map_eq_none_iff, List.map_cons] at h
    rw [List.map_cons, mapChars, h]
    dsimp only
    rw [ih]

/-- The upper case of a text does not depend on the case of its letters. -/
theorem upper_map_upperByte (s : Bytes) : upper (s.map upperByte) = upper s := by
  rw [upper_eq, upper_eq, mapChars_map_upperByte]

theorem stripAny_map_upperByte {ps : List Bytes} (hps : ∀ p ∈ ps, p.any isLetter = false)
    (s : Bytes) : stripAny ps (s.map upperByte) = (stripAny ps s).map upperByte := by
  have hfind (t : Bytes) :
      ps.find? (·.isPrefixOf (t.map upperByte)) = ps.find? (·.isPrefixOf t) := by
    apply List.find?_congr
    intro p hp
    exact isPrefixOf_map_upperByte (hps p hp) t
  fun_induction stripAny ps s with
  | case1 => rw [List.map_nil, stripAny]
  | case2 a r p hp ih =>
    rw [← hfind, List.map_cons] at hp
    rw [List.map_cons, stripAny, hp]
    dsimp only
    rw [← List.map_drop, ih]
  | case3 a r hp =>
    rw [← hfind, List.map_cons] at hp
    rw [List.map_cons, stripAny, hp]

theorem trim_map_upperByte (s : Bytes) : trim (s.map upperByte) = (trim s).map upperByte := by
  have hspaces : ∀ p ∈ spaces, p.any isLetter = false := by decide +kernel
  have hreverse : ∀ p ∈ spaces.map List.reverse, p.any isLetter = false := by decide +kernel
  rw [trim, trim, stripAny_map_upperByte hspaces, ← List.map_reverse,
    stripAny_map_upperByte hreverse, List.map_reverse]

theorem rawLines_map_upperByte (s : Bytes) :
    rawLines (s.map upperByte) = (rawLines s).map (List.map upperByte) := by
  have hfeed : CaseBlind (· != 0x0A) := caseBlind_bne (by decide)
  fun_induction rawLines s with
  | case1 => rw [List.map_nil, rawLines, List.map_nil]
  | case2 b r ih =>
    rw [List.map_cons, rawLines, ← List.map_cons, takeWhile_map_upperByte hfeed,
      dropWhile_map_upperByte hfeed, ← List.map_tail, ih, List.map_cons]

theorem lines_map_upperByte (s : Bytes) :
    lines (s.map upperByte) = (lines s).map (List.map upperByte) := by
  have hbreak : CaseBlind fun b => b == 0x0D || b == 0x0A := by
    intro b
    rw [Bool.eq_iff_iff]
    simp only [Bool.or_eq_true, beq_iff_eq]
    rw [upperByte_eq_iff (by decide), upperByte_eq_iff (by decide)]
  rw [lines, lines, rawLines_map_upperByte, List.map_map, List.map_map]
  congr 1
  funext t
  simp only [Function.comp_apply, trimEnd]
  rw [← List.map_reverse, dropWhile_map_upperByte hbreak, List.map_reverse]

end Text

open Text

namespace Pattern

/-- The parameters of a pattern tell no letter from its other case. -/
def CaseBlind : Pattern → Prop
  | keyword _ | name _ _ | lineBreak => True
  | run member | oneOf member => Text.CaseBlind member
  | marked mark member => isLetter mark = false ∧ Text.CaseBlind member
  | exact text => text.any isLetter = false
  | toLineEnd mark => isLetter mark = false

theorem afterWord?_map_upperByte (word s : Bytes) :
    afterWord? word (s.map upperByte) = (afterWord? word s).map (List.map upperByte) := by
  fun_induction afterWord? word s with
  | case1 s => rfl
  | case2 ws b r ih =>
    rw [List.map_cons, afterWord?, if_pos (upperByte_upperByte b), ih]
  | case3 w ws b r hne hlong ih =>
    -- Neither byte of the long s is a letter of ASCII.
    obtain ⟨rfl, rfl, hr⟩ := hlong
    have hr' : (r.map upperByte).head? = some 0xBF := by
      rw [List.head?_map, hr]
      rfl
    have hsame : upperByte (0xC5 : UInt8) = 0xC5 := rfl
    rw [List.map_cons, afterWord?, hsame, if_neg (by decide), if_pos ⟨rfl, rfl, hr'⟩,
      ← List.map_tail, ih]
  | case4 w ws b r hne hlong =>
    have hlong' : ¬(w = 0x53 ∧ upperByte b = 0xC5 ∧ (r.map upperByte).head? = some 0xBF) := by
      rintro ⟨hw, hb, hr⟩
      apply hlong
      refine ⟨hw, (upperByte_eq_iff (by decide)).1 hb, ?_⟩
      rw [List.head?_map, Option.map_eq_some_iff] at hr
      obtain ⟨c, hc, hupper⟩ := hr
      rw [hc, (upperByte_eq_iff (by decide)).1 hupper]
    rw [List.map_cons, afterWord?, upperByte_upperByte, if_neg hne, if_neg hlong']
    rfl
  | case5 w ws => rfl

theorem isBoundary_map_upperByte (before after : Option UInt8) :
    isBoundary (before.map upperByte) (after.map upperByte) = isBoundary before after := by
  have hword : Text.CaseBlind isWordByte := caseBlind_classes.2.2.2.2.2.1
  cases before <;> cases after <;> simp [isBoundary, hword _]

theorem keywordWidth_map_upperByte (word s : Bytes) :
    keywordWidth word (s.map upperByte) = keywordWidth word s := by
  have hblank : Text.CaseBlind isBlank := caseBlind_classes.1
  simp only [keywordWidth, any_head?_map_upperByte hblank, dropWhile_map_upperByte hblank,
    takeWhile_map_upperByte hblank, afterWord?_map_upperByte]
  cases afterWord? word (s.dropWhile isBlank) with
  | none => rfl
  | some rest =>
    simp only [Option.map_some, List.length_map, ← List.map_take, List.getLast?_map,
      List.head?_map, isBoundary_map_upperByte]

theorem nameWidth_map_upperByte (least : Nat) (s : Bytes) :
    nameWidth least (s.map upperByte) = nameWidth least s := by
  obtain ⟨-, -, -, -, hstart, hword, -⟩ := caseBlind_classes
  cases s with
  | nil => rfl
  | cons b r =>
    simp only [List.map_cons, nameWidth, takeWhile_map_upperByte hword, List.length_map, hstart b]

/-- A pattern takes as much from a text in another case. -/
theorem width_map_upperByte {p : Pattern} (hp : p.CaseBlind) (s : Bytes) :
    p.width (s.map upperByte) = p.width s := by
  cases p with
  | keyword word => exact keywordWidth_map_upperByte word s
  | name blank least =>
    simp only [width, any_head?_map_upperByte caseBlind_classes.1, ← List.map_tail,
      nameWidth_map_upperByte]
  | run member =>
    simp only [width, takeWhile_map_upperByte hp, List.length_map]
  | marked mark member =>
    cases s with
    | nil => rfl
    | cons b r =>
      simp only [List.map_cons, width, upperByte_eq_iff hp.1, takeWhile_map_upperByte hp.2,
        List.length_map]
  | exact text => simp only [width, isPrefixOf_map_upperByte hp]
  | oneOf member => simp only [width, any_head?_map_upperByte hp]
  | toLineEnd mark =>
    have hfeed : Text.CaseBlind (· != 0x0A) := caseBlind_bne (by decide)
    cases s with
    | nil => rfl
    | cons b r =>
      simp only [List.map_cons, width, upperByte_eq_iff hp, takeWhile_map_upperByte hfeed,
        List.length_map]
  | lineBreak =>
    have hreturn (b : UInt8) : upperByte b = 0x0D ↔ b = 0x0D := upperByte_eq_iff (by decide)
    have hfeed (b : UInt8) : upperByte b = 0x0A ↔ b = 0x0A := upperByte_eq_iff (by decide)
    rw [width_lineBreak_eq, width_lineBreak_eq]
    cases s with
    | nil => rfl
    | cons b r => cases r <;> simp [hreturn, hfeed]

end Pattern

def Token.upper (t : Token) : Token :=
  ⟨t.kind, t.text.map upperByte⟩

/-- The word of a token does not depend on the case in which it is written. -/
@[simp] theorem Token.word_upper (t : Token) : t.upper.word = t.word := by
  rw [word, word, upper, trim_map_upperByte, upper_map_upperByte]

@[simp] theorem Token.kind_upper (t : Token) : t.upper.kind = t.kind := rfl

@[simp] theorem Token.text_upper (t : Token) : t.upper.text = t.text.map upperByte := rfl

namespace Lexicon

variable {lx : Lexicon}

theorem measure_map_upperByte (h : ∀ r ∈ lx, r.pattern.CaseBlind) (s : Bytes) :
    lx.measure (s.map upperByte) = lx.measure s := by
  apply measure_congr
  · intro r hr
    exact Pattern.width_map_upperByte (h r hr) s
  · exact Utf8.width_map_upperByte s

theorem next?_map_upperByte (h : ∀ r ∈ lx, r.pattern.CaseBlind) (s : Bytes) :
    lx.next? (s.map upperByte) = (lx.next? s).map fun n => (n.1.upper, n.2.map upperByte) := by
  by_cases hs : s = []
  · simp [next?, hs]
  · simp [next?, hs, measure_map_upperByte h, Token.upper, List.map_take, List.map_drop]

/-- A text in another case has the same tokens in that case. -/
theorem tokens_map_upperByte (h : ∀ r ∈ lx, r.pattern.CaseBlind) (s : Bytes) :
    lx.tokens (s.map upperByte) = (lx.tokens s).map Token.upper := by
  fun_induction tokens lx s with
  | case1 s hn =>
    have hnext : lx.next? (s.map upperByte) = none := by rw [next?_map_upperByte h, hn]; rfl
    rw [tokens]
    split
    · rfl
    · next hsome => rw [hnext] at hsome; cases hsome
  | case2 s t rest hn ih =>
    have hnext : lx.next? (s.map upperByte) = some (t.upper, rest.map upperByte) := by
      rw [next?_map_upperByte h, hn]
      rfl
    rw [tokens_eq_cons hnext, ih, List.map_cons]

end Lexicon

theorem Expr.caseBlind_lexicon : ∀ r ∈ Expr.lexicon, r.pattern.CaseBlind := by
  obtain ⟨hblank, hdigit, hbinary, hhex, -⟩ := caseBlind_classes
  simp only [Expr.lexicon, List.forall_mem_cons, Pattern.CaseBlind]
  exact ⟨by decide, by decide, by decide, by decide, by decide, ⟨by decide, hhex⟩,
    ⟨by decide, hbinary⟩, trivial, hdigit, trivial, hblank, by simp⟩

theorem Assembly.caseBlind_lexicon : ∀ r ∈ Assembly.lexicon, r.pattern.CaseBlind := by
  obtain ⟨hblank, hdigit, hbinary, hhex, -, -, hregister⟩ := caseBlind_classes
  have hkeywords (kind : Kind) (words : List String) :
      ∀ r ∈ keywordRules kind words, r.pattern.CaseBlind := by
    intro r hr
    obtain ⟨w, -, rfl⟩ := List.mem_map.1 hr
    exact trivial
  simp only [Assembly.lexicon, List.forall_mem_append]
  refine ⟨⟨hkeywords _ _, hkeywords _ _⟩, ?_⟩
  simp only [plainRules, List.forall_mem_cons, Pattern.CaseBlind]
  exact ⟨trivial, ⟨by decide, hhex⟩, ⟨by decide, hbinary⟩, hdigit, by decide, hregister,
    by decide, by decide, by decide, by decide, by decide, by decide, by decide, by decide, hblank,
    trivial, by simp⟩

end Forge6809
