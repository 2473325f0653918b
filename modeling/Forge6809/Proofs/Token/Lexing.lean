import Forge6809.Token.Lexicon
import Mathlib.Tactic

/-! # Lexing and the text around a token

The tokens of a text are the tokens of its parts, as long as no part cuts a token in two. A text
may be cut at a separator, a byte that can only be the first of a token: what is lexed before it
does not depend on what stands behind it. The exceptions are blanks, which a keyword may begin
with, and comments, which run to the end of the line. -/

namespace Forge6809

open Text

namespace Lexicon

theorem tokens_eq_cons {lx : Lexicon} {s rest : Bytes} {t : Token}
    (h : lx.next? s = some (t, rest)) : lx.tokens s = t :: lx.tokens rest := by
  rw [tokens]
  split
  · next hn => rw [hn] at h; cases h
  · next hn => rw [hn] at h; cases h; rfl

/-- The texts of the tokens make up the text. -/
theorem flatMap_tokens (lx : Lexicon) (s : Bytes) : (lx.tokens s).flatMap (·.text) = s := by
  fun_induction tokens lx s with
  | case1 s h =>
    unfold next? at h
    split at h
    · next hs => simp [hs]
    · cases h
  | case2 s t rest h ih => rw [List.flatMap_cons, ih, next?_append h]

/-- The tokens from some place on are the tokens of the text from there on. -/
theorem tokens_of_suffix {lx : Lexicon} {s : Bytes} {ts : List Token} (h : ts <:+ lx.tokens s) :
    lx.tokens (ts.flatMap (·.text)) = ts := by
  fun_induction tokens lx s with
  | case1 s _ =>
    rw [List.suffix_nil.1 h]
    exact tokens_nil lx
  | case2 s t rest hn ih =>
    rcases List.suffix_cons_iff.1 h with rfl | h
    · rw [List.flatMap_cons, flatMap_tokens, next?_append hn, tokens_eq_cons hn]
    · exact ih h

theorem next?_eq_of_measure {lx : Lexicon} {s : Bytes} {k : Kind} {n : Nat} (hs : s ≠ [])
    (h : lx.measure s = (k, n)) : lx.next? s = some (⟨k, s.take n⟩, s.drop n) := by
  simp [next?, hs, h]

theorem exists_next?_cons (lx : Lexicon) (b : UInt8) (r : Bytes) :
    ∃ x rest, lx.next? (b :: r) = some (x, rest) :=
  ⟨_, _, next?_eq_of_measure (List.cons_ne_nil b r) rfl⟩

theorem next?_of_measure {lx : Lexicon} {x rest : Bytes} {k : Kind} (hx : x ≠ [])
    (h : lx.measure (x ++ rest) = (k, x.length)) : lx.next? (x ++ rest) = some (⟨k, x⟩, rest) := by
  rw [next?_eq_of_measure (List.append_ne_nil_of_left_ne_nil hx rest) h, List.take_left,
    List.drop_left]

theorem measure_of_next? {lx : Lexicon} {s rest : Bytes} {x : Token}
    (h : lx.next? s = some (x, rest)) : lx.measure s = (x.kind, x.text.length) := by
  unfold next? at h
  split at h
  · contradiction
  · cases h
    exact Prod.ext rfl (List.length_take_of_le (measure_le lx s)).symm

theorem exists_text_of_next? {lx : Lexicon} {b : UInt8} {r rest : Bytes} {x : Token}
    (h : lx.next? (b :: r) = some (x, rest)) : ∃ cs, x.text = b :: cs := by
  have ha := next?_append h
  cases hx : x.text with
  | nil => exact absurd hx (next?_text_ne_nil h)
  | cons c cs =>
    rw [hx, List.cons_append] at ha
    exact ⟨cs, by rw [(List.cons.inj ha).1]⟩

theorem exists_tokens_cons (lx : Lexicon) (b : UInt8) (r : Bytes) :
    ∃ x ts, lx.tokens (b :: r) = x :: ts ∧ x.kind = (lx.measure (b :: r)).1 ∧
      x.text.headD 0 = b := by
  obtain ⟨x, rest, hn⟩ := exists_next?_cons lx b r
  obtain ⟨cs, hx⟩ := exists_text_of_next? hn
  refine ⟨x, lx.tokens rest, tokens_eq_cons hn, ?_, ?_⟩
  · rw [measure_of_next? hn]
  · rw [hx]
    rfl

theorem measure_rule (k : Kind) (p : Pattern) (lx : Lexicon) (s : Bytes) :
    measure (⟨k, p⟩ :: lx) s = if p.width s = 0 then lx.measure s else (k, p.width s) := by
  unfold measure
  by_cases h : p.width s = 0 <;> simp [h]

theorem measure_rule_ite {k : Kind} {p : Pattern} {s : Bytes} {c : Prop} [Decidable c] {n : Nat}
    (h : p.width s = if c then n + 1 else 0) (lx : Lexicon) :
    measure (⟨k, p⟩ :: lx) s = if c then (k, n + 1) else lx.measure s := by
  rw [measure_rule, h]
  by_cases hc : c <;> simp [hc]

/-- Rules that take nothing are passed over. -/
theorem measure_append_of_width {lx lx' : Lexicon} {s : Bytes}
    (h : ∀ r ∈ lx, r.pattern.width s = 0) : measure (lx ++ lx') s = lx'.measure s := by
  induction lx with
  | nil => rfl
  | cons r lx ih =>
    rw [List.cons_append, measure_rule, if_pos (h r List.mem_cons_self)]
    exact ih fun r' hr' => h r' (List.mem_cons_of_mem _ hr')

/-- A token of a kind is what a rule of that kind takes. -/
theorem exists_rule_of_measure {lx : Lexicon} {s : Bytes} (h : (lx.measure s).1 ≠ .undefined) :
    ∃ r ∈ lx, r.kind = (lx.measure s).1 ∧ r.pattern.width s = (lx.measure s).2 ∧
      r.pattern.width s ≠ 0 := by
  unfold measure at h ⊢
  split at h
  · next r hr =>
    refine ⟨r, List.mem_of_find?_eq_some hr, ?_⟩
    simpa [hr] using List.find?_some hr
  · contradiction

theorem measure_congr {lx : Lexicon} {s s' : Bytes}
    (h : ∀ r ∈ lx, r.pattern.width s = r.pattern.width s') (hc : Utf8.width s = Utf8.width s') :
    lx.measure s = lx.measure s' := by
  induction lx with
  | nil => rw [measure, measure, List.find?_nil, List.find?_nil, hc]
  | cons r lx ih =>
    rw [measure_rule, measure_rule, h r List.mem_cons_self,
      ih fun r' hr' => h r' (List.mem_cons_of_mem _ hr')]

end Lexicon

def separates (b : UInt8) : Bool :=
  isBlank b || b == 0x2C || b == 0x0D || b == 0x0A

/-- A separator is an ASCII character, and of no word. -/
theorem separator {b : UInt8} (hb : separates b = true) :
    b < 0x80 ∧ isWordByte b = false ∧ upperByte b = b := by
  have h : ∀ c ∈ [(0x20 : UInt8), 0x09, 0x2C, 0x0D, 0x0A],
      c < 0x80 ∧ isWordByte c = false ∧ upperByte c = c := by decide +kernel
  apply h
  simpa [separates, isBlank, or_assoc] using hb

theorem separates_of_isBlank {b : UInt8} (hb : isBlank b = true) : separates b = true := by
  simp [separates, hb]

def Separated (tail : Bytes) : Prop :=
  ∀ b ∈ tail.head?, separates b = true

theorem Separated.any {tail : Bytes} (h : Separated tail) {p : UInt8 → Bool}
    (hp : ∀ b, separates b = true → p b = false) : tail.head?.any p = false := by
  cases tail with
  | nil => rfl
  | cons b tail => simpa using hp b (h b rfl)

theorem takeWhile_append_of_head? {p : UInt8 → Bool} {tail : Bytes}
    (h : tail.head?.any p = false) (s : Bytes) : (s ++ tail).takeWhile p = s.takeWhile p := by
  induction s with
  | nil => cases tail <;> simp_all
  | cons b s ih => by_cases hb : p b <;> simp [hb, ih]

theorem dropWhile_eq_self_of_head? {p : UInt8 → Bool} {s : Bytes} (h : s.head?.any p = false) :
    s.dropWhile p = s := by
  cases s <;> simp_all

theorem any_head?_dropWhile (p : UInt8 → Bool) (s : Bytes) :
    (s.dropWhile p).head?.any p = false := by
  have h := List.head?_dropWhile_not p s
  cases hd : (s.dropWhile p).head? with
  | none => rfl
  | some c => simpa [hd] using h

/-- Blanks in front of other text are told apart from what follows it. -/
theorem span_blanks_append {s : Bytes} (hs : ∃ b ∈ s, isBlank b = false) (tail : Bytes) :
    (s ++ tail).takeWhile isBlank = s.takeWhile isBlank ∧
      (s ++ tail).dropWhile isBlank = s.dropWhile isBlank ++ tail := by
  induction s with
  | nil => simp at hs
  | cons b s ih =>
    by_cases hb : isBlank b = true
    · have hs' : ∃ c ∈ s, isBlank c = false := by simpa [hb] using hs
      simp [hb, ih hs']
    · simp [hb]

namespace Text.Utf8

theorem isTail_of_lt {b : UInt8} (hb : b < 0x80) : isTail b = false := by
  simp only [isTail, Bool.and_eq_false_iff, decide_eq_false_iff_not]
  exact Or.inl (UInt8.not_le.2 hb)

theorem isSecond_of_lt {b : UInt8} (hb : b < 0x80) (a : UInt8) : isSecond a b = false := by
  simp only [isSecond, isTail]
  grind

/-- No separator is part of an encoded character. -/
theorem width_append {s tail : Bytes} (hs : s ≠ []) (htail : Separated tail) :
    width (s ++ tail) = width s := by
  cases s with
  | nil => contradiction
  | cons a r =>
    cases tail with
    | nil => rw [List.append_nil]
    | cons c tail =>
      have hc := (separator (htail c rfl)).1
      have hdecode : decode (a :: (r ++ c :: tail)) = decode (a :: r) := by
        have htail := isTail_of_lt hc
        have hsecond := isSecond_of_lt hc a
        simp only [decode]
        generalize sizeOfFirst a = n
        rcases r with _ | ⟨b₁, _ | ⟨b₂, _ | ⟨b₃, r⟩⟩⟩ <;> grind
      rw [List.cons_append, width.eq_def, hdecode, width.eq_def]
      cases decode (a :: r) <;> rfl

end Text.Utf8

namespace Pattern

theorem width_exact_singleton (c b : UInt8) (r : Bytes) :
    width (.exact [c]) (b :: r) = if b = c then 1 else 0 := by
  by_cases h : b = c
  · simp [width, h]
  · simp [width, h, Ne.symm h]

theorem width_marked_cons (mark b : UInt8) (p : UInt8 → Bool) (r : Bytes) :
    width (.marked mark p) (b :: r) =
      if b = mark ∧ r.head?.any p then (r.takeWhile p).length + 1 else 0 := by
  by_cases h : b = mark
  · cases r with
    | nil => simp [width, h]
    | cons c r => by_cases hc : p c <;> simp [width, h, hc]
  · simp [width, h]

theorem width_run_cons (b : UInt8) (p : UInt8 → Bool) (r : Bytes) :
    width (.run p) (b :: r) = if p b then (r.takeWhile p).length + 1 else 0 := by
  by_cases h : p b <;> simp [width, h]

theorem width_name_cons (b : UInt8) (r : Bytes) :
    width (.name false 0) (b :: r) =
      if isNameStart b then (r.takeWhile isWordByte).length + 1 else 0 := by
  by_cases h : isNameStart b <;> simp [width, nameWidth, h]

theorem width_lineBreak_eq (s : Bytes) : width .lineBreak s =
    if s.head? = some 0x0D then if s.tail.head? = some 0x0A then 2 else 1
    else if s.head? = some 0x0A then 1 else 0 := by
  simp only [width]
  rcases s with _ | ⟨b, _ | ⟨c, r⟩⟩ <;> grind

theorem width_lineBreak_eq_zero {b : UInt8} (r : Bytes) (hb : b ≠ 0x0D ∧ b ≠ 0x0A) :
    width .lineBreak (b :: r) = 0 := by
  unfold width
  split <;> simp_all

theorem width_lineBreak_ne_zero {b : UInt8} (r : Bytes) (hb : b = 0x0D ∨ b = 0x0A) :
    width .lineBreak (b :: r) ≠ 0 := by
  simp only [width]
  split <;> simp_all

theorem nameWidth_eq_zero {least : Nat} {b : UInt8} {s : Bytes} (hb : isWordByte b = false) :
    nameWidth least (b :: s) = 0 := by
  have hstart : isNameStart b = false := by
    simp only [isWordByte, Bool.or_eq_false_iff] at hb
    exact hb.1
  simp [nameWidth, hstart]

/-- What a pattern takes does not go on with a separator. A run of blanks does, if no other text
stands before it. -/
def Bounded : Pattern → Prop
  | keyword word => ∀ b ∈ word, isWordByte b = true
  | run member => member = isBlank ∨ ∀ b, separates b = true → member b = false
  | marked _ member => ∀ b, separates b = true → member b = false
  | exact text => ∀ b ∈ text.tail, separates b = false
  | name _ _ | oneOf _ | toLineEnd _ | lineBreak => True

section Append

variable {s tail : Bytes}

/-- A word does not begin with a byte outside ASCII or outside words. -/
theorem afterWord?_eq_none {word : Bytes} (hne : word ≠ [])
    (hword : ∀ b ∈ word, isWordByte b = true)
    (hs : ∀ b ∈ s.head?, b < 0x80 ∧ isWordByte b = false ∧ upperByte b = b) :
    afterWord? word s = none := by
  cases word with
  | nil => exact absurd rfl hne
  | cons w ws =>
    cases s with
    | nil => rfl
    | cons c s =>
      obtain ⟨hascii, hno, hupper⟩ := hs c rfl
      have hcw : c ≠ w := by
        rintro rfl
        rw [hword c List.mem_cons_self] at hno
        cases hno
      have hlong : c ≠ 0xC5 := by
        rintro rfl
        exact absurd hascii (by decide)
      simp [afterWord?, hupper, hcw, hlong]

theorem afterWord?_append {word : Bytes} (hword : ∀ b ∈ word, isWordByte b = true)
    (htail : Separated tail) :
    afterWord? word (s ++ tail) = (afterWord? word s).map (· ++ tail) := by
  induction word generalizing s with
  | nil => rfl
  | cons w ws ih =>
    have hws : ∀ b ∈ ws, isWordByte b = true := fun b hb => hword b (List.mem_cons_of_mem _ hb)
    cases s with
    | nil =>
      rw [List.nil_append, afterWord?_eq_none (List.cons_ne_nil w ws) hword
        fun b hb => separator (htail b hb)]
      rfl
    | cons b r =>
      -- The second byte of the long s is no separator, so it does not come from what follows.
      have hhead : (r ++ tail).head? = some 0xBF ↔ r.head? = some 0xBF := by
        cases r with
        | nil =>
          cases tail with
          | nil => rfl
          | cons c tail =>
            have hlong : c ≠ 0xBF := by
              rintro rfl
              exact absurd (separator (htail 0xBF rfl)).1 (by decide)
            simp [hlong]
        | cons c r => rfl
      simp only [List.cons_append, afterWord?, hhead]
      by_cases hb : upperByte b = w
      · simp only [hb, if_true]
        exact ih hws
      · by_cases hlong : w = 0x53 ∧ b = 0xC5 ∧ r.head? = some 0xBF
        · cases r with
          | nil => simp at hlong
          | cons c r =>
            simp only [hlong, if_true, and_self, List.cons_append, List.tail_cons]
            exact ih hws
        · simp [hb, hlong]

theorem keywordWidth_append {word : Bytes} (hword : ∀ b ∈ word, isWordByte b = true)
    (hs : ∃ b ∈ s, isBlank b = false) (htail : Separated tail) :
    keywordWidth word (s ++ tail) = keywordWidth word s := by
  obtain ⟨htake, hdrop⟩ := span_blanks_append hs tail
  have hhead : (s ++ tail).head? = s.head? := by
    cases s with
    | nil => simp at hs
    | cons => rfl
  have hany := htail.any fun _ hb => (separator hb).2.1
  simp only [keywordWidth, hhead, htake, hdrop, afterWord?_append hword htail]
  cases afterWord? word (s.dropWhile isBlank) with
  | none => rfl
  | some rest =>
    have hlen : (s.dropWhile isBlank ++ tail).length - (rest ++ tail).length =
        (s.dropWhile isBlank).length - rest.length := by
      simp only [List.length_append]
      omega
    have hbound : ∀ x, isBoundary x (rest ++ tail).head? = isBoundary x rest.head? := by
      cases rest with
      | nil => simp [isBoundary, hany]
      | cons => simp [isBoundary]
    simp only [Option.map_some, hlen, hbound, List.take_append_of_le_length (Nat.sub_le _ _)]

theorem nameWidth_append (least : Nat) (hs : s ≠ []) (htail : Separated tail) :
    nameWidth least (s ++ tail) = nameWidth least s := by
  cases s with
  | nil => contradiction
  | cons b s =>
    have hword := htail.any fun _ hb => (separator hb).2.1
    simp only [List.cons_append, nameWidth, takeWhile_append_of_head? hword]

theorem isPrefixOf_append {text : Bytes} (htext : ∀ b ∈ text, separates b = false)
    (htail : Separated tail) : text.isPrefixOf (s ++ tail) = text.isPrefixOf s := by
  induction text generalizing s with
  | nil => rfl
  | cons a text ih =>
    cases s with
    | nil =>
      cases tail with
      | nil => rfl
      | cons c tail =>
        have hne : a ≠ c := by
          rintro rfl
          have h := htext a List.mem_cons_self
          rw [htail a rfl] at h
          cases h
        simp [List.isPrefixOf, hne]
    | cons b s =>
      simp only [List.cons_append, List.isPrefixOf_cons_cons]
      rw [ih fun c hc => htext c (List.mem_cons_of_mem _ hc)]

/-- A text without line breaks does not end within one. -/
theorem uncut (hbreak : ∀ b ∈ s, b ≠ 0x0D ∧ b ≠ 0x0A) :
    s.getLast? = some 0x0D → tail.head? ≠ some 0x0A := by
  intro hlast
  exact absurd rfl (hbreak 0x0D (List.mem_of_getLast? hlast)).1

/-- Text behind a separator changes nothing for a pattern, unless a line break is cut in two. -/
theorem width_append {p : Pattern} (hp : p.Bounded) (hs : ∃ b ∈ s, isBlank b = false)
    (hcut : s.getLast? = some 0x0D → tail.head? ≠ some 0x0A)
    (hmark : ∀ mark, p = .toLineEnd mark → s.head? ≠ some mark) (htail : Separated tail) :
    p.width (s ++ tail) = p.width s := by
  cases s with
  | nil => simp at hs
  | cons b s =>
    cases p with
    | keyword word => exact keywordWidth_append hp hs htail
    | name blank least =>
      have hname := nameWidth_append least (List.cons_ne_nil b s) htail
      rw [List.cons_append] at hname ⊢
      by_cases hb : isBlank b = true
      · have hne : s ≠ [] := by
          rintro rfl
          simp [hb] at hs
        simp [width, hname, nameWidth_append least hne htail]
      · simp [width, hb, hname]
    | run member =>
      rcases hp with rfl | hp
      · exact congrArg List.length (span_blanks_append hs tail).1
      · exact congrArg List.length (takeWhile_append_of_head? (htail.any hp) _)
    | marked mark member =>
      simp only [List.cons_append, width, takeWhile_append_of_head? (htail.any hp)]
    | exact text =>
      cases text with
      | nil => rfl
      | cons a text =>
        have htext : text.isPrefixOf (s ++ tail) = text.isPrefixOf s := isPrefixOf_append hp htail
        simp only [List.cons_append, width, List.isPrefixOf_cons_cons, htext]
        rfl
    | oneOf member => rfl
    | toLineEnd mark =>
      have hne : b ≠ mark := by simpa using hmark mark rfl
      simp [width, hne]
    | lineBreak =>
      rw [List.cons_append, width_lineBreak_eq, width_lineBreak_eq]
      cases s with
      | nil =>
        by_cases hb : b = 0x0D
        · simp [hb, hcut (by rw [hb]; rfl)]
        · simp [hb]
      | cons c s => simp

end Append
end Pattern
end Forge6809
