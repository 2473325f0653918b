import Forge6809.Proofs.Assembly.EquateLine
import Forge6809.Proofs.Token.LetterCase

/-! # Keywords do not depend on their order

Several keywords begin like another one, but at most one of them can be read at the start of a text:
where the shorter one ends, the longer one goes on with a letter, and there is no word boundary
before a letter. The long s is no byte of a word, so it could make a boundary there. But no keyword
that begins like another one goes on with the letter S, and the shorter one does not end with it. -/

namespace Forge6809

open Text

namespace Pattern

/-- The spellings of a word: every letter in either case, and the letter S also as the long s. -/
inductive Spells : Bytes → Bytes → Prop
  | nil : Spells [] []
  | letter {w b : UInt8} {ws s : Bytes} :
      upperByte b = w → Spells ws s → Spells (w :: ws) (b :: s)
  | longS {ws s : Bytes} : Spells ws s → Spells (0x53 :: ws) (0xC5 :: 0xBF :: s)

theorem afterWord?_eq_some_iff {word s rest : Bytes} :
    afterWord? word s = some rest ↔ ∃ body, Spells word body ∧ s = body ++ rest := by
  constructor
  · intro h
    fun_induction afterWord? word s with
    | case1 s =>
      cases h
      exact ⟨[], .nil, rfl⟩
    | case2 ws b r ih =>
      obtain ⟨body, hbody, rfl⟩ := ih h
      exact ⟨b :: body, .letter rfl hbody, rfl⟩
    | case3 w ws b r _ hlong ih =>
      obtain ⟨rfl, rfl, hr⟩ := hlong
      obtain ⟨r, rfl⟩ := List.head?_eq_some_iff.1 hr
      obtain ⟨body, hbody, rfl : r = body ++ rest⟩ := ih h
      exact ⟨0xC5 :: 0xBF :: body, .longS hbody, rfl⟩
    | case4 => cases h
    | case5 => cases h
  · rintro ⟨body, hbody, rfl⟩
    induction hbody with
    | nil => rfl
    | letter hb _ ih => rw [List.cons_append, afterWord?, if_pos hb, ih]
    | longS _ ih =>
      rw [List.cons_append, afterWord?, if_neg (by decide), if_pos ⟨rfl, rfl, rfl⟩]
      exact ih

theorem Spells.map_upperByte (s : Bytes) : Spells (s.map upperByte) s := by
  induction s with
  | nil => exact .nil
  | cons b s ih => exact .letter rfl ih

theorem isWordByte_of_upperByte {b : UInt8} (h : isWordByte (upperByte b) = true) :
    isWordByte b = true := by
  rwa [caseBlind_classes.2.2.2.2.2.1 b] at h

theorem isAscii_of_isWordByte (b : UInt8) (h : isWordByte b = true) : isAscii b = true := by
  revert b h
  apply forall_byte
  decide +kernel

section Spells

variable {word body : Bytes} (h : Spells word body)

include h

/-- A spelling of a word has bytes of words in it, and those of the long s. -/
theorem Spells.mem (hword : ∀ b ∈ word, isWordByte b = true) {b : UInt8} (hb : b ∈ body) :
    (isWordByte b || b == 0xC5 || b == 0xBF) = true := by
  induction h with
  | nil => cases hb
  | letter hupper _ ih =>
    rw [List.forall_mem_cons] at hword
    rcases List.mem_cons.1 hb with rfl | hb
    · rw [isWordByte_of_upperByte (hupper ▸ hword.1)]
      rfl
    · exact ih hword.2 hb
  | longS _ ih =>
    rw [List.forall_mem_cons] at hword
    rcases List.mem_cons.1 hb with rfl | hb
    · rfl
    · rcases List.mem_cons.1 hb with rfl | hb
      · rfl
      · exact ih hword.2 hb

/-- A spelling of a word has the word for its upper case. -/
theorem Spells.upper_eq (hword : ∀ b ∈ word, isWordByte b = true) : upper body = word := by
  rw [Text.upper_eq]
  induction h with
  | nil => rw [mapChars]
  | @letter w b ws s hupper _ ih =>
    rw [List.forall_mem_cons] at hword
    have hascii := isAscii_of_isWordByte b (isWordByte_of_upperByte (hupper ▸ hword.1))
    have hlt : b.toNat < 0x80 := UInt8.lt_iff_toNat_lt.1 (of_decide_eq_true hascii)
    have hencode : Utf8.encode b.toNat = [b] := by
      rw [Utf8.encode, if_pos hlt, Nat.toUInt8, UInt8.ofNat_toNat]
    have hscalar : Utf8.IsScalar b.toNat := .inl (by omega)
    have hchar := mapChars_encode upperCode hscalar s
    rw [hencode, encode_upperCode hascii, ih hword.2, hupper] at hchar
    exact hchar
  | @longS ws s _ ih =>
    rw [List.forall_mem_cons] at hword
    have hencode : Utf8.encode 0x17F = [0xC5, 0xBF] := by decide
    have hupper : Utf8.encode (upperCode 0x17F) = [0x53] := by decide +kernel
    have hscalar : Utf8.IsScalar 0x17F := .inl (by decide)
    have hchar := mapChars_encode upperCode hscalar s
    rw [hencode, hupper, ih hword.2] at hchar
    exact hchar

/-- A word that does not begin with the letter S is spelled with a letter first. -/
theorem Spells.isWordByte_head {w : UInt8} {ws : Bytes} (heq : word = w :: ws)
    (hw : isWordByte w = true) (hs : w ≠ 0x53) : body.head?.any isWordByte = true := by
  subst heq
  cases h with
  | letter hupper _ => exact isWordByte_of_upperByte (hupper ▸ hw)
  | longS => exact absurd rfl hs

/-- A word that does not end with the letter S is spelled with a letter last. -/
theorem Spells.isWordByte_getLast (hword : ∀ b ∈ word, isWordByte b = true) (hne : word ≠ [])
    (hs : word.getLast? ≠ some 0x53) : body.getLast?.any isWordByte = true := by
  have hcons {c : UInt8} {s : Bytes} (hlast : s.getLast?.any isWordByte = true) :
      (c :: s).getLast?.any isWordByte = true := by
    cases s with
    | nil => cases hlast
    | cons d s => rwa [List.getLast?_cons_cons]
  induction h with
  | nil => exact absurd rfl hne
  | @letter w b ws s hupper hrest ih =>
    rw [List.forall_mem_cons] at hword
    cases ws with
    | nil =>
      cases hrest
      exact isWordByte_of_upperByte (hupper ▸ hword.1)
    | cons v ws =>
      rw [List.getLast?_cons_cons] at hs
      exact hcons (ih hword.2 (List.cons_ne_nil v ws) hs)
  | @longS ws s hrest ih =>
    rw [List.forall_mem_cons] at hword
    cases ws with
    | nil => exact absurd rfl hs
    | cons v ws =>
      rw [List.getLast?_cons_cons] at hs
      exact hcons (hcons (ih hword.2 (List.cons_ne_nil v ws) hs))

end Spells

/-- If two words are spelled at the start of a text, one of them begins with the other. -/
theorem Spells.comparable {v w a b r r' : Bytes} (hv : Spells v a) (hw : Spells w b)
    (hvword : ∀ c ∈ v, isWordByte c = true) (hwword : ∀ c ∈ w, isWordByte c = true)
    (h : a ++ r = b ++ r') :
    (∃ ws s, w = v ++ ws ∧ Spells ws s ∧ r = s ++ r') ∨
      ∃ vs s, v = w ++ vs ∧ Spells vs s ∧ r' = s ++ r := by
  -- The first byte of the long s is no letter, so both spellings take the same bytes.
  have hlong {c : UInt8} (hupper : upperByte 0xC5 = c) : isWordByte c ≠ true := by
    subst hupper
    decide
  induction hv generalizing w b with
  | nil => exact .inl ⟨w, b, rfl, hw, h⟩
  | @letter c d v a hupper hrest ih =>
    rw [List.forall_mem_cons] at hvword
    cases hw with
    | nil => exact .inr ⟨c :: v, d :: a, rfl, .letter hupper hrest, h.symm⟩
    | letter hupper' hrest' =>
      rw [List.forall_mem_cons] at hwword
      obtain ⟨rfl, htail⟩ := List.cons.inj h
      subst hupper hupper'
      rcases ih hrest' hvword.2 hwword.2 htail with ⟨ws, s, rfl, hs⟩ | ⟨vs, s, rfl, hs⟩
      · exact .inl ⟨ws, s, rfl, hs⟩
      · exact .inr ⟨vs, s, rfl, hs⟩
    | longS hrest' =>
      obtain ⟨rfl, -⟩ := List.cons.inj h
      exact absurd hvword.1 (hlong hupper)
  | @longS v a hrest ih =>
    rw [List.forall_mem_cons] at hvword
    cases hw with
    | nil => exact .inr ⟨0x53 :: v, 0xC5 :: 0xBF :: a, rfl, .longS hrest, h.symm⟩
    | letter hupper' hrest' =>
      obtain ⟨rfl, -⟩ := List.cons.inj h
      exact absurd (hwword _ List.mem_cons_self) (hlong hupper')
    | longS hrest' =>
      rw [List.forall_mem_cons] at hwword
      obtain ⟨-, htail⟩ := List.cons.inj (List.cons.inj h).2
      rcases ih hrest' hvword.2 hwword.2 htail with ⟨ws, s, rfl, hs⟩ | ⟨vs, s, rfl, hs⟩
      · exact .inl ⟨ws, s, rfl, hs⟩
      · exact .inr ⟨vs, s, rfl, hs⟩

/-- A text that begins with blanks and a spelling of a word, which ends at a word boundary. -/
structure Begins (word s body rest : Bytes) : Prop where
  blank : s.head?.any isBlank = true
  text : s.dropWhile isBlank = body ++ rest
  spells : Spells word body
  boundary : isBoundary body.getLast? rest.head? = true

section Begins

variable {word s body rest : Bytes}

theorem Begins.width (h : Begins word s body rest) :
    keywordWidth word s = (s.takeWhile isBlank).length + body.length := by
  have hafter : afterWord? word (body ++ rest) = some rest :=
    afterWord?_eq_some_iff.2 ⟨body, h.spells, rfl⟩
  have hlen : (body ++ rest).length - rest.length = body.length := by simp
  simp only [keywordWidth, if_pos h.blank, h.text, hafter, hlen, List.take_left, h.boundary,
    if_true]

theorem exists_begins (h : keywordWidth word s ≠ 0) : ∃ body rest, Begins word s body rest := by
  rw [keywordWidth] at h
  split at h
  case isFalse => exact absurd rfl h
  case isTrue hblank =>
    dsimp only at h
    split at h
    · exact absurd rfl h
    · next rest hafter =>
      obtain ⟨body, hbody, htext⟩ := afterWord?_eq_some_iff.1 hafter
      have hlen : (body ++ rest).length - rest.length = body.length := by simp
      rw [htext, hlen, List.take_left] at h
      split at h
      · next hboundary => exact ⟨body, rest, hblank, htext, hbody, hboundary⟩
      · exact absurd rfl h

/-- Before a longer word that goes on with a letter there is no boundary. -/
theorem Begins.not_extended {w : UInt8} {ws b r : Bytes} (h : Begins word s body (b ++ r))
    (hword : ∀ c ∈ word, isWordByte c = true) (hne : word ≠ []) (hlast : word.getLast? ≠ some 0x53)
    (hb : Spells (w :: ws) b) (hw : isWordByte w = true) (hs : w ≠ 0x53) : False := by
  have hend := h.spells.isWordByte_getLast hword hne hlast
  have hhead := hb.isWordByte_head rfl hw hs
  have hboundary := h.boundary
  cases b with
  | nil => cases hhead
  | cons c b =>
    have hnext : ((c :: b) ++ r).head?.any isWordByte = true := hhead
    rw [isBoundary, hend, hnext] at hboundary
    cases hboundary

end Begins
end Pattern

section Find

variable {α : Type} {p : α → Bool} {l : List α} (hone : (l.filter p).length ≤ 1)

include hone

theorem find?_of_mem {a : α} (ha : a ∈ l) (hp : p a = true) : l.find? p = some a := by
  have hmem : a ∈ l.filter p := List.mem_filter.2 ⟨ha, hp⟩
  rw [← List.head?_filter]
  rcases hl : l.filter p with _ | ⟨b, _ | ⟨c, r⟩⟩
  · simp [hl] at hmem
  · rw [hl, List.mem_singleton] at hmem
    rw [hmem]
    rfl
  · simp [hl] at hone

theorem find?_perm {l' : List α} (h : l.Perm l') : l.find? p = l'.find? p := by
  have hperm := h.filter p
  rw [← List.head?_filter, ← List.head?_filter]
  rcases hl : l.filter p with _ | ⟨a, _ | ⟨b, r⟩⟩
  · rw [hl] at hperm
    rw [hperm.nil_eq]
  · rw [hl] at hperm
    rw [List.singleton_perm.1 hperm]
  · simp [hl] at hone

end Find

theorem Lexicon.tokens_congr {lx lx' : Lexicon} (h : ∀ s, lx.measure s = lx'.measure s)
    (s : Bytes) : lx.tokens s = lx'.tokens s := by
  have hnext (s : Bytes) : lx.next? s = lx'.next? s := by rw [next?, next?, h]
  fun_induction tokens lx s with
  | case1 s hn =>
    rw [hnext] at hn
    rw [tokens]
    split
    · rfl
    · next hsome => rw [hn] at hsome; cases hsome
  | case2 s t rest hn ih =>
    rw [hnext] at hn
    rw [tokens_eq_cons hn, ih]

namespace Assembly

def vocabulary : Kind → List String
  | .mnemonic => mnemonics
  | .directive => directives
  | _ => []

theorem mem_keywords_iff {r : Rule} : r ∈ keywords ↔
    ∃ w ∈ vocabulary r.kind, r.pattern = .keyword (ofString w) := by
  obtain ⟨kind, pattern⟩ := r
  cases kind <;> simp [keywords, keywordRules, vocabulary, eq_comm]

/-- The word of a rule, if it is one of a keyword. -/
def keywordOf? (r : Rule) : Option Bytes :=
  match r.pattern with
  | .keyword word => some word
  | _ => none

/-- If a word begins another one, it is shorter, does not end with the letter S, and the other word
does not go on with this letter. -/
def Extends (v w : Bytes) : Prop :=
  v.isPrefixOf w = true → v.length < w.length ∧ v.getLast? ≠ some 0x53 ∧ w[v.length]? ≠ some 0x53

instance (v w : Bytes) : Decidable (Extends v w) :=
  inferInstanceAs (Decidable (_ → _))

theorem pairwise_keywords :
    (keywords.filterMap keywordOf?).Pairwise fun v w => Extends v w ∧ Extends w v := by
  decide +kernel

section Rules

variable {r r' : Rule} {v w : Bytes} {s : Bytes}

theorem keywordOf?_eq_some_iff : keywordOf? r = some v ↔ r.pattern = .keyword v := by
  unfold keywordOf?
  split <;> simp_all

theorem keyword_bytes (hr : r ∈ keywords) (h : keywordOf? r = some v) :
    v ≠ [] ∧ ∀ b ∈ v, isWordByte b = true := by
  obtain ⟨-, word, hword, hbytes⟩ := mem_keywords hr
  rw [keywordOf?_eq_some_iff, hword, Pattern.keyword.injEq] at h
  exact h ▸ hbytes

/-- Where the shorter one of two words can be read, the text does not go on with the longer one. -/
theorem not_begins_of_extends {a b rest : Bytes} (h : Extends v w) (hne : v ≠ [])
    (hv : ∀ c ∈ v, isWordByte c = true) (hw : ∀ c ∈ w, isWordByte c = true)
    (hbegins : Pattern.Begins v s a (b ++ rest)) (hb : ∃ ws, w = v ++ ws ∧ Pattern.Spells ws b) :
    False := by
  obtain ⟨ws, rfl, hb⟩ := hb
  have hprefix : v.isPrefixOf (v ++ ws) = true := by simp
  obtain ⟨hlength, hlast, hnext⟩ := h hprefix
  cases ws with
  | nil => simp at hlength
  | cons c ws =>
    rw [List.getElem?_append_right (le_refl _), Nat.sub_self] at hnext
    refine hbegins.not_extended hv hne hlast hb (hw c (by simp)) ?_
    rintro rfl
    exact hnext rfl

theorem keywordWidth_eq_zero (h : Extends v w ∧ Extends w v)
    (hv : v ≠ [] ∧ ∀ c ∈ v, isWordByte c = true) (hw : w ≠ [] ∧ ∀ c ∈ w, isWordByte c = true)
    (hvs : Pattern.keywordWidth v s ≠ 0) : Pattern.keywordWidth w s = 0 := by
  by_contra hws
  obtain ⟨a, rest, ha⟩ := Pattern.exists_begins hvs
  obtain ⟨b, rest', hb⟩ := Pattern.exists_begins hws
  have htext : a ++ rest = b ++ rest' := ha.text.symm.trans hb.text
  rcases ha.spells.comparable hb.spells hv.2 hw.2 htext with
    ⟨ws, x, hws, hx, rfl⟩ | ⟨vs, x, hvs, hx, rfl⟩
  · exact not_begins_of_extends h.1 hv.1 hv.2 hw.2 ha ⟨ws, hws, hx⟩
  · exact not_begins_of_extends h.2 hw.1 hw.2 hv.2 hb ⟨vs, hvs, hx⟩

/-- At most one keyword can be read at the start of a text. -/
theorem length_filter_keywords (s : Bytes) :
    (keywords.filter fun r => r.pattern.width s != 0).length ≤ 1 := by
  have hpairs : keywords.Pairwise fun r r' =>
      r.pattern.width s ≠ 0 → r'.pattern.width s = 0 := by
    refine (List.pairwise_filterMap.1 pairwise_keywords).imp_of_mem ?_
    intro r r' hr hr' h hwidth
    obtain ⟨-, v, hv, hvbytes⟩ := mem_keywords hr
    obtain ⟨-, w, hw, hwbytes⟩ := mem_keywords hr'
    rw [hv] at hwidth
    rw [hw]
    have hextends := h v (keywordOf?_eq_some_iff.2 hv) w (keywordOf?_eq_some_iff.2 hw)
    exact keywordWidth_eq_zero hextends hvbytes hwbytes hwidth
  have hfilter := hpairs.filter fun r => r.pattern.width s != 0
  rcases hl : keywords.filter (fun r => r.pattern.width s != 0) with _ | ⟨r, _ | ⟨r', l⟩⟩
  · rw [hl]
    exact Nat.zero_le 1
  · rw [hl]
    exact le_refl 1
  · have hmem : ∀ x ∈ r :: r' :: l, x.pattern.width s ≠ 0 := by
      intro x hx
      rw [← hl] at hx
      simpa using (List.mem_filter.1 hx).2
    rw [hl, List.pairwise_cons] at hfilter
    exact absurd (hfilter.1 r' (by simp) (hmem r (by simp))) (hmem r' (by simp))

/-- A keyword that can be read at the start of a text is read there. -/
theorem measure_of_keyword (hr : r ∈ keywords) (hwidth : r.pattern.width s ≠ 0) :
    lexicon.measure s = (r.kind, r.pattern.width s) := by
  have hfind := find?_of_mem (length_filter_keywords s) hr (bne_iff_ne.2 hwidth)
  rw [Lexicon.measure, lexicon_eq, List.find?_append, hfind]
  rfl

/-- The order of the keywords does not matter. -/
theorem tokens_of_perm {rules : Lexicon} (h : rules.Perm keywords) (s : Bytes) :
    Lexicon.tokens (rules ++ plainRules) s = lexicon.tokens s := by
  apply Lexicon.tokens_congr
  intro s
  have hfind := find?_perm (length_filter_keywords s) h.symm
  rw [Lexicon.measure, Lexicon.measure, lexicon_eq, List.find?_append, List.find?_append, hfind]

end Rules

theorem trim_blanks_append {blanks body : Bytes} (hblanks : ∀ b ∈ blanks, isBlank b = true)
    (hbody : ∀ b ∈ body, (isWordByte b || b == 0xC5 || b == 0xBF) = true) :
    trim (blanks ++ body) = body := by
  have hstart : stripAny spaces (blanks ++ body) = body := by
    induction blanks with
    | nil => exact stripAny_of_all (by decide) hbody
    | cons b blanks ih =>
      rw [List.forall_mem_cons] at hblanks
      have hb : b = 0x20 ∨ b = 0x09 := by simpa [isBlank] using hblanks.1
      have hspaces : spaces.find? (·.isPrefixOf (b :: (blanks ++ body))) = some [b] := by
        rcases hb with rfl | rfl <;> rfl
      rw [List.cons_append, stripAny, hspaces]
      exact ih hblanks.2
  have hreverse : ∀ b ∈ body.reverse, (isWordByte b || b == 0xC5 || b == 0xBF) = true :=
    fun b hb => hbody b (List.mem_reverse.1 hb)
  rw [trim, hstart, stripAny_of_all (by decide) hreverse, List.reverse_reverse]

section Begins

variable {word s body rest : Bytes} (h : Pattern.Begins word s body rest)
  (hword : ∀ b ∈ word, isWordByte b = true)

include h hword

theorem word_of_begins (kind : Kind) : Token.word ⟨kind, s.takeWhile isBlank ++ body⟩ = word := by
  have hblanks : ∀ b ∈ s.takeWhile isBlank, isBlank b = true := fun b => List.mem_takeWhile_imp
  have hbody := trim_blanks_append hblanks fun b hb => h.spells.mem hword hb
  rw [Token.word, hbody, h.spells.upper_eq hword]

end Begins

/-- A token of a keyword is a spelling of a keyword of its kind. -/
theorem exists_keyword_of_next? {s text rest : Bytes} {kind : Kind}
    (hkind : kind = .mnemonic ∨ kind = .directive)
    (h : lexicon.next? s = some (⟨kind, text⟩, rest)) :
    ∃ w ∈ vocabulary kind, (∀ b ∈ ofString w, isWordByte b = true) ∧
      (Pattern.keyword (ofString w)).width s = text.length ∧
      ∃ body rest', Pattern.Begins (ofString w) s body rest' ∧
        text = s.takeWhile isBlank ++ body := by
  have hmeasure : lexicon.measure s = (kind, text.length) := Lexicon.measure_of_next? h
  have hdefined : (lexicon.measure s).1 ≠ .undefined := by
    rw [hmeasure]
    rcases hkind with rfl | rfl <;> simp
  obtain ⟨r, hr, hrkind, hlength, hwidth⟩ := Lexicon.exists_rule_of_measure hdefined
  rw [hmeasure] at hrkind hlength
  dsimp only at hrkind
  have hplain : ∀ r ∈ plainRules, r.kind ≠ .mnemonic ∧ r.kind ≠ .directive := by
    simp [plainRules]
  have hkeyword : r ∈ keywords := by
    rcases List.mem_append.1 hr with hr | hr
    · exact hr
    · rw [← hrkind] at hkind
      exact absurd hkind (not_or.2 (hplain r hr))
  obtain ⟨w, hw, hpattern⟩ := mem_keywords_iff.1 hkeyword
  have hword := keyword_bytes hkeyword (keywordOf?_eq_some_iff.2 hpattern)
  rw [hpattern] at hlength hwidth
  obtain ⟨body, rest', hbegins⟩ := Pattern.exists_begins hwidth
  refine ⟨w, hrkind ▸ hw, hword.2, hlength, body, rest', hbegins, ?_⟩
  have htext : text ++ rest = s.takeWhile isBlank ++ body ++ rest' := by
    rw [Lexicon.next?_append h, List.append_assoc, ← hbegins.text, List.takeWhile_append_dropWhile]
  refine List.append_inj_left htext ?_
  rw [List.length_append, ← hbegins.width]
  exact hlength.symm

section Word

variable {blanks w : Bytes} (hblanks : ∀ b ∈ blanks, isBlank b = true) (hne : w ≠ [])
  (hw : ∀ b ∈ w, isWordByte b = true)

include hblanks hne hw

theorem span_blanks_word (tail : Bytes) : (blanks ++ w ++ tail).takeWhile isBlank = blanks ∧
    (blanks ++ w ++ tail).dropWhile isBlank = w ++ tail := by
  obtain ⟨b, w, rfl⟩ := List.exists_cons_of_ne_nil hne
  have hb := (wordByte (hw b List.mem_cons_self)).1
  rw [List.append_assoc, List.takeWhile_append_of_pos hblanks, List.dropWhile_append_of_pos hblanks]
  simp [hb]

/-- A word behind blanks is a spelling of its upper case. -/
theorem begins_word (hblank : blanks ≠ []) {tail : Bytes}
    (htail : tail.head?.any isWordByte = false) :
    Pattern.Begins (upper w) (blanks ++ w ++ tail) w tail where
  blank := by
    obtain ⟨b, blanks, rfl⟩ := List.exists_cons_of_ne_nil hblank
    exact hblanks b List.mem_cons_self
  text := (span_blanks_word hblanks hne hw tail).2
  spells := by
    have hascii : w.all isAscii = true :=
      List.all_eq_true.2 fun b hb => Pattern.isAscii_of_isWordByte b (hw b hb)
    rw [upper, if_pos hascii]
    exact .map_upperByte w
  boundary := by
    have hlast : w.getLast?.any isWordByte = true := by
      rw [List.getLast?_eq_some_getLast hne]
      exact hw _ (List.getLast_mem hne)
    rw [Pattern.isBoundary, hlast, htail]
    rfl

end Word

/-- The order of the keywords does not matter, because at most one of them can be read at the start
of a text. What is read is a keyword of the token's kind, and it is the word of the token. Behind
blanks, a word is read as a keyword exactly if it is one in upper case. -/
theorem keyword_lexing (s : Bytes) :
    (keywords.filter fun r => r.pattern.width s != 0).length ≤ 1 ∧
    (∀ rules : Lexicon, rules.Perm keywords →
      Lexicon.tokens (rules ++ plainRules) s = lexicon.tokens s) ∧
    ∀ kind, kind = .mnemonic ∨ kind = .directive →
      (∀ text rest, lexicon.next? s = some (⟨kind, text⟩, rest) →
        ∃ w ∈ vocabulary kind, (Pattern.keyword (ofString w)).width s = text.length ∧
          Token.word ⟨kind, text⟩ = ofString w) ∧
      (∀ blanks w tail, s = blanks ++ w ++ tail →
        blanks ≠ [] → (∀ b ∈ blanks, isBlank b = true) →
        w ≠ [] → (∀ b ∈ w, isWordByte b = true) → tail.head?.any isWordByte = false →
        (lexicon.next? s = some (⟨kind, blanks ++ w⟩, tail) ↔
          upper w ∈ (vocabulary kind).map ofString)) := by
  refine ⟨length_filter_keywords s, fun rules h => tokens_of_perm h s, fun kind hkind => ⟨?_, ?_⟩⟩
  · intro text rest h
    obtain ⟨w, hw, hword, hlength, body, rest', hbegins, rfl⟩ := exists_keyword_of_next? hkind h
    exact ⟨w, hw, hlength, word_of_begins hbegins hword kind⟩
  · rintro blanks w tail rfl hblank hblanks hne hw htail
    obtain ⟨htake, hdrop⟩ := span_blanks_word hblanks hne hw tail
    rw [List.mem_map]
    constructor
    · intro h
      obtain ⟨k, hk, hword, -, body, rest', hbegins, htext⟩ := exists_keyword_of_next? hkind h
      rw [htake] at htext
      rw [List.append_cancel_left htext, hbegins.spells.upper_eq hword]
      exact ⟨k, hk, rfl⟩
    · rintro ⟨k, hk, hupper⟩
      have hkeyword : (⟨kind, .keyword (ofString k)⟩ : Rule) ∈ keywords :=
        mem_keywords_iff.2 ⟨k, hk, rfl⟩
      have hwidth : (Pattern.keyword (ofString k)).width (blanks ++ w ++ tail) =
          (blanks ++ w).length := by
        have hbegins := begins_word hblanks hne hw hblank htail
        rw [hupper, Pattern.width, hbegins.width, htake, List.length_append]
      have hpos : (Pattern.keyword (ofString k)).width (blanks ++ w ++ tail) ≠ 0 := by
        rw [hwidth]
        simp [hblank]
      have hmeasure := measure_of_keyword hkeyword hpos
      dsimp only at hmeasure
      rw [hwidth] at hmeasure
      exact Lexicon.next?_of_measure (by simp [hblank]) hmeasure

/-- A keyword with the long s, of which another keyword is the beginning, and that other one. -/
theorem keyword_lexing_longS :
    lexicon.next? (ofString "\tſwi2 ;") = some (⟨.mnemonic, ofString "\tſwi2"⟩, ofString " ;") ∧
    (∃ w ∈ mnemonics, Token.word ⟨.mnemonic, ofString "\tſwi2"⟩ = ofString w) ∧
    Lexicon.tokens (keywords.reverse ++ plainRules) (ofString "\tſwi2 ;") =
      lexicon.tokens (ofString "\tſwi2 ;") ∧
    lexicon.next? (ofString "\tswi;") = some (⟨.mnemonic, ofString "\tswi"⟩, ofString ";") := by
  have hnext : lexicon.next? (ofString "\tſwi2 ;") =
      some (⟨.mnemonic, ofString "\tſwi2"⟩, ofString " ;") := by decide +kernel
  obtain ⟨-, hperm, hkeywords⟩ := keyword_lexing (ofString "\tſwi2 ;")
  obtain ⟨w, hw, -, hword⟩ := (hkeywords .mnemonic (.inl rfl)).1 _ _ hnext
  refine ⟨hnext, ⟨w, hw, hword⟩, hperm _ (List.reverse_perm keywords), ?_⟩
  have hswi := ((keyword_lexing (ofString "\tswi;")).2.2 .mnemonic (.inl rfl)).2 (ofString "\t")
    (ofString "swi") (ofString ";") (by decide) (by decide) (by decide +kernel) (by decide)
    (by decide +kernel) (by decide)
  have hupper : upper (ofString "swi") ∈ mnemonics.map ofString := by decide +kernel
  rw [hswi.2 hupper]
  decide

end Assembly
end Forge6809
