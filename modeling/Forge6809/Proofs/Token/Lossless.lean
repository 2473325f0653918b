import Forge6809.Proofs.Text.Character
import Forge6809.Proofs.Token.Cursor
import Forge6809.Proofs.Token.Matching

/-! # Lexing loses nothing

A token is what the first rule takes that matches anything, and one character where none does. So
no token is empty, lexing comes to the end of every text, and the tokens that a cursor hands out are
the text, whether or not its characters are well encoded. -/

namespace Forge6809

open Text

def Pattern.Unmatched (p : Pattern) (s : Bytes) : Prop :=
  ∀ x rest, x ++ rest = s → ¬p.Matches x rest

theorem Pattern.Proper.unmatched {p : Pattern} (hp : p.Proper) {s : Bytes} (h : p.width s = 0) :
    p.Unmatched s := by
  rintro x rest rfl hmatches
  have hle := hmatches.length_le hp
  rw [h, Nat.le_zero, List.length_eq_zero_iff] at hle
  exact hmatches.ne_nil hp hle

namespace Lexicon

/-- No rule is for undefined tokens, and all patterns are proper. -/
def Proper (lx : Lexicon) : Prop :=
  ∀ r ∈ lx, r.kind ≠ .undefined ∧ r.pattern.Proper

instance (lx : Lexicon) : Decidable lx.Proper :=
  inferInstanceAs (Decidable (∀ r ∈ lx, _ ∧ _))

section Next

variable {lx : Lexicon} {s rest : Bytes} {t : Token}

theorem next?_eq_none_iff : lx.next? s = none ↔ s = [] := by
  rw [next?]
  split
  next hs => exact iff_of_true rfl hs
  next hs => exact iff_of_false (Option.some_ne_none _) hs

/-- Where a token is undefined, no rule takes anything. -/
theorem Proper.measure_of_undefined (hlx : lx.Proper) (h : (lx.measure s).1 = .undefined) :
    (lx.measure s).2 = Utf8.width s ∧ ∀ r ∈ lx, r.pattern.width s = 0 := by
  unfold measure at h ⊢
  split at h
  next r hr => exact absurd h (hlx r (List.mem_of_find?_eq_some hr)).1
  next hnone =>
    refine ⟨rfl, fun r hr => ?_⟩
    simpa using List.find?_eq_none.1 hnone r hr

/-- A rule is the first one that matches a beginning of a text, and takes the longest one. -/
structure Chooses (lx : Lexicon) (s : Bytes) (r : Rule) (x rest : Bytes) : Prop where
  first : ∃ earlier later, lx = earlier ++ r :: later ∧ ∀ q ∈ earlier, q.pattern.Unmatched s
  taken : r.pattern.Matches x rest
  longest (y z : Bytes) : y ++ z = s → r.pattern.Matches y z → y.length ≤ x.length

/-- A token of a kind is taken by a rule of that kind. -/
theorem Proper.exists_chooses (hlx : lx.Proper) (h : lx.next? s = some (t, rest))
    (hkind : t.kind ≠ .undefined) : ∃ r, lx.Chooses s r t.text rest ∧ r.kind = t.kind := by
  have hmeasure := measure_of_next? h
  rw [measure] at hmeasure
  split at hmeasure
  next r hfind =>
    obtain ⟨hrkind, hwidth⟩ := Prod.mk.inj hmeasure
    obtain ⟨hpos, earlier, later, hsplit, hearlier⟩ := List.find?_eq_some_iff_append.1 hfind
    obtain ⟨x, y, hxy, hlength, hmatches⟩ := Pattern.exists_matches (bne_iff_ne.1 hpos)
    rw [hwidth] at hlength
    obtain ⟨rfl, rfl⟩ := List.append_inj (hxy.trans (next?_append h).symm) hlength
    have hmem : ∀ q ∈ earlier ++ r :: later, q.pattern.Proper := hsplit ▸ fun q hq => (hlx q hq).2
    refine ⟨r, ⟨⟨earlier, later, hsplit, fun q hq => ?_⟩, hmatches, ?_⟩, hrkind⟩
    · refine (hmem q (List.mem_append_left _ hq)).unmatched ?_
      simpa using hearlier q hq
    · rintro y z rfl hy
      rw [← hwidth]
      exact hy.length_le (hmem r (by simp))
  next => exact absurd (congrArg Prod.fst hmeasure).symm hkind

theorem Proper.undefined_of_next? (hlx : lx.Proper) (h : lx.next? s = some (t, rest))
    (hkind : t.kind = .undefined) : (∀ r ∈ lx, r.pattern.Unmatched s) ∧
      ((∃ c : Char, t.text = String.utf8EncodeChar c) ∨
        t.text.length = 1 ∧ ∀ c : Char, ¬String.utf8EncodeChar c <+: s) := by
  have hmeasure := measure_of_next? h
  obtain ⟨hwidth, hnone⟩ := hlx.measure_of_undefined (by rwa [hmeasure])
  rw [hmeasure] at hwidth
  dsimp only at hwidth
  refine ⟨fun r hr => (hlx r hr).2.unmatched (hnone r hr), ?_⟩
  have hne : s ≠ [] := mt next?_eq_none_iff.2 (h ▸ Option.some_ne_none (t, rest))
  have htext : s.take (Utf8.width s) = t.text := by
    rw [← hwidth, ← next?_append h, List.take_left]
  rcases Utf8.take_width hne with ⟨c, hc⟩ | ⟨hone, hbyte⟩
  · exact .inl ⟨c, htext.symm.trans hc⟩
  · exact .inr ⟨hwidth.trans hone, hbyte⟩

end Next

section Tokens

variable {lx : Lexicon} {s : Bytes}

/-- A token is read from the text that is left at its place. -/
theorem next?_of_tokens_eq {pre post : List Token} {t : Token}
    (h : lx.tokens s = pre ++ t :: post) :
    lx.next? (t.text ++ post.flatMap (·.text)) = some (t, post.flatMap (·.text)) := by
  have hsuffix : t :: post <:+ lx.tokens s := h ▸ List.suffix_append pre (t :: post)
  have htokens := tokens_of_suffix hsuffix
  rw [List.flatMap_cons, tokens] at htokens
  split at htokens
  next => cases htokens
  next t' rest hnext =>
    obtain ⟨rfl, rfl⟩ := List.cons.inj htokens
    rw [hnext, flatMap_tokens]

end Tokens
end Lexicon

theorem Place.answers_replicate_next (p : Place) (n : Nat) :
    p.answers (List.replicate n .next) =
      (List.range n).map fun i => .token p.tokens[p.index + i]? := by
  induction n generalizing p with
  | zero => rfl
  | succ n ih =>
    rw [List.replicate_succ, Place.answers, ih, List.range_succ_eq_map, List.map_cons, List.map_map]
    congr 1
    refine List.map_congr_left fun i _ => congrArg _ ?_
    -- At the end of the list the place stays where it is, and there is nothing behind it.
    change p.tokens[min (p.index + 1) p.tokens.length + i]? = p.tokens[p.index + (i + 1)]?
    rcases Nat.lt_or_ge p.tokens.length (p.index + 1) with hend | hmore
    · rw [List.getElem?_eq_none (by omega), List.getElem?_eq_none (by omega)]
    · rw [Nat.min_eq_left hmore, Nat.add_right_comm, Nat.add_assoc]

theorem Cursor.answers_replicate_next (lx : Lexicon) (s : Bytes) (n : Nat) :
    (Cursor.mk lx s [] 0).answers (List.replicate n .next) =
      (List.range n).map fun i => .token (lx.tokens s)[i]? := by
  rw [(at_start lx s).answers_eq, Place.answers_replicate_next]
  simp only [Nat.zero_add]

theorem Assembly.proper_lexicon : Lexicon.Proper lexicon := by
  have hplain : Lexicon.Proper plainRules := by decide +kernel
  intro r hr
  rw [lexicon_eq] at hr
  rcases List.mem_append.1 hr with hr | hr
  · obtain ⟨hkind, word, hpattern, hword⟩ := mem_keywords hr
    rw [hpattern]
    refine ⟨?_, hword⟩
    rcases hkind with hkind | hkind <;> rw [hkind] <;> decide
  · exact hplain r hr

theorem Expr.proper_lexicon : Lexicon.Proper lexicon := by
  decide +kernel

/-- Both lexicons read every text to its end. A token is not empty and is what the first rule takes
that matches anything; an undefined one is a single character, or a single byte where none begins,
and stands where no rule matches anything. The tokens that a cursor hands out are all tokens of the
text, each read where the one before it ends, and together they are the text. -/
theorem lexing_lossless {lx : Lexicon} (hlx : lx = Assembly.lexicon ∨ lx = Expr.lexicon)
    (s : Bytes) :
    (lx.next? s = none ↔ s = []) ∧
    (∀ t rest, lx.next? s = some (t, rest) →
      t.text ≠ [] ∧ t.text ++ rest = s ∧
      (t.kind ≠ .undefined → ∃ r, lx.Chooses s r t.text rest ∧ r.kind = t.kind) ∧
      (t.kind = .undefined → (∀ r ∈ lx, r.pattern.Unmatched s) ∧
        ((∃ c : Char, t.text = String.utf8EncodeChar c) ∨
          t.text.length = 1 ∧ ∀ c : Char, ¬String.utf8EncodeChar c <+: s))) ∧
    (∀ pre t post, lx.tokens s = pre ++ t :: post →
      lx.next? (t.text ++ post.flatMap (·.text)) = some (t, post.flatMap (·.text))) ∧
    (lx.tokens s).flatMap (·.text) = s ∧ (lx.tokens s).length ≤ s.length ∧
    ∀ n, (Cursor.mk lx s [] 0).answers (List.replicate n .next) =
      (List.range n).map fun i => .token (lx.tokens s)[i]? := by
  have hproper : lx.Proper := by
    rcases hlx with rfl | rfl
    · exact Assembly.proper_lexicon
    · exact Expr.proper_lexicon
  refine ⟨Lexicon.next?_eq_none_iff, fun t rest h => ⟨Lexicon.next?_text_ne_nil h,
    Lexicon.next?_append h, hproper.exists_chooses h, hproper.undefined_of_next? h⟩,
    fun pre t post => Lexicon.next?_of_tokens_eq, lx.flatMap_tokens s, lx.length_tokens_le s,
    Cursor.answers_replicate_next lx s⟩

/-- A letter outside ASCII and a byte of no character are undefined, and nothing is left behind
them. -/
theorem umlaut_lossless :
    Assembly.lexicon.tokens (ofString "ä" ++ [0xFF]) =
      [⟨.undefined, ofString "ä"⟩, ⟨.undefined, [0xFF]⟩] ∧
    (∀ r ∈ Assembly.lexicon, r.pattern.Unmatched [0xFF]) ∧
    ∀ c : Char, ¬String.utf8EncodeChar c <+: [0xFF] := by
  have humlaut : Assembly.lexicon.next? (ofString "ä" ++ [0xFF]) =
      some (⟨.undefined, ofString "ä"⟩, [0xFF]) := by decide +kernel
  have hbyte : Assembly.lexicon.next? [0xFF] = some (⟨.undefined, [0xFF]⟩, []) := by
    decide +kernel
  obtain ⟨-, -, -, hundefined⟩ := (lexing_lossless (.inl rfl) [0xFF]).2.1 _ _ hbyte
  obtain ⟨hunmatched, ⟨c, hc⟩ | ⟨-, hnone⟩⟩ := hundefined rfl
  · have hprefix : String.utf8EncodeChar c <+: [0xFF] := ⟨[], by rw [← hc]; rfl⟩
    cases Utf8.decode_of_begins hprefix
  · refine ⟨?_, hunmatched, hnone⟩
    rw [Lexicon.tokens_eq_cons humlaut, Lexicon.tokens_eq_cons hbyte, Lexicon.tokens_nil]

end Forge6809
