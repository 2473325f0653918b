import Forge6809.Proofs.Assembly.Keyword

/-! # What patterns match

Whether a pattern matches a text depends on the text and, at a word boundary, on what follows it.
The width of a pattern is the length of the longest beginning of a text that it matches, and zero
only if it matches none but the empty one. -/

namespace Forge6809

open Text

namespace Pattern

/-- A pattern matches a text that another one follows. -/
inductive Matches : Pattern → Bytes → Bytes → Prop
  | keyword {word blanks body rest : Bytes} : blanks ≠ [] → (∀ b ∈ blanks, isBlank b = true) →
      Spells word body → isBoundary body.getLast? rest.head? = true →
      Matches (.keyword word) (blanks ++ body) rest
  | name {blank : Bool} {least : Nat} {b : UInt8} {bs rest : Bytes} : isNameStart b = true →
      (∀ c ∈ bs, isWordByte c = true) → least ≤ bs.length →
      Matches (.name blank least) (b :: bs) rest
  | indented {least : Nat} {a : UInt8} {x rest : Bytes} : isBlank a = true →
      Matches (.name false least) x rest → Matches (.name true least) (a :: x) rest
  | run {member : UInt8 → Bool} {x rest : Bytes} : x ≠ [] → (∀ b ∈ x, member b = true) →
      Matches (.run member) x rest
  | marked {mark : UInt8} {member : UInt8 → Bool} {x rest : Bytes} :
      x ≠ [] → (∀ b ∈ x, member b = true) → Matches (.marked mark member) (mark :: x) rest
  | exact {text rest : Bytes} : Matches (.exact text) text rest
  | oneOf {member : UInt8 → Bool} {b : UInt8} {rest : Bytes} : member b = true →
      Matches (.oneOf member) [b] rest
  | toLineEnd {mark : UInt8} {x rest : Bytes} : 0x0A ∉ x →
      Matches (.toLineEnd mark) (mark :: x) rest
  | carriageReturn {rest : Bytes} : Matches .lineBreak [0x0D] rest
  | lineFeed {rest : Bytes} : Matches .lineBreak [0x0A] rest
  | both {rest : Bytes} : Matches .lineBreak [0x0D, 0x0A] rest

/-- The words of keywords are made of bytes of words, and no text to be matched is empty. -/
def Proper : Pattern → Prop
  | keyword word => word ≠ [] ∧ ∀ b ∈ word, isWordByte b = true
  | exact text => text ≠ []
  | name _ _ | run _ | marked _ _ | oneOf _ | toLineEnd _ | lineBreak => True

instance (p : Pattern) : Decidable p.Proper :=
  match p with
  | keyword word => inferInstanceAs (Decidable (word ≠ [] ∧ ∀ b ∈ word, isWordByte b = true))
  | exact text => inferInstanceAs (Decidable (text ≠ []))
  | name _ _ | run _ | marked _ _ | oneOf _ | toLineEnd _ | lineBreak =>
    inferInstanceAs (Decidable True)

section Taken

variable {p : Pattern} {s : Bytes}

theorem takeWhile_ne_nil {q : UInt8 → Bool} (h : s.head?.any q = true) : s.takeWhile q ≠ [] := by
  cases s with
  | nil => cases h
  | cons b r =>
    rw [List.takeWhile_cons_of_pos (p := q) h]
    exact List.cons_ne_nil b _

theorem nameWidth_cons (least : Nat) (b : UInt8) (r : Bytes) : nameWidth least (b :: r) =
    if isNameStart b = true ∧ least ≤ (r.takeWhile isWordByte).length then
      (r.takeWhile isWordByte).length + 1 else 0 := by
  simp [nameWidth]

theorem width_name_true_cons (least : Nat) (a : UInt8) (s : Bytes) :
    width (.name true least) (a :: s) =
      if isBlank a = true then if nameWidth least s = 0 then 0 else nameWidth least s + 1
      else nameWidth least (a :: s) := by
  by_cases ha : isBlank a = true
  · cases hs : nameWidth least s <;> simp [width, ha, hs]
  · simp [width, ha]

theorem exists_matches_name {least : Nat} (blank : Bool) (h : nameWidth least s ≠ 0) :
    ∃ x rest, x ++ rest = s ∧ x.length = nameWidth least s ∧
      Matches (.name blank least) x rest := by
  cases s with
  | nil => exact absurd rfl h
  | cons b r =>
    rw [nameWidth_cons] at h ⊢
    by_cases hb : isNameStart b = true ∧ least ≤ (r.takeWhile isWordByte).length
    · refine ⟨b :: r.takeWhile isWordByte, r.dropWhile isWordByte, ?_, ?_, ?_⟩
      · rw [List.cons_append, List.takeWhile_append_dropWhile]
      · rw [if_pos hb, List.length_cons]
      · exact .name hb.1 (fun c => List.mem_takeWhile_imp) hb.2
    · exact absurd (if_neg hb) h

/-- What a pattern takes, it matches. -/
theorem exists_matches (h : p.width s ≠ 0) :
    ∃ x rest, x ++ rest = s ∧ x.length = p.width s ∧ p.Matches x rest := by
  cases p with
  | keyword word =>
    obtain ⟨body, rest, hbegins⟩ := exists_begins h
    refine ⟨s.takeWhile isBlank ++ body, rest, ?_, ?_, ?_⟩
    · rw [List.append_assoc, ← hbegins.text, List.takeWhile_append_dropWhile]
    · rw [width, hbegins.width, List.length_append]
    · refine .keyword ?_ (fun b => List.mem_takeWhile_imp) hbegins.spells hbegins.boundary
      exact takeWhile_ne_nil hbegins.blank
  | name blank least =>
    cases blank with
    | false => exact exists_matches_name false h
    | true =>
      cases s with
      | nil => exact absurd rfl h
      | cons a s =>
        rw [width_name_true_cons] at h ⊢
        by_cases ha : isBlank a = true
        · rw [if_pos ha] at h ⊢
          by_cases hname : nameWidth least s = 0
          · exact absurd (if_pos hname) h
          · obtain ⟨x, rest, rfl, hlength, hmatches⟩ := exists_matches_name false hname
            refine ⟨a :: x, rest, rfl, ?_, .indented ha hmatches⟩
            rw [if_neg hname, List.length_cons, hlength]
        · rw [if_neg ha] at h ⊢
          exact exists_matches_name true h
  | run member =>
    refine ⟨s.takeWhile member, s.dropWhile member, List.takeWhile_append_dropWhile, rfl, ?_⟩
    exact .run (List.length_pos_iff.1 (Nat.pos_of_ne_zero h)) fun b => List.mem_takeWhile_imp
  | marked mark member =>
    cases s with
    | nil => exact absurd rfl h
    | cons b r =>
      rw [width_marked_cons] at h ⊢
      by_cases hb : b = mark ∧ r.head?.any member
      · obtain ⟨rfl, hhead⟩ := hb
        refine ⟨b :: r.takeWhile member, r.dropWhile member, ?_, ?_, ?_⟩
        · rw [List.cons_append, List.takeWhile_append_dropWhile]
        · rw [if_pos ⟨rfl, hhead⟩, List.length_cons]
        · exact .marked (takeWhile_ne_nil hhead) fun b => List.mem_takeWhile_imp
      · exact absurd (if_neg hb) h
  | exact text =>
    by_cases hprefix : text.isPrefixOf s = true
    · obtain ⟨rest, rfl⟩ := List.isPrefixOf_iff_prefix.1 hprefix
      exact ⟨text, rest, rfl, by rw [width, if_pos hprefix], .exact⟩
    · exact absurd (if_neg hprefix) h
  | oneOf member =>
    cases s with
    | nil => exact absurd rfl h
    | cons b r =>
      by_cases hb : member b = true
      · exact ⟨[b], r, rfl, by simp [width, hb], .oneOf hb⟩
      · simp [width, hb] at h
  | toLineEnd mark =>
    cases s with
    | nil => exact absurd rfl h
    | cons b r =>
      by_cases hb : b = mark
      · subst hb
        refine ⟨b :: r.takeWhile (· != 0x0A), r.dropWhile (· != 0x0A), ?_, ?_, .toLineEnd ?_⟩
        · rw [List.cons_append, List.takeWhile_append_dropWhile]
        · simp [width]
        · intro hmem
          exact absurd (List.mem_takeWhile_imp hmem) (by decide)
      · exact absurd (if_neg hb) h
  | lineBreak =>
    rw [width_lineBreak_eq] at h ⊢
    by_cases hreturn : s.head? = some 0x0D
    · obtain ⟨r, rfl⟩ := List.head?_eq_some_iff.1 hreturn
      by_cases hfeed : r.head? = some 0x0A
      · obtain ⟨r, rfl⟩ := List.head?_eq_some_iff.1 hfeed
        exact ⟨[0x0D, 0x0A], r, rfl, rfl, .both⟩
      · refine ⟨[0x0D], r, rfl, ?_, .carriageReturn⟩
        rw [if_pos hreturn, List.tail_cons, if_neg hfeed, List.length_singleton]
    · rw [if_neg hreturn] at h ⊢
      by_cases hfeed : s.head? = some 0x0A
      · obtain ⟨r, rfl⟩ := List.head?_eq_some_iff.1 hfeed
        exact ⟨[0x0A], r, rfl, rfl, .lineFeed⟩
      · exact absurd (if_neg hfeed) h

end Taken

section Longest

variable {p : Pattern} {x rest : Bytes}

theorem length_le_takeWhile {q : UInt8 → Bool} (h : ∀ b ∈ x, q b = true) (rest : Bytes) :
    x.length ≤ ((x ++ rest).takeWhile q).length := by
  rw [List.takeWhile_append_of_pos h, List.length_append]
  exact Nat.le_add_right ..

theorem Matches.ne_nil (h : p.Matches x rest) (hp : p.Proper) : x ≠ [] := by
  cases h with
  | keyword hblank => exact List.append_ne_nil_of_left_ne_nil hblank _
  | run hne => exact hne
  | exact => exact hp
  | name | indented | marked | oneOf | toLineEnd | carriageReturn | lineFeed | both =>
    exact List.cons_ne_nil _ _

theorem isBlank_of_isNameStart (b : UInt8) (h : isNameStart b = true) : isBlank b = false := by
  revert b h
  apply forall_byte
  decide +kernel

theorem length_le_nameWidth {least : Nat} {b : UInt8} {bs : Bytes} (hb : isNameStart b = true)
    (hbs : ∀ c ∈ bs, isWordByte c = true) (hleast : least ≤ bs.length) (rest : Bytes) :
    (b :: bs).length ≤ nameWidth least (b :: bs ++ rest) := by
  have hle := length_le_takeWhile hbs rest
  rw [List.cons_append, nameWidth_cons, if_pos ⟨hb, by omega⟩, List.length_cons]
  omega

/-- A spelling does not begin with a blank. -/
theorem Spells.any_isBlank_head? {word body : Bytes} (h : Spells word body) (hne : word ≠ [])
    (hword : ∀ b ∈ word, isWordByte b = true) (rest : Bytes) :
    (body ++ rest).head?.any isBlank = false := by
  have hbyte (b : UInt8) :
      (isWordByte b || b == 0xC5 || b == 0xBF) = true → isBlank b = false := by
    revert b
    apply forall_byte
    decide +kernel
  cases body with
  | nil =>
    cases h
    exact absurd rfl hne
  | cons b body => exact hbyte b (h.mem hword List.mem_cons_self)

theorem Spells.begins {word blanks body rest : Bytes} (h : Spells word body) (hne : word ≠ [])
    (hword : ∀ b ∈ word, isWordByte b = true) (hblank : blanks ≠ [])
    (hblanks : ∀ b ∈ blanks, isBlank b = true)
    (hboundary : isBoundary body.getLast? rest.head? = true) :
    Begins word (blanks ++ body ++ rest) body rest where
  blank := by
    obtain ⟨b, blanks, rfl⟩ := List.exists_cons_of_ne_nil hblank
    exact hblanks b List.mem_cons_self
  text := by
    have hhead := h.any_isBlank_head? hne hword rest
    rw [List.append_assoc, List.dropWhile_append_of_pos hblanks, dropWhile_eq_self_of_head? hhead]
  spells := h
  boundary := hboundary

/-- A pattern takes at least what it matches. -/
theorem Matches.length_le (h : p.Matches x rest) (hp : p.Proper) :
    x.length ≤ p.width (x ++ rest) := by
  induction h with
  | @keyword word blanks body rest hne hblanks hspells hboundary =>
    have hbegins := hspells.begins hp.1 hp.2 hne hblanks hboundary
    have hle := length_le_takeWhile hblanks (body ++ rest)
    rw [← List.append_assoc] at hle
    rw [width, hbegins.width, List.length_append]
    omega
  | @name blank least b bs rest hb hbs hleast =>
    have hle := length_le_nameWidth hb hbs hleast rest
    cases blank with
    | false => exact hle
    | true =>
      have hblank := isBlank_of_isNameStart b hb
      rw [List.cons_append] at hle ⊢
      rwa [width_name_true_cons, hblank, if_neg Bool.false_ne_true]
  | @indented least a x rest ha hname ih =>
    have hle : x.length ≤ nameWidth least (x ++ rest) := ih trivial
    have hpos := List.length_pos_iff.2 (hname.ne_nil trivial)
    rw [List.cons_append, width_name_true_cons, if_pos ha, if_neg (by omega), List.length_cons]
    omega
  | run hne hmember => exact length_le_takeWhile hmember _
  | @marked mark member x rest hne hmember =>
    have hle := length_le_takeWhile hmember rest
    have hhead : (x ++ rest).head?.any member = true := by
      cases x with
      | nil => exact absurd rfl hne
      | cons b x => exact hmember b List.mem_cons_self
    rw [List.cons_append, width_marked_cons, if_pos ⟨rfl, hhead⟩, List.length_cons]
    omega
  | exact => rw [width, if_pos (by simp)]
  | oneOf hb => simp [width, hb]
  | @toLineEnd mark x rest hx =>
    have hall : ∀ b ∈ x, (b != 0x0A) = true := by
      intro b hb
      rw [bne_iff_ne]
      rintro rfl
      exact hx hb
    have hle := length_le_takeWhile hall rest
    rw [List.cons_append, width, if_pos rfl, List.length_cons]
    omega
  | carriageReturn => exact Nat.pos_of_ne_zero (width_lineBreak_ne_zero _ (.inl rfl))
  | lineFeed => exact le_refl 1
  | both => exact le_refl 2

end Longest
end Pattern
end Forge6809
