import Forge6809.Proofs.Expr.Evaluation
import Forge6809.Proofs.Outcome
import Forge6809.Proofs.Token.Lexing

/-! # Blanks in expressions

Blanks between the tokens of an expression have no value of their own, but they keep tokens apart.
When some of them are left out, the expression is read as before unless a token joins the one that
stood behind the blanks. Tokens that join are two operands without an operator between them, or a
stray mark and the digits behind it, so the text in which they stand was no expression. -/

namespace Forge6809.Expr

open Text

/-- The kind of the token that begins with a byte. The byte after it tells the mark of a number
from a stray character. -/
def opens (b : UInt8) (next : Option UInt8) : Kind :=
  if b = 0x28 then .leftParen
  else if b = 0x29 then .rightParen
  else if b = 0x2A then .asterisk
  else if b = 0x2B then .plus
  else if b = 0x2D then .minus
  else if b = 0x24 ∧ next.any isHexDigit then .hex
  else if b = 0x25 ∧ next.any isBinaryDigit then .binary
  else if isNameStart b then .identifier
  else if isDigit b then .integer
  else if b = 0x0D ∨ b = 0x0A then .newline
  else if isBlank b then .whitespace
  else .undefined

/-- The bytes that a token of a kind takes after its first. -/
def continues : Kind → UInt8 → Bool
  | .hex => isHexDigit
  | .binary => isBinaryDigit
  | .identifier => isWordByte
  | .integer => isDigit
  | .whitespace => isBlank
  | _ => fun _ => false

def extent (b : UInt8) (r : Bytes) (k : Kind) : Kind × Nat :=
  (k, if k = .undefined then Utf8.width (b :: r) else (r.takeWhile (continues k)).length + 1)

theorem measure_cons {b : UInt8} (r : Bytes) (hb : b ≠ 0x0D ∧ b ≠ 0x0A) :
    lexicon.measure (b :: r) = extent b r (opens b r.head?) := by
  have hsigns : ofString "(" = [0x28] ∧ ofString ")" = [0x29] ∧ ofString "*" = [0x2A] ∧
      ofString "+" = [0x2B] ∧ ofString "-" = [0x2D] := by decide
  have htake : r.takeWhile (fun _ => false) = [] := by cases r <;> simp
  have hnil : Lexicon.measure [] (b :: r) = extent b r .undefined := rfl
  have hbreak (lx : Lexicon) : Lexicon.measure (⟨.newline, .lineBreak⟩ :: lx) (b :: r) =
      lx.measure (b :: r) := by
    rw [Lexicon.measure_rule, Pattern.width_lineBreak_eq_zero r hb, if_pos rfl]
  simp only [lexicon, hsigns, hbreak, hnil,
    Lexicon.measure_rule_ite (Pattern.width_exact_singleton _ _ _),
    Lexicon.measure_rule_ite (Pattern.width_marked_cons _ _ _ _),
    Lexicon.measure_rule_ite (Pattern.width_name_cons _ _),
    Lexicon.measure_rule_ite (Pattern.width_run_cons _ _ _)]
  simp only [opens, hb.1, hb.2, or_self, if_false, apply_ite (extent b r)]
  simp only [extent, htake, continues, reduceCtorEq, List.length_nil, zero_add, if_false]

theorem next?_cons {b : UInt8} {r : Bytes} {k : Kind} (hb : b ≠ 0x0D ∧ b ≠ 0x0A)
    (hk : opens b r.head? = k) (hu : k ≠ .undefined) :
    lexicon.next? (b :: r) =
      some (⟨k, b :: r.takeWhile (continues k)⟩, r.dropWhile (continues k)) := by
  have hsplit : b :: r = (b :: r.takeWhile (continues k)) ++ r.dropWhile (continues k) := by
    rw [List.cons_append, List.takeWhile_append_dropWhile]
  have hm : lexicon.measure (b :: r) = (k, (b :: r.takeWhile (continues k)).length) := by
    rw [measure_cons r hb, hk, extent, if_neg hu, List.length_cons]
  rw [hsplit] at hm ⊢
  exact Lexicon.next?_of_measure (List.cons_ne_nil _ _) hm

theorem next?_undefined {b : UInt8} {r : Bytes} (hb : b ≠ 0x0D ∧ b ≠ 0x0A)
    (hk : opens b r.head? = .undefined) :
    lexicon.next? (b :: r) = some (⟨.undefined, (b :: r).take (Utf8.width (b :: r))⟩,
      (b :: r).drop (Utf8.width (b :: r))) := by
  apply Lexicon.next?_eq_of_measure (List.cons_ne_nil b r)
  rw [measure_cons r hb, hk, extent, if_pos rfl]

theorem opens_dollar (next : Option UInt8) :
    opens 0x24 next = if next.any isHexDigit then .hex else .undefined := by
  have hb : isNameStart 0x24 = false ∧ isDigit 0x24 = false ∧ isBlank 0x24 = false := by decide
  simp [opens, hb]

theorem opens_percent (next : Option UInt8) :
    opens 0x25 next = if next.any isBinaryDigit then .binary else .undefined := by
  have hb : isNameStart 0x25 = false ∧ isDigit 0x25 = false ∧ isBlank 0x25 = false := by decide
  simp [opens, hb]

/-- The byte behind it matters for the mark of a number only. -/
theorem opens_of_ne {b : UInt8} (hd : b ≠ 0x24) (hp : b ≠ 0x25) (next next' : Option UInt8) :
    opens b next = opens b next' := by
  simp [opens, hd, hp]

theorem opens_none {b : UInt8} {next : Option UInt8} (h : opens b next = .undefined) :
    opens b none = .undefined := by
  by_cases hd : b = 0x24
  · rw [hd]
    exact opens_dollar none
  · by_cases hp : b = 0x25
    · rw [hp]
      exact opens_percent none
    · rw [opens_of_ne hd hp none next, h]

theorem opens_eq_whitespace_iff {b : UInt8} {next : Option UInt8} :
    opens b next = .whitespace ↔ isBlank b = true := by
  constructor
  · contrapose!
    intro hb
    have hite {c : Prop} [Decidable c] {k l : Kind} (hk : k ≠ .whitespace)
        (hl : l ≠ .whitespace) : (if c then k else l) ≠ .whitespace := by
      split
      · exact hk
      · exact hl
    unfold opens
    iterate 10 refine hite (by decide) ?_
    rw [if_neg hb]
    decide
  · intro hb
    simp only [isBlank, Bool.or_eq_true, beq_iff_eq] at hb
    rcases hb with rfl | rfl <;> simp [opens] <;> decide

theorem opens_of_isWordByte {c : UInt8} (hc : isWordByte c = true) (next : Option UInt8) :
    opens c next = .identifier ∨ opens c next = .integer := by
  have hno : ∀ d ∈ [(0x28 : UInt8), 0x29, 0x2A, 0x2B, 0x2D, 0x24, 0x25], isWordByte d = false := by
    decide +kernel
  have hne : ∀ d ∈ [(0x28 : UInt8), 0x29, 0x2A, 0x2B, 0x2D, 0x24, 0x25], c ≠ d := by
    rintro d hd rfl
    rw [hno c hd] at hc
    cases hc
  simp only [List.forall_mem_cons] at hne
  obtain ⟨h₁, h₂, h₃, h₄, h₅, h₆, h₇, -⟩ := hne
  by_cases hname : isNameStart c = true
  · simp [opens, h₁, h₂, h₃, h₄, h₅, h₆, h₇, hname]
  · have hdigit : isDigit c = true := by simpa [isWordByte, hname] using hc
    simp [opens, h₁, h₂, h₃, h₄, h₅, h₆, h₇, hname, hdigit]

theorem isWordByte_of_continues {k : Kind} {c : UInt8} (hk : k ≠ .whitespace)
    (hc : continues k c = true) : isWordByte c = true := by
  have hhex : isHexDigit c = true → isWordByte c = true := by
    simp only [isHexDigit, isWordByte, isNameStart, isLetter, Bool.or_eq_true, Bool.and_eq_true,
      decide_eq_true_eq]
    grind
  have hbinary : isBinaryDigit c = true → isWordByte c = true := by
    simp only [isBinaryDigit, Bool.or_eq_true, beq_iff_eq]
    rintro (rfl | rfl) <;> decide
  have hdigit : isDigit c = true → isWordByte c = true := fun h => by simp [isWordByte, h]
  cases k <;> simp_all [continues]

theorem isBlank_of_isWordByte {c : UInt8} (hc : isWordByte c = true) : isBlank c = false := by
  cases hb : isBlank c with
  | false => rfl
  | true =>
    rw [(separator (separates_of_isBlank hb)).2.1] at hc
    cases hc

theorem next?_blank {b : UInt8} (hb : isBlank b = true) (r : Bytes) :
    lexicon.next? (b :: r) =
      some (⟨.whitespace, b :: r.takeWhile isBlank⟩, r.dropWhile isBlank) := by
  have hbreak : b ≠ 0x0D ∧ b ≠ 0x0A := by
    constructor <;>
    · rintro rfl
      cases hb
  exact next?_cons hbreak (opens_eq_whitespace_iff.2 hb) (by decide)

/-- A token is read again with other text behind it, if that does not go on with the token. -/
theorem next?_cons_append {b : UInt8} {r v : Bytes} {k : Kind} (hb : b ≠ 0x0D ∧ b ≠ 0x0A)
    (hk : opens b r.head? = k) (hu : k ≠ .undefined) (hv : v.head?.any (continues k) = false) :
    lexicon.next? (b :: (r.takeWhile (continues k) ++ v)) =
      some (⟨k, b :: r.takeWhile (continues k)⟩, v) := by
  have hall : ∀ c ∈ r.takeWhile (continues k), continues k c = true :=
    List.all_eq_true.1 List.all_takeWhile
  -- Only a number has a mark, and the digit behind the mark belongs to the number.
  have hopens : opens b (r.takeWhile (continues k) ++ v).head? = k := by
    by_cases hd : b = 0x24
    · subst hd hk
      cases r with
      | nil => simp [opens_dollar] at hu
      | cons c r =>
        by_cases hc : isHexDigit c = true
        · simp [opens_dollar, continues, hc]
        · simp [opens_dollar, hc] at hu
    · by_cases hp : b = 0x25
      · subst hp hk
        cases r with
        | nil => simp [opens_percent] at hu
        | cons c r =>
          by_cases hc : isBinaryDigit c = true
          · simp [opens_percent, continues, hc]
          · simp [opens_percent, hc] at hu
      · rw [opens_of_ne hd hp, hk]
  have htake : v.takeWhile (continues k) = [] := by cases v <;> simp_all
  rw [next?_cons hb hopens hu, List.takeWhile_append_of_pos hall,
    List.dropWhile_append_of_pos hall, htake, dropWhile_eq_self_of_head? hv, List.append_nil]

/-- A text and the same text with runs of blanks left out. A run can be left out where `drops`
holds of the text from there on. -/
inductive Thinned (drops : Bytes → Bool) : Bytes → Bytes → Prop
  | nil : Thinned drops [] []
  | keep {t u : Bytes} (b : UInt8) : Thinned drops t u → Thinned drops (b :: t) (b :: u)
  | drop {t u : Bytes} : t.head?.any isBlank = true → drops t = true →
      Thinned drops (t.dropWhile isBlank) u → Thinned drops t u

namespace Thinned

variable {drops : Bytes → Bool} {r t u w : Bytes}

theorem append_left (w : Bytes) (h : Thinned drops t u) : Thinned drops (w ++ t) (w ++ u) := by
  induction w with
  | nil => exact h
  | cons b w ih => exact ih.keep b

/-- A text that does not begin with a blank keeps its first byte. -/
theorem head?_eq (hr : r.head?.any isBlank = false) (h : Thinned drops r u) :
    u.head? = r.head? := by
  cases h with
  | nil => rfl
  | keep => rfl
  | drop hblank => rw [hr] at hblank; cases hblank

theorem of_append (hw : ∀ b ∈ w, isBlank b = false) (h : Thinned drops (w ++ r) u) :
    ∃ u', u = w ++ u' ∧ Thinned drops r u' := by
  induction w generalizing u with
  | nil => exact ⟨u, rfl, h⟩
  | cons b w ih =>
    cases h with
    | keep _ h =>
      obtain ⟨u', rfl, h'⟩ := ih (fun c hc => hw c (List.mem_cons_of_mem _ hc)) h
      exact ⟨u', rfl, h'⟩
    | drop hblank => simp [hw b List.mem_cons_self] at hblank

/-- Of a run of blanks some are kept. -/
theorem of_blanks (hw : ∀ b ∈ w, isBlank b = true) (hr : r.head?.any isBlank = false)
    (h : Thinned drops (w ++ r) u) :
    ∃ w' u', u = w' ++ u' ∧ (∀ b ∈ w', isBlank b = true) ∧ Thinned drops r u' := by
  induction w generalizing u with
  | nil => exact ⟨[], u, rfl, by simp, h⟩
  | cons b w ih =>
    cases h with
    | keep _ h =>
      obtain ⟨w', u', rfl, hw', h'⟩ := ih (fun c hc => hw c (List.mem_cons_of_mem _ hc)) h
      exact ⟨b :: w', u', rfl, List.forall_mem_cons.2 ⟨hw b List.mem_cons_self, hw'⟩, h'⟩
    | drop _ _ h =>
      have hdrop : (b :: w ++ r).dropWhile isBlank = r := by
        rw [List.dropWhile_append_of_pos hw, dropWhile_eq_self_of_head? hr]
      rw [hdrop] at h
      exact ⟨[], u, rfl, by simp, h⟩

end Thinned

/-- Whether a byte right behind a token would be read as part of it. -/
def goesOn (x : Token) (b : UInt8) : Bool :=
  match x.kind with
  | .undefined => opens (x.text.headD 0) (some b) != .undefined
  | .whitespace => false
  | k => continues k b

/-- Whether a token goes on with the one behind the blanks that follow it, and these blanks are
left out. -/
def joins (drops : Bytes → Bool) : List Token → Bool
  | x :: w :: y :: rest =>
    (w.kind = .whitespace && goesOn x (y.text.headD 0) &&
      drops ((w :: y :: rest).flatMap (·.text))) || joins drops (w :: y :: rest)
  | _ => false

theorem joins_tail {drops : Bytes → Bool} {x : Token} {ts : List Token}
    (h : joins drops (x :: ts) = false) : joins drops ts = false := by
  match ts with
  | [] => rfl
  | [w] => rfl
  | w :: y :: rest =>
    rw [joins, Bool.or_eq_false_iff] at h
    exact h.2

/-- A token that joins nothing does not go on after blanks were left out behind it. -/
theorem any_goesOn_of_thinned {drops : Bytes → Bool} {x : Token} {r u : Bytes}
    (h : Thinned drops r u) (hj : joins drops (x :: lexicon.tokens r) = false)
    (hx : r.head?.any (goesOn x) = false) : u.head?.any (goesOn x) = false := by
  cases h with
  | nil => rfl
  | keep => exact hx
  | drop hblank hdrops h =>
    cases r with
    | nil => cases hblank
    | cons c r =>
      have hc : isBlank c = true := by simpa using hblank
      rw [List.dropWhile_cons_of_pos hc] at h
      rw [h.head?_eq (any_head?_dropWhile _ _)]
      have htext := Lexicon.flatMap_tokens lexicon (c :: r)
      rw [Lexicon.tokens_eq_cons (next?_blank hc r)] at hj htext
      cases hq : r.dropWhile isBlank with
      | nil => rfl
      | cons d q =>
        obtain ⟨y, ts, hts, -, hd⟩ := Lexicon.exists_tokens_cons lexicon d q
        rw [hq, hts] at hj htext
        simp only [joins, htext, hdrops, hd, decide_true, Bool.true_and, Bool.and_true,
          Bool.or_eq_false_iff] at hj
        exact hj.1

/-- A stray character that joins nothing stays one. -/
theorem opens_of_thinned {drops : Bytes → Bool} {b : UInt8} {r u : Bytes}
    (hb : b ≠ 0x0D ∧ b ≠ 0x0A) (hk : opens b r.head? = .undefined) (h : Thinned drops r u)
    (hj : joins drops (lexicon.tokens (b :: r)) = false) : opens b u.head? = .undefined := by
  by_cases hmark : b = 0x24 ∨ b = 0x25
  · have hwidth : Utf8.width (b :: r) = 1 := by rcases hmark with rfl | rfl <;> rfl
    have hnext := next?_undefined hb hk
    rw [hwidth] at hnext
    rw [Lexicon.tokens_eq_cons hnext] at hj
    have hgoes : ∀ c, goesOn ⟨.undefined, [b]⟩ c = (opens b (some c) != .undefined) := fun _ => rfl
    have hx : r.head?.any (goesOn ⟨.undefined, [b]⟩) = false := by
      cases r with
      | nil => rfl
      | cons c r => simpa [hgoes] using hk
    have hu := any_goesOn_of_thinned h hj hx
    cases u with
    | nil => exact opens_none hk
    | cons c u => simpa [hgoes] using hu
  · push Not at hmark
    rw [opens_of_ne hmark.1 hmark.2 _ r.head?, hk]

section Reading

variable {names : Resolver} {strict : Bool} {drops : Bytes → Bool}

theorem foldlM_undefined {x : Token} (hx : x.kind = .undefined) (ts : List Token) (s : State) :
    (x :: ts).foldlM (step names strict) s = .error .malformed := by
  have ho : operand? names strict x = none := by simp [operand?, hx]
  have hstep : step names strict s x = .error .malformed := by
    simp only [step, ho, hx, Operator.ofKind?]
    rfl
  rw [List.foldlM_cons, hstep]
  rfl

theorem foldlM_blanks {w u : Bytes} (hw : ∀ b ∈ w, isBlank b = true)
    (hu : u.head?.any isBlank = false) (s : State) :
    (lexicon.tokens (w ++ u)).foldlM (step names strict) s =
      (lexicon.tokens u).foldlM (step names strict) s := by
  cases w with
  | nil => rfl
  | cons b w =>
    have hdrop : (w ++ u).dropWhile isBlank = u := by
      rw [List.dropWhile_append_of_pos (fun c hc => hw c (List.mem_cons_of_mem _ hc)),
        dropWhile_eq_self_of_head? hu]
    rw [List.cons_append, Lexicon.tokens_eq_cons (next?_blank (hw b List.mem_cons_self) _), hdrop,
      List.foldlM_cons, step_spacing (by simp [isSpacing])]
    rfl

/-- Where no tokens join, a thinned text is read like the text itself. -/
theorem foldlM_thinned {t u : Bytes} (h : Thinned drops t u)
    (hbreak : ∀ b ∈ t, b ≠ 0x0D ∧ b ≠ 0x0A) (hj : joins drops (lexicon.tokens t) = false)
    (s : State) :
    (lexicon.tokens t).foldlM (step names strict) s =
      (lexicon.tokens u).foldlM (step names strict) s := by
  induction hlen : t.length using Nat.strong_induction_on generalizing t u s with
  | _ n ih =>
  cases t with
  | nil =>
    cases h with
    | nil => rfl
    | drop hblank => cases hblank
  | cons b r =>
    -- A run of blanks changes nothing, a stray character ends both readings, and any other token
    -- is the same in both texts.
    by_cases hb : isBlank b = true
    · have hnext := next?_blank hb r
      have hlt := Lexicon.length_lt_of_next? hnext
      have hhead := any_head?_dropWhile isBlank r
      have hblanks : ∀ c ∈ b :: r.takeWhile isBlank, isBlank c = true :=
        List.forall_mem_cons.2 ⟨hb, List.all_eq_true.1 List.all_takeWhile⟩
      rw [← Lexicon.next?_append hnext] at h hbreak
      rw [Lexicon.tokens_eq_cons hnext] at hj ⊢
      obtain ⟨w, v, rfl, hw, hv⟩ := h.of_blanks hblanks hhead
      rw [foldlM_blanks hw (by rw [hv.head?_eq hhead, hhead]), List.foldlM_cons,
        step_spacing (by simp [isSpacing])]
      exact ih _ (hlen ▸ hlt) hv (fun c hc => hbreak c (List.mem_append_right _ hc))
        (joins_tail hj) s rfl
    · have hb' : isBlank b = false := Bool.not_eq_true _ ▸ hb
      have hbb := hbreak b List.mem_cons_self
      generalize hk : opens b r.head? = k
      by_cases hu : k = .undefined
      · subst hu
        obtain ⟨v, rfl, hv⟩ := Thinned.of_append (w := [b]) (by simpa using hb') h
        rw [List.singleton_append, Lexicon.tokens_eq_cons (next?_undefined hbb hk),
          Lexicon.tokens_eq_cons (next?_undefined hbb (opens_of_thinned hbb hk hv hj)),
          foldlM_undefined rfl, foldlM_undefined rfl]
      · have hw : k ≠ .whitespace := fun hw => hb (opens_eq_whitespace_iff.1 (hk.trans hw))
        have hnext := next?_cons hbb hk hu
        have hlt := Lexicon.length_lt_of_next? hnext
        have hnone : ∀ c ∈ b :: r.takeWhile (continues k), isBlank c = false :=
          List.forall_mem_cons.2 ⟨hb', fun c hc =>
            isBlank_of_isWordByte (isWordByte_of_continues hw
              (List.all_eq_true.1 List.all_takeWhile c hc))⟩
        rw [← Lexicon.next?_append hnext] at h hbreak
        rw [Lexicon.tokens_eq_cons hnext] at hj ⊢
        obtain ⟨v, rfl, hv⟩ := h.of_append hnone
        have hgoes : goesOn ⟨k, b :: r.takeWhile (continues k)⟩ = continues k := by
          funext c
          cases k <;> first | rfl | contradiction
        have hstop := any_goesOn_of_thinned hv hj (by rw [hgoes]; exact any_head?_dropWhile _ _)
        rw [hgoes] at hstop
        rw [List.cons_append, Lexicon.tokens_eq_cons (next?_cons_append hbb hk hu hstop),
          List.foldlM_cons, List.foldlM_cons]
        apply congrArg
        funext s'
        exact ih _ (hlen ▸ hlt) hv (fun c hc => hbreak c (List.mem_append_right _ hc))
          (joins_tail hj) s' rfl

theorem goesOn_cases {x : Token} {c : UInt8} (h : goesOn x c = true) :
    x.kind = .undefined ∨ (leaf? x).isSome = true ∧ isWordByte c = true := by
  by_cases hu : x.kind = .undefined
  · exact Or.inl hu
  · have hk : x.kind ≠ .whitespace := fun hk => by simp [goesOn, hk] at h
    have hgoes : continues x.kind c = true := by
      unfold goesOn at h
      split at h <;> simp_all
    have hleaf : (leaf? x).isSome = true := by
      unfold leaf?
      cases hx : x.kind <;> simp_all [continues]
    exact Or.inr ⟨hleaf, isWordByte_of_continues hk hgoes⟩

/-- A token that begins with a letter, a digit or an underscore is an operand. -/
theorem leaf?_of_isWordByte {t : Bytes} {y : Token} (hbreak : ∀ b ∈ t, b ≠ 0x0D ∧ b ≠ 0x0A)
    (hy : y ∈ lexicon.tokens t) (hw : isWordByte (y.text.headD 0) = true) :
    (leaf? y).isSome = true := by
  fun_induction Lexicon.tokens lexicon t with
  | case1 => cases hy
  | case2 s x rest hn ih =>
    rcases List.mem_cons.1 hy with rfl | hy
    · cases s with
      | nil => simp [Lexicon.next?] at hn
      | cons b r =>
        obtain ⟨cs, htext⟩ := Lexicon.exists_text_of_next? hn
        have hkind : y.kind = opens b r.head? := by
          have hm := Lexicon.measure_of_next? hn
          rw [measure_cons r (hbreak b List.mem_cons_self)] at hm
          exact (congrArg Prod.fst hm).symm
        rw [htext, List.headD_cons] at hw
        rcases opens_of_isWordByte hw r.head? with hk | hk <;> simp [leaf?, hkind, hk]
    · have hsplit := Lexicon.next?_append hn
      exact ih (fun c hc => hbreak c (hsplit ▸ List.mem_append_right _ hc)) hy

/-- After an operand no other may follow. -/
theorem step_leaf_leaf {s s₁ : State} {x y : Token} (hx : (leaf? x).isSome = true)
    (hy : (leaf? y).isSome = true) (h : step names strict s x = .ok s₁) :
    step names strict s₁ y = .error .malformed := by
  have hone {t : Token} (ht : (leaf? t).isSome = true) :
      ∃ v, operand? names strict t = some v := by
    rw [← Option.ne_none_iff_exists', Ne, operand?_eq_none_iff]
    exact Option.ne_none_iff_isSome.2 ht
  obtain ⟨vx, hvx⟩ := hone hx
  obtain ⟨vy, hvy⟩ := hone hy
  have hs₁ : s₁.expectOperand = false := by
    simp only [step, hvx] at h
    split at h
    · obtain ⟨v, -, hv⟩ := bind_eq_ok_iff.1 h
      cases hv
      rfl
    · cases h
  simp only [step, hvy, hs₁]
  rfl

theorem foldlM_joins {ts : List Token}
    (hts : ∀ y ∈ ts, isWordByte (y.text.headD 0) = true → (leaf? y).isSome = true)
    (hj : joins drops ts = true) (s : State) :
    ∃ e, ts.foldlM (step names strict) s = .error e := by
  fun_induction joins drops ts generalizing s with
  | case1 x w y rest ih =>
    rw [List.foldlM_cons]
    cases hx : step names strict s x with
    | error e => exact ⟨e, rfl⟩
    | ok s₁ =>
      change ∃ e, (w :: y :: rest).foldlM (step names strict) s₁ = .error e
      rcases Bool.or_eq_true_iff.1 hj with hjoint | hj
      · simp only [Bool.and_eq_true, decide_eq_true_eq] at hjoint
        obtain ⟨⟨hw, hgoes⟩, -⟩ := hjoint
        rcases goesOn_cases hgoes with hundef | ⟨hleaf, hword⟩
        · have hstray : [x].foldlM (step names strict) s = _ := foldlM_undefined hundef [] s
          rw [List.foldlM_cons, hx] at hstray
          cases hstray
        · have hy := hts y (by simp) hword
          rw [List.foldlM_cons, step_spacing (by simp [isSpacing, hw])]
          change ∃ e, (y :: rest).foldlM (step names strict) s₁ = .error e
          rw [List.foldlM_cons, step_leaf_leaf hleaf hy hx]
          exact ⟨_, rfl⟩
      · exact ih (fun z hz => hts z (List.mem_cons_of_mem _ hz)) hj s₁
  | case2 => cases hj

end Reading

/-- What is wrong with an expression, without its text. -/
def Error.fault : Error → Fault
  | malformed _ => .malformed
  | undefined name => .undefined name

theorem mapError_fault_evaluate (text : Bytes) (names : Resolver) (strict : Bool) :
    (evaluate text names strict).mapError Error.fault =
      evaluateTokens names strict (lexicon.tokens text) := by
  rw [evaluate]
  cases evaluateTokens names strict (lexicon.tokens text) with
  | ok v => rfl
  | error e => cases e <;> rfl

/-- Where no tokens join, leaving out blanks changes neither the value nor what is wrong. -/
theorem evaluate_thinned {drops : Bytes → Bool} {t u : Bytes} (h : Thinned drops t u)
    (hbreak : ∀ b ∈ t, b ≠ 0x0D ∧ b ≠ 0x0A) (hj : joins drops (lexicon.tokens t) = false)
    (names : Resolver) (strict : Bool) :
    (evaluate u names strict).mapError Error.fault =
      (evaluate t names strict).mapError Error.fault := by
  rw [mapError_fault_evaluate, mapError_fault_evaluate, evaluateTokens, evaluateTokens,
    foldlM_thinned h hbreak hj]

/-- A text in which tokens join has no value. -/
theorem exists_evaluate_eq_error_of_joins {drops : Bytes → Bool} {t : Bytes}
    (hbreak : ∀ b ∈ t, b ≠ 0x0D ∧ b ≠ 0x0A) (hj : joins drops (lexicon.tokens t) = true)
    (names : Resolver) (strict : Bool) : ∃ e, evaluate t names strict = .error e := by
  cases h : evaluate t names strict with
  | error e => exact ⟨e, rfl⟩
  | ok v =>
    rw [evaluate_eq_ok_iff_tokens, evaluateTokens] at h
    have herror : ∃ e, (lexicon.tokens t).foldlM (step names strict) {} = .error e :=
      foldlM_joins (fun y => leaf?_of_isWordByte hbreak) hj {}
    obtain ⟨e, he⟩ := herror
    rw [he] at h
    cases h

end Forge6809.Expr
