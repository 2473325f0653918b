import Forge6809.Proofs.Assembly.Validity

/-! # The order of equates

Where an equate stands in a source has no bearing on what the source means: the program depends on
the other lines in their order and on the values of the equates, and without a circle of equates
these values are the same in every order. Moving an equate can still decide whether the source is
assembled at all, and the one reason is a premature scan. -/

namespace Forge6809.Assembly

open Text
open Forge6809.Expr (mentions)

def plain (texts : List Bytes) : List Bytes :=
  texts.filter fun text => (equation? text).isNone

def lineCode (equates : Table UInt16) (text : Bytes) : Bytes :=
  ((Form.read? text).bind fun form => form.action.code? equates true).getD []

theorem lineCode_eq {equates : Table UInt16} {text code : Bytes} {form : Form}
    (hr : Form.read? text = some form) (hc : form.action.code? equates true = some code) :
    lineCode equates text = code := by
  rw [lineCode, hr, Option.bind_some, hc, Option.getD_some]

section Equate

variable {equates symbols : Table UInt16} {text : Bytes} {q : Equation}

theorem lineCode_of_equation? (h : equation? text = some q) : lineCode equates text = [] := by
  rw [lineCode, equation?_eq_some_iff.1 h, Option.bind_some]
  simp only [Action.code?]
  split <;> rfl

theorem placeLine_of_equation? (h : equation? text = some q) (addr : UInt16 × UInt16) :
    placeLine equates symbols addr text = addr := by
  rw [placeLine_of_read? (equation?_eq_some_iff.1 h)]
  rfl

end Equate

theorem plain_cons (text : Bytes) (texts : List Bytes) :
    plain (text :: texts) = if (equation? text).isNone then text :: plain texts else plain texts :=
  List.filter_cons

/-- Equates have no code. -/
theorem flatMap_lineCode_plain (equates : Table UInt16) (texts : List Bytes) :
    (plain texts).flatMap (lineCode equates) = texts.flatMap (lineCode equates) := by
  induction texts with
  | nil => rfl
  | cons text texts ih =>
    cases hq : equation? text with
    | none => simp [plain_cons, hq, ih]
    | some q => simp [plain_cons, hq, ih, lineCode_of_equation? hq]

/-- Equates set no address. -/
theorem addresses_plain (equates symbols : Table UInt16) (texts : List Bytes) :
    addresses equates symbols (plain texts) = addresses equates symbols texts := by
  rw [addresses, addresses]
  generalize ((0, 0) : UInt16 × UInt16) = addr
  induction texts generalizing addr with
  | nil => rfl
  | cons text texts ih =>
    cases hq : equation? text with
    | none => simp [plain_cons, hq, ih]
    | some q => simp [plain_cons, hq, ih, placeLine_of_equation? hq]

/-- The same lines, in the same order but for the equates. -/
structure Rearranged (texts texts' : List Bytes) : Prop where
  perm : texts.Perm texts'
  plain : plain texts = plain texts'

/-- One equate stands in another place. -/
inductive Moved : List Bytes → List Bytes → Prop
  | intro {as bs cs ds : List Bytes} {text : Bytes} : (equation? text).isSome →
      as ++ bs = cs ++ ds → Moved (as ++ text :: bs) (cs ++ text :: ds)

theorem Moved.rearranged {texts texts' : List Bytes} (h : Moved texts texts') :
    Rearranged texts texts' := by
  cases h with
  | intro hq heq =>
    rename_i as bs cs ds text
    have hplain (us vs : List Bytes) : plain (us ++ text :: vs) = plain (us ++ vs) := by
      rw [plain, List.filter_append, List.filter_cons_of_neg, plain, List.filter_append]
      simpa [Option.isSome_iff_ne_none] using hq
    constructor
    · have hmiddle : (as ++ text :: bs).Perm (text :: (cs ++ ds)) := heq ▸ List.perm_middle
      exact hmiddle.trans List.perm_middle.symm
    · rw [hplain, hplain, heq]

namespace Rearranged

variable {texts texts' : List Bytes}

theorem symm (h : Rearranged texts texts') : Rearranged texts' texts :=
  ⟨h.perm.symm, h.plain.symm⟩

theorem mem_equations (h : Rearranged texts texts') {q : Equation} :
    q ∈ equations texts ↔ q ∈ equations texts' :=
  (h.perm.filterMap equation?).mem_iff

theorem mem_definedNames (h : Rearranged texts texts') {a : Bytes} :
    a ∈ definedNames (equations texts) ↔ a ∈ definedNames (equations texts') :=
  ((h.perm.filterMap equation?).map Prod.fst).mem_iff

theorem acyclic (h : Rearranged texts texts') (hc : Acyclic (equations texts)) :
    Acyclic (equations texts') := by
  intro a ha
  apply hc a
  refine Relation.TransGen.mono ?_ a a ha
  rintro b c ⟨e, hq, hm, hdef⟩
  exact ⟨e, h.mem_equations.2 hq, hm, h.mem_definedNames.2 hdef⟩

/-- The final values do not depend on where the equates stand. -/
theorem valid (h : Rearranged texts texts') {predefined equates : Table UInt16}
    (hv : Valid predefined texts equates) : Valid predefined texts' equates := by
  have hlabels := h.perm.filterMap label?
  constructor
  case encodes => exact fun text ht => hv.encodes text (h.perm.mem_iff.2 ht)
  case entry =>
    intro text form name ht hr he
    obtain ⟨text', ht', hl, hnone⟩ := hv.entry text form name (h.perm.mem_iff.2 ht) hr he
    exact ⟨text', h.perm.mem_iff.1 ht', hl, hnone⟩
  case nodup => exact hlabels.nodup_iff.1 hv.nodup
  case fresh => exact fun b hb => hv.fresh b (hlabels.mem_iff.2 hb)
  case solves => exact fun q hq => hv.solves q (h.mem_equations.2 hq)
  case other => exact fun b hb => hv.other b (mt h.mem_definedNames.1 hb)

/-- A line that is no equate has the same lines before it, but for equates. -/
theorem exists_split (h : Rearranged texts texts') {pre post : List Bytes} {text : Bytes}
    (hsplit : texts = pre ++ text :: post) (hnone : equation? text = none) :
    ∃ pre' post', texts' = pre' ++ text :: post' ∧ Assembly.plain pre' = Assembly.plain pre := by
  have hplain : Assembly.plain texts' =
      Assembly.plain pre ++ text :: Assembly.plain post := by
    rw [← h.plain, hsplit, Assembly.plain, List.filter_append, List.filter_cons_of_pos]
    · rfl
    · simp [hnone]
  obtain ⟨front, back, rfl, hfront, hback⟩ := List.filter_eq_append_iff.1 hplain
  obtain ⟨skip, post', rfl, hskip, -, -⟩ := List.filter_eq_cons_iff.1 hback
  refine ⟨front ++ skip, post', by simp, ?_⟩
  have hempty : skip.filter (fun text => (equation? text).isNone) = [] :=
    List.filter_eq_nil_iff.2 hskip
  rw [Assembly.plain, List.filter_append, hempty, List.append_nil, hfront]

end Rearranged

section Laid

variable {equates symbols : Table UInt16} {offset : UInt16} {src : List (Bytes × Nat)}
  {ls : List Line}

theorem Laid.flatMap_code (h : Laid equates symbols offset src ls) :
    ls.flatMap (·.code) = (src.map Prod.fst).flatMap (lineCode equates) := by
  induction h with
  | nil => rfl
  | cons hr ha _ ih => simp [ih, lineCode_eq hr ha.encodes]

/-- A symbol has the length of the code before its line. -/
theorem Laid.symbol_eq (h : Laid equates symbols offset src ls) {pre post : List Bytes}
    {text a : Bytes} {o : UInt16} (hsplit : src.map Prod.fst = pre ++ text :: post)
    (ha : label? text = some a) (ho : symbols.get? a = some o) :
    o = offset + UInt16.ofNat (pre.flatMap (lineCode equates)).length := by
  induction h generalizing pre with
  | nil => cases pre <;> cases hsplit
  | cons hr haccepts _ ih =>
    cases pre with
    | nil =>
      cases hsplit
      rw [← Form.label_of_read? hr] at ha
      simpa using haccepts.label a ha o ho
    | cons head pre =>
      rw [List.map_cons, List.cons_append, List.cons.injEq] at hsplit
      obtain ⟨rfl, hsplit⟩ := hsplit
      rw [ih hsplit, List.flatMap_cons, List.length_append, UInt16.ofNat_add, UInt16.add_assoc,
        lineCode_eq hr haccepts.encodes]

end Laid

section Programs

variable {a : Assembler} {src src' : List (Bytes × Nat)} {n n' : Nat} {s s' : Session}
  {ls ls' : List Line}

/-- Labels stand behind the same code, whatever equates are before them. -/
theorem Rearranged.symbols_eq (h : Rearranged (src.map Prod.fst) (src'.map Prod.fst))
    (hs : Scanned a src n s) (hs' : Scanned a src' n' s') (he : s'.equates = s.equates)
    (hl : Laid s.equates s.symbols 0 src ls) (hl' : Laid s'.equates s'.symbols 0 src' ls') :
    s'.symbols = s.symbols := by
  ext b : 1
  have hlabels : IsLabel (src.map Prod.fst) b ↔ IsLabel (src'.map Prod.fst) b := by
    simp only [IsLabel, h.perm.mem_iff]
  by_cases hb : IsLabel (src.map Prod.fst) b
  · obtain ⟨o, ho⟩ := Option.isSome_iff_exists.1 ((hs.symbols b).2 hb)
    obtain ⟨o', ho'⟩ := Option.isSome_iff_exists.1 ((hs'.symbols b).2 (hlabels.1 hb))
    obtain ⟨text, ht, hlabel, hnone⟩ := hb
    obtain ⟨pre, post, hsplit⟩ := List.append_of_mem ht
    obtain ⟨pre', post', hsplit', hplain⟩ := h.exists_split hsplit hnone
    rw [ho, ho', hl.symbol_eq hsplit hlabel ho, hl'.symbol_eq hsplit' hlabel ho', he,
      ← flatMap_lineCode_plain _ pre', hplain, flatMap_lineCode_plain]
  · have hnone : s.symbols.get? b = none := by
      rwa [← Option.not_isSome_iff_eq_none, hs.symbols]
    have hnone' : s'.symbols.get? b = none := by
      rwa [← Option.not_isSome_iff_eq_none, hs'.symbols, ← hlabels]
    rw [hnone, hnone']

end Programs

/-- Programs of rearranged sources agree in all but the order of their lines. -/
theorem Rearranged.program_eq {a : Assembler} {source source' : Bytes} {p p' : Program}
    (h : Rearranged (lines source) (lines source')) (hc : Acyclic (equations (lines source)))
    (hp : a.assemble source = .ok p) (hp' : a.assemble source' = .ok p') :
    p'.code = p.code ∧ p'.origin = p.origin ∧ p'.exec = p.exec ∧ p'.labels = p.labels ∧
      p'.equates = p.equates := by
  obtain ⟨s, hok, hl, hjoined, he, hsym, haddr⟩ := assemble_eq_ok_iff.1 hp
  obtain ⟨s', hok', hl', hjoined', he', hsym', haddr'⟩ := assemble_eq_ok_iff.1 hp'
  obtain ⟨n, hs⟩ := exists_scanned_of_scanned hok
  obtain ⟨n', hs'⟩ := exists_scanned_of_scanned hok'
  rw [← map_fst_numberedLines source, ← map_fst_numberedLines source'] at h
  rw [← map_fst_numberedLines source] at hc
  have hequates : s'.equates = s.equates :=
    (h.symm.valid (valid_of_laid hs' hl')).unique hc (valid_of_laid hs hl)
  have hsymbols : s'.symbols = s.symbols := h.symbols_eq hs hs' hequates hl hl'
  have hcode : p'.code = p.code := by
    rw [hjoined, hjoined', hl.flatMap_code, hl'.flatMap_code, hequates,
      ← flatMap_lineCode_plain, ← h.plain, flatMap_lineCode_plain]
  have haddresses : (p'.origin, p'.exec) = (p.origin, p.exec) := by
    rw [haddr, haddr', hequates, hsymbols, ← map_fst_numberedLines, ← map_fst_numberedLines,
      ← addresses_plain, ← h.plain, addresses_plain]
  obtain ⟨horigin, hexec⟩ := Prod.mk.inj haddresses
  exact ⟨hcode, horigin, hexec, by rw [hsym, hsym', hsymbols], by rw [he, he', hequates]⟩

/-- Moving an equate of a source without a circle of equates. What is assembled before and after
is the same program; and the source is assembled, before or after, exactly if it is valid and no
scan over it is premature. -/
theorem assemble_moved {a : Assembler} {source source' : Bytes}
    (h : Moved (lines source) (lines source')) (hc : Acyclic (equations (lines source))) :
    (∀ p p', a.assemble source = .ok p → a.assemble source' = .ok p' →
      p'.code = p.code ∧ p'.origin = p.origin ∧ p'.exec = p.exec ∧ p'.labels = p.labels ∧
        p'.equates = p.equates) ∧
    ((∃ p, a.assemble source = .ok p) ↔ (∃ t, Valid a.predefined (lines source) t) ∧
      ¬Premature a.predefined (lines source)) ∧
    ((∃ p, a.assemble source' = .ok p) ↔ (∃ t, Valid a.predefined (lines source) t) ∧
      ¬Premature a.predefined (lines source')) := by
  have hmoved := h.rearranged
  refine ⟨?_, exists_assemble_iff hc, ?_⟩
  · intro p p' hp hp'
    exact hmoved.program_eq hc hp hp'
  · rw [exists_assemble_iff (hmoved.acyclic hc)]
    apply and_congr_left
    intro _
    exact exists_congr fun t => ⟨hmoved.symm.valid, hmoved.valid⟩

def equateFirst : Bytes :=
  ofString "AHEAD\tEQU\t1\n\tLDA\tAHEAD-1,X+\n"

/-- The same lines, with the equate behind the operand that refers to it. In the first scan the
offset of that operand is one less than zero. -/
def equateLast : Bytes :=
  ofString "\tLDA\tAHEAD-1,X+\nAHEAD\tEQU\t1\n"

theorem moved_equateFirst : Moved (lines equateFirst) (lines equateLast) := by
  have hfirst : lines equateFirst =
      [ofString "AHEAD\tEQU\t1", ofString "\tLDA\tAHEAD-1,X+"] := by decide +kernel
  have hlast : lines equateLast =
      [ofString "\tLDA\tAHEAD-1,X+", ofString "AHEAD\tEQU\t1"] := by decide +kernel
  have hequate : (equation? (ofString "AHEAD\tEQU\t1")).isSome = true := by decide +kernel
  rw [hfirst, hlast]
  exact @Moved.intro [] [ofString "\tLDA\tAHEAD-1,X+"] [ofString "\tLDA\tAHEAD-1,X+"] [] _
    hequate rfl

theorem acyclic_equateFirst : Acyclic (equations (lines equateFirst)) := by
  have hqs : equations (lines equateFirst) = [(ofString "AHEAD", ofString "1")] := by decide +kernel
  have hmentions : mentions (ofString "1") = [] := by decide +kernel
  rw [hqs]
  apply acyclic_of_rank fun _ => 0
  simp [hmentions]

theorem exists_assemble_equateFirst : ∃ p, (Assembler.mk ∅).assemble equateFirst = .ok p := by
  have hok : ((Assembler.mk ∅).assemble equateFirst).toOption.isSome = true := by decide +kernel
  cases h : (Assembler.mk ∅).assemble equateFirst with
  | error e => rw [h] at hok; cases hok
  | ok p => exact ⟨p, rfl⟩

theorem not_exists_assemble_equateLast :
    ¬∃ p, (Assembler.mk ∅).assemble equateLast = .ok p := by
  have herror : ((Assembler.mk ∅).assemble equateLast).toOption.isNone = true := by decide +kernel
  rintro ⟨p, h⟩
  rw [h] at herror
  cases herror

/-- Moving the equate behind its use makes a scan premature, and nothing else is wrong. -/
theorem equateLast_premature :
    Moved (lines equateFirst) (lines equateLast) ∧ Acyclic (equations (lines equateFirst)) ∧
      (∃ t, Valid ∅ (lines equateFirst) t) ∧ ¬Premature ∅ (lines equateFirst) ∧
      Premature ∅ (lines equateLast) := by
  obtain ⟨-, hfirst, hlast⟩ :=
    assemble_moved (a := Assembler.mk ∅) moved_equateFirst acyclic_equateFirst
  obtain ⟨hvalid, hnot⟩ := hfirst.1 exists_assemble_equateFirst
  refine ⟨moved_equateFirst, acyclic_equateFirst, hvalid, hnot, ?_⟩
  by_contra hpremature
  exact not_exists_assemble_equateLast (hlast.2 ⟨hvalid, hpremature⟩)

/-- A source that is assembled may be refused after one of its equates was moved, although no
equate depends on itself. -/
theorem equateLast_refused :
    ¬∀ (a : Assembler) (source source' : Bytes), Moved (lines source) (lines source') →
      Acyclic (equations (lines source)) →
        ((∃ p, a.assemble source = .ok p) ↔ ∃ p, a.assemble source' = .ok p) := by
  intro hmove
  have hiff := hmove (Assembler.mk ∅) _ _ moved_equateFirst acyclic_equateFirst
  exact not_exists_assemble_equateLast (hiff.1 exists_assemble_equateFirst)

end Forge6809.Assembly
