import Forge6809.Proofs.Assembly.Names

/-! # The execution address

Execution starts at the label that the last line of that kind names. Its address is taken from the
origin that holds at that line, while the origin of the program is the one that holds at the end.
So the execution address is the address under which the label is listed exactly if the two origins
agree, whatever stands between them. -/

namespace Forge6809.Assembly

open Text

def originOperand? (text : Bytes) : Option Bytes :=
  match Form.read? text with
  | some ⟨_, .origin e⟩ => some e
  | _ => none

/-- The label that a line names as the start of execution. -/
def entryLabel? (text : Bytes) : Option Bytes :=
  match Form.read? text with
  | some ⟨_, .entry name⟩ => some name
  | _ => none

def lastOrigin? (texts : List Bytes) : Option Bytes :=
  texts.reverse.findSome? originOperand?

/-- The origin behind some lines: the value of the last operand that sets it, zero without one. -/
def IsOrigin (equates : Table UInt16) (texts : List Bytes) (origin : UInt16) : Prop :=
  match lastOrigin? texts with
  | none => origin = 0
  | some e => Expr.evaluate e equates true = .ok origin

theorem lastOrigin?_concat (texts : List Bytes) (text : Bytes) :
    lastOrigin? (texts ++ [text]) = (originOperand? text).or (lastOrigin? texts) := by
  rw [lastOrigin?, List.reverse_append, List.reverse_singleton, List.singleton_append,
    List.findSome?_cons]
  cases originOperand? text <;> rfl

theorem lastOrigin?_append_of_none {pre post : List Bytes}
    (h : ∀ text ∈ post, originOperand? text = none) :
    lastOrigin? (pre ++ post) = lastOrigin? pre := by
  have hpost : post.reverse.findSome? originOperand? = none := by
    rw [List.findSome?_eq_none_iff]
    exact fun text ht => h text (List.mem_reverse.1 ht)
  rw [lastOrigin?, List.reverse_append, List.findSome?_append, hpost]
  rfl

theorem originOperand?_of_entryLabel? {text name : Bytes} (h : entryLabel? text = some name) :
    originOperand? text = none := by
  unfold entryLabel? at h
  split at h
  · next hr => rw [originOperand?, hr]
  · cases h

theorem IsOrigin.unique {equates : Table UInt16} {texts : List Bytes} {origin origin' : UInt16}
    (h : IsOrigin equates texts origin) (h' : IsOrigin equates texts origin') :
    origin = origin' := by
  rw [IsOrigin] at h h'
  cases hl : lastOrigin? texts with
  | none =>
    simp only [hl] at h h'
    rw [h, h']
  | some e =>
    simp only [hl] at h h'
    exact Except.ok.inj (h.symm.trans h')

section Place

variable {equates symbols : Table UInt16} {addr : UInt16 × UInt16} {text : Bytes}

theorem placeLine_fst (equates symbols : Table UInt16) (addr : UInt16 × UInt16) (text : Bytes) :
    (placeLine equates symbols addr text).1 =
      match originOperand? text with
      | none => addr.1
      | some e => provisional equates e := by
  rw [placeLine, originOperand?]
  cases Form.read? text with
  | none => rfl
  | some form =>
    obtain ⟨label, action⟩ := form
    cases action <;> rfl

theorem placeLine_snd (equates symbols : Table UInt16) (addr : UInt16 × UInt16) (text : Bytes) :
    (placeLine equates symbols addr text).2 =
      match entryLabel? text with
      | none => addr.2
      | some name => (symbols.get? name).getD 0 + addr.1 := by
  rw [placeLine, entryLabel?]
  cases Form.read? text with
  | none => rfl
  | some form =>
    obtain ⟨label, action⟩ := form
    cases action <;> rfl

/-- The first address behind some lines is their origin, if every operand that sets it has a
value. -/
theorem isOrigin_foldl {texts : List Bytes}
    (h : ∀ text ∈ texts, ∀ e, originOperand? text = some e →
      ∃ v, Expr.evaluate e equates true = .ok v) :
    IsOrigin equates texts (texts.foldl (placeLine equates symbols) (0, 0)).1 := by
  induction texts using List.reverseRecOn with
  | nil => exact rfl
  | append_singleton texts text ih =>
    rw [List.forall_mem_append] at h
    have hlast := ih h.1
    rw [List.foldl_append, List.foldl_cons, List.foldl_nil, IsOrigin, lastOrigin?_concat,
      placeLine_fst]
    cases ho : originOperand? text with
    | none => exact hlast
    | some e =>
      obtain ⟨v, hv⟩ := h.2 text (List.mem_singleton_self text) e ho
      simpa [provisional_of_evaluate hv] using hv

/-- Lines that name no start of execution leave the second address alone. -/
theorem foldl_placeLine_snd {texts : List Bytes} (h : ∀ text ∈ texts, entryLabel? text = none) :
    (texts.foldl (placeLine equates symbols) addr).2 = addr.2 := by
  induction texts generalizing addr with
  | nil => rfl
  | cons text texts ih =>
    rw [List.forall_mem_cons] at h
    rw [List.foldl_cons, ih h.2, placeLine_snd, h.1]

end Place

section Accepts

variable {equates symbols : Table UInt16} {offset : UInt16} {src : List (Bytes × Nat)}
  {ls : List Line}

theorem Laid.exists_origin (h : Laid equates symbols offset src ls) {text e : Bytes}
    (ht : text ∈ src.map Prod.fst) (he : originOperand? text = some e) :
    ∃ v, Expr.evaluate e equates true = .ok v := by
  obtain ⟨l, hmem, rfl⟩ := h.exists_line ht
  obtain ⟨form, hr, ha⟩ := h.accepts hmem
  have hc := ha.encodes
  rw [originOperand?, hr] at he
  split at he
  · next heq =>
    cases heq
    cases he
    simp only [Action.code?] at hc
    split at hc
    · cases hc
    · next v hv => exact ⟨v, hv⟩
  · cases he

theorem Laid.exists_entry (h : Laid equates symbols offset src ls) {text name : Bytes}
    (ht : text ∈ src.map Prod.fst) (hname : entryLabel? text = some name) :
    ∃ o, symbols.get? name = some o := by
  obtain ⟨l, hmem, rfl⟩ := h.exists_line ht
  obtain ⟨form, hr, ha⟩ := h.accepts hmem
  rw [entryLabel?, hr] at hname
  split at hname
  · next heq =>
    cases heq
    cases hname
    exact Option.isSome_iff_exists.1 (ha.entry name rfl)
  · cases hname

end Accepts

/-- A label is among the symbols with its address. -/
theorem Program.mem_symbols_of_label {p : Program} {name : Bytes} {o : UInt16}
    (h : p.labels.get? name = some o) : (name, p.origin + o) ∈ p.symbols := by
  rw [symbols_eq]
  apply List.mem_append_left
  exact List.mem_map.2 ⟨(name, o), Table.mem_toList_iff.2 h, rfl⟩

theorem Program.listSymbol_mem_listing {p : Program} {name : Bytes} {v : UInt16}
    (h : (name, v) ∈ p.symbols) : p.listSymbol name v ∈ p.listing := by
  have hne : p.symbols.isEmpty = false := by
    rw [List.isEmpty_eq_false_iff]
    exact List.ne_nil_of_mem h
  rw [listing, hne, if_neg Bool.false_ne_true]
  apply List.mem_append_right
  apply List.mem_cons_of_mem
  exact List.mem_map.2 ⟨(name, v), h, rfl⟩

/-- The execution address of a program is that of the label which the last line of that kind names,
under the origin that holds at that line. It is the address under which the label is listed exactly
if this is also the origin of the program, and so whenever no origin is set behind that line. -/
theorem assemble_exec {a : Assembler} {source : Bytes} {p : Program}
    (h : a.assemble source = .ok p) {pre post : List Bytes} {text name : Bytes}
    (hsplit : lines source = pre ++ text :: post) (hname : entryLabel? text = some name)
    (hlast : ∀ later ∈ post, entryLabel? later = none) :
    ∃ o origin, p.labels.get? name = some o ∧ (name, p.origin + o) ∈ p.symbols ∧
      p.listSymbol name (p.origin + o) ∈ p.listing ∧
      IsOrigin p.equates pre origin ∧ IsOrigin p.equates (lines source) p.origin ∧
      p.exec = origin + o ∧ (p.exec = p.origin + o ↔ p.origin = origin) ∧
      ((∀ later ∈ post, originOperand? later = none) → p.exec = p.origin + o) := by
  obtain ⟨s, -, hl, -, he, hsym, haddr⟩ := assemble_eq_ok_iff.1 h
  rw [← he, ← hsym] at hl haddr
  have htexts : (numberedLines source).map Prod.fst = lines source := map_fst_numberedLines source
  have hvalues : ∀ t ∈ lines source, ∀ e, originOperand? t = some e →
      ∃ v, Expr.evaluate e p.equates true = .ok v :=
    fun t ht e => hl.exists_origin (htexts ▸ ht)
  have horigin : IsOrigin p.equates (lines source) p.origin := by
    have hfold : IsOrigin p.equates (lines source)
        ((lines source).foldl (placeLine p.equates p.labels) (0, 0)).1 := isOrigin_foldl hvalues
    rwa [← addresses, ← haddr] at hfold
  have hmem : text ∈ (numberedLines source).map Prod.fst := by
    rw [htexts, hsplit]
    exact List.mem_append_right _ List.mem_cons_self
  obtain ⟨o, ho⟩ := hl.exists_entry hmem hname
  have hbefore : IsOrigin p.equates pre (pre.foldl (placeLine p.equates p.labels) (0, 0)).1 := by
    apply isOrigin_foldl
    intro t ht
    apply hvalues
    rw [hsplit]
    exact List.mem_append_left _ ht
  -- Nothing behind the line changes the second address, which is set from the first one there.
  have hexec : p.exec = (pre.foldl (placeLine p.equates p.labels) (0, 0)).1 + o := by
    have hsnd := congrArg Prod.snd haddr
    rw [addresses, hsplit, List.foldl_append, List.foldl_cons, foldl_placeLine_snd hlast,
      placeLine_snd, hname] at hsnd
    dsimp only at hsnd
    rw [hsnd, ho, Option.getD_some, UInt16.add_comm]
  have hiff : p.exec = p.origin + o ↔
      p.origin = (pre.foldl (placeLine p.equates p.labels) (0, 0)).1 := by
    rw [hexec, UInt16.add_left_inj]
    exact eq_comm
  have hlisted := Program.mem_symbols_of_label ho
  refine ⟨o, _, ho, hlisted, Program.listSymbol_mem_listing hlisted, hbefore, horigin, hexec, hiff,
    fun hnone => hiff.2 ?_⟩
  have hsame : lastOrigin? (lines source) = lastOrigin? pre := by
    rw [hsplit]
    apply lastOrigin?_append_of_none
    rw [List.forall_mem_cons]
    exact ⟨originOperand?_of_entryLabel? hname, hnone⟩
  have hend : IsOrigin p.equates pre p.origin := by
    rw [IsOrigin, ← hsame]
    exact horigin
  exact hend.unique hbefore

/-- The start of execution is named before its label stands, and between two origins. -/
def lateOrigin : Bytes :=
  ofString "\tORG\t$1000\n\tEND\tENTRY\n\tNOP\nENTRY\tRTS\n\tORG\t$2000\n"

theorem lines_lateOrigin : lines lateOrigin = [ofString "\tORG\t$1000"] ++
    ofString "\tEND\tENTRY" :: [ofString "\tNOP", ofString "ENTRY\tRTS",
      ofString "\tORG\t$2000"] := by
  decide +kernel

theorem entryLabel?_lateOrigin : entryLabel? (ofString "\tEND\tENTRY") = some (ofString "ENTRY") ∧
    ∀ later ∈ [ofString "\tNOP", ofString "ENTRY\tRTS", ofString "\tORG\t$2000"],
      entryLabel? later = none := by
  have hnop : entryLabel? (ofString "\tNOP") = none := by decide +kernel
  have hreturn : entryLabel? (ofString "ENTRY\tRTS") = none := by decide +kernel
  have horigin : entryLabel? (ofString "\tORG\t$2000") = none := by decide +kernel
  refine ⟨by decide +kernel, ?_⟩
  simp [hnop, hreturn, horigin]

theorem exists_assemble_lateOrigin : ∃ p, (Assembler.mk ∅).assemble lateOrigin = .ok p ∧
    p.labels.get? (ofString "ENTRY") = some 1 ∧ p.origin = 0x2000 ∧ p.exec = 0x1001 := by
  have hok : ((Assembler.mk ∅).assemble lateOrigin).toOption.map (fun p =>
      (p.labels.get? (ofString "ENTRY"), p.origin, p.exec)) = some (some 1, 0x2000, 0x1001) := by
    decide +kernel
  cases h : (Assembler.mk ∅).assemble lateOrigin with
  | error e => rw [h] at hok; cases hok
  | ok p =>
    rw [h] at hok
    simpa [Except.toOption] using hok

/-- Execution starts at the label under the first of the two origins. -/
theorem lateOrigin_exec : ∃ p, (Assembler.mk ∅).assemble lateOrigin = .ok p ∧
    p.origin = 0x2000 ∧ (ofString "ENTRY", 0x2001) ∈ p.symbols ∧
    IsOrigin p.equates [ofString "\tORG\t$1000"] 0x1000 ∧ p.exec = 0x1001 := by
  obtain ⟨p, hp, hlabel, horigin, hexec⟩ := exists_assemble_lateOrigin
  obtain ⟨hentry, hlater⟩ := entryLabel?_lateOrigin
  obtain ⟨o, origin, ho, hlisted, -, hbefore, -, hsum, -, -⟩ :=
    assemble_exec hp lines_lateOrigin hentry hlater
  cases hlabel.symm.trans ho
  obtain rfl : origin = 0x1000 := by
    have hone : origin + 1 = 0x1000 + 1 := hsum.symm.trans hexec
    exact (UInt16.add_left_inj 1).1 hone
  have haddress : (0x2000 : UInt16) + 1 = 0x2001 := by decide
  rw [horigin, haddress] at hlisted
  exact ⟨p, hp, horigin, hlisted, hbefore, hexec⟩

/-- The execution address need not be the address under which its label is listed. -/
theorem lateOrigin_differs :
    ¬∀ (a : Assembler) (source : Bytes) (p : Program), a.assemble source = .ok p →
      ∀ (pre post : List Bytes) (text name : Bytes), lines source = pre ++ text :: post →
        entryLabel? text = some name → (∀ later ∈ post, entryLabel? later = none) →
          ∃ o, p.labels.get? name = some o ∧ p.exec = p.origin + o := by
  intro hentered
  obtain ⟨p, hp, hlabel, horigin, hexec⟩ := exists_assemble_lateOrigin
  obtain ⟨hentry, hlater⟩ := entryLabel?_lateOrigin
  obtain ⟨o, ho, hsum⟩ := hentered _ _ p hp _ _ _ _ lines_lateOrigin hentry hlater
  cases hlabel.symm.trans ho
  rw [horigin, hexec] at hsum
  exact absurd hsum (by decide)

end Forge6809.Assembly
