import Forge6809.Proofs.Assembly.Generation
import Mathlib.Tactic

/-! # Soundness of the assembler

A program that the assembler returns solves its source under the one table of equates that comes
with it: the equates have the values of their operands, every line has the code of its operand,
the lines follow each other without gaps, and the labels stand where their lines do. None of this
depends on how many scans were made. -/

namespace Forge6809.Assembly

open Text

/-- A program that solves a source under its own table of equates. -/
structure Program.Solution (p : Program) (predefined : Table UInt16) (source : Bytes) :
    Prop where
  /-- The equates are the predefined ones and those of the source with their values. -/
  equates (name : Bytes) (v : UInt16) : p.equates.get? name = some v ↔
    predefined.get? name = some v ∨ ∃ text ∈ Text.lines source, ∃ e,
      Form.read? text = some ⟨some name, .equate e⟩ ∧ Expr.evaluate e p.equates true = .ok v
  /-- Every line has the code of its operand. What an indexed operand's bytes mean to the machine
  is `Core.indexed_postbyte`. -/
  encoded (l : Line) : l ∈ p.lines →
    ∃ form, Form.read? l.text = some form ∧ form.action.code? p.equates true = some l.code
  /-- The operand of a byte instruction is not cut off. -/
  fits (l : Line) (label : Option Bytes) (opcode e : Bytes) : l ∈ p.lines →
    Form.read? l.text = some ⟨label, .immediate8 opcode e⟩ →
      ∃ v, Expr.evaluate e p.equates true = .ok v ∧ v.toNat ≤ 255 ∧
        l.code = opcode ++ [UInt8.ofNat v.toNat]
  texts : p.lines.map (·.text) = Text.lines source
  numbered : p.lines.map (·.lineNo) = List.range' 1 p.lines.length
  joined : p.code = (p.lines.map (·.code)).flatten
  offset (pre post : List Line) (l : Line) : p.lines = pre ++ l :: post →
    l.offset.toNat = ((pre.map (·.code)).flatten).length % 65536
  /-- The labels are those of the lines that are no equates. -/
  labels (name : Bytes) (o : UInt16) : p.labels.get? name = some o ↔
    ∃ l ∈ p.lines, ∃ form, Form.read? l.text = some form ∧ form.label = some name ∧
      (∀ e, form.action ≠ .equate e) ∧ l.offset = o

section Accepts

variable {equates symbols : Table UInt16} {offset : UInt16} {code : Bytes}

theorem Accepts.exists_equate {name e : Bytes}
    (h : Accepts equates symbols offset ⟨some name, .equate e⟩ code) :
    ∃ v, Expr.evaluate e equates true = .ok v ∧ equates.get? name = some v := by
  have hc := h.encodes
  simp only [Action.code?] at hc
  split at hc
  · cases hc
  · next v hv => exact ⟨v, hv, h.equate name e v rfl hv⟩

theorem Accepts.exists_immediate8 {label : Option Bytes} {opcode e : Bytes}
    (h : Accepts equates symbols offset ⟨label, .immediate8 opcode e⟩ code) :
    ∃ v, Expr.evaluate e equates true = .ok v ∧ v.toNat ≤ 255 ∧
      code = opcode ++ [UInt8.ofNat v.toNat] := by
  have hc := h.encodes
  simp only [Action.code?, Bool.true_and, decide_eq_true_eq] at hc
  split at hc
  · cases hc
  · next v hv =>
    split at hc
    · cases hc
    · next hle =>
      refine ⟨v, hv, ?_, ?_⟩
      · exact Nat.not_lt.1 hle
      · exact (Option.some.inj hc).symm

end Accepts

theorem equation?_eq_none_iff {text : Bytes} {form : Form} (h : Form.read? text = some form) :
    equation? text = none ↔ ∀ e, form.action ≠ .equate e := by
  obtain ⟨label, action⟩ := form
  constructor
  · rintro hnone e rfl
    obtain ⟨name, rfl⟩ := Session.exists_label_of_equate h
    rw [equation?_eq_some_iff.2 h] at hnone
    cases hnone
  · intro hne
    rw [equation?_of_read? h]
    cases action with
    | equate e => exact absurd rfl (hne e)
    | nothing | origin | entry | inherent | immediate8 | immediate16 | indexed => rfl

section Tables

variable {a : Assembler} {src : List (Bytes × Nat)} {n : Nat} {s : Session} {ls : List Line}

/-- An equate of the source has the value of its operand. -/
theorem Laid.get?_equates {equates symbols : Table UInt16} {offset : UInt16}
    (hl : Laid equates symbols offset src ls) {text name e : Bytes}
    (ht : text ∈ src.map Prod.fst) (hr : Form.read? text = some ⟨some name, .equate e⟩) :
    ∃ v, Expr.evaluate e equates true = .ok v ∧ equates.get? name = some v := by
  obtain ⟨l, hmem, rfl⟩ := hl.exists_line ht
  obtain ⟨form, hr', ha⟩ := hl.accepts hmem
  cases hr.symm.trans hr'
  exact ha.exists_equate

theorem Scanned.get?_equates_iff (hs : Scanned a src n s)
    (hl : Laid s.equates s.symbols 0 src ls) {name : Bytes} {v : UInt16} :
    s.equates.get? name = some v ↔ a.predefined.get? name = some v ∨
      ∃ text ∈ src.map Prod.fst, ∃ e, Form.read? text = some ⟨some name, .equate e⟩ ∧
        Expr.evaluate e s.equates true = .ok v := by
  by_cases hname : name ∈ definedNames (equations (src.map Prod.fst))
  · have hpre : a.predefined.get? name = none :=
      hs.predefined ((definedNames_equations_sublist _).subset hname)
    rw [hpre]
    simp only [reduceCtorEq, false_or]
    constructor
    · intro hget
      obtain ⟨⟨name, e⟩, hq, rfl⟩ := List.mem_map.1 hname
      obtain ⟨text, ht, heq⟩ := List.mem_filterMap.1 hq
      have hr := equation?_eq_some_iff.1 heq
      obtain ⟨w, hw, hget'⟩ := hl.get?_equates ht hr
      cases hget.symm.trans hget'
      exact ⟨text, ht, e, hr, hw⟩
    · rintro ⟨text, ht, e, hr, hv⟩
      obtain ⟨w, hw, hget⟩ := hl.get?_equates ht hr
      cases hv.symm.trans hw
      exact hget
  · rw [hs.equates, get?_sweeps_of_notMem hname]
    constructor
    · exact Or.inl
    · rintro (hget | ⟨text, ht, e, hr, -⟩)
      · exact hget
      · refine absurd (List.mem_map.2 ⟨(name, e), ?_, rfl⟩) hname
        exact List.mem_filterMap.2 ⟨text, ht, equation?_eq_some_iff.2 hr⟩

theorem Scanned.get?_symbols_iff (hs : Scanned a src n s)
    (hl : Laid s.equates s.symbols 0 src ls) {name : Bytes} {o : UInt16} :
    s.symbols.get? name = some o ↔ ∃ l ∈ ls, ∃ form, Form.read? l.text = some form ∧
      form.label = some name ∧ (∀ e, form.action ≠ .equate e) ∧ l.offset = o := by
  constructor
  · intro hget
    have hsome : (s.symbols.get? name).isSome := by rw [hget]; rfl
    obtain ⟨text, ht, hlabel, hnone⟩ := (hs.symbols name).1 hsome
    obtain ⟨l, hmem, rfl⟩ := hl.exists_line ht
    obtain ⟨form, hr, ha⟩ := hl.accepts hmem
    rw [← Form.label_of_read? hr] at hlabel
    exact ⟨l, hmem, form, hr, hlabel, (equation?_eq_none_iff hr).1 hnone,
      (ha.label name hlabel o hget).symm⟩
  · rintro ⟨l, hmem, form, hr, hlabel, hne, rfl⟩
    have ht : l.text ∈ src.map Prod.fst := by
      rw [← hl.map_lines, List.map_map]
      exact List.mem_map.2 ⟨l, hmem, rfl⟩
    have hlabel' : label? l.text = some name := (Form.label_of_read? hr).symm.trans hlabel
    have hsome := (hs.symbols name).2 ⟨l.text, ht, hlabel', (equation?_eq_none_iff hr).2 hne⟩
    obtain ⟨o, hget⟩ := Option.isSome_iff_exists.1 hsome
    obtain ⟨form', hr', ha⟩ := hl.accepts hmem
    cases hr.symm.trans hr'
    rw [hget, ha.label name hlabel o hget]

end Tables

/-- The labels of a program are those of its lines that are no equates. -/
theorem get?_labels_of_assemble {a : Assembler} {source : Bytes} {p : Program}
    (h : a.assemble source = .ok p) {name : Bytes} {o : UInt16} :
    p.labels.get? name = some o ↔ ∃ l ∈ p.lines, ∃ form, Form.read? l.text = some form ∧
      form.label = some name ∧ (∀ e, form.action ≠ .equate e) ∧ l.offset = o := by
  obtain ⟨s, hok, hl, -, -, hsym, -⟩ := assemble_eq_ok_iff.1 h
  obtain ⟨n, hs⟩ := exists_scanned_of_scanned hok
  rw [hsym]
  exact hs.get?_symbols_iff hl

/-- Every program that the assembler returns solves its source. -/
theorem assemble_solution {a : Assembler} {source : Bytes} {p : Program}
    (h : a.assemble source = .ok p) : p.Solution a.predefined source := by
  obtain ⟨s, hok, hl, hcode, he, -⟩ := assemble_eq_ok_iff.1 h
  obtain ⟨n, hs⟩ := exists_scanned_of_scanned hok
  have hlines := hl.map_lines
  constructor
  case equates =>
    intro name v
    rw [he, ← map_fst_numberedLines]
    exact hs.get?_equates_iff hl
  case encoded =>
    intro l hmem
    obtain ⟨form, hr, ha⟩ := hl.accepts hmem
    exact ⟨form, hr, he ▸ ha.encodes⟩
  case fits =>
    intro l label opcode e hmem hr
    obtain ⟨form, hr', ha⟩ := hl.accepts hmem
    cases hr.symm.trans hr'
    rw [he]
    exact ha.exists_immediate8
  case texts =>
    rw [← map_fst_numberedLines, ← hlines, List.map_map]
    rfl
  case numbered =>
    have hnumbers : p.lines.map (·.lineNo) = (numberedLines source).map Prod.snd := by
      rw [← hlines, List.map_map]
      rfl
    have hlength : p.lines.length = (Text.lines source).length := by
      rw [← List.length_map, hlines, numberedLines, List.length_zipIdx]
    rw [hnumbers, numberedLines, List.zipIdx_map_snd, hlength]
  case joined => rw [hcode, List.flatMap_def]
  case offset =>
    intro pre post l hsplit
    rw [hl.offset_eq hsplit, UInt16.zero_add, List.flatMap_def]
    exact UInt16.toNat_ofNat'
  case labels => exact fun name o => get?_labels_of_assemble h

/-- A source with equates that refer forward: the offset in the first line is known only after
two scans, and then it takes two bytes more. -/
def forwardSource : Bytes :=
  ofString "START\tLDB\tTABLE,X\nTABLE\tEQU\tBASIS+2\nBASIS\tEQU\t$100\n"

theorem forwardSource_solution : ∃ p, (Assembler.mk ∅).assemble forwardSource = .ok p ∧
    p.code = [0xE6, 0x89, 0x01, 0x02] ∧ p.Solution ∅ forwardSource := by
  have hcode : ((Assembler.mk ∅).assemble forwardSource).toOption.map (·.code) =
      some [0xE6, 0x89, 0x01, 0x02] := by decide +kernel
  cases h : (Assembler.mk ∅).assemble forwardSource with
  | error e => rw [h] at hcode; cases hcode
  | ok p =>
    rw [h] at hcode
    exact ⟨p, rfl, Option.some.inj hcode, assemble_solution h⟩

end Forge6809.Assembly
