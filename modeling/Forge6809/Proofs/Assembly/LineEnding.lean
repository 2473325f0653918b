import Forge6809.Proofs.Assembly.Agreement
import Forge6809.Proofs.Assembly.EquateLine
import Forge6809.Proofs.Assembly.Remark
import Forge6809.Proofs.Assembly.Statement

/-! # Line endings and remarks in a source

A line ends at a line feed, with the carriage returns before it. Whichever of them end the lines of
a source, and whatever remarks stand behind its lines, the source is assembled alike: it has the
same lines up to remarks, and a line with a remark has the form of the line. -/

namespace Forge6809

namespace Text

variable {p : UInt8 → Bool} {s t : Bytes}

theorem trimEnd_append_of_pos (ht : ∀ b ∈ t, p b = true) : trimEnd p (s ++ t) = trimEnd p s := by
  have hreverse : ∀ b ∈ t.reverse, p b = true := fun b hb => ht b (List.mem_reverse.1 hb)
  rw [trimEnd, trimEnd, List.reverse_append, List.dropWhile_append_of_pos hreverse]

theorem trimEnd_eq_self (h : s.getLast?.any p = false) : trimEnd p s = s := by
  rw [List.getLast?_eq_head?_reverse] at h
  rw [trimEnd, dropWhile_eq_self_of_head? h, List.reverse_reverse]

/-- What is removed from the end of a text. -/
theorem exists_trimEnd_append (p : UInt8 → Bool) (s : Bytes) :
    ∃ t, s = trimEnd p s ++ t ∧ ∀ b ∈ t, p b = true := by
  refine ⟨(s.reverse.takeWhile p).reverse, ?_, ?_⟩
  · rw [trimEnd, ← List.reverse_append, List.takeWhile_append_dropWhile, List.reverse_reverse]
  · intro b hb
    exact List.all_eq_true.1 List.all_takeWhile b (List.mem_reverse.1 hb)

def lineText (line : Bytes) : Bytes :=
  trimEnd (fun b => b == 0x0D || b == 0x0A) line

theorem lines_append_feed {line : Bytes} (h : ∀ b ∈ line, b ≠ 0x0A) (rest : Bytes) :
    lines (line ++ 0x0A :: rest) = lineText line :: lines rest := by
  rw [lines, rawLines_append h, List.map_cons, ← lines, lineText]

theorem lines_singleton {line : Bytes} (h : ∀ b ∈ line, b ≠ 0x0A) (hne : line ≠ []) :
    lines line = [lineText line] := by
  have hall : ∀ b ∈ line, (b != 0x0A) = true := fun b hb => bne_iff_ne.2 (h b hb)
  cases line with
  | nil => exact absurd rfl hne
  | cons b r =>
    rw [lines, rawLines, List.takeWhile_eq_self_iff.2 hall, List.dropWhile_eq_nil_iff.2 hall,
      List.tail_nil, rawLines]
    rfl

end Text

namespace Assembly

open Text

/-- A line, and the line as it is or with a remark behind it. -/
inductive Remarked (line : Bytes) : Bytes → Prop
  | same : Remarked line line
  | remark (r : Remark) : Remarked line (line ++ r.bytes)

/-- A source, and the source with a carriage return and a line feed for the end of every line and
with remarks behind any of its lines. The end of a line is a line feed, with or without carriage
returns before it; the last line may have none. -/
inductive Annotated : Bytes → Bytes → Prop
  | nil : Annotated [] []
  | last {line line' : Bytes} : line ≠ [] → (∀ b ∈ line, b ≠ 0x0A) → Remarked line line' →
      Annotated line line'
  | line {line returns line' rest rest' : Bytes} : (∀ b ∈ line, b ≠ 0x0A) →
      (∀ b ∈ returns, b = 0x0D) → Remarked line line' → Annotated rest rest' →
        Annotated (line ++ (returns ++ 0x0A :: rest)) (line' ++ 0x0D :: 0x0A :: rest')

theorem Remarked.ne_feed {line line' : Bytes} (h : Remarked line line')
    (hline : ∀ b ∈ line, b ≠ 0x0A) : ∀ b ∈ line', b ≠ 0x0A := by
  cases h with
  | same => exact hline
  | remark r =>
    intro b hb
    rcases List.mem_append.1 hb with hb | hb
    · exact hline b hb
    · exact (r.ne_break b hb).2

/-- A remark ends a line. -/
theorem lineText_append_remark (line : Bytes) (r : Remark) :
    lineText (line ++ r.bytes) = line ++ r.bytes := by
  have hne : r.bytes ≠ [] := by simp [Remark.bytes]
  apply trimEnd_eq_self
  rw [List.getLast?_append_of_ne_nil line hne, List.getLast?_eq_some_getLast hne]
  simpa using r.ne_break _ (List.getLast_mem hne)

/-- Lines with the same form are alike. -/
theorem alike_of_read?_eq {text text' : Bytes} (h : Form.read? text' = Form.read? text) :
    Alike (fun _ _ => True) text text' := by
  intro s lineNo
  have hok (x : Session × Bytes) :
      s.statement lineNo text' = .ok x ↔ s.statement lineNo text = .ok x := by
    rw [Session.statement_eq_ok_iff, Session.statement_eq_ok_iff, h]
  cases hx : s.statement lineNo text with
  | ok x =>
    rw [(hok x).2 hx]
    exact .ok rfl
  | error c =>
    cases hy : s.statement lineNo text' with
    | error c' => exact .error trivial
    | ok y =>
      rw [(hok y).1 hy] at hx
      cases hx

theorem Remarked.read?_lineText {line line' : Bytes} (h : Remarked line line')
    (hline : ∀ b ∈ line, b ≠ 0x0A) :
    Form.read? (lineText line') = Form.read? (lineText line) := by
  cases h with
  | same => rfl
  | remark r =>
    obtain ⟨returns, hsplit, hreturns⟩ :=
      exists_trimEnd_append (fun b => b == 0x0D || b == 0x0A) line
    have htail : Trailer (returns ++ r.bytes) := by
      refine ⟨returns, r, fun b hb => ?_, rfl⟩
      have hmem : b ∈ line := by
        rw [hsplit]
        exact List.mem_append_right _ hb
      simpa [hline b hmem] using hreturns b hb
    have htext : ∀ b ∈ lineText line, b ≠ 0x0A := by
      intro b hb
      apply hline b
      rw [hsplit]
      exact List.mem_append_left _ hb
    rw [lineText_append_remark, ← read?_append htext htail, ← List.append_assoc, lineText,
      ← hsplit]

theorem forall₂_lines {source source' : Bytes} (h : Annotated source source') :
    List.Forall₂ (Alike fun _ _ => True) (lines source) (lines source') := by
  induction h with
  | nil =>
    rw [lines, rawLines]
    exact .nil
  | @last line line' hne hline hremark =>
    have hne' : line' ≠ [] := by
      cases hremark with
      | same => exact hne
      | remark r => exact List.append_ne_nil_of_left_ne_nil hne _
    rw [lines_singleton hline hne, lines_singleton (hremark.ne_feed hline) hne']
    exact .cons (alike_of_read?_eq (hremark.read?_lineText hline)) .nil
  | @line line returns line' rest rest' hline hreturns hremark _ ih =>
    have hfeed : ∀ b ∈ line ++ returns, b ≠ 0x0A := by
      intro b hb
      rcases List.mem_append.1 hb with hb | hb
      · exact hline b hb
      · rw [hreturns b hb]
        decide
    have hfeed' : ∀ b ∈ line' ++ [0x0D], b ≠ 0x0A := by
      intro b hb
      rcases List.mem_append.1 hb with hb | hb
      · exact hremark.ne_feed hline b hb
      · rw [List.mem_singleton.1 hb]
        decide
    have htrim : lineText (line ++ returns) = lineText line := by
      apply trimEnd_append_of_pos
      intro b hb
      rw [hreturns b hb]
      rfl
    have htrim' : lineText (line' ++ [0x0D]) = lineText line' := by
      apply trimEnd_append_of_pos
      intro b hb
      rw [List.mem_singleton.1 hb]
      rfl
    rw [← List.append_assoc, lines_append_feed hfeed, List.append_cons, lines_append_feed hfeed',
      htrim, htrim']
    exact .cons (alike_of_read?_eq (hremark.read?_lineText hline)) ih

/-- Remarks and line endings do not matter: the source with them is refused, and at the same line,
if the source is, and otherwise has the same code, origin, execution address, labels and equates. -/
theorem Assembler.assemble_annotated (a : Assembler) {source source' : Bytes}
    (h : Annotated source source') :
    Agree (SyntaxError.Like fun _ _ => True) Program.Same (a.assemble source)
      (a.assemble source') :=
  assemble_agree (forall₂_lines h) a

/-- A product, an indexed operand behind a label, and a comment without a line feed. -/
def plainProduct : Bytes :=
  ofString "\tLDA\t#2*3\nStart\tSTA\t,X+ \r\n* done"

/-- The blanks and the text of each remark hold an asterisk that could be taken for a product. -/
def productRemark : Remark where
  blanks := ofString "\t "
  text := ofString "4, *2"
  blanks_ne_nil := by decide
  isBlank_blanks := by decide +kernel
  unbroken := by decide +kernel

def remarkedProduct : Bytes :=
  ofString "\tLDA\t#2*3\t *4, *2\r\nStart\tSTA\t,X+ \t *4, *2\r\n* done\t *4, *2"

theorem annotated_remarkedProduct : Annotated plainProduct remarkedProduct := by
  have hplain : plainProduct = ofString "\tLDA\t#2*3" ++ ([] ++ 0x0A ::
      (ofString "Start\tSTA\t,X+ " ++ ([0x0D] ++ 0x0A :: ofString "* done"))) := by decide
  have hremarked : remarkedProduct = (ofString "\tLDA\t#2*3" ++ productRemark.bytes) ++
      0x0D :: 0x0A :: ((ofString "Start\tSTA\t,X+ " ++ productRemark.bytes) ++
        0x0D :: 0x0A :: (ofString "* done" ++ productRemark.bytes)) := by decide
  rw [hplain, hremarked]
  apply Annotated.line (by decide +kernel) (by simp) (.remark _)
  apply Annotated.line (by decide +kernel) (by simp) (.remark _)
  exact .last (by decide) (by decide +kernel) (.remark _)

/-- The source and the source with remarks are assembled to the same bytes. -/
theorem remarkedProduct_assembled : Annotated plainProduct remarkedProduct ∧
    ∃ p p', ({} : Assembler).assemble plainProduct = .ok p ∧
      ({} : Assembler).assemble remarkedProduct = .ok p' ∧
      p.code = [0x86, 0x06, 0xA7, 0x80] ∧ p.Same p' := by
  refine ⟨annotated_remarkedProduct, ?_⟩
  have hok : (({} : Assembler).assemble plainProduct).toOption.map (·.code) =
      some [0x86, 0x06, 0xA7, 0x80] := by decide +kernel
  rcases (Assembler.assemble_annotated {} annotated_remarkedProduct).exists_eq with
    ⟨e, e', -, he, -⟩ | ⟨p, p', hsame, hp, hp'⟩
  · rw [he] at hok
    cases hok
  · rw [hp] at hok
    exact ⟨p, p', hp, hp', Option.some.inj hok, hsame⟩

end Assembly
end Forge6809
