import Forge6809.Assembly.Assembler
import Mathlib.Data.List.Forall2
import Mathlib.Tactic

/-! # Sources that are assembled alike

A source is assembled line by line. If two sources have the same number of lines, and every session
does with a line of the one what it does with the line of that number in the other, then every pass
over the one runs like the pass over the other: both sources are refused at the same line, or both
give the same code, addresses, labels and equates. -/

namespace Forge6809

/-- Two outcomes agree: both are errors, which `r` relates, or both are results, which `q`
relates. -/
inductive Agree {ε α : Type} (r : ε → ε → Prop) (q : α → α → Prop) :
    Except ε α → Except ε α → Prop
  | error {e e' : ε} : r e e' → Agree r q (.error e) (.error e')
  | ok {a a' : α} : q a a' → Agree r q (.ok a) (.ok a')

theorem Agree.exists_eq {ε α : Type} {r : ε → ε → Prop} {q : α → α → Prop} {x y : Except ε α}
    (h : Agree r q x y) : (∃ e e', r e e' ∧ x = .error e ∧ y = .error e') ∨
      ∃ a a', q a a' ∧ x = .ok a ∧ y = .ok a' := by
  cases h with
  | error he => exact Or.inl ⟨_, _, he, rfl, rfl⟩
  | ok ha => exact Or.inr ⟨_, _, ha, rfl, rfl⟩

namespace Assembly

open Text

/-- Every session takes both lines to the same session and code, or refuses both for causes that
`r` relates. -/
def Alike (r : Cause → Cause → Prop) (text text' : Bytes) : Prop :=
  ∀ (s : Session) (lineNo : Nat), Agree r Eq (s.statement lineNo text) (s.statement lineNo text')

/-- Errors at the same line, for causes that `r` relates. -/
def SyntaxError.Like (r : Cause → Cause → Prop) (e e' : SyntaxError) : Prop :=
  e'.lineNo = e.lineNo ∧ r e.cause e'.cause

/-- Programs that differ at most in the text of their lines. -/
structure Program.Same (p p' : Program) : Prop where
  code : p'.code = p.code
  origin : p'.origin = p.origin
  exec : p'.exec = p.exec
  labels : p'.labels = p.labels
  equates : p'.equates = p.equates

variable {r : Cause → Cause → Prop}

/-- Numbered lines that are alike one by one. -/
def Paired (r : Cause → Cause → Prop) : List (Bytes × Nat) → List (Bytes × Nat) → Prop :=
  List.Forall₂ fun l l' => l'.2 = l.2 ∧ Alike r l.1 l'.1

theorem paired_zipIdx {texts texts' : List Bytes} (h : List.Forall₂ (Alike r) texts texts')
    (n : Nat) : Paired r (texts.zipIdx n) (texts'.zipIdx n) := by
  induction h generalizing n with
  | nil => exact .nil
  | cons hline _ ih =>
    rw [List.zipIdx_cons, List.zipIdx_cons]
    exact .cons ⟨rfl, hline⟩ (ih (n + 1))

namespace Session

variable {src src' : List (Bytes × Nat)}

theorem run_agree (h : Paired r src src') (s : Session) :
    Agree (SyntaxError.Like r) (fun x y => y.1 = x.1 ∧ y.2.map (·.code) = x.2.map (·.code))
      (s.run src) (s.run src') := by
  induction h generalizing s with
  | nil => exact .ok ⟨rfl, rfl⟩
  | @cons line line' rest rest' hline _ ih =>
    obtain ⟨text, n⟩ := line
    obtain ⟨text', n'⟩ := line'
    obtain ⟨rfl, halike⟩ := hline
    rw [run, run]
    rcases (halike s n').exists_eq with ⟨c, c', hc, hx, hy⟩ | ⟨⟨s₁, code⟩, _, rfl, hx, hy⟩
    · rw [hx, hy]
      exact .error ⟨rfl, hc⟩
    · rw [hx, hy]
      dsimp only
      rcases (ih s₁).exists_eq with ⟨e, e', he, hx, hy⟩ | ⟨⟨_, ls⟩, ⟨s₂, ls'⟩, ⟨rfl, hcode⟩, hx, hy⟩
      · rw [hx, hy]
        exact .error he
      · rw [hx, hy]
        exact .ok ⟨rfl, by rw [List.map_cons, List.map_cons, hcode]⟩

theorem settle_agree (h : Paired r src src') (bound : Nat) (s : Session) :
    Agree (SyntaxError.Like r) Eq (settle src bound s).2 (settle src' bound s).2 := by
  induction bound generalizing s with
  | zero => exact .ok rfl
  | succ bound ih =>
    rw [settle, settle]
    rcases (run_agree h (s.start .settle)).exists_eq with
      ⟨e, e', he, hx, hy⟩ | ⟨⟨_, ls⟩, ⟨s₁, ls'⟩, ⟨rfl, -⟩, hx, hy⟩
    · rw [hx, hy]
      exact .error he
    · rw [hx, hy]
      dsimp only
      split
      · exact .ok rfl
      · exact ih s₁

theorem generate_agree (h : Paired r src src') (s : Session) :
    Agree (SyntaxError.Like r) Program.Same (s.generate src) (s.generate src') := by
  rw [generate, generate]
  rcases (run_agree h (s.start .code)).exists_eq with
    ⟨e, e', he, hx, hy⟩ | ⟨⟨_, ls⟩, ⟨s₁, ls'⟩, ⟨rfl, hcode⟩, hx, hy⟩
  · rw [hx, hy]
    exact .error he
  · rw [hx, hy]
    have hflat : ls'.flatMap (·.code) = ls.flatMap (·.code) := by
      rw [List.flatMap_def, List.flatMap_def, hcode]
    simp only [Program.foldr_cons, List.append_nil]
    exact .ok ⟨hflat, rfl, rfl, rfl, rfl⟩

end Session

/-- Sources with lines that are alike are assembled alike, whatever is known before. -/
theorem Assembler.assemble_agree {source source' : Bytes}
    (h : List.Forall₂ (Alike r) (lines source) (lines source')) (a : Assembler) :
    Agree (SyntaxError.Like r) Program.Same (a.assemble source) (a.assemble source') := by
  have hpaired : Paired r (numberedLines source) (numberedLines source') := paired_zipIdx h 1
  simp only [assemble, assembly]
  rcases (Session.run_agree hpaired (a.session.start .collect)).exists_eq with
    ⟨e, e', he, hx, hy⟩ | ⟨⟨_, ls⟩, ⟨s₁, ls'⟩, ⟨rfl, -⟩, hx, hy⟩
  · rw [hx, hy]
    exact .error he
  · rw [hx, hy]
    dsimp only
    have hsettle := Session.settle_agree hpaired (s₁.defined.size + 1) s₁
    rcases hx : s₁.settle (numberedLines source) (s₁.defined.size + 1) with ⟨scans, result⟩
    rcases hy : s₁.settle (numberedLines source') (s₁.defined.size + 1) with ⟨scans', result'⟩
    rw [hx, hy] at hsettle
    cases hsettle with
    | error he => exact .error he
    | ok heq =>
      subst heq
      exact Session.generate_agree hpaired _

end Assembly
end Forge6809
