import Forge6809.Proofs.Assembly.Generation
import Mathlib.Tactic

/-! # Phase errors

Once the tables have settled, the code pass goes through the source in step with the last scan:
every line has the code it had there, so every label is met at the offset it was given, and every
equate has the value it was given. A phase error can only be reported where the scans did not
settle, and that takes equates that depend on each other in a circle. -/

namespace Forge6809.Assembly

open Text
open Forge6809.Expr (mentions)

/-- Tables under which a pass that starts at an offset meets every label of some lines at its
offset. -/
inductive InStep (equates symbols : Table UInt16) : UInt16 → List Bytes → Prop
  | nil {offset : UInt16} : InStep equates symbols offset []
  | cons {offset : UInt16} {text : Bytes} {texts : List Bytes} {form : Form} {code : Bytes} :
      Form.read? text = some form → form.action.code? equates false = some code →
      (∀ a, label? text = some a → ∀ o, symbols.get? a = some o → o = offset) →
      InStep equates symbols (offset + UInt16.ofNat code.length) texts →
        InStep equates symbols offset (text :: texts)

/-- A scan under a solution is in step with the symbols that it leaves. -/
theorem Session.run_inStep {s s' : Session} {src : List (Bytes × Nat)} {ls : List Line}
    (hs : s.strict = false) (hn : (labels (src.map Prod.fst)).Nodup)
    (hsolves : Solves s.equates (equations (src.map Prod.fst)))
    (h : s.run src = .ok (s', ls)) :
    InStep s.equates s'.symbols s.offset (src.map Prod.fst) := by
  induction src generalizing s ls with
  | nil => exact .nil
  | cons line rest ih =>
    obtain ⟨s₁, code, ls', hst, hrun, -⟩ := run_cons_eq_ok_iff.1 h
    have hline := statement_scansTo hs hst
    have hs₁ : s₁.strict = false := hline.strict_eq.trans hs
    rw [List.map_cons, solves_cons] at hsolves
    rw [List.map_cons, labels_cons] at hn
    have he : s₁.equates = s.equates := hline.equates.trans hsolves.1.sweep_eq
    obtain ⟨form, hr, hc⟩ := hline.form
    have hrest := ih hs₁ hn.of_append_right (he ▸ hsolves.2) hrun
    rw [he, hline.offset] at hrest
    refine .cons hr hc ?_ hrest
    intro a ha o ho
    -- No later line has this label, so it kept the offset of this one.
    have hlater : a ∉ labels (rest.map Prod.fst) := by
      rw [ha] at hn
      exact (List.nodup_cons.1 hn).1
    rw [(run_scan hs₁ hrun).2.2 a hlater, hline.symbols, if_pos ha] at ho
    split at ho
    · cases ho
    · exact (Option.some.inj ho).symm

theorem Settled.inStep {a : Assembler} {src : List (Bytes × Nat)} {s : Session}
    (h : Settled a src s) : InStep s.equates s.symbols 0 (src.map Prod.fst) := by
  have hsolves := h.solves
  obtain ⟨n, s₀, ls, hs, hrun, -, he⟩ := h
  rw [← he] at hsolves ⊢
  exact Session.run_inStep (s := s₀.start .settle) rfl hs.nodup hsolves hrun

/-- A pass that is in step with its tables reports no phase error. -/
theorem Session.run_ne_phase {s : Session} {src : List (Bytes × Nat)} {e : SyntaxError}
    (hp : s.pass = .code) (hstep : InStep s.equates s.symbols s.offset (src.map Prod.fst))
    (hsolves : Solves s.equates (equations (src.map Prod.fst)))
    (hready : Ready s.equates s.symbols (src.map Prod.fst)) (h : s.run src = .error e)
    (name : Bytes) : e.cause ≠ .phase name := by
  induction src generalizing s with
  | nil => cases h
  | cons line rest ih =>
    rw [List.map_cons] at hstep hsolves hready
    rw [solves_cons] at hsolves
    rw [ready_cons] at hready
    cases hstep with
    | cons hr hc hlabel hrest =>
      rename_i form code
      rcases run_cons_eq_error_iff.1 h with ⟨cause, hst, rfl⟩ | ⟨s₁, code₁, hst, hrun⟩
      · rintro rfl
        rcases (statement_phase hst).2 with ⟨hl, o, ho, hne⟩ | ⟨e, v, hr', hv, hne⟩
        · exact hne (hlabel name hl o ho)
        · have hq : (name, e) ∈ (equation? line.1).toList := by
            rw [equation?_eq_some_iff.2 hr']
            exact List.mem_singleton_self _
          have hget := hsolves.1 (name, e) hq
          dsimp only at hget
          rw [hget, provisional_of_evaluate hv] at hne
          exact hne rfl
      · obtain ⟨form₁, hr₁, ha, rfl⟩ := (statement_code_eq_ok_iff hp hready.1).1 hst
        cases hr.symm.trans hr₁
        have hcode : code₁ = code :=
          Option.some.inj ((Action.code?_lenient ha.encodes).symm.trans hc)
        rw [← hcode] at hrest
        exact ih (s := s.advance form.action code₁) hp hrest hsolves.2 hready.2 hrun

theorem Settled.scanned {a : Assembler} {src : List (Bytes × Nat)} {s : Session}
    (h : Settled a src s) : ∃ n, Scanned a src n s := by
  obtain ⟨n, s₀, ls, hs, hrun, -⟩ := h
  exact ⟨n + 1, hs.settle hrun⟩

/-- After the tables have settled the code pass reports no phase error. -/
theorem Settled.generate_ne_phase {a : Assembler} {src : List (Bytes × Nat)} {s : Session}
    (h : Settled a src s) {e : SyntaxError} (he : s.generate src = .error e) (name : Bytes) :
    e.cause ≠ .phase name := by
  obtain ⟨n, hs⟩ := h.scanned
  rw [Session.generate] at he
  split at he
  · next e' hrun =>
    cases he
    exact Session.run_ne_phase (s := s.start .code) rfl h.inStep h.solves hs.ready hrun name
  · cases he

/-- The scans settle, or two more of them are made than there are names. Once they have settled
the code pass reports no phase error, and without a circle of equates the assembler never does. -/
theorem assemble_ne_phase (a : Assembler) (source : Bytes) :
    (Acyclic (equations (lines source)) → ∀ e, a.assemble source = .error e →
      ∀ name, e.cause ≠ .phase name) ∧
    (∀ s, Settled a (numberedLines source) s → ∀ e,
      s.generate (numberedLines source) = .error e → ∀ name, e.cause ≠ .phase name) ∧
    ∀ s, a.scanned (numberedLines source) = .ok s → Settled a (numberedLines source) s ∨
      Scanned a (numberedLines source) (a.predefined.size + (labels (lines source)).length + 2)
        s := by
  refine ⟨?_, ?_, ?_⟩
  · intro hc e he name
    rw [Assembler.assemble_eq, bind_eq_error_iff] at he
    rcases he with he | ⟨s, hs, he⟩
    · obtain ⟨s₁, hs₁, hrun⟩ := scanned_error he
      exact Session.run_scan_ne_phase hs₁ hrun name
    · rw [← map_fst_numberedLines] at hc
      exact (settled_of_acyclic hc hs).generate_ne_phase he name
  · intro s hs e he name
    exact hs.generate_ne_phase he name
  · intro s hs
    rw [← map_fst_numberedLines]
    exact scanned_ok hs

def danglingSource : Bytes :=
  ofString "TABLE\tEQU\tBASIS+2\nBASIS\tEQU\tOTHER\n"

theorem danglingSource_ne_phase : Acyclic (equations (lines danglingSource)) ∧
    (∃ e, (Assembler.mk ∅).assemble danglingSource = .error e ∧
      ∀ name, e.cause ≠ .phase name) ∧
    ∃ s, Settled (Assembler.mk ∅) (numberedLines danglingSource) s ∧
      ∃ e, s.generate (numberedLines danglingSource) = .error e ∧
        ∀ name, e.cause ≠ .phase name := by
  have hc : Acyclic (equations (lines danglingSource)) := by
    have hqs : equations (lines danglingSource) =
        [(ofString "TABLE", ofString "\tBASIS+2"), (ofString "BASIS", ofString "\tOTHER")] := by
      decide +kernel
    have hfirst : mentions (ofString "\tBASIS+2") = [ofString "BASIS"] := by decide +kernel
    have hsecond : mentions (ofString "\tOTHER") = [ofString "OTHER"] := by decide +kernel
    rw [hqs]
    apply acyclic_of_rank fun name => if name = ofString "TABLE" then 1 else 0
    simp only [List.forall_mem_cons, hfirst, hsecond]
    decide +kernel
  have hscanned : (((Assembler.mk ∅).scanned (numberedLines danglingSource)).toOption.map
      fun s => (s.generate (numberedLines danglingSource)).toOption.isNone) = some true := by
    decide +kernel
  obtain ⟨hacyclic, hsettled, -⟩ := assemble_ne_phase (Assembler.mk ∅) danglingSource
  cases hs : (Assembler.mk ∅).scanned (numberedLines danglingSource) with
  | error e => rw [hs] at hscanned; cases hscanned
  | ok s =>
    rw [hs] at hscanned
    cases hgen : s.generate (numberedLines danglingSource) with
    | ok p => simp [Except.toOption, hgen] at hscanned
    | error e =>
      have hassemble : (Assembler.mk ∅).assemble danglingSource = .error e := by
        rw [Assembler.assemble_eq, hs]
        exact hgen
      have hset : Settled (Assembler.mk ∅) (numberedLines danglingSource) s :=
        settled_of_acyclic (by rwa [map_fst_numberedLines]) hs
      exact ⟨hc, ⟨e, hassemble, hacyclic hc e hassemble⟩, s, hset, e, hgen,
        hsettled s hset e hgen⟩

end Forge6809.Assembly
