import Forge6809.Proofs.Assembly.Validity

/-! # Circles of equates

No pass looks for equates that depend on each other in a circle. The scans start from zeros and go
on for as long as their number allows, and what the code pass asks for is that one more scan would
change nothing. So a source with a circle is refused if its values have not come to rest by then;
but it is assembled, with whatever values it came to rest at, if they have. -/

namespace Forge6809.Assembly

open Text
open Forge6809.Expr (mentions)

/-- The code that a scan finds for a line, nothing where it finds none. -/
def scanCode (equates : Table UInt16) (text : Bytes) : Bytes :=
  ((Form.read? text).bind fun form => form.action.code? equates false).getD []

/-- How far a scan that starts with a table of equates comes with some lines. -/
def scanOffset (equates : Table UInt16) : List Bytes → UInt16
  | [] => 0
  | text :: texts =>
    UInt16.ofNat (scanCode equates text).length +
      scanOffset (sweep equates (equation? text).toList) texts

theorem scanCode_eq {equates : Table UInt16} {text code : Bytes} {form : Form}
    (hr : Form.read? text = some form) (hc : form.action.code? equates false = some code) :
    scanCode equates text = code := by
  rw [scanCode, hr, Option.bind_some, hc, Option.getD_some]

/-- A scan leaves every label where it came to its line. -/
theorem Session.run_scan_offset {s s' : Session} {src : List (Bytes × Nat)} {ls : List Line}
    (hs : s.strict = false) (h : s.run src = .ok (s', ls))
    (hn : (labels (src.map Prod.fst)).Nodup) {pre post : List Bytes} {text a : Bytes}
    (hsplit : src.map Prod.fst = pre ++ text :: post) (ha : label? text = some a)
    (hq : equation? text = none) :
    s'.symbols.get? a = some (s.offset + scanOffset s.equates pre) := by
  induction src generalizing s ls pre with
  | nil => cases pre <;> cases hsplit
  | cons line rest ih =>
    obtain ⟨s₁, code, ls', hst, hrun, -⟩ := run_cons_eq_ok_iff.1 h
    have hline := statement_scansTo hs hst
    have hs₁ : s₁.strict = false := hline.strict_eq.trans hs
    rw [List.map_cons, labels_cons] at hn
    cases pre with
    | nil =>
      cases hsplit
      have hrest : a ∉ labels (rest.map Prod.fst) := by
        rw [ha] at hn
        exact (List.nodup_cons.1 hn).1
      rw [(run_scan hs₁ hrun).2.2 a hrest, hline.symbols, if_pos ha, hq, scanOffset,
        UInt16.add_zero]
      rfl
    | cons head pre =>
      rw [List.map_cons, List.cons_append, List.cons.injEq] at hsplit
      obtain ⟨rfl, hsplit⟩ := hsplit
      obtain ⟨form, hr, hc⟩ := hline.form
      rw [ih hs₁ hrun hn.of_append_right hsplit, hline.offset, hline.equates, scanOffset,
        scanCode_eq hr hc, UInt16.add_assoc]

/-- Tables that solve the equates are in step with some lines if every label stands where a scan
under them comes to its line. -/
theorem inStep_iff {equates symbols : Table UInt16} {offset : UInt16} {texts : List Bytes}
    (hsolves : Solves equates (equations texts)) :
    InStep equates symbols offset texts ↔
      (∀ text ∈ texts, ∃ form code, Form.read? text = some form ∧
        form.action.code? equates false = some code) ∧
      ∀ pre text post a o, texts = pre ++ text :: post → label? text = some a →
        symbols.get? a = some o → o = offset + scanOffset equates pre := by
  induction texts generalizing offset with
  | nil =>
    constructor
    · intro _
      refine ⟨by simp, fun pre text post a o hsplit => ?_⟩
      cases pre <;> cases hsplit
    · intro _
      exact .nil
  | cons head texts ih =>
    rw [solves_cons] at hsolves
    have hsame : sweep equates (equation? head).toList = equates := hsolves.1.sweep_eq
    constructor
    · intro h
      cases h with
      | cons hr hc hlabel hrest =>
        obtain ⟨hencodes, hlabels⟩ := (ih hsolves.2).1 hrest
        refine ⟨List.forall_mem_cons.2 ⟨⟨_, _, hr, hc⟩, hencodes⟩, ?_⟩
        intro pre text post a o hsplit ha ho
        cases pre with
        | nil =>
          cases hsplit
          rw [scanOffset, UInt16.add_zero]
          exact hlabel a ha o ho
        | cons first pre =>
          rw [List.cons_append, List.cons.injEq] at hsplit
          obtain ⟨rfl, hsplit⟩ := hsplit
          rw [hlabels pre text post a o hsplit ha ho, scanOffset, scanCode_eq hr hc, hsame,
            UInt16.add_assoc]
    · rintro ⟨hencodes, hlabels⟩
      rw [List.forall_mem_cons] at hencodes
      obtain ⟨⟨form, code, hr, hc⟩, hencodes⟩ := hencodes
      refine .cons hr hc ?_ ((ih hsolves.2).2 ⟨hencodes, ?_⟩)
      · intro a ha o ho
        have hfirst := hlabels [] head texts a o rfl ha ho
        rwa [scanOffset, UInt16.add_zero] at hfirst
      · intro pre text post a o hsplit ha ho
        have hlater := hlabels (head :: pre) text post a o (by rw [hsplit]; rfl) ha ho
        rwa [scanOffset, scanCode_eq hr hc, hsame, ← UInt16.add_assoc] at hlater

/-- What the code pass lays out is in step with its tables. -/
theorem Laid.inStep {equates symbols : Table UInt16} {offset : UInt16}
    {src : List (Bytes × Nat)} {ls : List Line} (h : Laid equates symbols offset src ls) :
    InStep equates symbols offset (src.map Prod.fst) := by
  induction h with
  | nil => exact .nil
  | cons hr ha _ ih =>
    refine .cons hr (Action.code?_lenient ha.encodes) ?_ ih
    rw [← Form.label_of_read? hr]
    exact ha.label

/-- The largest number of scans over some lines: two more than there are names. -/
def scanLimit (predefined : Table UInt16) (texts : List Bytes) : Nat :=
  predefined.size + (labels texts).length + 2

def equatesAfter (predefined : Table UInt16) (texts : List Bytes) (n : Nat) : Table UInt16 :=
  sweeps (equations texts) n predefined

/-- The last scan and one more would give every label the same offset. -/
def Steady (predefined : Table UInt16) (texts : List Bytes) : Prop :=
  ∀ pre text post, texts = pre ++ text :: post → (label? text).isSome → equation? text = none →
    scanOffset (equatesAfter predefined texts (scanLimit predefined texts - 1)) pre =
      scanOffset (equatesAfter predefined texts (scanLimit predefined texts)) pre

theorem Session.run_defined {s s' : Session} {src : List (Bytes × Nat)} {ls : List Line}
    (hs : s.pass = .settle) (h : s.run src = .ok (s', ls)) : s'.defined = s.defined := by
  induction src generalizing s ls with
  | nil => cases h; rfl
  | cons line rest ih =>
    obtain ⟨s₁, code, ls', hst, hrun, -⟩ := run_cons_eq_ok_iff.1 h
    have hpass : s₁.pass = .settle :=
      (statement_scansTo (by simp [strict, hs]) hst).pass.trans hs
    have hdef := statement_defined hst
    rw [if_neg (by simp [hs])] at hdef
    rw [ih hpass hrun, hdef]

section Scanned

variable {a : Assembler} {src : List (Bytes × Nat)}

/-- Scans that follow one that changed nothing change nothing either. -/
theorem Scanned.exists_later {n : Nat} {s s' : Session} {ls : List Line}
    (hs : Scanned a src n s) (hrun : (s.start .settle).run src = .ok (s', ls))
    (hsym : s.symbols = s'.symbols) (he : s.equates = s'.equates) (k : Nat) :
    ∃ s'', Scanned a src (n + 1 + k) s'' ∧ s''.symbols = s'.symbols ∧ s''.equates = s'.equates ∧
      s''.defined = s.defined := by
  induction k with
  | zero =>
    exact ⟨s', hs.settle hrun, rfl, rfl, Session.run_defined (s := s.start .settle) rfl hrun⟩
  | succ k ih =>
    obtain ⟨u, hu, hsym', he', hdef⟩ := ih
    have hstart : u.start .settle = s.start .settle := by
      simp only [Session.start, hsym', hsym, he', he, hdef]
    rw [← hstart] at hrun
    exact ⟨s', hu.settle hrun, rfl, rfl,
      (Session.run_defined (s := u.start .settle) rfl hrun).trans hdef⟩

/-- The tables that the scanning ends with are those of the full number of scans. -/
theorem settle_limit {bound n : Nat} {s s' : Session} {passes : List Pass}
    (hs : Scanned a src n s) (h : s.settle src bound = (passes, .ok s')) :
    ∃ s'', Scanned a src (n + bound) s'' ∧ s''.symbols = s'.symbols ∧
      s''.equates = s'.equates := by
  induction bound generalizing n s passes with
  | zero => cases h; exact ⟨_, hs, rfl, rfl⟩
  | succ bound ih =>
    rw [Session.settle] at h
    cases hrun : (s.start .settle).run src with
    | error e => rw [hrun] at h; cases h
    | ok r =>
      obtain ⟨s₁, ls⟩ := r
      rw [hrun] at h
      dsimp only at h
      have hsum : n + (bound + 1) = n + 1 + bound := by omega
      rw [hsum]
      split at h
      · next heq =>
        cases h
        obtain ⟨u, hu, hsym, he, -⟩ := hs.exists_later hrun heq.1 heq.2 bound
        exact ⟨u, hu, hsym, he⟩
      · cases hset : s₁.settle src bound with
        | mk passes₁ result =>
          rw [hset] at h
          cases h
          exact ih (hs.settle hrun) hset

theorem scanned_limit {s : Session} (h : a.scanned src = .ok s) :
    ∃ s', Scanned a src (scanLimit a.predefined (src.map Prod.fst)) s' ∧
      s'.symbols = s.symbols ∧ s'.equates = s.equates := by
  rw [Assembler.scanned] at h
  cases hrun : (a.session.start .collect).run src with
  | error e => rw [hrun] at h; cases h
  | ok r =>
    obtain ⟨s₁, ls⟩ := r
    rw [hrun] at h
    have hsize : s₁.defined.size = a.predefined.size + (labels (src.map Prod.fst)).length := by
      rw [(Session.run_collect rfl hrun).2.2, Session.start, Assembler.session, Table.size_map]
    have heq : s₁.settle src (s₁.defined.size + 1) = (_, .ok s) := Prod.ext rfl h
    have hlimit := settle_limit (Scanned.collect hrun) heq
    rwa [hsize, Nat.add_comm 1] at hlimit

/-- After the last scan the tables are in step with the source exactly if its labels are steady. -/
theorem Scanned.inStep_iff_steady {s : Session}
    (hs : Scanned a src (scanLimit a.predefined (src.map Prod.fst)) s)
    (hv : Valid a.predefined (src.map Prod.fst) s.equates) :
    InStep s.equates s.symbols 0 (src.map Prod.fst) ↔ Steady a.predefined (src.map Prod.fst) := by
  have he : s.equates = equatesAfter a.predefined (src.map Prod.fst)
      (scanLimit a.predefined (src.map Prod.fst)) := hs.equates
  have hencodes : ∀ text ∈ src.map Prod.fst, ∃ form code, Form.read? text = some form ∧
      form.action.code? s.equates false = some code := by
    intro text ht
    obtain ⟨form, code, hr, hc⟩ := hv.encodes text ht
    exact ⟨form, code, hr, Action.code?_lenient hc⟩
  have hoffset {pre post : List Bytes} {text b : Bytes}
      (hsplit : src.map Prod.fst = pre ++ text :: post) (hb : label? text = some b)
      (hq : equation? text = none) : s.symbols.get? b = some (scanOffset
        (equatesAfter a.predefined (src.map Prod.fst)
          (scanLimit a.predefined (src.map Prod.fst) - 1)) pre) := by
    obtain ⟨s₀, ls, hrun, hs₀, ho, he₀, -⟩ := hs.exists_start
    rw [Session.run_scan_offset hs₀ hrun hs.nodup hsplit hb hq, ho, he₀, UInt16.zero_add]
    rfl
  rw [inStep_iff hv.solves, and_iff_right hencodes]
  constructor
  · intro h pre text post hsplit hl hq
    obtain ⟨b, hb⟩ := Option.isSome_iff_exists.1 hl
    have hsame := h pre text post b _ hsplit hb (hoffset hsplit hb hq)
    rwa [UInt16.zero_add, he] at hsame
  · intro h pre text post b o hsplit hb ho
    have hq : equation? text = none := by
      rw [← hs.isSome_symbols_iff (by rw [hsplit]; simp) hb, ho]
      rfl
    have hsame := h pre text post hsplit (by rw [hb]; rfl) hq
    rw [hoffset hsplit hb hq] at ho
    rw [← Option.some.inj ho, hsame, UInt16.zero_add, he]

end Scanned

/-- A source, whether or not its equates form a circle, is assembled exactly if it is valid under
the equates of its last scan, its labels are steady, and no scan is premature. -/
theorem exists_assemble_iff_valid {a : Assembler} {source : Bytes} :
    (∃ p, a.assemble source = .ok p) ↔
      Valid a.predefined (lines source)
        (equatesAfter a.predefined (lines source) (scanLimit a.predefined (lines source))) ∧
      Steady a.predefined (lines source) ∧ ¬Premature a.predefined (lines source) := by
  rw [← map_fst_numberedLines]
  constructor
  · rintro ⟨p, h⟩
    obtain ⟨s, hok, hl, -⟩ := assemble_eq_ok_iff.1 h
    obtain ⟨u, hu, hsym, he⟩ := scanned_limit hok
    rw [← hsym, ← he] at hl
    have hv := valid_of_laid hu hl
    refine ⟨?_, (hu.inStep_iff_steady hv).1 hl.inStep, not_premature_of_valid hu hv⟩
    rw [equatesAfter, ← hu.equates]
    exact hv
  · rintro ⟨hv, hsteady, hp⟩
    obtain ⟨s, hok⟩ := hv.exists_scanned hp
    obtain ⟨u, hu, hsym, he⟩ := scanned_limit hok
    rw [equatesAfter, ← hu.equates] at hv
    have hstep := (hu.inStep_iff_steady hv).2 hsteady
    obtain ⟨ls, hl⟩ := hstep.exists_laid hv.encodes hv.solves
      fun text hmem form name hr hentry =>
        (hu.symbols name).2 (hv.entry text form name hmem hr hentry)
    rw [hsym, he] at hl
    exact ⟨⟨_, _, ls.flatMap (·.code), ls, s.symbols, s.equates⟩,
      assemble_eq_ok_iff.2 ⟨s, hok, hl, rfl, rfl, rfl, rfl⟩⟩

theorem equates_of_assemble {a : Assembler} {source : Bytes} {p : Program}
    (h : a.assemble source = .ok p) : p.equates =
      equatesAfter a.predefined (lines source) (scanLimit a.predefined (lines source)) := by
  obtain ⟨s, hok, -, -, he, -⟩ := assemble_eq_ok_iff.1 h
  obtain ⟨u, hu, -, he'⟩ := scanned_limit hok
  rw [he, ← he', hu.equates, map_fst_numberedLines]
  rfl

/-- A source is refused exactly if it is not valid under the equates of its last scan, its labels
are not steady, or a scan is premature. Nothing else speaks against a circle of equates: it is
refused if the last scan has left no solution, which takes a circle, and assembled with the
solution that the last scan has left, if there is nothing else to refuse. -/
theorem assemble_circle (a : Assembler) (source : Bytes) :
    ((∃ e, a.assemble source = .error e) ↔
      ¬(Valid a.predefined (lines source)
          (equatesAfter a.predefined (lines source) (scanLimit a.predefined (lines source))) ∧
        Steady a.predefined (lines source) ∧ ¬Premature a.predefined (lines source))) ∧
    (∀ p, a.assemble source = .ok p → p.equates =
        equatesAfter a.predefined (lines source) (scanLimit a.predefined (lines source)) ∧
      Solves p.equates (equations (lines source))) ∧
    (¬Solves (equatesAfter a.predefined (lines source) (scanLimit a.predefined (lines source)))
        (equations (lines source)) → (∃ e, a.assemble source = .error e) ∧
      ((labels (lines source)).Nodup →
        ∃ name, Relation.TransGen (DependsOn (equations (lines source))) name name)) := by
  have herror : (∃ e, a.assemble source = .error e) ↔ ¬∃ p, a.assemble source = .ok p := by
    cases a.assemble source <;> simp
  refine ⟨by rw [herror, exists_assemble_iff_valid], ?_, ?_⟩
  · intro p hp
    have he := equates_of_assemble hp
    exact ⟨he, he ▸ (exists_assemble_iff_valid.1 ⟨p, hp⟩).1.solves⟩
  · intro hunsolved
    constructor
    · rw [herror, exists_assemble_iff_valid]
      exact fun h => hunsolved h.1.solves
    · intro hn
      by_contra hnone
      push Not at hnone
      have hnames := definedNames_equations_sublist (lines source)
      have hlength := hnames.length_le
      rw [definedNames, List.length_map] at hlength
      apply hunsolved
      apply solves_sweeps (hn.sublist hnames) hnone
      rw [scanLimit]
      omega

def restingCircle : Bytes :=
  ofString "ALPHA\tEQU\tBRAVO\nBRAVO\tEQU\tALPHA\n"

/-- Two equates, each of which is larger than the other. -/
def risingCircle : Bytes :=
  ofString "ALPHA\tEQU\tBRAVO+1\nBRAVO\tEQU\tALPHA\n"

theorem restingCircle_equations : equations (lines restingCircle) =
    [(ofString "ALPHA", ofString "\tBRAVO"), (ofString "BRAVO", ofString "\tALPHA")] := by
  decide +kernel

theorem exists_assemble_restingCircle : ∃ p, (Assembler.mk ∅).assemble restingCircle = .ok p ∧
    p.equates.get? (ofString "ALPHA") = some 0 := by
  have hok : ((Assembler.mk ∅).assemble restingCircle).toOption.map
      (fun p => p.equates.get? (ofString "ALPHA")) = some (some 0) := by decide +kernel
  cases h : (Assembler.mk ∅).assemble restingCircle with
  | error e => rw [h] at hok; cases hok
  | ok p =>
    rw [h] at hok
    exact ⟨p, rfl, Option.some.inj hok⟩

/-- The rising circle is refused, for no scan leaves a solution. The resting one is assembled. -/
theorem risingCircle_refused :
    ¬Solves (equatesAfter ∅ (lines risingCircle) (scanLimit ∅ (lines risingCircle)))
      (equations (lines risingCircle)) ∧
    (∃ e, (Assembler.mk ∅).assemble risingCircle = .error e) ∧
    (∃ name, Relation.TransGen (DependsOn (equations (lines risingCircle))) name name) ∧
    ∃ p, (Assembler.mk ∅).assemble restingCircle = .ok p ∧
      p.equates.get? (ofString "ALPHA") = some 0 ∧
      Solves p.equates (equations (lines restingCircle)) := by
  have hequations : equations (lines risingCircle) =
      [(ofString "ALPHA", ofString "\tBRAVO+1"), (ofString "BRAVO", ofString "\tALPHA")] := by
    decide +kernel
  have hlabels : labels (lines risingCircle) = [ofString "ALPHA", ofString "BRAVO"] := by
    decide +kernel
  have hunsolved : ¬Solves (equatesAfter ∅ (lines risingCircle)
      (scanLimit ∅ (lines risingCircle))) (equations (lines risingCircle)) := by
    have hlimit : scanLimit ∅ (lines risingCircle) = 4 := by
      rw [scanLimit, hlabels]
      rfl
    have hvalue : (sweeps [(ofString "ALPHA", ofString "\tBRAVO+1"),
        (ofString "BRAVO", ofString "\tALPHA")] 4 ∅).get? (ofString "ALPHA") = some 4 := by
      decide +kernel
    have hnext : provisional (sweeps [(ofString "ALPHA", ofString "\tBRAVO+1"),
        (ofString "BRAVO", ofString "\tALPHA")] 4 ∅) (ofString "\tBRAVO+1") = 5 := by decide +kernel
    rw [equatesAfter, hlimit, hequations]
    intro hsolves
    have hfirst := hsolves _ List.mem_cons_self
    rw [hvalue, hnext] at hfirst
    exact absurd hfirst (by decide)
  have hdistinct : (labels (lines risingCircle)).Nodup := by
    rw [hlabels]
    decide +kernel
  obtain ⟨-, -, hrefused⟩ := assemble_circle (Assembler.mk ∅) risingCircle
  obtain ⟨herror, hcircle⟩ := hrefused hunsolved
  obtain ⟨p, hp, hzero⟩ := exists_assemble_restingCircle
  obtain ⟨-, hsolved, -⟩ := assemble_circle (Assembler.mk ∅) restingCircle
  exact ⟨hunsolved, herror, hcircle hdistinct, p, hp, hzero, (hsolved p hp).2⟩

/-- A circle of equates is not refused as such. -/
theorem restingCircle_assembled :
    ¬∀ (a : Assembler) (source : Bytes),
      (∃ name, Relation.TransGen (DependsOn (equations (lines source))) name name) →
        ∃ e, a.assemble source = .error e := by
  intro hrefused
  have hfirst : DependsOn (equations (lines restingCircle)) (ofString "ALPHA")
      (ofString "BRAVO") := by
    have hmentions : mentions (ofString "\tBRAVO") = [ofString "BRAVO"] := by decide +kernel
    rw [restingCircle_equations]
    exact ⟨ofString "\tBRAVO", by simp, by simp [hmentions], by simp [definedNames]⟩
  have hsecond : DependsOn (equations (lines restingCircle)) (ofString "BRAVO")
      (ofString "ALPHA") := by
    have hmentions : mentions (ofString "\tALPHA") = [ofString "ALPHA"] := by decide +kernel
    rw [restingCircle_equations]
    exact ⟨ofString "\tALPHA", by simp, by simp [hmentions], by simp [definedNames]⟩
  obtain ⟨e, he⟩ := hrefused (Assembler.mk ∅) restingCircle
    ⟨ofString "ALPHA", .tail (.single hfirst) hsecond⟩
  obtain ⟨p, hp, -⟩ := exists_assemble_restingCircle
  rw [he] at hp
  cases hp

end Forge6809.Assembly
