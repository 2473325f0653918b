import Forge6809.Proofs.Assembly.Settling

/-! # The code pass

The code pass finds every equate at the value that the scans left and every label at its offset,
or it refuses the line; so it changes neither table. What it lays out is described by a relation
between the lines of the source and the lines of the program under the two tables, and a pass
succeeds exactly if there is such a layout. -/

namespace Forge6809.Assembly

open Text

@[simp] theorem map_fst_numberedLines (source : Bytes) :
    (numberedLines source).map Prod.fst = lines source :=
  List.zipIdx_map_fst 1 (lines source)

/-- What the code pass demands of a line: its operand is defined and fits, its label stands where
the scans have put it, its equate has the value of its operand, and the label at which execution
starts exists. -/
structure Accepts (equates symbols : Table UInt16) (offset : UInt16) (form : Form)
    (code : Bytes) : Prop where
  encodes : form.action.code? equates true = some code
  label (a : Bytes) : form.label = some a → ∀ o, symbols.get? a = some o → o = offset
  equate (name e : Bytes) (v : UInt16) : form = ⟨some name, .equate e⟩ →
    Expr.evaluate e equates true = .ok v → equates.get? name = some v
  entry (name : Bytes) : form.action = .entry name → (symbols.get? name).isSome

def Action.place (equates symbols : Table UInt16) (addr : UInt16 × UInt16) :
    Action → UInt16 × UInt16
  | origin text => (provisional equates text, addr.2)
  | entry name => (addr.1, (symbols.get? name).getD 0 + addr.1)
  | nothing | equate _ | inherent _ | immediate8 _ _ | immediate16 _ _ | indexed _ _ _ _ _ => addr

theorem Action.place_of_isInstruction {equates symbols : Table UInt16} {addr : UInt16 × UInt16}
    {action : Action} (h : action.isInstruction = true) :
    action.place equates symbols addr = addr := by
  cases action <;> first | rfl | cases h

def placeLine (equates symbols : Table UInt16) (addr : UInt16 × UInt16) (text : Bytes) :
    UInt16 × UInt16 :=
  match Form.read? text with
  | some form => form.action.place equates symbols addr
  | none => addr

def addresses (equates symbols : Table UInt16) (texts : List Bytes) : UInt16 × UInt16 :=
  texts.foldl (placeLine equates symbols) (0, 0)

namespace Session

def advance (s : Session) (action : Action) (code : Bytes) : Session :=
  { s with
    offset := s.offset + UInt16.ofNat code.length
    origin := (action.place s.equates s.symbols (s.origin, s.exec)).1
    exec := (action.place s.equates s.symbols (s.origin, s.exec)).2 }

theorem labelled_code_eq_ok_iff {s s' : Session} {lineNo : Nat} {label : Option Bytes}
    (hp : s.pass = .code) : s.labelled lineNo label = .ok s' ↔
      (∀ a, label = some a → ∀ o, s.symbols.get? a = some o → o = s.offset) ∧ s' = s := by
  cases label with
  | none => simp [labelled, eq_comm]
  | some name =>
    simp only [labelled, define, hp, Option.some.injEq, forall_eq']
    cases hget : s.symbols.get? name with
    | none => simp [eq_comm]
    | some o =>
      by_cases ho : o = s.offset
      · simp [ho, eq_comm]
      · simp [ho]

/-- In the code pass only lines with known equates that are accepted are carried out. -/
theorem Performs.accepts {s s' : Session} {form : Form} {code : Bytes}
    (h : Performs s form s' code) (hp : s.pass = .code)
    (hl : ∀ a, form.label = some a → ∀ o, s.symbols.get? a = some o → o = s.offset)
    (hready : ∀ q, form.equation? = some q →
      (s.equates.get? q.1).isSome ∧ s.symbols.get? q.1 = none) :
    Accepts s.equates s.symbols s.offset form code ∧ s' = s.advance form.action code := by
  have hstrict : s.strict = true := by simp [strict, hp]
  have hc := h.code?_eq
  rw [hstrict] at hc
  cases h with
  | nothing => exact ⟨⟨hc, hl, by simp, by simp⟩, by simp [advance, Action.place]⟩
  | origin hv =>
    refine ⟨⟨hc, hl, by simp, by simp⟩, ?_⟩
    simp [advance, Action.place, provisional_of_evaluate hv]
  | equate hv hphase =>
    rename_i name e v
    obtain ⟨hsome, hnone⟩ := hready (name, e) rfl
    have hget : s.equates.get? name = some v := by
      obtain ⟨w, hw⟩ := Option.isSome_iff_exists.1 hsome
      dsimp only at hw
      rw [hw, ← hphase hp, hw]
      rfl
    refine ⟨⟨hc, hl, ?_, by simp⟩, ?_⟩
    · rintro _ _ w ⟨⟩ hw
      rw [hstrict] at hv
      cases hv.symm.trans hw
      exact hget
    · simp [advance, Action.place, Table.erase_eq_self hnone, Table.insert_eq_self hget]
  | entryUnused hne => exact absurd hp hne
  | entry _ hget =>
    exact ⟨⟨hc, hl, by simp, by simp [hget]⟩, by simp [advance, Action.place, hget]⟩
  | instruction hi _ =>
    refine ⟨⟨hc, hl, ?_, ?_⟩, ?_⟩
    · rintro _ _ _ ⟨⟩
      cases hi
    · rintro name rfl
      cases hi
    · rw [advance, Action.place_of_isInstruction hi]

/-- In the code pass a line with known equates is assembled exactly if it is accepted. -/
theorem statement_code_eq_ok_iff {s s' : Session} {lineNo : Nat} {text code : Bytes}
    (hp : s.pass = .code) (hready : ∀ q, equation? text = some q →
      (s.equates.get? q.1).isSome ∧ s.symbols.get? q.1 = none) :
    s.statement lineNo text = .ok (s', code) ↔ ∃ form, Form.read? text = some form ∧
      Accepts s.equates s.symbols s.offset form code ∧ s' = s.advance form.action code := by
  rw [statement_eq_ok_iff]
  constructor
  · rintro ⟨form, s₁, hr, hl, hperf⟩
    obtain ⟨hl, rfl⟩ := (labelled_code_eq_ok_iff hp).1 hl
    rw [equation?_of_read? hr] at hready
    exact ⟨form, hr, hperf.accepts hp hl hready⟩
  · rintro ⟨form, hr, h, rfl⟩
    have hstrict : s.strict = true := by simp [strict, hp]
    have hlabel : ∀ e, form.action = .equate e → ∃ name, form.label = some name :=
      fun e he => exists_label_of_equate (hr.trans (by rw [← he]))
    have hvalue : s.pass = .code → ∀ name e v, form = ⟨some name, .equate e⟩ →
        Expr.evaluate e s.equates s.strict = .ok v → (s.equates.get? name).getD 0 = v := by
      intro _ name e v hform hv
      rw [hstrict] at hv
      rw [h.equate name e v hform hv]
      rfl
    have hentry : s.pass = .code → ∀ name, form.action = .entry name →
        ∃ offset, s.symbols.get? name = some offset :=
      fun _ name hname => Option.isSome_iff_exists.1 (h.entry name hname)
    obtain ⟨s', hperf⟩ := exists_performs (hstrict ▸ h.encodes) hlabel hvalue hentry
    rw [equation?_of_read? hr] at hready
    obtain ⟨-, rfl⟩ := hperf.accepts hp h.label hready
    exact ⟨form, s, hr, (labelled_code_eq_ok_iff hp).2 ⟨h.label, rfl⟩, hperf⟩

end Session

/-- The lines of a program whose code starts at an offset, under the tables that the scans
left. -/
inductive Laid (equates symbols : Table UInt16) :
    UInt16 → List (Bytes × Nat) → List Line → Prop
  | nil {offset : UInt16} : Laid equates symbols offset [] []
  | cons {offset : UInt16} {text : Bytes} {n : Nat} {rest : List (Bytes × Nat)} {form : Form}
      {code : Bytes} {ls : List Line} : Form.read? text = some form →
      Accepts equates symbols offset form code →
      Laid equates symbols (offset + UInt16.ofNat code.length) rest ls →
        Laid equates symbols offset ((text, n) :: rest) (⟨n, offset, text, code⟩ :: ls)

namespace Laid

variable {equates symbols : Table UInt16} {offset : UInt16} {src : List (Bytes × Nat)}
  {ls : List Line}

/-- There is one line for each line of the source. -/
theorem map_lines (h : Laid equates symbols offset src ls) :
    ls.map (fun l => (l.text, l.lineNo)) = src := by
  induction h with
  | nil => rfl
  | cons _ _ _ ih => rw [List.map_cons, ih]

theorem accepts (h : Laid equates symbols offset src ls) {l : Line} (hl : l ∈ ls) :
    ∃ form, Form.read? l.text = some form ∧ Accepts equates symbols l.offset form l.code := by
  induction h with
  | nil => cases hl
  | cons hr ha _ ih =>
    rcases List.mem_cons.1 hl with rfl | hl
    · exact ⟨_, hr, ha⟩
    · exact ih hl

/-- A line stands behind the code of all lines before it. -/
theorem offset_eq (h : Laid equates symbols offset src ls) {pre post : List Line} {l : Line}
    (hl : ls = pre ++ l :: post) :
    l.offset = offset + UInt16.ofNat (pre.flatMap (·.code)).length := by
  induction h generalizing pre with
  | nil => cases pre <;> cases hl
  | cons hr ha hrest ih =>
    cases pre with
    | nil => cases hl; simp
    | cons head pre =>
      rw [List.cons_append, List.cons.injEq] at hl
      obtain ⟨rfl, hl⟩ := hl
      rw [ih hl, List.flatMap_cons, List.length_append, UInt16.ofNat_add, UInt16.add_assoc]

theorem exists_line (h : Laid equates symbols offset src ls) {text : Bytes}
    (ht : text ∈ src.map Prod.fst) : ∃ l ∈ ls, l.text = text := by
  rw [← h.map_lines, List.map_map] at ht
  exact List.mem_map.1 ht

end Laid

def Ready (equates symbols : Table UInt16) (texts : List Bytes) : Prop :=
  ∀ q ∈ equations texts, (equates.get? q.1).isSome ∧ symbols.get? q.1 = none

theorem ready_cons {equates symbols : Table UInt16} {text : Bytes} {texts : List Bytes} :
    Ready equates symbols (text :: texts) ↔
      (∀ q, equation? text = some q → (equates.get? q.1).isSome ∧ symbols.get? q.1 = none) ∧
        Ready equates symbols texts := by
  simp only [Ready, equations_cons, List.forall_mem_append, Option.mem_toList]

theorem placeLine_of_read? {equates symbols : Table UInt16} {addr : UInt16 × UInt16}
    {text : Bytes} {form : Form} (h : Form.read? text = some form) :
    placeLine equates symbols addr text = form.action.place equates symbols addr := by
  rw [placeLine, h]

namespace Session

variable {s s' : Session} {src : List (Bytes × Nat)} {ls : List Line}

theorem run_laid (hp : s.pass = .code) (hready : Ready s.equates s.symbols (src.map Prod.fst))
    (h : s.run src = .ok (s', ls)) : Laid s.equates s.symbols s.offset src ls ∧
      s'.equates = s.equates ∧ s'.symbols = s.symbols ∧ (s'.origin, s'.exec) =
        (src.map Prod.fst).foldl (placeLine s.equates s.symbols) (s.origin, s.exec) := by
  induction src generalizing s ls with
  | nil => cases h; exact ⟨.nil, rfl, rfl, rfl⟩
  | cons line rest ih =>
    obtain ⟨s₁, code, ls', hst, hrun, rfl⟩ := run_cons_eq_ok_iff.1 h
    rw [List.map_cons, ready_cons] at hready
    obtain ⟨form, hr, ha, rfl⟩ := (statement_code_eq_ok_iff hp hready.1).1 hst
    obtain ⟨hlaid, he, hsym, haddr⟩ := ih (s := s.advance form.action code) hp hready.2 hrun
    refine ⟨.cons hr ha hlaid, he, hsym, ?_⟩
    rw [haddr, List.map_cons, List.foldl_cons, placeLine_of_read? hr]
    rfl

theorem exists_run_of_laid (hp : s.pass = .code)
    (hready : Ready s.equates s.symbols (src.map Prod.fst))
    (h : Laid s.equates s.symbols s.offset src ls) : ∃ s', s.run src = .ok (s', ls) := by
  induction src generalizing s ls with
  | nil => cases h; exact ⟨s, rfl⟩
  | cons line rest ih =>
    cases h with
    | cons hr ha hrest =>
      rename_i text n form code ls
      rw [List.map_cons, ready_cons] at hready
      have hst : s.statement n text = .ok (s.advance form.action code, code) :=
        (statement_code_eq_ok_iff hp hready.1).2 ⟨form, hr, ha, rfl⟩
      obtain ⟨s', hrun⟩ := ih (s := s.advance form.action code) hp hready.2 hrest
      exact ⟨s', run_cons_eq_ok_iff.2 ⟨_, code, ls, hst, hrun, rfl⟩⟩

end Session

section Scanned

variable {a : Assembler} {src : List (Bytes × Nat)} {n : Nat} {s : Session}

/-- A scan leaves tables in which the code pass finds all equates. -/
theorem Scanned.ready (h : Scanned a src n s) :
    Ready s.equates s.symbols (src.map Prod.fst) := by
  intro q hq
  obtain ⟨text, ht, hq'⟩ := List.mem_filterMap.1 hq
  constructor
  · obtain ⟨m, rfl⟩ : ∃ m, n = m + 1 := Nat.exists_eq_add_one.2 h.pos
    rw [h.equates, sweeps_succ]
    exact get?_sweep_isSome (List.mem_map.2 ⟨q, hq, rfl⟩)
  · rw [← Option.not_isSome_iff_eq_none, h.isSome_symbols_iff ht (label?_of_equation? hq'), hq']
    simp

/-- After the scans a program is generated exactly if it is laid out under their tables. -/
theorem Scanned.generate_eq_ok_iff (h : Scanned a src n s) {p : Program} :
    s.generate src = .ok p ↔ Laid s.equates s.symbols 0 src p.lines ∧
      p.code = p.lines.flatMap (·.code) ∧ p.equates = s.equates ∧ p.labels = s.symbols ∧
      (p.origin, p.exec) = addresses s.equates s.symbols (src.map Prod.fst) := by
  rw [Session.generate]
  constructor
  · intro hgen
    split at hgen
    · cases hgen
    · next s' ls hrun =>
      rw [Program.foldr_cons, List.append_nil, List.append_nil] at hgen
      cases hgen
      obtain ⟨hlaid, hrest⟩ := Session.run_laid (s := s.start .code) rfl h.ready hrun
      exact ⟨hlaid, rfl, hrest⟩
  · rintro ⟨hlaid, hcode, he, hsym, haddr⟩
    obtain ⟨s', hrun⟩ := Session.exists_run_of_laid (s := s.start .code) rfl h.ready hlaid
    obtain ⟨-, he', hsym', haddr'⟩ :=
      Session.run_laid (s := s.start .code) rfl h.ready hrun
    obtain ⟨horigin, hexec⟩ := Prod.mk.inj (haddr'.trans haddr.symm)
    rw [hrun]
    dsimp only
    rw [Program.foldr_cons, List.append_nil, List.append_nil, horigin, hexec, he', hsym', ← hcode]
    change Except.ok (Program.mk _ _ _ _ s.symbols s.equates) = .ok p
    rw [← he, ← hsym]

end Scanned

/-- A source is assembled exactly if the scans end and a program is laid out under the tables that
they leave. -/
theorem assemble_eq_ok_iff {a : Assembler} {source : Bytes} {p : Program} :
    a.assemble source = .ok p ↔ ∃ s, a.scanned (numberedLines source) = .ok s ∧
      Laid s.equates s.symbols 0 (numberedLines source) p.lines ∧
      p.code = p.lines.flatMap (·.code) ∧ p.equates = s.equates ∧ p.labels = s.symbols ∧
      (p.origin, p.exec) = addresses s.equates s.symbols (lines source) := by
  rw [Assembler.assemble_eq, bind_eq_ok_iff]
  apply exists_congr
  intro s
  apply and_congr_right
  intro hs
  obtain ⟨n, hscanned⟩ := exists_scanned_of_scanned hs
  rw [hscanned.generate_eq_ok_iff, map_fst_numberedLines]

theorem code_of_assemble {a : Assembler} {source : Bytes} {p : Program}
    (h : a.assemble source = .ok p) : p.code = p.lines.flatMap (·.code) := by
  obtain ⟨s, -, -, hcode, -⟩ := assemble_eq_ok_iff.1 h
  exact hcode

end Forge6809.Assembly
