import Forge6809.Proofs.Assembly.Scan

/-! # Scanning until the tables settle

The label scans of an assembly form a sequence: the first one collects the names, and each further
one starts from the tables that the last one left. The equates after a number of scans are those
of as many sweeps over the equations. Without a circle of equates the scanning always ends because
a scan changed nothing, and then the table of equates is a solution of the equations. -/

namespace Forge6809.Assembly

open Text

def IsLabel (texts : List Bytes) (a : Bytes) : Prop :=
  ∃ text ∈ texts, label? text = some a ∧ equation? text = none

theorem IsLabel.mem_labels {texts : List Bytes} {a : Bytes} (h : IsLabel texts a) :
    a ∈ labels texts := by
  obtain ⟨text, ht, hl, -⟩ := h
  exact List.mem_filterMap.2 ⟨text, ht, hl⟩

/-- The session after a number of label scans. -/
inductive Scanned (a : Assembler) (src : List (Bytes × Nat)) : Nat → Session → Prop
  | collect {s : Session} {ls : List Line} :
      (a.session.start .collect).run src = .ok (s, ls) → Scanned a src 1 s
  | settle {n : Nat} {s s' : Session} {ls : List Line} :
      Scanned a src n s → (s.start .settle).run src = .ok (s', ls) → Scanned a src (n + 1) s'

section Scanned

variable {a : Assembler} {src : List (Bytes × Nat)} {n : Nat} {s : Session}

theorem Scanned.nodup (h : Scanned a src n s) : (labels (src.map Prod.fst)).Nodup := by
  induction h with
  | collect h => exact (Session.run_collect rfl h).1
  | settle _ _ ih => exact ih

theorem Scanned.nodup_equations (h : Scanned a src n s) :
    (definedNames (equations (src.map Prod.fst))).Nodup :=
  h.nodup.sublist (definedNames_equations_sublist _)

/-- No label of the source was predefined. -/
theorem Scanned.predefined (h : Scanned a src n s) {b : Bytes}
    (hb : b ∈ labels (src.map Prod.fst)) : a.predefined.get? b = none := by
  induction h with
  | collect h =>
    have hget := (Session.run_collect rfl h).2.1 b hb
    simpa [Session.start, Assembler.session] using hget
  | settle _ _ ih => exact ih

theorem Scanned.equates (h : Scanned a src n s) :
    s.equates = sweeps (equations (src.map Prod.fst)) n a.predefined := by
  induction h with
  | collect h => exact (Session.run_scan rfl h).2.1
  | settle _ hrun ih =>
    rw [(Session.run_scan rfl hrun).2.1, sweeps_succ, ← ih]
    rfl

theorem run_scan_keys {s s' : Session} {ls : List Line} (hs : s.strict = false)
    (h : s.run src = .ok (s', ls)) (hn : (labels (src.map Prod.fst)).Nodup)
    (hkeys : ∀ b, (s.symbols.get? b).isSome → b ∈ labels (src.map Prod.fst)) (b : Bytes) :
    (s'.symbols.get? b).isSome ↔ IsLabel (src.map Prod.fst) b := by
  by_cases hb : b ∈ labels (src.map Prod.fst)
  · obtain ⟨text, ht, hl⟩ := List.mem_filterMap.1 hb
    constructor
    · intro hsome
      exact ⟨text, ht, hl, (Session.run_scan_symbols hs h hn ht hl).1 hsome⟩
    · rintro ⟨text', ht', hl', hq⟩
      exact (Session.run_scan_symbols hs h hn ht' hl').2 hq
  · rw [(Session.run_scan hs h).2.2 b hb]
    exact ⟨fun hsome => absurd (hkeys b hsome) hb, fun hlab => absurd hlab.mem_labels hb⟩

/-- The symbols are exactly the labels of lines that are no equates. -/
theorem Scanned.symbols (h : Scanned a src n s) (b : Bytes) :
    (s.symbols.get? b).isSome ↔ IsLabel (src.map Prod.fst) b := by
  induction h generalizing b with
  | collect h =>
    apply run_scan_keys rfl h (Session.run_collect rfl h).1
    simp [Session.start, Assembler.session]
  | settle h hrun ih =>
    apply run_scan_keys rfl hrun h.nodup
    exact fun c hc => ((ih c).1 hc).mem_labels

/-- Every scan has met values under which every line can be encoded. -/
theorem Scanned.code (h : Scanned a src n s) {k : Nat} (hk : k < n) {pre post : List Bytes}
    {text : Bytes} (ht : src.map Prod.fst = pre ++ text :: post) :
    ∃ form code, Form.read? text = some form ∧ form.action.code?
      (sweep (sweeps (equations (src.map Prod.fst)) k a.predefined) (equations pre)) false =
        some code := by
  induction h with
  | collect h =>
    obtain rfl : k = 0 := by omega
    exact Session.run_scan_code rfl h ht
  | settle h hrun ih =>
    rename_i n s s' ls
    rcases Nat.lt_or_ge k n with hlt | hge
    · exact ih hlt
    · obtain rfl : k = n := by omega
      rw [← h.equates]
      exact Session.run_scan_code rfl hrun ht

theorem Scanned.pos (h : Scanned a src n s) : 0 < n := by
  cases h <;> omega

/-- The session in which the last scan began. -/
theorem Scanned.exists_start (h : Scanned a src (n + 1) s) :
    ∃ (s₀ : Session) (ls : List Line), s₀.run src = .ok (s, ls) ∧ s₀.strict = false ∧
    s₀.offset = 0 ∧ s₀.equates = sweeps (equations (src.map Prod.fst)) n a.predefined ∧
    ∀ b, b ∉ labels (src.map Prod.fst) → s₀.symbols.get? b = none := by
  cases h with
  | collect h => exact ⟨_, _, h, rfl, rfl, rfl, fun b _ => Table.get?_empty b⟩
  | settle h hrun =>
    refine ⟨_, _, hrun, rfl, rfl, h.equates, fun b hb => ?_⟩
    rw [← Option.not_isSome_iff_eq_none]
    exact fun hsome => hb ((h.symbols b).1 hsome).mem_labels

/-- The label of a line is a symbol unless the line is an equate. -/
theorem Scanned.isSome_symbols_iff (h : Scanned a src n s) {text b : Bytes}
    (ht : text ∈ src.map Prod.fst) (hb : label? text = some b) :
    (s.symbols.get? b).isSome ↔ equation? text = none := by
  obtain ⟨m, rfl⟩ : ∃ m, n = m + 1 := Nat.exists_eq_add_one.2 h.pos
  obtain ⟨s₀, ls, hrun, hs₀, -⟩ := h.exists_start
  exact Session.run_scan_symbols hs₀ hrun h.nodup ht hb

/-- Two scans that start from the same equates leave the same symbols. -/
theorem Scanned.symbols_eq {m : Nat} {s' : Session} (h : Scanned a src (n + 1) s)
    (h' : Scanned a src (m + 1) s')
    (he : sweeps (equations (src.map Prod.fst)) n a.predefined =
      sweeps (equations (src.map Prod.fst)) m a.predefined) : s.symbols = s'.symbols := by
  obtain ⟨s₁, ls₁, hrun₁, hs₁, ho₁, he₁, hsym₁⟩ := h.exists_start
  obtain ⟨s₂, ls₂, hrun₂, hs₂, ho₂, he₂, hsym₂⟩ := h'.exists_start
  refine Session.run_scan_congr hs₁ hs₂ ?_ (ho₁.trans ho₂.symm) ?_ hrun₁ hrun₂
  · rw [he₁, he₂, he]
  · intro b hb
    rw [hsym₁ b hb, hsym₂ b hb]

end Scanned

/-- The scanning ended with a session in which a further scan left both tables as they were. -/
def Settled (a : Assembler) (src : List (Bytes × Nat)) (s' : Session) : Prop :=
  ∃ n s ls, Scanned a src n s ∧ (s.start .settle).run src = .ok (s', ls) ∧
    s.symbols = s'.symbols ∧ s.equates = s'.equates

def Assembler.scanned (a : Assembler) (src : List (Bytes × Nat)) : Except SyntaxError Session :=
  match (a.session.start .collect).run src with
  | .error e => .error e
  | .ok (s, _) => (s.settle src (s.defined.size + 1)).2

theorem Assembler.assemble_eq (a : Assembler) (source : Bytes) :
    a.assemble source =
      a.scanned (numberedLines source) >>= fun s => s.generate (numberedLines source) := by
  simp only [assemble, assembly, scanned]
  cases (a.session.start .collect).run (numberedLines source) with
  | error e => rfl
  | ok r =>
    dsimp only
    cases r.1.settle (numberedLines source) (r.1.defined.size + 1) with
    | mk scans result => cases result <;> rfl

section Settle

variable {a : Assembler} {src : List (Bytes × Nat)}

/-- The loop ends because a scan changed nothing or because its bound is reached. -/
theorem settle_ok {bound n : Nat} {s s' : Session} {passes : List Pass} (hs : Scanned a src n s)
    (h : s.settle src bound = (passes, .ok s')) :
    Settled a src s' ∨ Scanned a src (n + bound) s' := by
  induction bound generalizing n s passes with
  | zero => cases h; exact Or.inr hs
  | succ bound ih =>
    rw [Session.settle] at h
    cases hrun : (s.start .settle).run src with
    | error e => rw [hrun] at h; cases h
    | ok r =>
      obtain ⟨s₁, ls⟩ := r
      rw [hrun] at h
      dsimp only at h
      split at h
      · next heq =>
        cases h
        exact Or.inl ⟨n, s, ls, hs, hrun, heq.1, heq.2⟩
      · cases hset : s₁.settle src bound with
        | mk passes₁ result =>
          rw [hset] at h
          cases h
          have hih := ih (hs.settle hrun) hset
          rwa [Nat.add_assoc, Nat.add_comm 1] at hih

theorem settle_error {bound : Nat} {s : Session} {passes : List Pass} {e : SyntaxError}
    (h : s.settle src bound = (passes, .error e)) :
    ∃ s₁ : Session, s₁.strict = false ∧ s₁.run src = .error e := by
  induction bound generalizing s passes with
  | zero => cases h
  | succ bound ih =>
    rw [Session.settle] at h
    cases hrun : (s.start .settle).run src with
    | error e' => rw [hrun] at h; cases h; exact ⟨_, rfl, hrun⟩
    | ok r =>
      rw [hrun] at h
      dsimp only at h
      split at h
      · cases h
      · cases hset : r.1.settle src bound with
        | mk passes₁ result =>
          rw [hset] at h
          cases h
          exact ih hset

theorem scanned_error {e : SyntaxError} (h : a.scanned src = .error e) :
    ∃ s₁ : Session, s₁.strict = false ∧ s₁.run src = .error e := by
  rw [Assembler.scanned] at h
  cases hrun : (a.session.start .collect).run src with
  | error e' => rw [hrun] at h; cases h; exact ⟨_, rfl, hrun⟩
  | ok r =>
    rw [hrun] at h
    have heq : r.1.settle src (r.1.defined.size + 1) = (_, .error e) := Prod.ext rfl h
    exact settle_error heq

/-- The scanning settles, or it makes two more scans than there are names. -/
theorem scanned_ok {s' : Session} (h : a.scanned src = .ok s') : Settled a src s' ∨
    Scanned a src (a.predefined.size + (labels (src.map Prod.fst)).length + 2) s' := by
  rw [Assembler.scanned] at h
  cases hrun : (a.session.start .collect).run src with
  | error e' => rw [hrun] at h; cases h
  | ok r =>
    obtain ⟨s, ls⟩ := r
    rw [hrun] at h
    have hsize := (Session.run_collect rfl hrun).2.2
    have hstart : (a.session.start .collect).defined.size = a.predefined.size := by
      simp [Session.start, Assembler.session, Table.map, Table.size]
    rw [hstart] at hsize
    have heq : s.settle src (s.defined.size + 1) = (_, .ok s') := Prod.ext rfl h
    have hend := settle_ok (Scanned.collect hrun) heq
    rw [hsize] at hend
    rwa [Nat.add_comm 1] at hend

theorem exists_scanned_of_scanned {s' : Session} (h : a.scanned src = .ok s') :
    ∃ n, Scanned a src n s' := by
  rcases scanned_ok h with ⟨n, s, ls, hs, hrun, -⟩ | h
  · exact ⟨n + 1, hs.settle hrun⟩
  · exact ⟨_, h⟩

theorem Settled.solves {s' : Session} (h : Settled a src s') :
    Solves s'.equates (equations (src.map Prod.fst)) := by
  obtain ⟨n, s, ls, hs, hrun, -, he⟩ := h
  apply solves_of_sweep_eq hs.nodup_equations
  have hsweep := (Session.run_scan rfl hrun).2.1
  change s'.equates = sweep s.equates _ at hsweep
  rw [← he, ← hsweep, he]

/-- Without a circle of equates the scanning ends because the tables settled. -/
theorem settled_of_acyclic {s' : Session} (hc : Acyclic (equations (src.map Prod.fst)))
    (h : a.scanned src = .ok s') : Settled a src s' := by
  rcases scanned_ok h with hset | hmany
  · exact hset
  · cases hmany with
    | settle hs hrun =>
      rename_i s ls
      -- The equates had settled a scan earlier, so this scan met the same values as the last one.
      have hlength := (definedNames_equations_sublist (src.map Prod.fst)).length_le
      rw [definedNames, List.length_map] at hlength
      have hsolves := solves_sweeps (t := a.predefined) hs.nodup_equations hc
        (hlength.trans (Nat.le_add_left _ a.predefined.size))
      refine ⟨_, s, ls, hs, hrun, ?_, ?_⟩
      · apply hs.symbols_eq (hs.settle hrun)
        exact (hsolves.sweeps_eq (by omega)).symm
      · rw [hs.equates, (hs.settle hrun).equates]
        exact (hsolves.sweeps_eq (by omega)).trans (hsolves.sweeps_eq (by omega)).symm

/-- The scanning goes through if every line can be encoded under the values that each scan
meets. -/
theorem exists_scanned (hn : (labels (src.map Prod.fst)).Nodup)
    (hnew : ∀ b ∈ labels (src.map Prod.fst), a.predefined.get? b = none)
    (hcode : ∀ k pre text post, src.map Prod.fst = pre ++ text :: post → ∃ form code,
      Form.read? text = some form ∧ form.action.code?
        (sweep (sweeps (equations (src.map Prod.fst)) k a.predefined) (equations pre)) false =
          some code) : ∃ s, a.scanned src = .ok s := by
  have hsettle (bound : Nat) {n : Nat} {s : Session} (hs : Scanned a src n s) :
      ∃ passes s', s.settle src bound = (passes, .ok s') := by
    induction bound generalizing n s with
    | zero => exact ⟨[], s, rfl⟩
    | succ bound ih =>
      obtain ⟨s₁, ls, hrun⟩ := Session.exists_run (s := s.start .settle) rfl
        (fun pre text post ht => hs.equates ▸ hcode n pre text post ht) (fun hp => by cases hp)
      rw [Session.settle, hrun]
      dsimp only
      split
      · exact ⟨_, _, rfl⟩
      · obtain ⟨passes, s', h⟩ := ih (hs.settle hrun)
        rw [h]
        exact ⟨_, _, rfl⟩
  have hfresh : ∀ b ∈ labels (src.map Prod.fst),
      (a.session.start .collect).defined.get? b = none := by
    intro b hb
    simp [Session.start, Assembler.session, hnew b hb]
  obtain ⟨s, ls, hrun⟩ := Session.exists_run (s := a.session.start .collect) rfl
    (fun pre text post ht => hcode 0 pre text post ht) (fun _ => ⟨hn, hfresh⟩)
  obtain ⟨passes, s', h⟩ := hsettle (s.defined.size + 1) (.collect hrun)
  rw [Assembler.scanned, hrun]
  dsimp only
  rw [h]
  exact ⟨s', rfl⟩

end Settle

end Forge6809.Assembly
