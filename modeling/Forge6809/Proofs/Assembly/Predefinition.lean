import Forge6809.Proofs.Assembly.Circle
import Forge6809.Proofs.Assembly.EquateLine
import Forge6809.Proofs.Assembly.Names
import Forge6809.Proofs.Assembly.Order

/-! # Known equates and written equates

Equates that are known before the first line are equates that are written in front of it. The first
scan reaches the source with the same table in both cases. From then on the lines in front find
their values in every table and change nothing, so each scan over one source corresponds to a scan
over the other, up to the last. The number of scans that may be made is the same too, for it counts
the names. -/

namespace Forge6809.Assembly

open Text

def constants (defs : List (Bytes × UInt16)) : List Equation :=
  defs.map fun d => (upper d.1, decimal d.2.toNat)

theorem constants_cons (d : Bytes × UInt16) (defs : List (Bytes × UInt16)) :
    constants (d :: defs) = (upper d.1, decimal d.2.toNat) :: constants defs := rfl

theorem evaluate_constant (value : UInt16) (equates : Table UInt16) (strict : Bool) :
    Expr.evaluate (decimal value.toNat) equates strict = .ok value := by
  have hlt := value.toNat_lt
  rw [Expr.evaluate_decimal (by omega), UInt16.ofNat_toNat]

theorem provisional_constant (equates : Table UInt16) (value : UInt16) :
    provisional equates (decimal value.toNat) = value :=
  provisional_of_evaluate (evaluate_constant value equates false)

theorem definedNames_constants (defs : List (Bytes × UInt16)) :
    definedNames (constants defs) = defs.map fun d => upper d.1 := by
  simp [definedNames, constants]

theorem solves_constants {t : Table UInt16} {defs : List (Bytes × UInt16)} :
    Solves t (constants defs) ↔ ∀ d ∈ defs, t.get? (upper d.1) = some d.2 := by
  simp only [Solves, constants, List.forall_mem_map, provisional_constant]

/-- Making equates known assigns them. -/
theorem predefined_foldl (defs : List (Bytes × UInt16)) (a : Assembler) :
    (defs.foldl (fun a d => a.predefine d.1 d.2) a).predefined =
      sweep a.predefined (constants defs) := by
  induction defs generalizing a with
  | nil => rfl
  | cons d defs ih =>
    rw [List.foldl_cons, ih, constants_cons, sweep_cons, assign, provisional_constant]
    rfl

theorem predefined_knowing (defs : List (Bytes × UInt16)) :
    (Assembler.knowing defs).predefined = sweep ∅ (constants defs) :=
  predefined_foldl defs {}

theorem size_sweep {t : Table UInt16} {qs : List Equation} (hn : (definedNames qs).Nodup)
    (h : ∀ name ∈ definedNames qs, t.get? name = none) :
    (sweep t qs).size = t.size + qs.length := by
  induction qs generalizing t with
  | nil => rfl
  | cons q qs ih =>
    rw [definedNames, List.map_cons, ← definedNames] at hn h
    rw [List.forall_mem_cons] at h
    rw [List.nodup_cons] at hn
    have hrest : ∀ name ∈ definedNames qs, (assign t q).get? name = none := by
      intro name hname
      have hne : name ≠ q.1 := by
        rintro rfl
        exact hn.1 hname
      rw [get?_assign, if_neg hne, h.2 name hname]
    rw [sweep_cons, ih hn.2 hrest, assign, Table.size_insert h.1, List.length_cons]
    omega

section Known

variable {defs : List (Bytes × UInt16)}

theorem solves_knowing (hdistinct : (defs.map fun d => upper d.1).Nodup) :
    Solves (Assembler.knowing defs).predefined (constants defs) := by
  rw [predefined_knowing]
  intro q hq
  obtain ⟨pre, post, hsplit⟩ := List.append_of_mem hq
  obtain ⟨d, -, rfl⟩ := List.mem_map.1 hq
  have hn : (definedNames (constants defs)).Nodup := by rwa [definedNames_constants]
  rw [hsplit] at hn ⊢
  rw [get?_sweep hn, provisional_constant, provisional_constant]

theorem size_knowing (hdistinct : (defs.map fun d => upper d.1).Nodup) :
    (Assembler.knowing defs).predefined.size = defs.length := by
  rw [predefined_knowing, size_sweep]
  · simp [constants, Table.size, EmptyCollection.emptyCollection, Table.empty]
  · rwa [definedNames_constants]
  · simp

variable {qs : List Equation}

/-- Every scan over the source finds the known equates at their values. -/
theorem solves_sweeps_knowing (hdistinct : (defs.map fun d => upper d.1).Nodup)
    (hfresh : ∀ d ∈ defs, upper d.1 ∉ definedNames qs) (n : Nat) :
    Solves (sweeps qs n (Assembler.knowing defs).predefined) (constants defs) := by
  rw [solves_constants]
  intro d hd
  rw [get?_sweeps_of_notMem (hfresh d hd)]
  exact solves_constants.1 (solves_knowing hdistinct) d hd

/-- Behind the lines in front a scan has the table of a scan that knew them before. -/
theorem sweep_sweeps_constants (hdistinct : (defs.map fun d => upper d.1).Nodup)
    (hfresh : ∀ d ∈ defs, upper d.1 ∉ definedNames qs) (n : Nat) :
    sweep (sweeps (constants defs ++ qs) n ∅) (constants defs) =
      sweeps qs n (Assembler.knowing defs).predefined := by
  induction n with
  | zero => exact (predefined_knowing defs).symm
  | succ n ih =>
    rw [sweeps_succ, sweep_append, ih, ← sweeps_succ]
    exact (solves_sweeps_knowing hdistinct hfresh (n + 1)).sweep_eq

theorem sweeps_constants (hdistinct : (defs.map fun d => upper d.1).Nodup)
    (hfresh : ∀ d ∈ defs, upper d.1 ∉ definedNames qs) (n : Nat) :
    sweeps (constants defs ++ qs) (n + 1) ∅ =
      sweeps qs (n + 1) (Assembler.knowing defs).predefined := by
  rw [sweeps_succ, sweep_append, sweep_sweeps_constants hdistinct hfresh, sweeps_succ]

end Known

def equateLines (defs : List (Bytes × UInt16)) : List Bytes :=
  defs.map fun d => equateLine d.1 d.2

theorem equateLines_cons (d : Bytes × UInt16) (defs : List (Bytes × UInt16)) :
    equateLines (d :: defs) = equateLine d.1 d.2 :: equateLines defs := rfl

section Lines

variable {defs : List (Bytes × UInt16)} {texts : List Bytes}

theorem exists_of_mem_equateLines (hnames : ∀ d ∈ defs, isName d.1 = true) {text : Bytes}
    (h : text ∈ equateLines defs) : ∃ d ∈ defs,
      Form.read? text = some ⟨some (upper d.1), .equate (decimal d.2.toNat)⟩ := by
  obtain ⟨d, hd, rfl⟩ := List.mem_map.1 h
  exact ⟨d, hd, read?_equateLine (hnames d hd) d.2⟩

theorem equation?_of_mem_equateLines (hnames : ∀ d ∈ defs, isName d.1 = true) {text : Bytes}
    (h : text ∈ equateLines defs) : equation? text ≠ none := by
  obtain ⟨d, -, hr⟩ := exists_of_mem_equateLines hnames h
  rw [equation?_eq_some_iff.2 hr]
  exact Option.some_ne_none _

theorem equations_equateLines (hnames : ∀ d ∈ defs, isName d.1 = true) :
    equations (equateLines defs ++ texts) = constants defs ++ equations texts := by
  induction defs with
  | nil => rfl
  | cons d defs ih =>
    rw [List.forall_mem_cons] at hnames
    rw [equateLines_cons, List.cons_append, equations_cons, equation?_equateLine hnames.1,
      ih hnames.2, constants_cons]
    rfl

theorem labels_equateLines (hnames : ∀ d ∈ defs, isName d.1 = true) :
    labels (equateLines defs ++ texts) = (defs.map fun d => upper d.1) ++ labels texts := by
  induction defs with
  | nil => rfl
  | cons d defs ih =>
    rw [List.forall_mem_cons] at hnames
    rw [equateLines_cons, List.cons_append, labels_cons,
      label?_of_equation? (equation?_equateLine hnames.1 d.2), ih hnames.2, List.map_cons]
    rfl

/-- A line that is no equate stands behind the lines in front. -/
theorem exists_split_behind {known pre post : List Bytes} {text : Bytes}
    (h : known ++ texts = pre ++ text :: post) (ht : text ∉ known) :
    ∃ mid, pre = known ++ mid ∧ texts = mid ++ text :: post := by
  rcases List.append_eq_append_iff.1 h with ⟨mid, hpre, hmid⟩ | ⟨mid, hknown, hmid⟩
  · exact ⟨mid, hpre, hmid⟩
  · cases mid with
    | nil =>
      rw [List.append_nil] at hknown
      exact ⟨[], by rw [hknown, List.append_nil], hmid.symm⟩
    | cons head mid =>
      rw [List.cons_append, List.cons.injEq] at hmid
      exact absurd (by rw [hknown, hmid.1]; simp) ht

theorem isLabel_equateLines (hnames : ∀ d ∈ defs, isName d.1 = true) {name : Bytes} :
    IsLabel (equateLines defs ++ texts) name ↔ IsLabel texts name := by
  constructor
  · rintro ⟨text, ht, hl, hq⟩
    rcases List.mem_append.1 ht with ht | ht
    · exact absurd hq (equation?_of_mem_equateLines hnames ht)
    · exact ⟨text, ht, hl, hq⟩
  · rintro ⟨text, ht, hl, hq⟩
    exact ⟨text, List.mem_append_right _ ht, hl, hq⟩

/-- The labels are distinct and new exactly if those of both parts taken together are distinct. -/
theorem nodup_labels_equateLines (hnames : ∀ d ∈ defs, isName d.1 = true)
    (hdistinct : (defs.map fun d => upper d.1).Nodup) :
    (labels (equateLines defs ++ texts)).Nodup ↔ (labels texts).Nodup ∧
      ∀ a ∈ labels texts, (Assembler.knowing defs).predefined.get? a = none := by
  have hnone (a : Bytes) : (Assembler.knowing defs).predefined.get? a = none ↔
      a ∉ defs.map fun d => upper d.1 := by
    rw [← Option.not_isSome_iff_eq_none, ← Table.contains, Assembler.contains_knowing,
      List.mem_map]
  simp only [hnone]
  rw [labels_equateLines hnames, List.nodup_append', and_iff_right hdistinct]
  apply and_congr_right
  intro _
  rw [List.disjoint_comm]
  rfl

def Fresh (defs : List (Bytes × UInt16)) (texts : List Bytes) : Prop :=
  ∀ d ∈ defs, upper d.1 ∉ definedNames (equations texts)

theorem Valid.known_fresh (hdistinct : (defs.map fun d => upper d.1).Nodup) {t : Table UInt16}
    (h : Valid (Assembler.knowing defs).predefined texts t) : Fresh defs texts := by
  intro d hd hmem
  have hnone := h.fresh _ ((definedNames_equations_sublist texts).subset hmem)
  rw [solves_constants.1 (solves_knowing hdistinct) d hd] at hnone
  cases hnone

/-- A source is valid with known equates exactly if it is valid behind their lines. -/
theorem valid_equateLines (hnames : ∀ d ∈ defs, isName d.1 = true)
    (hdistinct : (defs.map fun d => upper d.1).Nodup) {t : Table UInt16} :
    Valid ∅ (equateLines defs ++ texts) t ↔
      Valid (Assembler.knowing defs).predefined texts t := by
  have hknown := solves_constants.1 (solves_knowing hdistinct)
  have hother {a : Bytes} (ha : a ∉ definedNames (constants defs)) :
      (Assembler.knowing defs).predefined.get? a = none := by
    rw [predefined_knowing, get?_sweep_of_notMem ha, Table.get?_empty]
  have hdefined (a : Bytes) : a ∉ definedNames (constants defs ++ equations texts) ↔
      a ∉ definedNames (constants defs) ∧ a ∉ definedNames (equations texts) := by
    simp [definedNames]
  constructor
  · intro h
    obtain ⟨hn, hfresh⟩ := (nodup_labels_equateLines hnames hdistinct).1 h.nodup
    have hsolves := h.solves
    rw [equations_equateLines hnames, Solves, List.forall_mem_append] at hsolves
    constructor
    case encodes => exact fun text ht => h.encodes text (List.mem_append_right _ ht)
    case entry =>
      intro text form name ht hr hentry
      exact (isLabel_equateLines hnames).1
        (h.entry text form name (List.mem_append_right _ ht) hr hentry)
    case nodup => exact hn
    case fresh => exact hfresh
    case solves => exact hsolves.2
    case other =>
      intro a ha
      by_cases hmem : a ∈ definedNames (constants defs)
      · rw [definedNames_constants, List.mem_map] at hmem
        obtain ⟨d, hd, rfl⟩ := hmem
        rw [hknown d hd, solves_constants.1 hsolves.1 d hd]
      · rw [hother hmem]
        apply h.other a
        rw [equations_equateLines hnames, hdefined]
        exact ⟨hmem, ha⟩
  · intro h
    have hsolves : Solves t (constants defs) := by
      rw [solves_constants]
      intro d hd
      rw [h.other _ (h.known_fresh hdistinct d hd), hknown d hd]
    constructor
    case encodes =>
      intro text ht
      rcases List.mem_append.1 ht with ht | ht
      · obtain ⟨d, -, hr⟩ := exists_of_mem_equateLines hnames ht
        refine ⟨_, [], hr, ?_⟩
        simp only [Action.code?, evaluate_constant]
      · exact h.encodes text ht
    case entry =>
      intro text form name ht hr hentry
      rcases List.mem_append.1 ht with ht | ht
      · obtain ⟨d, -, hr'⟩ := exists_of_mem_equateLines hnames ht
        cases hr.symm.trans hr'
        cases hentry
      · exact (isLabel_equateLines hnames).2 (h.entry text form name ht hr hentry)
    case nodup => exact (nodup_labels_equateLines hnames hdistinct).2 ⟨h.nodup, h.fresh⟩
    case fresh => exact fun a _ => Table.get?_empty a
    case solves =>
      rw [equations_equateLines hnames, Solves, List.forall_mem_append]
      exact ⟨hsolves, h.solves⟩
    case other =>
      intro a ha
      rw [equations_equateLines hnames, hdefined] at ha
      rw [h.other a ha.2, hother ha.1, Table.get?_empty]

theorem scanLimit_equateLines (hnames : ∀ d ∈ defs, isName d.1 = true)
    (hdistinct : (defs.map fun d => upper d.1).Nodup) :
    scanLimit ∅ (equateLines defs ++ texts) =
      scanLimit (Assembler.knowing defs).predefined texts := by
  have hempty : (∅ : Table UInt16).size = 0 := rfl
  rw [scanLimit, scanLimit, labels_equateLines hnames, size_knowing hdistinct, hempty,
    List.length_append, List.length_map, Nat.zero_add]

/-- From the first scan on the tables are the same. -/
theorem equatesAfter_equateLines (hnames : ∀ d ∈ defs, isName d.1 = true)
    (hdistinct : (defs.map fun d => upper d.1).Nodup) (hfresh : Fresh defs texts) (n : Nat) :
    equatesAfter ∅ (equateLines defs ++ texts) (n + 1) =
      equatesAfter (Assembler.knowing defs).predefined texts (n + 1) := by
  rw [equatesAfter, equatesAfter, equations_equateLines hnames, sweeps_constants hdistinct hfresh]

/-- The lines in front take no room. -/
theorem scanOffset_equateLines (hnames : ∀ d ∈ defs, isName d.1 = true) {t : Table UInt16}
    (ht : Solves t (constants defs)) :
    scanOffset t (equateLines defs ++ texts) = scanOffset t texts := by
  induction defs with
  | nil => rfl
  | cons d defs ih =>
    rw [List.forall_mem_cons] at hnames
    rw [constants_cons, Solves, List.forall_mem_cons, ← Solves] at ht
    have hcode : scanCode t (equateLine d.1 d.2) = [] := by
      apply scanCode_eq (read?_equateLine hnames.1 d.2)
      simp only [Action.code?, evaluate_constant]
    have hsame : sweep t (equation? (equateLine d.1 d.2)).toList = t := by
      rw [equation?_equateLine hnames.1]
      exact Table.insert_eq_self ht.1
    rw [equateLines_cons, List.cons_append, scanOffset, hcode, hsame, ih hnames.2 ht.2]
    exact UInt16.zero_add _

theorem steady_equateLines (hnames : ∀ d ∈ defs, isName d.1 = true)
    (hdistinct : (defs.map fun d => upper d.1).Nodup) (hfresh : Fresh defs texts) :
    Steady ∅ (equateLines defs ++ texts) ↔ Steady (Assembler.knowing defs).predefined texts := by
  obtain ⟨n, hn⟩ : ∃ n, scanLimit (Assembler.knowing defs).predefined texts = n + 1 + 1 :=
    ⟨_, rfl⟩
  have hsolves (k : Nat) : Solves (equatesAfter (Assembler.knowing defs).predefined texts k)
      (constants defs) := solves_sweeps_knowing hdistinct hfresh k
  rw [Steady, Steady, scanLimit_equateLines hnames hdistinct, hn, Nat.add_sub_cancel,
    equatesAfter_equateLines hnames hdistinct hfresh,
    equatesAfter_equateLines hnames hdistinct hfresh]
  constructor
  · intro h pre text post hsplit hl hq
    have hsame := h (equateLines defs ++ pre) text post (by rw [hsplit, List.append_assoc]) hl hq
    rwa [scanOffset_equateLines hnames (hsolves _), scanOffset_equateLines hnames (hsolves _)]
      at hsame
  · intro h pre text post hsplit hl hq
    obtain ⟨mid, rfl, hmid⟩ := exists_split_behind hsplit
      fun hmem => equation?_of_mem_equateLines hnames hmem hq
    rw [scanOffset_equateLines hnames (hsolves _), scanOffset_equateLines hnames (hsolves _)]
    exact h mid text post hmid hl hq

theorem premature_equateLines (hnames : ∀ d ∈ defs, isName d.1 = true)
    (hdistinct : (defs.map fun d => upper d.1).Nodup) (hfresh : Fresh defs texts) :
    Premature ∅ (equateLines defs ++ texts) ↔
      Premature (Assembler.knowing defs).predefined texts := by
  -- What a scan has behind the lines in front and some lines of the source.
  have hreached (k : Nat) (mid : List Bytes) :
      sweep (sweeps (equations (equateLines defs ++ texts)) k ∅)
        (equations (equateLines defs ++ mid)) =
      sweep (sweeps (equations texts) k (Assembler.knowing defs).predefined) (equations mid) := by
    rw [equations_equateLines hnames, equations_equateLines hnames, sweep_append,
      sweep_sweeps_constants hdistinct hfresh]
  constructor
  · rintro ⟨k, pre, text, post, form, hsplit, hr, hp⟩
    have hbehind : text ∉ equateLines defs := by
      intro hmem
      obtain ⟨d, -, hr'⟩ := exists_of_mem_equateLines hnames hmem
      cases hr.symm.trans hr'
      obtain ⟨_, _, _, _, _, _, haction, -⟩ := hp
      cases haction
    obtain ⟨mid, rfl, hmid⟩ := exists_split_behind hsplit hbehind
    rw [hreached] at hp
    exact ⟨k, mid, text, post, form, hmid, hr, hp⟩
  · rintro ⟨k, mid, text, post, form, hsplit, hr, hp⟩
    rw [← hreached] at hp
    exact ⟨k, equateLines defs ++ mid, text, post, form, by rw [hsplit, List.append_assoc], hr, hp⟩

end Lines

theorem exists_assemble_withEquates {defs : List (Bytes × UInt16)}
    (hnames : ∀ d ∈ defs, isName d.1 = true) (hdistinct : (defs.map fun d => upper d.1).Nodup)
    (source : Bytes) : (∃ p, (Assembler.mk ∅).assemble (withEquates defs source) = .ok p) ↔
      ∃ p, (Assembler.knowing defs).assemble source = .ok p := by
  rw [exists_assemble_iff_valid, exists_assemble_iff_valid, lines_withEquates hnames,
    ← equateLines]
  by_cases hfresh : Fresh defs (lines source)
  · obtain ⟨n, hn⟩ : ∃ n, scanLimit (Assembler.knowing defs).predefined (lines source) = n + 1 :=
      ⟨_, rfl⟩
    rw [scanLimit_equateLines hnames hdistinct, hn,
      equatesAfter_equateLines hnames hdistinct hfresh, valid_equateLines hnames hdistinct,
      steady_equateLines hnames hdistinct hfresh, premature_equateLines hnames hdistinct hfresh]
  · constructor
    · rintro ⟨hv, -⟩
      exact absurd (((valid_equateLines hnames hdistinct).1 hv).known_fresh hdistinct) hfresh
    · rintro ⟨hv, -⟩
      exact absurd (hv.known_fresh hdistinct) hfresh

/-- Lines with the code that they have under a table of equates, from an offset on. -/
def layout (equates : Table UInt16) : UInt16 → List (Bytes × Nat) → List Line
  | _, [] => []
  | offset, (text, n) :: rest =>
    ⟨n, offset, text, lineCode equates text⟩ ::
      layout equates (offset + UInt16.ofNat (lineCode equates text).length) rest

theorem Laid.eq_layout {equates symbols : Table UInt16} {offset : UInt16}
    {src : List (Bytes × Nat)} {ls : List Line} (h : Laid equates symbols offset src ls) :
    ls = layout equates offset src := by
  induction h with
  | nil => rfl
  | cons hr ha _ ih => rw [layout, lineCode_eq hr ha.encodes, ← ih]

def Line.later (k : Nat) (l : Line) : Line :=
  { l with lineNo := l.lineNo + k }

theorem layout_later (equates : Table UInt16) (texts : List Bytes) (offset : UInt16) (n k : Nat) :
    layout equates offset (texts.zipIdx (n + k)) =
      (layout equates offset (texts.zipIdx n)).map (Line.later k) := by
  induction texts generalizing offset n with
  | nil => rfl
  | cons text texts ih =>
    rw [List.zipIdx_cons, List.zipIdx_cons, layout, layout, List.map_cons,
      Nat.add_right_comm n k 1, ih]
    rfl

/-- Equates take no room. -/
theorem layout_append_equates {equates : Table UInt16} {known : List (Bytes × Nat)}
    (h : ∀ line ∈ known, equation? line.1 ≠ none) (offset : UInt16) (src : List (Bytes × Nat)) :
    layout equates offset (known ++ src) =
      known.map (fun line => ⟨line.2, offset, line.1, []⟩) ++ layout equates offset src := by
  induction known with
  | nil => rfl
  | cons line known ih =>
    rw [List.forall_mem_cons] at h
    obtain ⟨q, hq⟩ := Option.ne_none_iff_exists'.1 h.1
    have hzero : offset + UInt16.ofNat ([] : Bytes).length = offset := UInt16.add_zero offset
    rw [List.cons_append, layout, lineCode_of_equation? hq, hzero, ih h.2, List.map_cons,
      List.cons_append]

section Programs

variable {defs : List (Bytes × UInt16)} {source : Bytes} {p p' : Program}

theorem lines_of_assemble {a : Assembler} (h : a.assemble source = .ok p) :
    p.lines = layout p.equates 0 (numberedLines source) := by
  obtain ⟨s, -, hl, -, he, -⟩ := assemble_eq_ok_iff.1 h
  rw [he]
  exact hl.eq_layout

theorem equates_withEquates (hnames : ∀ d ∈ defs, isName d.1 = true)
    (hdistinct : (defs.map fun d => upper d.1).Nodup)
    (hp : (Assembler.knowing defs).assemble source = .ok p)
    (hp' : (Assembler.mk ∅).assemble (withEquates defs source) = .ok p') :
    p'.equates = p.equates := by
  have hfresh := (exists_assemble_iff_valid.1 ⟨p, hp⟩).1.known_fresh hdistinct
  rw [equates_of_assemble hp, equates_of_assemble hp', lines_withEquates hnames, ← equateLines,
    scanLimit_equateLines hnames hdistinct]
  exact equatesAfter_equateLines hnames hdistinct hfresh _

/-- The lines in front come first and have no code; then come the lines of the source. -/
theorem lines_of_withEquates (hnames : ∀ d ∈ defs, isName d.1 = true)
    (he : p'.equates = p.equates) (hp : (Assembler.knowing defs).assemble source = .ok p)
    (hp' : (Assembler.mk ∅).assemble (withEquates defs source) = .ok p') :
    p'.lines = ((equateLines defs).zipIdx 1).map (fun line => ⟨line.2, 0, line.1, []⟩) ++
      p.lines.map (Line.later defs.length) := by
  have hknown : ∀ line ∈ (equateLines defs).zipIdx 1, equation? line.1 ≠ none :=
    fun line hline => equation?_of_mem_equateLines hnames (List.fst_mem_of_mem_zipIdx hline)
  have hlength : (equateLines defs).length = defs.length := List.length_map _
  rw [lines_of_assemble hp, lines_of_assemble hp', he, numberedLines, lines_withEquates hnames,
    ← equateLines, List.zipIdx_append, layout_append_equates hknown, hlength, layout_later]
  rfl

theorem labels_withEquates (hnames : ∀ d ∈ defs, isName d.1 = true)
    (he : p'.equates = p.equates) (hp : (Assembler.knowing defs).assemble source = .ok p)
    (hp' : (Assembler.mk ∅).assemble (withEquates defs source) = .ok p') :
    p'.labels = p.labels := by
  ext name o : 2
  rw [get?_labels_of_assemble hp, get?_labels_of_assemble hp',
    lines_of_withEquates hnames he hp hp']
  constructor
  · rintro ⟨l, hl, form, hr, hlabel, hne, ho⟩
    rcases List.mem_append.1 hl with hl | hl
    · obtain ⟨line, hline, rfl⟩ := List.mem_map.1 hl
      exact absurd ((equation?_eq_none_iff hr).2 hne)
        (equation?_of_mem_equateLines hnames (List.fst_mem_of_mem_zipIdx hline))
    · obtain ⟨l₀, hl₀, rfl⟩ := List.mem_map.1 hl
      exact ⟨l₀, hl₀, form, hr, hlabel, hne, ho⟩
  · rintro ⟨l, hl, form, hr, hlabel, hne, ho⟩
    exact ⟨l.later defs.length, List.mem_append_right _ (List.mem_map_of_mem hl), form, hr, hlabel,
      hne, ho⟩

theorem foldl_placeLine_equateLines (hnames : ∀ d ∈ defs, isName d.1 = true)
    (equates symbols : Table UInt16) (addr : UInt16 × UInt16) :
    (equateLines defs).foldl (placeLine equates symbols) addr = addr := by
  induction defs with
  | nil => rfl
  | cons d defs ih =>
    rw [List.forall_mem_cons] at hnames
    rw [equateLines_cons, List.foldl_cons,
      placeLine_of_equation? (equation?_equateLine hnames.1 d.2), ih hnames.2]

theorem addresses_withEquates (hnames : ∀ d ∈ defs, isName d.1 = true)
    (he : p'.equates = p.equates) (hl : p'.labels = p.labels)
    (hp : (Assembler.knowing defs).assemble source = .ok p)
    (hp' : (Assembler.mk ∅).assemble (withEquates defs source) = .ok p') :
    p'.origin = p.origin ∧ p'.exec = p.exec := by
  obtain ⟨s, -, -, -, hse, hsl, haddr⟩ := assemble_eq_ok_iff.1 hp
  obtain ⟨s', -, -, -, hse', hsl', haddr'⟩ := assemble_eq_ok_iff.1 hp'
  rw [← hse, ← hsl] at haddr
  rw [← hse', ← hsl', he, hl, lines_withEquates hnames, ← equateLines, addresses,
    List.foldl_append, foldl_placeLine_equateLines hnames, ← addresses, ← haddr] at haddr'
  exact Prod.mk.inj haddr'

/-- Equates of distinct names that are known before a source and equates that are written in front
of it come to the same: both sources are assembled or none is, and the programs agree in everything
but the lines in front and the numbers of the lines behind them. -/
theorem assemble_withEquates {defs : List (Bytes × UInt16)}
    (hnames : ∀ d ∈ defs, isName d.1 = true) (hdistinct : (defs.map fun d => upper d.1).Nodup)
    (source : Bytes) :
    ((∃ p, (Assembler.knowing defs).assemble source = .ok p) ↔
      ∃ p', (Assembler.mk ∅).assemble (withEquates defs source) = .ok p') ∧
    ∀ p p', (Assembler.knowing defs).assemble source = .ok p →
      (Assembler.mk ∅).assemble (withEquates defs source) = .ok p' →
        p'.code = p.code ∧ p'.origin = p.origin ∧ p'.exec = p.exec ∧ p'.labels = p.labels ∧
        p'.equates = p.equates ∧
        p'.lines.drop defs.length = p.lines.map (Line.later defs.length) := by
  refine ⟨(exists_assemble_withEquates hnames hdistinct source).symm, ?_⟩
  intro p p' hp hp'
  have he := equates_withEquates hnames hdistinct hp hp'
  have hlabels := labels_withEquates hnames he hp hp'
  have hlines := lines_of_withEquates hnames he hp hp'
  obtain ⟨horigin, hexec⟩ := addresses_withEquates hnames he hlabels hp hp'
  have hcode : p'.code = p.code := by
    rw [code_of_assemble hp, code_of_assemble hp', hlines, List.flatMap_append, List.flatMap_map,
      List.flatMap_map]
    simp [Line.later]
  refine ⟨hcode, horigin, hexec, hlabels, he, ?_⟩
  rw [hlines]
  apply List.drop_left'
  simp [equateLines]

end Programs

def twoEquates : List (Bytes × UInt16) := [(ofString "Speed", 5), (ofString "_limit", 40000)]

def usesBoth : Bytes := ofString "\tEND\tStart\n\tLDA\t#SPEED\nStart\tLDX\t#_Limit+speed\n"

theorem exists_assemble_usesBoth : ∃ p, (Assembler.knowing twoEquates).assemble usesBoth = .ok p ∧
    p.code = [0x86, 0x05, 0x8E, 0x9C, 0x45] ∧ p.exec = 2 := by
  have hok : ((Assembler.knowing twoEquates).assemble usesBoth).toOption.map
      (fun p => (p.code, p.exec)) = some ([0x86, 0x05, 0x8E, 0x9C, 0x45], 2) := by decide +kernel
  cases h : (Assembler.knowing twoEquates).assemble usesBoth with
  | error e => rw [h] at hok; cases hok
  | ok p =>
    rw [h] at hok
    simpa [Except.toOption] using hok

/-- The same code comes from the source with both equates written in front. -/
theorem usesBoth_withEquates : (∀ d ∈ twoEquates, isName d.1 = true) ∧
    (twoEquates.map fun d => upper d.1).Nodup ∧
    withEquates twoEquates usesBoth = ofString "Speed\tEQU\t5\n_limit\tEQU\t40000\n" ++ usesBoth ∧
    ∃ p p', (Assembler.knowing twoEquates).assemble usesBoth = .ok p ∧
      (Assembler.mk ∅).assemble (withEquates twoEquates usesBoth) = .ok p' ∧
      p'.code = [0x86, 0x05, 0x8E, 0x9C, 0x45] ∧ p'.exec = 2 ∧ p'.labels = p.labels ∧
      p'.equates = p.equates ∧ p'.lines.drop 2 = p.lines.map (Line.later 2) := by
  have hnames : ∀ d ∈ twoEquates, isName d.1 = true := by decide +kernel
  have hdistinct : (twoEquates.map fun d => upper d.1).Nodup := by decide +kernel
  obtain ⟨hiff, hsame⟩ := assemble_withEquates hnames hdistinct usesBoth
  obtain ⟨p, hp, hcode, hexec⟩ := exists_assemble_usesBoth
  obtain ⟨p', hp'⟩ := hiff.1 ⟨p, hp⟩
  obtain ⟨hcode', -, hexec', hlabels, he, hlines⟩ := hsame p p' hp hp'
  refine ⟨hnames, hdistinct, by decide +kernel, p, p', hp, hp', ?_, ?_, hlabels, he, hlines⟩
  · rw [hcode', hcode]
  · rw [hexec', hexec]

end Forge6809.Assembly
