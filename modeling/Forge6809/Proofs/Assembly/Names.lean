import Forge6809.Proofs.Assembly.Generation
import Forge6809.Proofs.Text.Uppercase
import Mathlib.Tactic

/-! # The names of a program

A name is a label or an equate, and never both: between any two lines of any pass the two tables
have no name in common. Within a line the label of an equate passes from one table to the other.
A name is defined once, whatever its case, and not at all if it was known before; so the names of a
program are those that were known and those of the source, each with one value and one kind. -/

namespace Forge6809.Assembly

open Text

def Assembler.knowing (defs : List (Bytes × UInt16)) : Assembler :=
  defs.foldl (fun a d => a.predefine d.1 d.2) {}

theorem contains_foldl_predefine (defs : List (Bytes × UInt16)) (a : Assembler) (name : Bytes) :
    (defs.foldl (fun a d => a.predefine d.1 d.2) a).predefined.contains name ↔
      a.predefined.contains name ∨ ∃ d ∈ defs, upper d.1 = name := by
  induction defs generalizing a with
  | nil => simp
  | cons d defs ih =>
    simp only [List.foldl_cons, ih, List.mem_cons, exists_eq_or_imp, ← or_assoc]
    apply or_congr_left
    rw [Assembler.predefine, Table.contains, Table.contains, Table.get?_insert]
    by_cases h : name = upper d.1
    · simp [h]
    · simp [h, Ne.symm h]

theorem Assembler.contains_knowing {defs : List (Bytes × UInt16)} {name : Bytes} :
    (knowing defs).predefined.contains name ↔ ∃ d ∈ defs, upper d.1 = name := by
  rw [knowing, contains_foldl_predefine]
  simp [Table.contains]

def spelling? (text : Bytes) : Option Bytes :=
  (skipBlanks (lexicon.tokens text)).head?.bind fun t =>
    if t.kind = .identifier then some (trim t.text) else none

theorem label?_eq_map_upper (text : Bytes) : label? text = (spelling? text).map upper := by
  rw [label?, spelling?, splitLabel]
  cases skipBlanks (lexicon.tokens text) with
  | nil => rfl
  | cons t ts =>
    by_cases ht : t.kind = .identifier
    · simp [ht, Token.word]
    · simp [ht]

/-- Two lines define the same name, each in its own case. -/
def Redefines (source : Bytes) : Prop :=
  ∃ pre mid post first second name name', lines source = pre ++ first :: (mid ++ second :: post) ∧
    spelling? first = some name ∧ spelling? second = some name' ∧ upper name = upper name'

/-- A line defines a name that was known before. -/
def Overrides (defs : List (Bytes × UInt16)) (source : Bytes) : Prop :=
  ∃ text ∈ lines source, ∃ name, spelling? text = some name ∧ ∃ d ∈ defs, upper d.1 = upper name

theorem mem_labels_iff {texts : List Bytes} {name : Bytes} :
    name ∈ labels texts ↔ ∃ text ∈ texts, ∃ n, spelling? text = some n ∧ upper n = name := by
  simp only [labels, List.mem_filterMap, label?_eq_map_upper, Option.map_eq_some_iff]

theorem not_redefines_of_nodup {source : Bytes} (h : (labels (lines source)).Nodup) :
    ¬Redefines source := by
  rintro ⟨pre, mid, post, first, second, name, name', hsplit, hfirst, hsecond, hsame⟩
  have hpairs : (lines source).Pairwise fun text text' =>
      ∀ a, label? text = some a → ∀ b, label? text' = some b → a ≠ b :=
    List.pairwise_filterMap.1 h
  rw [hsplit] at hpairs
  have hlater := (List.pairwise_cons.1 (List.pairwise_append.1 hpairs).2.1).1 second
    (List.mem_append_right _ List.mem_cons_self)
  apply hlater (upper name) _ (upper name') _ hsame
  · rw [label?_eq_map_upper, hfirst, Option.map_some]
  · rw [label?_eq_map_upper, hsecond, Option.map_some]

/-- No name is a symbol and an equate at once. -/
def Session.Disjoint (s : Session) : Prop :=
  ∀ name, s.symbols.get? name = none ∨ s.equates.get? name = none

section Scanned

variable {a : Assembler} {src : List (Bytes × Nat)} {n : Nat} {s : Session} {name : Bytes}

theorem mem_definedNames_equations {texts : List Bytes} :
    name ∈ definedNames (equations texts) ↔
      ∃ text ∈ texts, ∃ e, equation? text = some (name, e) := by
  simp only [definedNames, equations, List.mem_map, List.mem_filterMap]
  constructor
  · rintro ⟨⟨_, e⟩, ⟨text, ht, hq⟩, rfl⟩
    exact ⟨text, ht, e, hq⟩
  · rintro ⟨text, ht, e, hq⟩
    exact ⟨(name, e), ⟨text, ht, hq⟩, rfl⟩

theorem Scanned.contains_equates (h : Scanned a src n s) : s.equates.contains name ↔
    a.predefined.contains name ∨ name ∈ definedNames (equations (src.map Prod.fst)) := by
  obtain ⟨m, rfl⟩ : ∃ m, n = m + 1 := Nat.exists_eq_add_one.2 h.pos
  rw [Table.contains, Table.contains, h.equates]
  by_cases hname : name ∈ definedNames (equations (src.map Prod.fst))
  · simp [hname, sweeps_succ, get?_sweep_isSome hname]
  · simp [hname, get?_sweeps_of_notMem hname]

/-- The label of a line that is no equate is no equate elsewhere and was not known before. -/
theorem Scanned.no_equate (h : Scanned a src n s) (hname : IsLabel (src.map Prod.fst) name) :
    ¬(a.predefined.contains name ∨ name ∈ definedNames (equations (src.map Prod.fst))) := by
  rintro (hknown | hdefined)
  · rw [Table.contains, h.predefined hname.mem_labels] at hknown
    cases hknown
  · obtain ⟨text, ht, e, hq⟩ := mem_definedNames_equations.1 hdefined
    have hnone := (h.isSome_symbols_iff ht (label?_of_equation? hq)).1 ((h.symbols name).2 hname)
    rw [hq] at hnone
    cases hnone

theorem Session.disjoint_of_keys (h : ∀ name, s.symbols.contains name → ¬s.equates.contains name) :
    s.Disjoint := by
  intro name
  rw [← Option.not_isSome_iff_eq_none, ← Option.not_isSome_iff_eq_none]
  exact Classical.or_iff_not_imp_left.2 fun hsome => h name (not_not.1 hsome)

theorem Scanned.disjoint (h : Scanned a src n s) : s.Disjoint := by
  apply Session.disjoint_of_keys
  intro name hlabel
  rw [h.contains_equates]
  exact h.no_equate ((h.symbols name).1 hlabel)

/-- A further scan moves no name from one table to the other, so it can be stopped anywhere. -/
theorem Scanned.disjoint_settle (h : Scanned a src n s) {pre post : List (Bytes × Nat)}
    (hsplit : src = pre ++ post) {s' : Session} {ls : List Line}
    (hrun : (s.start .settle).run pre = .ok (s', ls)) : s'.Disjoint := by
  have htexts : src.map Prod.fst = pre.map Prod.fst ++ post.map Prod.fst := by
    rw [hsplit, List.map_append]
  have hmem {text : Bytes} (ht : text ∈ pre.map Prod.fst) : text ∈ src.map Prod.fst := by
    rw [htexts]
    exact List.mem_append_left _ ht
  have hn : (labels (pre.map Prod.fst)).Nodup := by
    have hall := h.nodup
    rw [htexts, labels, List.filterMap_append] at hall
    exact hall.of_append_left
  obtain ⟨-, he, hother⟩ := Session.run_scan (s := s.start .settle) rfl hrun
  apply Session.disjoint_of_keys
  intro name hlabel hequate
  have hisLabel : IsLabel (src.map Prod.fst) name := by
    by_cases hname : name ∈ labels (pre.map Prod.fst)
    · obtain ⟨text, ht, hl⟩ := List.mem_filterMap.1 hname
      exact ⟨text, hmem ht, hl, (Session.run_scan_symbols rfl hrun hn ht hl).1 hlabel⟩
    · rw [Table.contains, hother name hname] at hlabel
      exact (h.symbols name).1 hlabel
  apply h.no_equate hisLabel
  by_cases hname : name ∈ definedNames (equations (pre.map Prod.fst))
  · obtain ⟨text, ht, e, hq⟩ := mem_definedNames_equations.1 hname
    exact Or.inr (mem_definedNames_equations.2 ⟨text, hmem ht, e, hq⟩)
  · rw [Table.contains, he, get?_sweep_of_notMem hname] at hequate
    exact h.contains_equates.1 hequate

theorem Scanned.disjoint_code (h : Scanned a src n s) {pre post : List (Bytes × Nat)}
    (hsplit : src = pre ++ post) {s' : Session} {ls : List Line}
    (hrun : (s.start .code).run pre = .ok (s', ls)) : s'.Disjoint := by
  have hready : Ready s.equates s.symbols (pre.map Prod.fst) := by
    intro q hq
    apply h.ready q
    rw [hsplit, List.map_append, equations, List.filterMap_append]
    exact List.mem_append_left _ hq
  obtain ⟨-, he, hsym, -⟩ := Session.run_laid (s := s.start .code) rfl hready hrun
  intro name
  rw [he, hsym]
  exact h.disjoint name

end Scanned

inductive Begins (a : Assembler) (src : List (Bytes × Nat)) : Session → Prop
  | collect : Begins a src (a.session.start .collect)
  | settle {n : Nat} {s : Session} : Scanned a src n s → Begins a src (s.start .settle)
  | code {n : Nat} {s : Session} : Scanned a src n s → Begins a src (s.start .code)

def Between (a : Assembler) (source : Bytes) (s : Session) : Prop :=
  ∃ s₀ pre post ls, Begins a (numberedLines source) s₀ ∧ numberedLines source = pre ++ post ∧
    s₀.run pre = .ok (s, ls)

theorem Between.disjoint {a : Assembler} {source : Bytes} {s : Session}
    (h : Between a source s) : s.Disjoint := by
  obtain ⟨s₀, pre, post, ls, hbegins, hsplit, hrun⟩ := h
  cases hbegins with
  | collect => exact (Scanned.collect hrun).disjoint
  | settle hs => exact hs.disjoint_settle hsplit hrun
  | code hs => exact hs.disjoint_code hsplit hrun

def symbolRow (kind : String) (name : Bytes) (value : UInt16) : Bytes :=
  padRight 16 name ++ ofString " " ++ padRight 5 (ofString kind) ++ ofString " $"
    ++ hexUpper 4 value.toNat ++ [0x0A]

/-- The names of a program, under the equates that were known before its source. -/
structure Program.WellNamed (p : Program) (defs : List (Bytes × UInt16)) (source : Bytes) :
    Prop where
  disjoint (name : Bytes) : ¬(p.labels.contains name ∧ p.equates.contains name)
  names (name : Bytes) : p.labels.contains name ∨ p.equates.contains name ↔
    (∃ d ∈ defs, upper d.1 = name) ∨
      ∃ text ∈ Text.lines source, ∃ n, spelling? text = some n ∧ upper n = name
  upper (name : Bytes) : p.labels.contains name ∨ p.equates.contains name → upper name = name
  /-- The labels come first, then the equates. -/
  symbols : p.symbols =
    p.labels.toList.map (fun e => (e.1, p.origin + e.2)) ++ p.equates.toList
  ordered : (p.labels.toList.map Prod.fst).Pairwise (· < ·) ∧
    (p.equates.toList.map Prod.fst).Pairwise (· < ·)
  once : (p.symbols.map Prod.fst).Nodup
  all (name : Bytes) :
    name ∈ p.symbols.map Prod.fst ↔ p.labels.contains name ∨ p.equates.contains name
  /-- The kind that is listed is that of the table from which a symbol comes. -/
  listing : p.listing = p.lines.map p.listLine ++
    if p.symbols.isEmpty then []
    else [0x0A] :: (p.labels.toList.map (fun e => symbolRow "LABEL" e.1 (p.origin + e.2)) ++
      p.equates.toList.map fun e => symbolRow "EQU" e.1 e.2)

theorem mem_map_fst_toList {t : Table UInt16} {name : Bytes} :
    name ∈ t.toList.map Prod.fst ↔ t.contains name := by
  rw [Table.contains, Option.isSome_iff_exists, List.mem_map]
  constructor
  · rintro ⟨⟨_, v⟩, hmem, rfl⟩
    exact ⟨v, Table.mem_toList_iff.1 hmem⟩
  · rintro ⟨v, hget⟩
    exact ⟨(name, v), Table.mem_toList_iff.2 hget, rfl⟩

theorem pairwise_map_fst_toList (t : Table UInt16) :
    (t.toList.map Prod.fst).Pairwise (· < ·) :=
  List.pairwise_map.2 t.ordered

theorem nodup_map_fst_toList (t : Table UInt16) : (t.toList.map Prod.fst).Nodup := by
  apply (pairwise_map_fst_toList t).imp
  rintro name _ hlt rfl
  exact List.lt_irrefl name hlt

section Program

variable (p : Program)

theorem Program.symbols_eq : p.symbols =
    p.labels.toList.map (fun e => (e.1, p.origin + e.2)) ++ p.equates.toList := by
  simp [symbols, Table.chain, Table.map, Table.toList]

theorem Program.map_fst_symbols : p.symbols.map Prod.fst =
    p.labels.toList.map Prod.fst ++ p.equates.toList.map Prod.fst := by
  rw [symbols_eq, List.map_append, List.map_map]
  rfl

theorem Program.map_listSymbol (h : ∀ name, ¬(p.labels.contains name ∧ p.equates.contains name)) :
    p.symbols.map (fun e => p.listSymbol e.1 e.2) =
      p.labels.toList.map (fun e => symbolRow "LABEL" e.1 (p.origin + e.2)) ++
        p.equates.toList.map fun e => symbolRow "EQU" e.1 e.2 := by
  rw [symbols_eq, List.map_append, List.map_map]
  congr 1
  · apply List.map_congr_left
    intro e he
    have hlabel : p.labels.contains e.1 := mem_map_fst_toList.1 (List.mem_map_of_mem he)
    simp [listSymbol, symbolRow, hlabel]
  · apply List.map_congr_left
    intro e he
    have hequate : p.equates.contains e.1 := mem_map_fst_toList.1 (List.mem_map_of_mem he)
    have hlabel : ¬p.labels.contains e.1 := fun hlabel => h e.1 ⟨hlabel, hequate⟩
    simp [listSymbol, symbolRow, hlabel]

end Program

theorem Scanned.contains_iff {a : Assembler} {src : List (Bytes × Nat)} {n : Nat} {s : Session}
    (h : Scanned a src n s) (name : Bytes) : s.symbols.contains name ∨ s.equates.contains name ↔
      a.predefined.contains name ∨ name ∈ labels (src.map Prod.fst) := by
  rw [h.contains_equates, Table.contains, h.symbols]
  constructor
  · rintro (hlabel | hknown | hdefined)
    · exact Or.inr hlabel.mem_labels
    · exact Or.inl hknown
    · exact Or.inr ((definedNames_equations_sublist _).subset hdefined)
  · rintro (hknown | hname)
    · exact Or.inr (Or.inl hknown)
    · obtain ⟨text, ht, hl⟩ := List.mem_filterMap.1 hname
      cases hq : equation? text with
      | none => exact Or.inl ⟨text, ht, hl, hq⟩
      | some q =>
        obtain ⟨name', e⟩ := q
        cases hl.symm.trans (label?_of_equation? hq)
        exact Or.inr (Or.inr (mem_definedNames_equations.2 ⟨text, ht, e, hq⟩))

theorem exists_scanned_of_assemble {a : Assembler} {source : Bytes} {p : Program}
    (h : a.assemble source = .ok p) : ∃ n s, Scanned a (numberedLines source) n s ∧
      p.labels = s.symbols ∧ p.equates = s.equates := by
  obtain ⟨s, hok, -, -, he, hsym, -⟩ := assemble_eq_ok_iff.1 h
  obtain ⟨n, hs⟩ := exists_scanned_of_scanned hok
  exact ⟨n, s, hs, hsym, he⟩

theorem wellNamed_of_assemble {defs : List (Bytes × UInt16)} {source : Bytes} {p : Program}
    (h : (Assembler.knowing defs).assemble source = .ok p) : p.WellNamed defs source := by
  obtain ⟨n, s, hs, hsym, he⟩ := exists_scanned_of_assemble h
  have hdisjoint (name : Bytes) : ¬(p.labels.contains name ∧ p.equates.contains name) := by
    rw [Table.contains, Table.contains, hsym, he]
    rcases hs.disjoint name with hnone | hnone <;> simp [hnone]
  have hnames (name : Bytes) : p.labels.contains name ∨ p.equates.contains name ↔
      (∃ d ∈ defs, upper d.1 = name) ∨
        ∃ text ∈ Text.lines source, ∃ n, spelling? text = some n ∧ upper n = name := by
    rw [hsym, he, hs.contains_iff, Assembler.contains_knowing, map_fst_numberedLines,
      mem_labels_iff]
  refine ⟨hdisjoint, hnames, ?_, p.symbols_eq,
    ⟨pairwise_map_fst_toList _, pairwise_map_fst_toList _⟩, ?_, ?_, ?_⟩
  · intro name hname
    rcases (hnames name).1 hname with ⟨d, -, rfl⟩ | ⟨text, -, n, -, rfl⟩
    · exact upper_upper d.1
    · exact upper_upper n
  · rw [p.map_fst_symbols]
    apply (nodup_map_fst_toList _).append (nodup_map_fst_toList _)
    intro name hlabel hequate
    exact hdisjoint name ⟨mem_map_fst_toList.1 hlabel, mem_map_fst_toList.1 hequate⟩
  · intro name
    rw [p.map_fst_symbols, List.mem_append, mem_map_fst_toList, mem_map_fst_toList]
  · rw [Program.listing, p.map_listSymbol hdisjoint]

/-- No name is a label and an equate at once between two lines of any pass; a source that defines a
name twice or one that was known before is refused; and the names of a program are those that were
known and those of its source, each of them listed once and with its kind. -/
theorem assemble_names (defs : List (Bytes × UInt16)) (source : Bytes) :
    (∀ s, Between (Assembler.knowing defs) source s → s.Disjoint) ∧
    (Redefines source ∨ Overrides defs source →
      ∃ e, (Assembler.knowing defs).assemble source = .error e) ∧
    ∀ p, (Assembler.knowing defs).assemble source = .ok p → p.WellNamed defs source := by
  refine ⟨fun s => Between.disjoint, ?_, fun p => wellNamed_of_assemble⟩
  intro hclash
  cases h : (Assembler.knowing defs).assemble source with
  | error e => exact ⟨e, rfl⟩
  | ok p =>
    obtain ⟨n, s, hs, -, -⟩ := exists_scanned_of_assemble h
    exfalso
    rcases hclash with htwice | ⟨text, ht, name, hname, d, hd, hsame⟩
    · have hn := hs.nodup
      rw [map_fst_numberedLines] at hn
      exact not_redefines_of_nodup hn htwice
    · have hlabel : upper name ∈ labels ((numberedLines source).map Prod.fst) := by
        rw [map_fst_numberedLines, mem_labels_iff]
        exact ⟨text, ht, name, hname, rfl⟩
      have hknown := Assembler.contains_knowing.2 ⟨d, hd, hsame⟩
      rw [Table.contains, hs.predefined hlabel] at hknown
      cases hknown

def knownSpeed : List (Bytes × UInt16) := [(ofString "Speed", 5)]

/-- Uses the known name, and defines a label and an equate. -/
def mixedCase : Bytes := ofString "Start\tLDA\t#speed\nLimit\tEQU\tSPEED+1\n"

def startTwice : Bytes := ofString "Start\tNOP\n\tNOP\nSTART\tNOP\n"

def speedAgain : Bytes := ofString "\tNOP\nspeed\tNOP\n"

theorem redefines_startTwice : Redefines startTwice :=
  ⟨[], [ofString "\tNOP"], [], ofString "Start\tNOP", ofString "START\tNOP", ofString "Start",
    ofString "START", by decide +kernel, by decide +kernel, by decide +kernel, by decide +kernel⟩

theorem overrides_speedAgain : Overrides knownSpeed speedAgain := by
  refine ⟨ofString "speed\tNOP", ?_, ofString "speed", by decide +kernel, (ofString "Speed", 5), ?_,
    by decide +kernel⟩
  · have hlines : lines speedAgain = [ofString "\tNOP", ofString "speed\tNOP"] := by decide +kernel
    simp [hlines]
  · exact List.mem_singleton_self _

theorem exists_assemble_mixedCase :
    ∃ p, (Assembler.knowing knownSpeed).assemble mixedCase = .ok p ∧
      p.symbols = [(ofString "START", 0), (ofString "LIMIT", 6), (ofString "SPEED", 5)] := by
  have hok : ((Assembler.knowing knownSpeed).assemble mixedCase).toOption.map (·.symbols) =
      some [(ofString "START", 0), (ofString "LIMIT", 6), (ofString "SPEED", 5)] := by
    decide +kernel
  cases h : (Assembler.knowing knownSpeed).assemble mixedCase with
  | error e => rw [h] at hok; cases hok
  | ok p =>
    rw [h] at hok
    exact ⟨p, rfl, Option.some.inj hok⟩

/-- One of the sources is assembled, from two tables without a common name, and the others are
refused. -/
theorem mixedCase_names : ∃ p s,
    (Assembler.knowing knownSpeed).assemble mixedCase = .ok p ∧
    p.symbols = [(ofString "START", 0), (ofString "LIMIT", 6), (ofString "SPEED", 5)] ∧
    p.WellNamed knownSpeed mixedCase ∧
    Between (Assembler.knowing knownSpeed) mixedCase s ∧ s.symbols = p.labels ∧
    s.equates = p.equates ∧ s.Disjoint ∧
    Redefines startTwice ∧ (∃ e, (Assembler.knowing knownSpeed).assemble startTwice = .error e) ∧
    Overrides knownSpeed speedAgain ∧
    ∃ e, (Assembler.knowing knownSpeed).assemble speedAgain = .error e := by
  obtain ⟨p, hp, hsymbols⟩ := exists_assemble_mixedCase
  obtain ⟨n, s, hs, hsym, he⟩ := exists_scanned_of_assemble hp
  obtain ⟨hdisjoint, -, hnamed⟩ := assemble_names knownSpeed mixedCase
  have hbetween : Between (Assembler.knowing knownSpeed) mixedCase (s.start .code) :=
    ⟨_, [], numberedLines mixedCase, [], .code hs, rfl, rfl⟩
  have htwice := (assemble_names knownSpeed startTwice).2.1 (Or.inl redefines_startTwice)
  have hagain := (assemble_names knownSpeed speedAgain).2.1 (Or.inr overrides_speedAgain)
  exact ⟨p, s.start .code, hp, hsymbols, hnamed p hp, hbetween, hsym.symm, he.symm,
    hdisjoint _ hbetween, redefines_startTwice, htwice, overrides_speedAgain, hagain⟩

end Forge6809.Assembly
