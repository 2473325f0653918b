import Forge6809.Proofs.Program.Listing
import Mathlib.Tactic

/-! # Looking up an address in a listing

The lines of a program share its code out among them: every byte of the code stands on one line.
The line of an address is found by its distance from the origin, modulo the size of the memory, and
it is the line on which the byte at that distance stands. No line before it can be taken for it,
also where the code is wrapped around the end of the memory, because the code of a line is short and
all code together fits into the memory. -/

namespace Forge6809.Assembly

open Forge6809.Core Forge6809.Text

namespace Program

def start (p : Program) (n : Nat) : Nat :=
  ((p.lines.take n).flatMap (·.code)).length

def position (p : Program) (addr : UInt16) : Nat :=
  (addr - p.origin).toNat

/-- The byte at a distance from the origin stands on a line. -/
structure Covers (p : Program) (n : Nat) (l : Line) (i : Nat) : Prop where
  line : p.lines[n]? = some l
  start_le : p.start n ≤ i
  lt_end : i < p.start n + l.code.length

section Start

variable {p : Program} {n m i : Nat} {l l' : Line}

theorem lines_split (h : p.lines[n]? = some l) :
    p.lines = p.lines.take n ++ l :: p.lines.drop (n + 1) := by
  obtain ⟨hn, rfl⟩ := List.getElem?_eq_some_iff.1 h
  rw [← List.drop_eq_getElem_cons hn, List.take_append_drop]

theorem start_succ (h : p.lines[n]? = some l) : p.start (n + 1) = p.start n + l.code.length := by
  rw [start, List.take_add_one, h, List.flatMap_append, List.length_append, start]
  simp

theorem start_mono (h : n ≤ m) : p.start n ≤ p.start m := by
  have hprefix : p.lines.take n <+: p.lines.take m := List.take_prefix_take_left h
  obtain ⟨between, hbetween⟩ := hprefix
  rw [start, start, ← hbetween, List.flatMap_append, List.length_append]
  exact Nat.le_add_right _ _

/-- No byte stands on two lines. -/
theorem Covers.unique (h : p.Covers n l i) (h' : p.Covers m l' i) : m = n := by
  have hend := h.lt_end
  have hend' := h'.lt_end
  rw [← start_succ h.line] at hend
  rw [← start_succ h'.line] at hend'
  rcases Nat.lt_trichotomy n m with hlt | rfl | hlt
  · exact absurd ((start_mono hlt).trans h'.start_le) (Nat.not_le.2 hend)
  · rfl
  · exact absurd ((start_mono hlt).trans h.start_le) (Nat.not_le.2 hend')

theorem exists_covers_of_lt_start (hn : n ≤ p.lines.length) (h : i < p.start n) :
    ∃ k l, p.Covers k l i := by
  induction n with
  | zero => exact absurd h (Nat.not_lt_zero i)
  | succ n ih =>
    have hline : p.lines[n]? = some p.lines[n] := List.getElem?_eq_getElem hn
    by_cases hlt : i < p.start n
    · exact ih (Nat.le_of_succ_le hn) hlt
    · rw [start_succ hline] at h
      exact ⟨n, p.lines[n], hline, Nat.not_lt.1 hlt, h⟩

end Start

section Joined

variable {p : Program} {n i : Nat} {l : Line} (hjoined : p.code = p.lines.flatMap (·.code))

include hjoined

theorem start_add_le_length (h : p.lines[n]? = some l) :
    p.start n + l.code.length ≤ p.code.length := by
  rw [← start_succ h, start, hjoined]
  conv_rhs => rw [← List.take_append_drop (n + 1) p.lines]
  rw [List.flatMap_append, List.length_append]
  exact Nat.le_add_right _ _

/-- Every byte stands on a line. -/
theorem exists_covers (h : i < p.code.length) : ∃ n l, p.Covers n l i := by
  apply exists_covers_of_lt_start (Nat.le_refl p.lines.length)
  rwa [start, List.take_length, ← hjoined]

/-- The byte on a line is the byte of the code. -/
theorem Covers.getElem?_code (h : p.Covers n l i) : p.code[i]? = l.code[i - p.start n]? := by
  have hend := h.lt_end
  rw [hjoined, lines_split h.line, List.flatMap_append, List.flatMap_cons,
    List.getElem?_append_right h.start_le]
  exact List.getElem?_append_left (Nat.sub_lt_left_of_lt_add h.start_le hend)

end Joined
end Program

theorem length_le_of_isOpcode {opcode : Bytes} (h : isOpcode opcode = true) :
    opcode.length ≤ 2 := by
  unfold isOpcode at h
  split at h
  · simp
  · simp
  · cases h

theorem length_postbyte_le (reg : IndexRegister) (offset : UInt16) (negate : Bool)
    (auto : AutoMode) : (postbyte reg offset negate auto).length ≤ 3 := by
  unfold postbyte offsetForm
  split_ifs <;> simp [wordBytes]

theorem Encoded.length_le {operand : Operand} {rest : Bytes} (h : Encoded operand rest) :
    rest.length ≤ 3 := by
  cases h with
  | absent | byte | word => simp [wordBytes]
  | indexed reg offset negate => exact length_postbyte_le reg offset negate _

section Laid

variable {equates symbols : Table UInt16} {src : List (Bytes × Nat)} {p : Program} {l : Line}
  {n : Nat}

theorem Laid.length_code_le {offset : UInt16} {ls : List Line}
    (h : Laid equates symbols offset src ls) (hl : l ∈ ls) : l.code.length ≤ 5 := by
  obtain ⟨form, hr, haccepts⟩ := h.accepts hl
  by_cases hne : l.code = []
  · simp [hne]
  obtain ⟨mnemonic, ins, -, hins, hoffers⟩ := exists_offers hr haccepts.encodes hne
  obtain ⟨opcode, rest, operand, hcode, hdecodes, hrest⟩ :=
    hoffers.exists_encoded hins haccepts.encodes
  have hopcode := length_le_of_isOpcode hdecodes.whole
  have hoperand := hrest.length_le
  rw [hcode, List.length_append]
  omega

theorem Laid.offset_eq_start (h : Laid equates symbols 0 src p.lines) (hl : p.lines[n]? = some l) :
    l.offset = UInt16.ofNat (p.start n) := by
  rw [h.offset_eq (Program.lines_split hl), UInt16.zero_add, Program.start]

/-- A line with code is taken for the line of an address exactly if the byte at the distance of the
address stands on it. -/
theorem Laid.matches_iff (h : Laid equates symbols 0 src p.lines)
    (hjoined : p.code = p.lines.flatMap (·.code)) (hsize : p.code.length ≤ 65536)
    (hl : p.lines[n]? = some l) (addr : UInt16) :
    (!l.code.isEmpty && addr - p.address l < UInt16.ofNat l.code.length) = true ↔
      p.Covers n l (p.position addr) := by
  have hshort := h.length_code_le (List.mem_of_getElem? hl)
  have hfits := Program.start_add_le_length hjoined hl
  have hdistance : (addr - p.address l).toNat =
      (65536 - p.start n % 65536 + p.position addr) % 65536 := by
    have horigin := UInt16.toNat_lt p.origin
    rw [Program.address, h.offset_eq_start hl, Program.position]
    simp only [UInt16.toNat_sub, UInt16.toNat_add, UInt16.toNat_ofNat']
    omega
  have hposition : p.position addr < 65536 := UInt16.toNat_lt _
  have hlength : (UInt16.ofNat l.code.length).toNat = l.code.length := by
    rw [UInt16.toNat_ofNat']
    omega
  rw [Bool.and_eq_true, decide_eq_true_eq, UInt16.lt_iff_toNat_lt, hdistance, hlength,
    Bool.not_eq_true', List.isEmpty_eq_false_iff, ← List.length_pos_iff]
  constructor
  · rintro ⟨hpos, hlt⟩
    exact ⟨hl, by omega, by omega⟩
  · rintro ⟨-, hstart, hend⟩
    constructor <;> omega

/-- The line on which a byte stands is found. -/
theorem Laid.lineAt?_of_covers (h : Laid equates symbols 0 src p.lines)
    (hjoined : p.code = p.lines.flatMap (·.code)) (hsize : p.code.length ≤ 65536)
    {addr : UInt16} (hcovers : p.Covers n l (p.position addr)) :
    p.lineAt? addr = some l := by
  obtain ⟨hn, hl⟩ := List.getElem?_eq_some_iff.1 hcovers.line
  rw [Program.lineAt?, List.find?_eq_some_iff_getElem]
  refine ⟨(h.matches_iff hjoined hsize hcovers.line addr).2 hcovers, n, hn, hl, fun m hm => ?_⟩
  -- An earlier line that matched would cover the byte, too.
  rw [Bool.not_eq_true', Bool.eq_false_iff]
  intro hmatches
  have hline : p.lines[m]? = some p.lines[m] := List.getElem?_eq_getElem (hm.trans hn)
  exact hm.ne (hcovers.unique ((h.matches_iff hjoined hsize hline addr).1 hmatches))

/-- Beyond the code no line is found. -/
theorem Laid.lineAt?_eq_none (h : Laid equates symbols 0 src p.lines)
    (hjoined : p.code = p.lines.flatMap (·.code)) (hsize : p.code.length ≤ 65536)
    {addr : UInt16} (hbeyond : p.code.length ≤ p.position addr) : p.lineAt? addr = none := by
  rw [Program.lineAt?, List.find?_eq_none]
  intro l hl hmatches
  obtain ⟨n, hn⟩ := List.mem_iff_getElem?.1 hl
  have hend := ((h.matches_iff hjoined hsize hn addr).1 hmatches).lt_end
  exact absurd (hend.trans_le (Program.start_add_le_length hjoined hn)) (Nat.not_lt.2 hbeyond)

end Laid

/-- What is found for an address whose byte is part of the code: the one line on which it stands. -/
structure Program.Locates (p : Program) (addr : UInt16) (n : Nat) (l : Line) : Prop where
  covers : p.Covers n l (p.position addr)
  only (m : Nat) (l' : Line) : p.Covers m l' (p.position addr) → m = n
  found : p.lineAt? addr = some l
  /-- The offset of the line is the length of all code before it. -/
  offset : l.offset.toNat = p.start n
  byte : p.code[p.position addr]? = l.code[p.position addr - p.start n]?

/-- In an assembled program whose code fits into the memory, looking up an address finds the one
line on which its byte stands, and nothing if the code does not reach to the address. -/
theorem assemble_lineAt? {a : Assembler} {source : Bytes} {p : Program}
    (h : a.assemble source = .ok p) (hsize : p.code.length ≤ 65536) (addr : UInt16) :
    (p.position addr < p.code.length → ∃ n l, p.Locates addr n l) ∧
      (p.code.length ≤ p.position addr → p.lineAt? addr = none) := by
  obtain ⟨s, -, hlaid, hjoined, -⟩ := assemble_eq_ok_iff.1 h
  refine ⟨?_, hlaid.lineAt?_eq_none hjoined hsize⟩
  intro hlt
  obtain ⟨n, l, hcovers⟩ := Program.exists_covers hjoined hlt
  refine ⟨n, l, hcovers, fun m l' h' => hcovers.unique h',
    hlaid.lineAt?_of_covers hjoined hsize hcovers, ?_, hcovers.getElem?_code hjoined⟩
  have hstart := hcovers.start_le
  rw [hlaid.offset_eq_start hcovers.line, UInt16.toNat_ofNat']
  exact Nat.mod_eq_of_lt (hstart.trans_lt (UInt16.toNat_lt _))

/-- The last line of the wrapped program is found behind the end of the memory, and no line is found
at the address after it. -/
theorem wrappedSource_lineAt? : ∃ p, (Assembler.mk ∅).assemble wrappedSource = .ok p ∧
    p.code.length = 4 ∧ p.origin = 0xFFFE ∧ p.Locates 1 2 lineBehind ∧ p.lineAt? 2 = none := by
  obtain ⟨p, h, hlines, horigin⟩ := exists_assemble_wrappedSource
  have hcode : p.code = [0x8E, 0x00, 0x07, 0x39] := by
    rw [code_of_assemble h, hlines]
    rfl
  have hposition (addr : UInt16) : p.position addr = (addr - 0xFFFE).toNat := by
    rw [Program.position, horigin]
  have hlength : p.code.length = 4 := by
    rw [hcode]
    rfl
  have hsize : p.code.length ≤ 65536 := by omega
  have hcovers : p.Covers 2 lineBehind (p.position 1) := by
    refine ⟨by rw [hlines]; rfl, ?_, ?_⟩ <;>
      · rw [hposition, Program.start, hlines]
        decide
  refine ⟨p, h, hlength, horigin, ?_, (assemble_lineAt? h hsize 2).2 ?_⟩
  · have hlt : p.position 1 < p.code.length := by
      rw [hposition, hlength]
      decide
    obtain ⟨n, l, hlocates⟩ := (assemble_lineAt? h hsize 1).1 hlt
    obtain rfl := hlocates.only _ _ hcovers
    cases hcovers.line.symm.trans hlocates.covers.line
    exact hlocates
  · rw [hposition, hlength]
    decide

end Forge6809.Assembly
