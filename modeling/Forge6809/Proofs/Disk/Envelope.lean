import Forge6809.Disk.Envelope
import Mathlib.Tactic

/-! # The format of loadable binaries

A binary is a sequence of segments and a postamble, and whatever follows the postamble. Unpacking
accepts exactly these and finds the only way to read them. Every other byte string begins with
segments as well, perhaps none, up to a point where neither a complete segment nor a postamble
stands; the segments before that point are the ones that are reported with the error. -/

namespace Forge6809.Disk

def Segment.encoded (s : Segment) : Bytes :=
  Envelope.header (UInt16.ofNat s.data.length) s.address ++ s.data

namespace Envelope

def encodeAll (segments : List Segment) : Bytes :=
  segments.flatMap Segment.encoded

def Fitting (segments : List Segment) : Prop :=
  ∀ s ∈ segments, s.data.length ≤ 0xFFFF

def Ends (binary : Bytes) : Prop :=
  ∃ exec rest, binary = postamble exec ++ rest

def Continues (binary : Bytes) : Prop :=
  ∃ (s : Segment) (rest : Bytes), s.data.length ≤ 0xFFFF ∧ binary = s.encoded ++ rest

/-- A binary: its segments, its execution address, and what follows its postamble. -/
structure Splits (binary : Bytes) (segments : List Segment) (exec : UInt16) (rest : Bytes) :
    Prop where
  fitting : Fitting segments
  eq : binary = encodeAll segments ++ postamble exec ++ rest

/-- Bytes that are no binary: the complete segments at their start, and what follows those, where
the fault is. -/
structure Breaks (binary : Bytes) (segments : List Segment) (rest : Bytes) : Prop where
  fitting : Fitting segments
  eq : binary = encodeAll segments ++ rest
  noEnd : ¬ Ends rest
  noSegment : ¬ Continues rest

section Pieces

variable {binary rest : Bytes} {segments : List Segment} {exec : UInt16}

theorem fitting_cons {s : Segment} :
    Fitting (s :: segments) ↔ s.data.length ≤ 0xFFFF ∧ Fitting segments :=
  List.forall_mem_cons

theorem encodeAll_cons (s : Segment) (segments : List Segment) :
    encodeAll (s :: segments) = s.encoded ++ encodeAll segments :=
  List.flatMap_cons

theorem parse_postamble (exec : UInt16) (rest : Bytes) :
    parse (postamble exec ++ rest) = ([], .ok exec) := by
  simp only [postamble, wordBytes, List.cons_append, List.nil_append]
  rw [parse]
  simp [wordOf_highByte_lowByte, show (wordOf 0 0).toNat = 0 from rfl]

theorem parse_encoded {s : Segment} (h : s.data.length ≤ 0xFFFF) (rest : Bytes) :
    parse (s.encoded ++ rest) = (s :: (parse rest).1, (parse rest).2) := by
  have hsize : (UInt16.ofNat s.data.length).toNat = s.data.length := by
    rw [UInt16.toNat_ofNat', Nat.mod_eq_of_lt (by omega)]
  simp only [Segment.encoded, header, wordBytes, List.cons_append, List.nil_append]
  rw [parse]
  simp [wordOf_highByte_lowByte, hsize]

theorem wordBytes_wordOf (high low : UInt8) : wordBytes (wordOf high low) = [high, low] := by
  have hlow := UInt8.toNat_lt low
  have hhighByte : highByte (wordOf high low) = high := by
    apply UInt8.toNat_inj.1
    rw [toNat_highByte, toNat_wordOf]
    omega
  have hlowByte : lowByte (wordOf high low) = low := by
    apply UInt8.toNat_inj.1
    rw [toNat_lowByte, toNat_wordOf]
    omega
  rw [wordBytes, hhighByte, hlowByte]

/-- A header that is followed by as many bytes as it says begins a complete segment. -/
theorem continues_of_header {sizeHigh sizeLow addressHigh addressLow : UInt8}
    (h : (wordOf sizeHigh sizeLow).toNat ≤ rest.length) :
    Continues (0x00 :: sizeHigh :: sizeLow :: addressHigh :: addressLow :: rest) := by
  have hlt := UInt16.toNat_lt (wordOf sizeHigh sizeLow)
  have hlen : (rest.take (wordOf sizeHigh sizeLow).toNat).length =
      (wordOf sizeHigh sizeLow).toNat := by
    rw [List.length_take, Nat.min_eq_left h]
  refine ⟨⟨wordOf addressHigh addressLow, rest.take (wordOf sizeHigh sizeLow).toNat⟩,
    rest.drop (wordOf sizeHigh sizeLow).toNat, ?_, ?_⟩
  · rw [hlen]
    omega
  · simp only [Segment.encoded, header, hlen, UInt16.ofNat_toNat, wordBytes_wordOf,
      List.cons_append, List.nil_append, List.take_append_drop]

theorem ends_of_mark {sizeHigh sizeLow addressHigh addressLow : UInt8}
    (h : (wordOf sizeHigh sizeLow).toNat = 0) :
    Ends (0xFF :: sizeHigh :: sizeLow :: addressHigh :: addressLow :: rest) := by
  rw [toNat_wordOf] at h
  obtain rfl : sizeHigh = 0 := UInt8.toNat_inj.1 (by simp only [UInt8.toNat_zero]; omega)
  obtain rfl : sizeLow = 0 := UInt8.toNat_inj.1 (by simp only [UInt8.toNat_zero]; omega)
  refine ⟨wordOf addressHigh addressLow, rest, ?_⟩
  simp only [postamble, wordBytes_wordOf, List.cons_append, List.nil_append]

/-- Where neither a segment nor a postamble stands there is nothing to report but the error. -/
theorem parse_of_fault (hend : ¬ Ends binary) (hsegment : ¬ Continues binary) :
    parse binary = ([], .error .invalid) := by
  rw [parse.eq_def]
  split
  · next tag sizeHigh sizeLow addressHigh addressLow rest =>
    dsimp only
    by_cases htag : tag = 0x00
    · subst htag
      rw [if_pos rfl, if_pos]
      rw [List.length_take]
      by_contra hlt
      exact hsegment (continues_of_header (by omega))
    · rw [if_neg htag, if_neg]
      rintro ⟨rfl, hsize⟩
      exact hend (ends_of_mark hsize)
  · rfl

end Pieces

section Binaries

variable {binary rest rest' : Bytes} {segments segments' : List Segment} {exec exec' : UInt16}

theorem parse_encodeAll (h : Fitting segments) (rest : Bytes) :
    parse (encodeAll segments ++ rest) = (segments ++ (parse rest).1, (parse rest).2) := by
  induction segments with
  | nil => rfl
  | cons s segments ih =>
    rw [fitting_cons] at h
    rw [encodeAll_cons, List.append_assoc, parse_encoded h.1, ih h.2, List.cons_append]

theorem Splits.parse_eq (h : Splits binary segments exec rest) :
    parse binary = (segments, .ok exec) := by
  rw [h.eq, List.append_assoc, parse_encodeAll h.fitting, parse_postamble, List.append_nil]

theorem Breaks.parse_eq (h : Breaks binary segments rest) :
    parse binary = (segments, .error .invalid) := by
  rw [h.eq, parse_encodeAll h.fitting, parse_of_fault h.noEnd h.noSegment, List.append_nil]

/-- Every byte string is a binary or breaks off. -/
theorem exists_splits_or_breaks (binary : Bytes) :
    (∃ segments exec rest, Splits binary segments exec rest) ∨
      ∃ segments rest, Breaks binary segments rest := by
  -- By induction on the length: a complete segment at the start is taken off.
  induction hn : binary.length using Nat.strong_induction_on generalizing binary with
  | _ n ih =>
    by_cases hend : Ends binary
    · obtain ⟨exec, rest, rfl⟩ := hend
      exact .inl ⟨[], exec, rest, by simp [Fitting], rfl⟩
    by_cases hsegment : Continues binary
    · obtain ⟨s, rest, hs, rfl⟩ := hsegment
      have hlt : rest.length < n := by
        rw [← hn, List.length_append, Segment.encoded, List.length_append, header, wordBytes,
          wordBytes]
        simp only [List.cons_append, List.length_cons]
        omega
      have hcons {segments : List Segment} (h : Fitting segments) : Fitting (s :: segments) :=
        fitting_cons.2 ⟨hs, h⟩
      rcases ih rest.length hlt rest rfl with ⟨segments, exec, t, h⟩ | ⟨segments, t, h⟩
      · refine .inl ⟨s :: segments, exec, t, hcons h.fitting, ?_⟩
        rw [h.eq, encodeAll_cons, List.append_assoc, List.append_assoc, List.append_assoc]
      · refine .inr ⟨s :: segments, t, hcons h.fitting, ?_, h.noEnd, h.noSegment⟩
        rw [h.eq, encodeAll_cons, List.append_assoc]
    · exact .inr ⟨[], binary, by simp [Fitting], rfl, hend, hsegment⟩

theorem parse_eq_ok_iff :
    parse binary = (segments, .ok exec) ↔ ∃ rest, Splits binary segments exec rest := by
  constructor
  · intro h
    rcases exists_splits_or_breaks binary with ⟨_, _, rest, hsplit⟩ | ⟨_, _, hbreak⟩
    · rw [hsplit.parse_eq] at h
      cases h
      exact ⟨rest, hsplit⟩
    · rw [hbreak.parse_eq] at h
      cases h
  · rintro ⟨rest, h⟩
    exact h.parse_eq

theorem parse_eq_error_iff {e : EnvelopeError} : parse binary = (segments, .error e) ↔
    e = .invalid ∧ ∃ rest, Breaks binary segments rest := by
  constructor
  · intro h
    rcases exists_splits_or_breaks binary with ⟨_, _, _, hsplit⟩ | ⟨_, rest, hbreak⟩
    · rw [hsplit.parse_eq] at h
      cases h
    · rw [hbreak.parse_eq] at h
      cases h
      exact ⟨rfl, rest, hbreak⟩
  · rintro ⟨rfl, rest, h⟩
    exact h.parse_eq

/-- A binary can be read in one way only. -/
theorem Splits.unique (h : Splits binary segments exec rest)
    (h' : Splits binary segments' exec' rest') :
    segments = segments' ∧ exec = exec' ∧ rest = rest' := by
  have hparse := h.parse_eq.symm.trans h'.parse_eq
  simp only [Prod.mk.injEq, Except.ok.injEq] at hparse
  obtain ⟨rfl, rfl⟩ := hparse
  exact ⟨rfl, rfl, List.append_cancel_left (h.eq.symm.trans h'.eq)⟩

end Binaries

theorem pack_of_le {code : Bytes} (h : code.length ≤ 0xFFFF) (start exec : UInt16) :
    pack code start exec = .ok (encodeAll [⟨start, code⟩] ++ postamble exec) := by
  rw [pack, if_neg (Nat.not_lt.2 h), encodeAll_cons]
  simp [encodeAll, Segment.encoded]

theorem parse_pack {code binary : Bytes} {start exec : UInt16}
    (h : pack code start exec = .ok binary) (rest : Bytes) :
    parse (binary ++ rest) = ([⟨start, code⟩], .ok exec) := by
  have hsize : code.length ≤ 0xFFFF := by
    by_contra hlt
    rw [pack, if_pos (Nat.not_le.1 hlt)] at h
    cases h
  rw [pack_of_le hsize] at h
  cases h
  exact Splits.parse_eq ⟨by simpa [Fitting] using hsize, rfl⟩

/-- Unpacking accepts exactly the binaries, reads each of them in the only way there is, and reports
every other byte string as invalid together with the complete segments before the fault. What was
packed is unpacked whatever follows it, and longer code than a header can describe is not packed. -/
theorem parse_exact :
    (∀ binary segments exec,
      parse binary = (segments, .ok exec) ↔ ∃ rest, Splits binary segments exec rest) ∧
    (∀ binary segments segments' exec exec' rest rest', Splits binary segments exec rest →
      Splits binary segments' exec' rest' →
        segments = segments' ∧ exec = exec' ∧ rest = rest') ∧
    (∀ binary, (¬ ∃ segments exec rest, Splits binary segments exec rest) →
      ∃ segments, parse binary = (segments, .error .invalid)) ∧
    (∀ binary segments e, parse binary = (segments, .error e) ↔
      e = .invalid ∧ ∃ rest, Breaks binary segments rest) ∧
    (∀ code start exec rest, code.length ≤ 0xFFFF → ∃ binary, pack code start exec = .ok binary ∧
      parse (binary ++ rest) = ([⟨start, code⟩], .ok exec)) ∧
    ∀ code start exec, 0xFFFF < code.length → pack code start exec = .error .tooLarge := by
  refine ⟨fun _ _ _ => parse_eq_ok_iff, fun _ _ _ _ _ _ _ => Splits.unique, ?_,
    fun _ _ _ => parse_eq_error_iff, ?_, fun code start exec hsize => if_pos hsize⟩
  · intro binary hnot
    obtain ⟨segments, rest, h⟩ := (exists_splits_or_breaks binary).resolve_left hnot
    exact ⟨segments, h.parse_eq⟩
  · intro code start exec rest hsize
    exact ⟨_, pack_of_le hsize start exec, parse_pack (pack_of_le hsize start exec) rest⟩

end Envelope
end Forge6809.Disk
