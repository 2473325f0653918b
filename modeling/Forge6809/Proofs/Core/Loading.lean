import Forge6809.Proofs.Core.Postbyte

/-! # Loading around the end of memory

Bytes that are loaded behind the last address go on at the first one, so a text that is longer than
the memory runs over its own beginning. Whatever the length, an address has afterwards the last of
the bytes that came to it, and what it had before if none did. A text that fits is read back from
where it was loaded. -/

namespace Forge6809.Core

/-- The byte with index `j`, of those loaded from an address on, goes to the address `a`. -/
def Lands (addr : UInt16) (j : ℕ) (a : UInt16) : Prop :=
  (addr.toNat + j) % 65536 = a.toNat

theorem lands_iff {addr a : UInt16} {j : ℕ} : Lands addr j a ↔ a = addr + UInt16.ofNat j := by
  rw [Lands, ← UInt16.toNat_inj, UInt16.toNat_add, UInt16.toNat_ofNat', Nat.add_mod_mod, eq_comm]

/-- Of the first 65536 bytes each goes to an address of its own. -/
theorem Lands.eq {addr a : UInt16} {j k : ℕ} (hj : Lands addr j a) (hk : Lands addr k a)
    (hlj : j < 65536) (hlk : k < 65536) : j = k := by
  unfold Lands at hj hk
  omega

namespace Memory

theorem load_append (m : Memory) (addr : UInt16) (xs ys : Bytes) :
    m.load addr (xs ++ ys) = (m.load addr xs).load (addr + UInt16.ofNat xs.length) ys := by
  induction xs generalizing m addr with
  | nil => simp [load]
  | cons b xs ih =>
    rw [List.cons_append, load, load, ih, List.length_cons, UInt16.ofNat_add, UInt16.add_assoc,
      UInt16.add_comm 1]
    rfl

/-- The last byte is written over whatever came to its address before. -/
theorem read8_load_concat (m : Memory) (addr : UInt16) (xs : Bytes) (b : UInt8) (a : UInt16) :
    (m.load addr (xs ++ [b])).read8 a =
      if a = addr + UInt16.ofNat xs.length then b else (m.load addr xs).read8 a := by
  rw [load_append, load, load, read8_write8]

/-- An address has the last of the bytes that came to it, or what it had before. -/
theorem read8_load (m : Memory) (addr : UInt16) (data : Bytes) (a : UInt16) :
    (∃ j, ∃ hj : j < data.length, Lands addr j a ∧
        (∀ k < data.length, Lands addr k a → k ≤ j) ∧ (m.load addr data).read8 a = data[j]) ∨
      (∀ j < data.length, ¬Lands addr j a) ∧ (m.load addr data).read8 a = m.read8 a := by
  induction data using List.reverseRecOn with
  | nil => exact .inr ⟨fun _ hj => absurd hj (Nat.not_lt_zero _), rfl⟩
  | append_singleton xs b ih =>
    have hlength : (xs ++ [b]).length = xs.length + 1 := by simp
    have hlast {k : ℕ} (hk : k < (xs ++ [b]).length) : k < xs.length ∨ k = xs.length := by omega
    by_cases hlands : Lands addr xs.length a
    · refine .inl ⟨xs.length, by omega, hlands, fun k hk _ => by omega, ?_⟩
      rw [read8_load_concat, if_pos (lands_iff.1 hlands)]
      simp
    · rw [read8_load_concat, if_neg (mt lands_iff.2 hlands)]
      rcases ih with ⟨j, hj, hjlands, hmax, hread⟩ | ⟨hnone, hread⟩
      · refine .inl ⟨j, by omega, hjlands, fun k hk hklands => ?_, ?_⟩
        · rcases hlast hk with hk | rfl
          · exact hmax k hk hklands
          · exact absurd hklands hlands
        · rw [hread, List.getElem_append_left hj]
      · refine .inr ⟨fun k hk hklands => ?_, hread⟩
        rcases hlast hk with hk | rfl
        · exact hnone k hk hklands
        · exact hlands hklands

/-- What fits in memory is read back. -/
theorem dump_load (m : Memory) (addr : UInt16) {data : Bytes} (hsize : data.length ≤ 65536) :
    (m.load addr data).dump addr data.length = data := by
  apply List.ext_getElem
  · simp [dump]
  · intro j hj hj'
    simp only [dump, List.getElem_map, List.getElem_range]
    have hlands : Lands addr j (addr + UInt16.ofNat j) := lands_iff.2 rfl
    rcases m.read8_load addr data (addr + UInt16.ofNat j) with
      ⟨k, hk, hklands, -, hread⟩ | ⟨hnone, -⟩
    · obtain rfl := hklands.eq hlands (by omega) (by omega)
      exact hread
    · exact absurd hlands (hnone j hj')

end Memory

namespace Machine

/-- Loading bytes from an address on leaves at every address the last of the bytes that came to it,
modulo 65536, and what was there before if none did. No more bytes than the memory has are read back
from where they were loaded. Only the memory changes. -/
theorem load_wraps (m : Machine) (addr : UInt16) (data : Bytes) :
    (∀ a, (∃ j, ∃ hj : j < data.length, Lands addr j a ∧
          (∀ k < data.length, Lands addr k a → k ≤ j) ∧ (m.load addr data).read8 a = data[j]) ∨
        (∀ j < data.length, ¬Lands addr j a) ∧ (m.load addr data).read8 a = m.read8 a) ∧
    (data.length ≤ 65536 → (m.load addr data).memory.dump addr data.length = data) ∧
    { m.load addr data with memory := m.memory } = m :=
  ⟨m.memory.read8_load addr data, m.memory.dump_load addr, rfl⟩

def overrun : Bytes :=
  List.replicate 65536 0xAA ++ [0xBB]

/-- The last byte comes to where the first one was, and three bytes are read back around the end of
memory. -/
theorem overrun_wraps :
    (({} : Machine).load 0xFFFF overrun).read8 0xFFFF = 0xBB ∧
    [0x10, 0x20, 0x30].length ≤ 65536 ∧
    (({} : Machine).load 0xFFFF [0x10, 0x20, 0x30]).memory.dump 0xFFFF 3 = [0x10, 0x20, 0x30] := by
  have hlength : overrun.length = 65537 := by
    rw [overrun, List.length_append, List.length_replicate, List.length_singleton]
  have hlands : Lands 0xFFFF 65536 0xFFFF := lands_iff.2 rfl
  refine ⟨?_, by decide, (load_wraps {} 0xFFFF [0x10, 0x20, 0x30]).2.1 (by decide)⟩
  rcases (load_wraps {} 0xFFFF overrun).1 0xFFFF with ⟨j, hj, -, hmax, hread⟩ | ⟨hnone, -⟩
  · have hle : 65536 ≤ j := hmax 65536 (by omega) hlands
    obtain rfl : j = 65536 := by omega
    rw [hread]
    exact List.getElem_concat_length (by rw [List.length_replicate]) _
  · exact absurd hlands (hnone 65536 (by omega))

end Machine
end Forge6809.Core
