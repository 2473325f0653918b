import Forge6809.Disk.Add
import Forge6809.Proofs.Outcome
import Mathlib.Tactic

/-! # Chains of granules

A chain is found by following the allocation table. It never passes through a free granule, and it
depends only on the allocation entries of its own granules; so does what is read along it. The
blocks of a new file make up a chain from which its contents are read back, whatever their length:
also none, and also whole sectors and whole granules. -/

namespace Forge6809.Disk

def IsLast (next : UInt8) : Prop :=
  lastMark ≤ next ∧ next.toNat - lastMark.toNat ≤ sectorsPerGranule

def lastSize (next : UInt8) (last : Nat) : Nat :=
  let sectors := next.toNat - lastMark.toNat
  if sectors = 0 then 0 else (sectors - 1) * sectorSize + last

/-- The granules from one on to the end of its chain, and the number of bytes in them, if there are
`last` bytes in the last sector. -/
inductive Chain (d : Disk) (last : Nat) : UInt8 → List UInt8 → Nat → Prop
  | last {g : UInt8} : g.toNat < granuleCount → IsLast (d.allocation g) → last ≤ sectorSize →
      Chain d last g [g] (lastSize (d.allocation g) last)
  | link {g : UInt8} {granules : List UInt8} {size : Nat} : g.toNat < granuleCount →
      (d.allocation g).toNat < granuleCount → Chain d last (d.allocation g) granules size →
      Chain d last g (g :: granules) (granuleSize + size)

section Chain

variable {d d' : Disk} {last bound size : Nat} {g : UInt8} {granules : List UInt8}

theorem not_isLast_of_lt {next : UInt8} (h : next.toNat < granuleCount) : ¬ IsLast next := by
  rintro ⟨hle, -⟩
  have hmark : 192 ≤ next.toNat := UInt8.le_iff_toNat_le.1 hle
  simp only [granuleCount] at h
  omega

theorem freeMark_not_isLast : ¬ IsLast freeMark := by
  unfold IsLast
  decide

/-- Following the allocation table finds the chains of at most `bound` granules. -/
theorem follow_eq_ok_iff : d.follow last bound g = .ok (granules, size) ↔
    Chain d last g granules size ∧ granules.length ≤ bound := by
  induction bound generalizing g granules size with
  | zero =>
    constructor
    · intro h
      cases h
    · rintro ⟨hchain, hle⟩
      cases hchain <;> cases hle
  | succ bound ih =>
    rw [follow]
    by_cases hg : g.toNat < granuleCount
    · rw [if_neg (by omega)]
      dsimp only
      by_cases hnext : (d.allocation g).toNat < granuleCount
      · rw [if_pos hnext, bind_eq_ok_iff]
        constructor
        · rintro ⟨⟨granules, size⟩, hrest, hok⟩
          cases hok
          obtain ⟨hchain, hle⟩ := ih.1 hrest
          exact ⟨.link hg hnext hchain, Nat.succ_le_succ hle⟩
        · rintro ⟨hchain, hle⟩
          cases hchain with
          | last _ hlast => exact absurd hlast (not_isLast_of_lt hnext)
          | link _ _ hchain =>
            exact ⟨_, ih.2 ⟨hchain, Nat.le_of_succ_le_succ hle⟩, rfl⟩
      · rw [if_neg hnext]
        constructor
        · intro h
          split at h
          · cases h
          · next hlast =>
            cases h
            simp only [not_or, Nat.not_lt] at hlast
            exact ⟨.last hg ⟨UInt8.not_lt.1 hlast.1, hlast.2.1⟩ hlast.2.2, by simp⟩
        · rintro ⟨hchain, -⟩
          cases hchain with
          | last _ hlast hle =>
            rw [if_neg]
            · rfl
            · rintro (h | h | h)
              · exact absurd hlast.1 (UInt8.not_le.2 h)
              · exact absurd hlast.2 (Nat.not_le.2 h)
              · exact absurd hle (Nat.not_le.2 h)
          | link _ hlt => exact absurd hlt hnext
    · rw [if_pos (by omega)]
      constructor
      · intro h
        cases h
      · rintro ⟨hchain, -⟩
        cases hchain <;> contradiction

/-- No chain passes through a free granule. -/
theorem Chain.allocated (h : Chain d last g granules size) :
    ∀ h ∈ granules, d.allocation h ≠ freeMark := by
  induction h with
  | last _ hlast _ =>
    rw [List.forall_mem_singleton]
    intro hfree
    exact freeMark_not_isLast (hfree ▸ hlast)
  | link _ hnext _ ih =>
    refine List.forall_mem_cons.2 ⟨?_, ih⟩
    intro hfree
    rw [hfree] at hnext
    exact absurd hnext (by decide)

theorem Chain.congr (h : Chain d last g granules size)
    (hd : ∀ h ∈ granules, d'.allocation h = d.allocation h) :
    Chain d' last g granules size := by
  induction h with
  | last hg hlast hle =>
    rw [List.forall_mem_singleton] at hd
    rw [← hd] at hlast ⊢
    exact .last hg hlast hle
  | link hg hnext _ ih =>
    rw [List.forall_mem_cons] at hd
    rw [← hd.1] at hnext ih
    exact .link hg hnext (ih hd.2)

theorem gather_congr (h : ∀ g ∈ granules, ∀ count ≤ granuleSize,
      sliceOf d'.image (granuleOffset g) count = sliceOf d.image (granuleOffset g) count) :
    d'.gather granules size = d.gather granules size := by
  induction granules generalizing size with
  | nil => rfl
  | cons g granules ih =>
    rw [List.forall_mem_cons] at h
    rw [gather, gather, h.1 _ (Nat.min_le_left _ _), ih h.2]

end Chain

section Blocks

variable {d : Disk} {g : UInt8} {rest : List UInt8} {data : Bytes} {part : Nat}

/-- The last part of a file takes at least one and at most nine sectors, all of them full but the
last one. -/
theorem sectorsNeeded_bounds (h : part ≤ granuleSize) :
    1 ≤ sectorsNeeded part ∧ sectorsNeeded part ≤ sectorsPerGranule ∧
      (sectorsNeeded part - 1) * sectorSize ≤ part ∧ part ≤ sectorsNeeded part * sectorSize := by
  simp only [sectorsNeeded, sectorSize, sectorsPerGranule, granuleSize] at *
  omega

def sectorRest (part : Nat) : Nat :=
  part - (sectorsNeeded part - 1) * sectorSize

theorem sectorRest_le (h : part ≤ granuleSize) : sectorRest part ≤ sectorSize := by
  obtain ⟨h1, -, -, hle⟩ := sectorsNeeded_bounds h
  unfold sectorRest
  simp only [sectorSize] at *
  omega

theorem toNat_lastMark_add {sectors : Nat} (h : sectors ≤ sectorsPerGranule) :
    (lastMark + UInt8.ofNat sectors).toNat = lastMark.toNat + sectors := by
  simp only [sectorsPerGranule] at h
  rw [UInt8.toNat_add, UInt8.toNat_ofNat']
  change (192 + sectors % 256) % 256 = 192 + sectors
  omega

theorem isLast_lastMark_add {sectors : Nat} (h : sectors ≤ sectorsPerGranule) :
    IsLast (lastMark + UInt8.ofNat sectors) := by
  constructor
  · rw [UInt8.le_iff_toNat_le, toNat_lastMark_add h]
    exact Nat.le_add_right _ _
  · rw [toNat_lastMark_add h, Nat.add_sub_cancel_left]
    exact h

theorem lastSize_sectorRest (h : part ≤ granuleSize) :
    lastSize (lastMark + UInt8.ofNat (sectorsNeeded part)) (sectorRest part) = part := by
  obtain ⟨h1, h9, hle, -⟩ := sectorsNeeded_bounds h
  rw [lastSize, toNat_lastMark_add h9, Nat.add_sub_cancel_left, if_neg (by omega), sectorRest]
  omega

/-- Allocation entries as the blocks of a file have them make up a chain of its granules. -/
theorem chain_of_blocks (hpart : part ≤ granuleSize)
    (hlen : data.length = rest.length * granuleSize + part)
    (hlt : ∀ h ∈ g :: rest, h.toNat < granuleCount)
    (hnext : ∀ b ∈ blocks (g :: rest) data, d.allocation b.granule = b.next) :
    Chain d (sectorRest part) g (g :: rest) data.length := by
  -- All granules before the last one are full, so the rest ends in the same part.
  induction rest generalizing g data with
  | nil =>
    rw [List.length_nil, Nat.zero_mul, Nat.zero_add] at hlen
    rw [blocks, List.forall_mem_singleton, List.take_of_length_le (by omega), hlen] at hnext
    have hmark : d.allocation g = lastMark + UInt8.ofNat (sectorsNeeded part) := hnext
    have hchain :
        Chain d (sectorRest part) g [g] (lastSize (d.allocation g) (sectorRest part)) := by
      refine .last (hlt g List.mem_cons_self) ?_ (sectorRest_le hpart)
      rw [hmark]
      exact isLast_lastMark_add (sectorsNeeded_bounds hpart).2.1
    rw [hmark, lastSize_sectorRest hpart] at hchain
    rwa [hlen]
  | cons h rest ih =>
    rw [blocks, List.forall_mem_cons] at hnext
    rw [List.forall_mem_cons] at hlt
    have hsplit : data.length = granuleSize + (data.drop granuleSize).length := by
      rw [List.length_drop]
      rw [List.length_cons, Nat.succ_mul] at hlen
      omega
    have hrest : Chain d (sectorRest part) h (h :: rest) (data.drop granuleSize).length := by
      refine ih ?_ hlt.2 hnext.2
      rw [List.length_drop, hlen, List.length_cons, Nat.succ_mul]
      omega
    have hg : d.allocation g = h := hnext.1
    rw [hsplit]
    refine .link hlt.1 ?_ ?_ <;> rw [hg]
    · exact hlt.2 h List.mem_cons_self
    · exact hrest

/-- Granules as the blocks of a file have them hold its contents. -/
theorem gather_of_blocks (hpart : part ≤ granuleSize)
    (hlen : data.length = rest.length * granuleSize + part)
    (hdata : ∀ b ∈ blocks (g :: rest) data,
      sliceOf d.image (granuleOffset b.granule) b.data.length = b.data) :
    d.gather (g :: rest) data.length = data := by
  induction rest generalizing g data with
  | nil =>
    rw [List.length_nil, Nat.zero_mul, Nat.zero_add] at hlen
    rw [blocks, List.forall_mem_singleton, List.take_of_length_le (by omega)] at hdata
    rw [gather, Nat.min_eq_right (by omega), gather, List.append_nil]
    exact hdata
  | cons h rest ih =>
    rw [blocks, List.forall_mem_cons] at hdata
    rw [List.length_cons, Nat.succ_mul] at hlen
    have hfirst : sliceOf d.image (granuleOffset g) granuleSize = data.take granuleSize := by
      have htake : (data.take granuleSize).length = granuleSize := by
        rw [List.length_take, Nat.min_eq_left (by omega)]
      simpa only [htake] using hdata.1
    have hrest : d.gather (h :: rest) (data.length - granuleSize) = data.drop granuleSize := by
      rw [← List.length_drop]
      refine ih ?_ hdata.2
      rw [List.length_drop]
      omega
    rw [gather, Nat.min_eq_left (by omega), hfirst, hrest, List.take_append_drop]

end Blocks
end Forge6809.Disk
