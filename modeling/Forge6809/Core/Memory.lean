import Forge6809.Word

/-! # Memory

The address space has 65536 bytes. Addresses are words, so every access is inside it and wraps at
its end. -/

namespace Forge6809.Core

structure Memory where
  cells : Vector UInt8 65536
deriving DecidableEq

namespace Memory

def clear : Memory := ⟨Vector.replicate 65536 0⟩

def read8 (m : Memory) (addr : UInt16) : UInt8 :=
  m.cells.get ⟨addr.toNat, UInt16.toNat_lt addr⟩

def write8 (m : Memory) (addr : UInt16) (value : UInt8) : Memory :=
  ⟨m.cells.set addr.toNat value (UInt16.toNat_lt addr)⟩

def read16 (m : Memory) (addr : UInt16) : UInt16 :=
  wordOf (m.read8 addr) (m.read8 (addr + 1))

def write16 (m : Memory) (addr value : UInt16) : Memory :=
  (m.write8 addr (highByte value)).write8 (addr + 1) (lowByte value)

def load (m : Memory) (addr : UInt16) : Bytes → Memory
  | [] => m
  | b :: r => (m.write8 addr b).load (addr + 1) r

def dump (m : Memory) (addr : UInt16) (count : Nat) : Bytes :=
  (List.range count).map fun i => m.read8 (addr + UInt16.ofNat i)

/-- The addresses at which two memories differ, with the bytes of the second. -/
def changes (old new : Memory) : List (Nat × UInt8) :=
  (List.range 65536).filterMap fun i =>
    let addr := UInt16.ofNat i
    if old.read8 addr = new.read8 addr then none else some (i, new.read8 addr)

theorem read8_write8 (m : Memory) (addr addr' : UInt16) (value : UInt8) :
    (m.write8 addr value).read8 addr' = if addr' = addr then value else m.read8 addr' := by
  have h : addr'.toNat < 65536 := UInt16.toNat_lt addr'
  change (m.cells.set addr.toNat value (UInt16.toNat_lt addr))[addr'.toNat] = _
  rw [Vector.getElem_set]
  simp only [eq_comm, UInt16.toNat_inj]
  rfl

end Memory
end Forge6809.Core
