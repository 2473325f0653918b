import Forge6809.Disk.FileType
import Forge6809.Disk.Image
import Forge6809.Disk.Name
import Forge6809.Word

/-! # The directory

The contents of a file are a chain of granules: each allocation entry names the next granule, and
the last one the number of sectors used in it. The directory has the first granule and the number
of bytes in the last sector. -/

namespace Forge6809.Disk

open Text

structure Entry where
  name : Bytes
  type : FileType
  mode : FileMode
  granule : UInt8
  size : Nat
deriving DecidableEq, Repr

def Entry.listed (e : Entry) : Bytes :=
  padRight 12 e.name ++ ofString " " ++ padRight 5 e.type.label ++ ofString " "
    ++ padRight 6 e.mode.label ++ ofString " " ++ padLeft 0x20 6 (decimal e.size)

/-- Follows a chain of at most `bound` granules: the granules and the length of the file. -/
def follow (d : Disk) (last : Nat) : Nat → UInt8 → Except Cause (List UInt8 × Nat)
  | 0, _ => .error .chain
  | bound + 1, g =>
    if g.toNat ≥ granuleCount then .error .chain
    else
      let next := d.allocation g
      if next.toNat < granuleCount then do
        let (granules, size) ← d.follow last bound next
        return (g :: granules, granuleSize + size)
      else
        let sectors := next.toNat - lastMark.toNat
        if next < lastMark ∨ sectors > sectorsPerGranule ∨ last > sectorSize then .error .chain
        else .ok ([g], if sectors = 0 then 0 else (sectors - 1) * sectorSize + last)

/-- The granules of a file and its length, from its first granule and the number of bytes in its
last sector. -/
def chain (d : Disk) (first : UInt8) (last : Nat) : Except Cause (List UInt8 × Nat) :=
  d.follow last granuleCount first

def entryChain (d : Disk) (e : Bytes) : Except Cause (List UInt8 × Nat) :=
  d.chain (e.getD 13 0) (wordOf (e.getD 14 0) (e.getD 15 0)).toNat

/-- The entries of some slots, up to the end of the directory or the first bad chain. -/
def listSlots (d : Disk) : List Nat → List Entry × Option Error
  | [] => ([], none)
  | slot :: rest =>
    let e := d.entry slot
    let mark := e.getD 0 0
    if mark = 0xFF then ([], none)
    else if mark = 0x00 then d.listSlots rest
    else
      let name := entryName e
      match d.entryChain e with
      | .error cause => ([], some ⟨name, cause⟩)
      | .ok (_, size) =>
        let (entries, error) := d.listSlots rest
        (⟨name, ⟨(e.getD 11 0).toNat⟩, .ofFlag (e.getD 12 0), e.getD 13 0, size⟩ :: entries, error)

/-- The files of a disk; if a chain is bad, those before it and the error. -/
def files (d : Disk) : List Entry × Option Error :=
  d.listSlots (List.range entryCount)

/-- The slot of some that holds a name in its directory form. -/
def lookupIn (d : Disk) (raw : Bytes) : List Nat → Option Nat
  | [] => none
  | slot :: rest =>
    let e := d.entry slot
    let mark := e.getD 0 0
    if mark = 0xFF then none
    else if mark ≠ 0x00 ∧ e.take 11 = raw then some slot
    else d.lookupIn raw rest

def lookup? (d : Disk) (raw : Bytes) : Option Nat :=
  d.lookupIn raw (List.range entryCount)

def gather (d : Disk) : List UInt8 → Nat → Bytes
  | [], _ => []
  | g :: rest, size =>
    let n := min granuleSize size
    sliceOf d.image (granuleOffset g) n ++ d.gather rest (size - n)

def contents (d : Disk) (raw : Bytes) : Except Cause Bytes :=
  match d.lookup? raw with
  | none => .error .notFound
  | some slot => do
    let (granules, size) ← d.entryChain (d.entry slot)
    return d.gather granules size

def read (d : Disk) (name : Bytes) : Except Error Bytes :=
  ((dirName name).bind d.contents).mapError fun cause => ⟨name, cause⟩

end Forge6809.Disk
