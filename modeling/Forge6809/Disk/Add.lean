import Forge6809.Disk.Directory

/-! # Adding a file

A new file is placed first: its directory slot and its granules are chosen without changing the
disk, and everything that can be refused is refused then. Writing a placed file cannot fail. -/

namespace Forge6809.Disk

open Text

structure NewFile where
  name : Bytes
  type : FileType
  mode : FileMode
  data : Bytes

structure Placement where
  /-- The directory form of the name. -/
  raw : Bytes
  type : FileType
  /-- The mode, never automatic. -/
  mode : FileMode
  slot : Nat
  /-- The granules in the order of the contents. -/
  granules : List UInt8
  data : Bytes

/-- The number of granules that contents of some length take; never zero. -/
def granulesNeeded (length : Nat) : Nat :=
  max 1 ((length + granuleSize - 1) / granuleSize)

def freeSlot? (d : Disk) : Option Nat :=
  if d.formatted then
    (List.range entryCount).find? fun slot =>
      let mark := (d.entry slot).getD 0 0
      mark == 0x00 || mark == 0xFF
  else some 0

/-- Up to so many free granules, in the order of allocation. -/
def freeGranules (d : Disk) (count : Nat) : List UInt8 :=
  if d.formatted then (granuleOrder.filter fun g => d.allocation g == freeMark).take count
  else granuleOrder.take count

def place (d : Disk) (f : NewFile) : Except Cause Placement := do
  let raw ← dirName f.name
  if !f.type.isNamed then throw .typeInvalid
  if d.formatted && (d.lookup? raw).isSome then throw .duplicate
  let need := granulesNeeded f.data.length
  let granules := d.freeGranules need
  match d.freeSlot? with
  | none => throw .full
  | some slot =>
    if granules.length < need then throw .full
    return ⟨raw, f.type, f.mode.resolve f.type, slot, granules, f.data⟩

/-- The number of sectors that the last part of a file takes; never zero. -/
def sectorsNeeded (length : Nat) : Nat :=
  max 1 ((length + sectorSize - 1) / sectorSize)

structure Block where
  granule : UInt8
  data : Bytes
  /-- The allocation entry: the next granule, or the last mark and the number of sectors. -/
  next : UInt8

def blocks : List UInt8 → Bytes → List Block
  | [], _ => []
  | [g], data =>
    let part := data.take granuleSize
    [⟨g, part, lastMark + UInt8.ofNat (sectorsNeeded part.length)⟩]
  | g :: h :: rest, data =>
    ⟨g, data.take granuleSize, h⟩ :: blocks (h :: rest) (data.drop granuleSize)

namespace Placement

def blocks (p : Placement) : List Block :=
  Disk.blocks p.granules p.data

def lastBytes (p : Placement) : Nat :=
  let part := ((p.blocks.getLast?).map (·.data.length)).getD 0
  part - (sectorsNeeded part - 1) * sectorSize

def entry (p : Placement) : Bytes :=
  p.raw ++ [p.type.byte, p.mode.flag, p.granules.headD 0]
    ++ wordBytes (UInt16.ofNat p.lastBytes) ++ List.replicate 16 0

def journal (p : Placement) : List Bytes :=
  p.blocks.map (fun b =>
    ofString "granule " ++ hexUpper 2 b.granule.toNat ++ ofString ": " ++ decimal b.data.length
      ++ ofString " bytes at " ++ hexUpper 6 (granuleOffset b.granule) ++ ofString ", next "
      ++ hexUpper 2 b.next.toNat) ++
  [ofString "directory " ++ decimal p.slot ++ ofString ": " ++ p.raw ++ ofString " " ++ p.type.label
    ++ ofString " " ++ p.mode.label]

end Placement

def writeBlock (d : Disk) (b : Block) : Disk :=
  { d with
    image := overwrite d.image (granuleOffset b.granule) b.data
    track := d.track.setIfInBounds (tableOffset + b.granule.toNat) b.next }

def writeEntry (d : Disk) (slot : Nat) (entry : Bytes) : Disk :=
  { d with track := overwrite d.track (entriesOffset + slot * entrySize) entry }

def commitTrack (d : Disk) : Disk :=
  { d with image := overwrite d.image directoryOffset d.track.toList }

def write (d : Disk) (p : Placement) : Disk :=
  let d := if d.formatted then d else blank
  ((p.blocks.foldl writeBlock d).writeEntry p.slot p.entry).commitTrack

/-- Adds a file. A disk that refuses it stays as it is. -/
def add (d : Disk) (f : NewFile) : Except Error Placement × Disk :=
  match d.place f with
  | .error cause => (.error ⟨f.name, cause⟩, d)
  | .ok p => (.ok p, d.write p)

end Forge6809.Disk
