import Forge6809.Disk.Error
import Forge6809.Disk.Geometry

/-! # Disk images

A disk is an image and a staged copy of its directory track, which is written back after every
file that is added. A new disk is not formatted; the first file added to it formats it. -/

namespace Forge6809

/-- The bytes from an offset on, as many as there are up to `count`. -/
def sliceOf {n : Nat} (v : Vector UInt8 n) (offset count : Nat) : Bytes :=
  (v.toArray.extract offset (offset + count)).toList

/-- Overwrites the bytes from an offset on; what would lie outside is dropped. -/
def overwrite {n : Nat} (v : Vector UInt8 n) (offset : Nat) : Bytes → Vector UInt8 n
  | [] => v
  | b :: r => overwrite (v.setIfInBounds offset b) (offset + 1) r

structure Disk where
  image : Vector UInt8 Disk.imageSize
  /-- The staged directory track. -/
  track : Vector UInt8 Disk.trackSize
  formatted : Bool
deriving DecidableEq

namespace Disk

/-- An unformatted disk, every bit of its image set. -/
def new : Disk :=
  ⟨Vector.replicate imageSize 0xFF, Vector.replicate trackSize 0, false⟩

/-- An unformatted disk of zero bytes. -/
def zero : Disk :=
  ⟨Vector.replicate imageSize 0, Vector.replicate trackSize 0, false⟩

/-- A formatted disk without files. -/
def blank : Disk :=
  ⟨Vector.replicate imageSize 0xFF,
    overwrite (Vector.replicate trackSize 0) tableOffset (List.replicate granuleCount freeMark),
    true⟩

def allocation (d : Disk) (g : UInt8) : UInt8 :=
  d.track.getD (tableOffset + g.toNat) 0

def entry (d : Disk) (slot : Nat) : Bytes :=
  sliceOf d.track (entriesOffset + slot * entrySize) entrySize

def marshal (d : Disk) : Bytes :=
  d.image.toList

def ofImage? (data : Bytes) : Except Cause Disk :=
  if h : data.length = imageSize then
    let image : Vector UInt8 imageSize := ⟨data.toArray, by simpa using h⟩
    let track := sliceOf image directoryOffset trackSize
    .ok ⟨image, overwrite (Vector.replicate trackSize 0) 0 track, true⟩
  else .error .imageSize

/-- Replaces a disk by an image; the disk stays as it is if the image has the wrong size. -/
def unmarshal (d : Disk) (data : Bytes) : Except Cause Unit × Disk :=
  match ofImage? data with
  | .ok d => (.ok (), d)
  | .error e => (.error e, d)

end Disk
end Forge6809
