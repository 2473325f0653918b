import Forge6809.Text.Bytes

/-! # Geometry of a disk

A disk has 35 tracks of 18 sectors of 256 bytes. Track 17 holds the allocation table and the
directory; the other tracks are two granules each. Granules are allocated from the middle of the
disk outwards. -/

namespace Forge6809.Disk

def sectorSize : Nat := 256

def trackSize : Nat := 4608

def imageSize : Nat := 161280

def granuleSize : Nat := 2304

def sectorsPerGranule : Nat := 9

def granuleCount : Nat := 68

def directoryTrack : Nat := 17

def directoryOffset : Nat := directoryTrack * trackSize

/-- Where the allocation table begins in the directory track. -/
def tableOffset : Nat := sectorSize

/-- Where the directory entries begin in the directory track. -/
def entriesOffset : Nat := 2 * sectorSize

def entrySize : Nat := 32

def entryCount : Nat := 72

def freeMark : UInt8 := 0xFF

/-- Allocation entry of the last granule of a file, without its number of sectors. -/
def lastMark : UInt8 := 0xC0

/-- The granules in the order in which they are allocated. -/
def granuleOrder : List UInt8 :=
  [0x20, 0x21, 0x22, 0x23, 0x1E, 0x1F, 0x24, 0x25, 0x1C, 0x1D, 0x26, 0x27, 0x1A, 0x1B, 0x28, 0x29,
    0x18, 0x19, 0x2A, 0x2B, 0x16, 0x17, 0x2C, 0x2D, 0x14, 0x15, 0x2E, 0x2F, 0x12, 0x13, 0x30, 0x31,
    0x10, 0x11, 0x32, 0x33, 0x0E, 0x0F, 0x34, 0x35, 0x0C, 0x0D, 0x36, 0x37, 0x0A, 0x0B, 0x38, 0x39,
    0x08, 0x09, 0x3A, 0x3B, 0x06, 0x07, 0x3C, 0x3D, 0x04, 0x05, 0x3E, 0x3F, 0x02, 0x03, 0x40, 0x41,
    0x00, 0x01, 0x42, 0x43]

/-- Where a granule begins in the image. The directory track is skipped. -/
def granuleOffset (g : UInt8) : Nat :=
  let track := g.toNat / 2
  let track := if track ≥ directoryTrack then track + 1 else track
  track * trackSize + g.toNat % 2 * granuleSize

end Forge6809.Disk
