import Forge6809.Text.Label

/-! # Types and modes of disk files

A directory entry holds a type code and a mode flag. Codes without a name are kept as they are
found; only the named types can be given to a new file. -/

namespace Forge6809.Disk

open Text

structure FileType where
  code : Int
deriving DecidableEq, Repr

namespace FileType

def basic : FileType := ⟨0⟩
def data : FileType := ⟨1⟩
def machineLanguage : FileType := ⟨2⟩
def text : FileType := ⟨3⟩

def names : List String :=
  ["basic", "data", "ml", "text"]

def label (t : FileType) : Bytes :=
  Text.label "FileType" names t.code

def ofName? (name : Bytes) : Option FileType :=
  (codeOf? names name).map fun n => ⟨n⟩

def isNamed (t : FileType) : Bool :=
  0 ≤ t.code && t.code ≤ 3

def byte (t : FileType) : UInt8 :=
  UInt8.ofInt t.code

end FileType

structure FileMode where
  code : Int
deriving DecidableEq, Repr

namespace FileMode

def automatic : FileMode := ⟨0⟩
def binary : FileMode := ⟨1⟩
def ascii : FileMode := ⟨2⟩

def names : List String :=
  ["auto", "binary", "ascii"]

def label (m : FileMode) : Bytes :=
  Text.label "FileMode" names m.code

def ofName? (name : Bytes) : Option FileMode :=
  (codeOf? names name).map fun n => ⟨n⟩

/-- The automatic mode is binary for machine language and ASCII for everything else. -/
def resolve (m : FileMode) (t : FileType) : FileMode :=
  if m ≠ automatic then m
  else if t = .machineLanguage then binary
  else ascii

def flag (m : FileMode) : UInt8 :=
  if m = ascii then 0xFF else 0x00

def ofFlag (flag : UInt8) : FileMode :=
  if flag = 0x00 then binary else ascii

end FileMode
end Forge6809.Disk
