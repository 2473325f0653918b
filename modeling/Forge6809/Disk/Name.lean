import Forge6809.Disk.Error
import Forge6809.Store.Path
import Forge6809.Text.Numeral
import Forge6809.Text.Uppercase

/-! # Names of disk files

In the directory a name is eight bytes and an extension is three, in upper case and filled up with
spaces. Directories in front of a name are dropped, and the extension follows its last dot. -/

namespace Forge6809.Disk

open Text

def splitName (name : Bytes) : Bytes × Bytes :=
  let base := Store.Path.base name
  (cutLast? 0x2E base).getD (base, [])

/-- The bytes that a name may be made of: printable ASCII but the dot and the slash. -/
def isNameByte (b : UInt8) : Bool :=
  0x20 < b && b < 0x7F && b != 0x2E && b != slash

/-- The directory form of a name. Its length is checked before its characters. -/
def dirName (name : Bytes) : Except Cause Bytes :=
  let (base, ext) := splitName name
  if base.length > 8 ∨ ext.length > 3 then .error .nameTooLong
  else if base = [] ∨ !(base ++ ext).all isNameByte then .error .nameInvalid
  else .ok (padRight 8 (upper base) ++ padRight 3 (upper ext))

def entryName (raw : Bytes) : Bytes :=
  let name := trimEnd (· == 0x20) (raw.take 8)
  let ext := trimEnd (· == 0x20) ((raw.drop 8).take 3)
  if ext = [] then name else name ++ 0x2E :: ext

end Forge6809.Disk
