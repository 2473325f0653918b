import Forge6809.Core.Machine

/-! # The processor in print -/

namespace Forge6809.Core.Machine

open Text

/-- The registers, one a line. -/
def dump (m : Machine) : Bytes :=
  let row (name : String) (value : Bytes) : Bytes :=
    padLeft 0x20 3 (ofString name) ++ ofString ": " ++ value ++ [0x0A]
  row "pc" (hexUpper 4 m.pc.toNat) ++ row "a" (hexUpper 2 m.a.toNat)
    ++ row "b" (hexUpper 2 m.b.toNat) ++ row "x" (hexUpper 4 m.x.toNat)
    ++ row "y" (hexUpper 4 m.y.toNat) ++ row "u" (hexUpper 4 m.u.toNat)
    ++ row "s" (hexUpper 4 m.s.toNat) ++ row "cc" (padLeft 0x30 8 (digits 2 m.cc.toNat))

def resetEntry (pc stack : UInt16) : Bytes :=
  ofString "reset: pc=" ++ hexUpper 4 pc.toNat ++ ofString " s=" ++ hexUpper 4 stack.toNat

def tickEntry (before after : Machine) : Bytes :=
  let show8 (name : String) (v : UInt8) : Bytes := ofString name ++ hexUpper 2 v.toNat
  let show16 (name : String) (v : UInt16) : Bytes := ofString name ++ hexUpper 4 v.toNat
  hexUpper 4 before.pc.toNat ++ ofString ": " ++ spacedHex (hexUpper 2) before.opcode
    ++ show16 " => pc=" after.pc ++ show8 " a=" after.a ++ show8 " b=" after.b
    ++ show16 " x=" after.x ++ show16 " y=" after.y ++ show16 " u=" after.u
    ++ show16 " s=" after.s ++ show8 " cc=" after.cc

end Forge6809.Core.Machine
