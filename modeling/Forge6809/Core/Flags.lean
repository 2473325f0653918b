import Forge6809.Word

/-! # Condition codes

The condition code register holds eight flags. Every arithmetic function here takes the register
and gives it back beside the result, with the flags that the operation decides and all others as
they were. -/

namespace Forge6809.Core

namespace Condition

def carry : UInt8 := 0x01
def overflow : UInt8 := 0x02
def zero : UInt8 := 0x04
def negative : UInt8 := 0x08
def interruptMask : UInt8 := 0x10
def halfCarry : UInt8 := 0x20
def fastMask : UInt8 := 0x40
def entire : UInt8 := 0x80

def put (cc flag : UInt8) (on : Bool) : UInt8 :=
  if on then cc ||| flag else cc &&& ~~~flag

def isSet (cc flag : UInt8) : Bool :=
  cc &&& flag != 0

def sign8 (cc value : UInt8) : UInt8 :=
  put (put cc negative (value &&& 0x80 != 0)) zero (value == 0)

def sign16 (cc : UInt8) (value : UInt16) : UInt8 :=
  put (put cc negative (value &&& 0x8000 != 0)) zero (value == 0)

/-- The flags after moving or combining a byte: sign and zero, no overflow. -/
def moved8 (cc value : UInt8) : UInt8 :=
  put (sign8 cc value) overflow false

def moved16 (cc : UInt8) (value : UInt16) : UInt8 :=
  put (sign16 cc value) overflow false

end Condition

open Condition

def add8 (cc a m c : UInt8) : UInt8 × UInt8 :=
  let sum := a.toUInt16 + m.toUInt16 + c.toUInt16
  let r := sum.toUInt8
  let cc := sign8 cc r
  let cc := put cc halfCarry ((a &&& 0x0F) + (m &&& 0x0F) + c > 0x0F)
  let cc := put cc overflow (~~~(a ^^^ m) &&& (a ^^^ r) &&& 0x80 != 0)
  (r, put cc carry (sum > 0xFF))

def sub8 (cc a m c : UInt8) : UInt8 × UInt8 :=
  let r := a - m - c
  let cc := sign8 cc r
  let cc := put cc overflow ((a ^^^ m) &&& (a ^^^ r) &&& 0x80 != 0)
  (r, put cc carry (a.toUInt16 < m.toUInt16 + c.toUInt16))

def add16 (cc : UInt8) (a m : UInt16) : UInt16 × UInt8 :=
  let sum := a.toUInt32 + m.toUInt32
  let r := sum.toUInt16
  let cc := sign16 cc r
  let cc := put cc overflow (~~~(a ^^^ m) &&& (a ^^^ r) &&& 0x8000 != 0)
  (r, put cc carry (sum > 0xFFFF))

def sub16 (cc : UInt8) (a m : UInt16) : UInt16 × UInt8 :=
  let r := a - m
  let cc := sign16 cc r
  let cc := put cc overflow ((a ^^^ m) &&& (a ^^^ r) &&& 0x8000 != 0)
  (r, put cc carry (a < m))

end Forge6809.Core
