import Forge6809.Text.Utf8

/-! # Numerals and columns

Numbers are written in decimal, binary or hexadecimal, padded to the width of a column. The width
of a text is its number of characters. -/

namespace Forge6809.Text

/-- The digits of a number in a base up to sixteen, with lower case letters. -/
def digits (base n : Nat) : Bytes :=
  (Nat.toDigits base n).map fun c => c.toNat.toUInt8

def decimal (n : Nat) : Bytes :=
  digits 10 n

/-- Decimal numeral of an integer, a minus sign in front of the negative ones. -/
def signed (n : Int) : Bytes :=
  if n < 0 then 0x2D :: decimal n.natAbs else decimal n.natAbs

def padLeft (fill : UInt8) (width : Nat) (s : Bytes) : Bytes :=
  List.replicate (width - Utf8.count s) fill ++ s

def padRight (width : Nat) (s : Bytes) : Bytes :=
  s ++ List.replicate (width - Utf8.count s) 0x20

def hexLower (width n : Nat) : Bytes :=
  padLeft 0x30 width (digits 16 n)

def hexUpper (width n : Nat) : Bytes :=
  padLeft 0x30 width ((digits 16 n).map upperByte)

/-- Two digits for every byte, a space between them. -/
def spacedHex (digit : Nat → Bytes) (s : Bytes) : Bytes :=
  List.intercalate [0x20] (s.map fun b => digit b.toNat)

/-- Decimal digits in groups of three from the right, `mark` between the groups. -/
def grouped (mark : UInt8) (n : Nat) : Bytes :=
  if n < 1000 then decimal n
  else grouped mark (n / 1000) ++ mark :: padLeft 0x30 3 (decimal (n % 1000))
termination_by n

/-- The value of a digit of any base up to thirty-six; a byte that is no digit has none. -/
def digitValue? (b : UInt8) : Option Nat :=
  if isDigit b then some (b.toNat - 0x30)
  else if 0x41 ≤ b && b ≤ 0x5A then some (b.toNat - 0x41 + 10)
  else if 0x61 ≤ b && b ≤ 0x7A then some (b.toNat - 0x61 + 10)
  else none

/-- The number that a run of digits stands for; anything that is no digit counts as zero. -/
def numeralValue (base : Nat) (s : Bytes) : Nat :=
  s.foldl (fun n b => n * base + (digitValue? b).getD 0) 0

end Forge6809.Text
