import Forge6809.Text.Numeral
import Forge6809.Text.Printable

/-! # Quoted texts

A text is shown between double quotes. Printable characters stand for themselves; quotes and
backslashes get a backslash, and everything else is written as an escape. -/

namespace Forge6809.Text

def escapeByte (b : UInt8) : Bytes :=
  ofString "\\x" ++ hexLower 2 b.toNat

def escapeCode (code : Nat) : Bytes :=
  if code = 0x22 ∨ code = 0x5C then [0x5C, code.toUInt8]
  else if isPrintable code then Utf8.encode code
  else
    match code with
    | 0x07 => ofString "\\a"
    | 0x08 => ofString "\\b"
    | 0x09 => ofString "\\t"
    | 0x0A => ofString "\\n"
    | 0x0B => ofString "\\v"
    | 0x0C => ofString "\\f"
    | 0x0D => ofString "\\r"
    | _ =>
      if code < 0x80 then escapeByte code.toUInt8
      else if code < 0x10000 then ofString "\\u" ++ hexLower 4 code
      else ofString "\\U" ++ hexLower 8 code

def escape (s : Bytes) : Bytes :=
  match s with
  | [] => []
  | a :: r =>
    match Utf8.decode (a :: r) with
    | some (code, n) => escapeCode code ++ escape (r.drop (n - 1))
    | none => escapeByte a ++ escape r
termination_by s.length
decreasing_by all_goals simp only [List.length_drop, List.length_cons]; omega

def quote (s : Bytes) : Bytes :=
  0x22 :: escape s ++ [0x22]

end Forge6809.Text
