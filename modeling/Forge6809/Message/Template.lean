import Forge6809.Message.Language
import Forge6809.Text.Numeral

/-! # Message templates

A template is text with directives: a percent sign, flags, a width and a verb. Each directive takes
the next argument. Decimal numbers are grouped by the rule of the language; hexadecimal ones are
not. A directive without an argument, an argument without a directive and a verb that does not fit
its argument are shown in place, so that writing a message never fails. -/

namespace Forge6809.Message

open Text

inductive Arg where
  | text (s : Bytes)
  | number (n : Int)
  | octets (s : Bytes)
deriving DecidableEq, Repr

inductive Piece where
  | literal (b : UInt8)
  | directive (flags : Bytes) (width : Nat) (verb : UInt8)
  /-- A percent sign at the end of the template. -/
  | noVerb
deriving DecidableEq, Repr

def isFlag (b : UInt8) : Bool :=
  b == 0x2D || b == 0x2B || b == 0x23 || b == 0x20 || b == 0x30

/-- The directive after a percent sign, and what follows it; none at the end of the template. -/
def directive? (s : Bytes) : Option (Piece × Bytes) :=
  let flags := s.takeWhile isFlag
  let body := s.dropWhile isFlag
  let width := body.takeWhile isDigit
  match body.dropWhile isDigit with
  | [] => none
  | verb :: rest => some (.directive flags (numeralValue 10 width) verb, rest)

theorem length_lt_of_directive? {s rest : Bytes} {p : Piece} (h : directive? s = some (p, rest)) :
    rest.length < s.length := by
  have hf := (List.dropWhile_sublist (l := s) isFlag).length_le
  have hd := (List.dropWhile_sublist (l := s.dropWhile isFlag) isDigit).length_le
  simp only [directive?] at h
  split at h
  · contradiction
  · next hb =>
    cases h
    rw [hb, List.length_cons] at hd
    omega

def pieces (s : Bytes) : List Piece :=
  match s with
  | [] => []
  | b :: r =>
    if b = 0x25 then
      match _h : directive? r with
      | none => [.noVerb]
      | some (p, rest) => p :: pieces rest
    else .literal b :: pieces r
termination_by s.length
decreasing_by
  · exact Nat.lt_succ_of_lt (length_lt_of_directive? _h)
  · exact Nat.lt_succ_self r.length

/-- Fills a field: on the right with the flag `-`, with zeros on the left with the flag `0`. -/
def pad (flags : Bytes) (width : Nat) (s : Bytes) : Bytes :=
  if 0x2D ∈ flags then padRight width s
  else padLeft (if 0x30 ∈ flags then 0x30 else 0x20) width s

/-- The sign of a number. Under the flag `+` every number has one; the space flag puts a blank in
the place of a plus sign. -/
def signMark (flags : Bytes) (n : Int) : Bytes :=
  if n < 0 then [0x2D] else if 0x2B ∈ flags then [0x2B] else if 0x20 ∈ flags then [0x20] else []

def plainNumber (flags : Bytes) (width base : Nat) (case : UInt8 → UInt8) (n : Int) : Bytes :=
  let sign := signMark flags n
  let body := (digits base n.natAbs).map case
  if 0x30 ∈ flags ∧ 0x2D ∉ flags then sign ++ padLeft 0x30 (width - sign.length) body
  else pad (flags.filter (· != 0x30)) width (sign ++ body)

def decimalNumber (lang : Language) (flags : Bytes) (width : Nat) (n : Int) : Bytes :=
  pad flags width (signMark flags n ++ grouped lang.groupMark n.natAbs)

def Arg.plain (lang : Language) : Arg → Bytes
  | text s => s
  | number n => decimalNumber lang [] 0 n
  | octets s => spacedHex (hexLower 2) s

def Arg.typeName : Arg → String
  | text _ => "string"
  | number _ => "int"
  | octets _ => "bytes"

def hexText (flags : Bytes) (width : Nat) (case : UInt8 → UInt8) (s : Bytes) : Bytes :=
  let pair (n : Nat) := (hexLower 2 n).map case
  pad flags width (if 0x20 ∈ flags then spacedHex pair s else s.flatMap fun b => pair b.toNat)

/-- An argument as a directive shows it; none if the verb does not fit. -/
def fitting? (lang : Language) (flags : Bytes) (width : Nat) (verb : UInt8) : Arg → Option Bytes
  | .text s =>
    if verb = 0x76 ∨ verb = 0x73 then some (pad flags width s)
    else if verb = 0x78 then some (hexText flags width id s)
    else if verb = 0x58 then some (hexText flags width upperByte s)
    else none
  | .octets s =>
    if verb = 0x78 then some (hexText flags width id s)
    else if verb = 0x58 then some (hexText flags width upperByte s)
    else none
  | .number n =>
    if verb = 0x76 ∨ verb = 0x64 then some (decimalNumber lang flags width n)
    else if verb = 0x62 then some (plainNumber flags width 2 id n)
    else if verb = 0x78 then some (plainNumber flags width 16 id n)
    else if verb = 0x58 then some (plainNumber flags width 16 upperByte n)
    else none

/-- An argument as a directive shows it. Where the verb does not fit, the type of the argument is
named and its plain form fills the field. -/
def showArg (lang : Language) (flags : Bytes) (width : Nat) (verb : UInt8) (arg : Arg) : Bytes :=
  match fitting? lang flags width verb arg with
  | some s => s
  | none =>
    let plain := (fitting? lang flags width 0x76 arg).getD (arg.plain lang)
    [0x25, 0x21, verb, 0x28] ++ ofString arg.typeName ++ 0x3D :: plain ++ [0x29]

/-- The arguments that no directive took. -/
def extra (lang : Language) (args : List Arg) : Bytes :=
  ofString "%!(EXTRA " ++ List.intercalate (ofString ", ")
    (args.map fun a => ofString a.typeName ++ 0x3D :: a.plain lang) ++ [0x29]

/-- Fills in a template. `taken` tells whether a directive took an argument before; only then are
arguments left over shown. -/
def fill (lang : Language) (taken : Bool) : List Piece → List Arg → Bytes
  | [], args => if taken && !args.isEmpty then extra lang args else []
  | .literal b :: r, args => b :: fill lang taken r args
  | .noVerb :: r, args => ofString "%!(NOVERB)" ++ fill lang taken r args
  | .directive flags width verb :: r, args =>
    if verb = 0x25 then 0x25 :: fill lang taken r args
    else
      match args with
      | [] => [0x25, 0x21, verb] ++ ofString "(MISSING)" ++ fill lang taken r []
      | a :: args => showArg lang flags width verb a ++ fill lang true r args

/-- A message in a language, by its English template. -/
def say (lang : Language) (key : String) (args : List Arg) : Bytes :=
  fill lang false (pieces (ofString (lang.template key))) args

end Forge6809.Message
