import Forge6809.Expr.Error

/-! # Errors of source lines -/

namespace Forge6809.Assembly

open Message

inductive Cause where
  /-- An operand has no value. -/
  | expression (e : Expr.Error)
  /-- A label is defined again; `previous` is the line of its first definition, zero if it was
  predefined. -/
  | labelDuplicate (label : Bytes) (previous : Nat)
  | labelUndefined (label : Bytes)
  | labelRequired
  | labelInvalid (text : Bytes)
  /-- A label or equate has another value in the code pass than in the label scans. -/
  | phase (label : Bytes)
  | overflow
  | registerInvalid (name : Bytes)
  | operandInvalid
  | endOfLine
  /-- A mnemonic has no form for its operand. -/
  | instruction (mnemonic : Bytes)
  | tokenUnexpected (text : Bytes)
deriving DecidableEq, Repr

structure SyntaxError where
  lineNo : Nat
  line : Bytes
  cause : Cause
deriving DecidableEq, Repr

def labelMessage (lang : Language) (reason : String) (label : Bytes) : Bytes :=
  say lang "%v %v" [.text (say lang reason []), .text label]

def Cause.message (lang : Language) : Cause → Bytes
  | expression e => e.message lang
  | labelDuplicate label previous =>
    if previous = 0 then labelMessage lang "label duplicated" label
    else say lang "%v %v, first defined on line %d"
      [.text (say lang "label duplicated" []), .text label, .number previous]
  | labelUndefined label => labelMessage lang "label undefined" label
  | labelRequired => say lang "label required" []
  | labelInvalid text => labelMessage lang "label invalid" text
  | phase label => labelMessage lang "label moved between passes" label
  | overflow => say lang "value overflow" []
  | registerInvalid name =>
    say lang "%v '%v'" [.text (say lang "register invalid" []), .text name]
  | operandInvalid => say lang "operand invalid" []
  | endOfLine => say lang "unexpected end of line" []
  | instruction mnemonic =>
    say lang "%v not supported for %v" [.text (say lang "instruction invalid" []), .text mnemonic]
  | tokenUnexpected text => say lang "unexpected '%v'" [.text text]

def SyntaxError.message (lang : Language) (e : SyntaxError) : Bytes :=
  say lang "line %d '%v' %v" [.number e.lineNo, .text e.line, .text (e.cause.message lang)]

end Forge6809.Assembly
