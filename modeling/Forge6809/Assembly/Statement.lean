import Forge6809.Assembly.Error
import Forge6809.Assembly.Operand
import Forge6809.Assembly.Postbyte
import Forge6809.Expr.Eval

/-! # Statements

A source line is an optional label followed by a directive, an instruction or nothing. Assembling
it reads and updates the tables of a session and gives the bytes of its code. In the label scans a
name that is not known yet counts as zero; in the code pass every name must be known, and no label
may have moved. -/

namespace Forge6809.Assembly

open Text

inductive Pass where
  /-- The first label scan, which notes where each name is defined. -/
  | collect
  /-- A further label scan. -/
  | settle
  /-- The pass that generates code. -/
  | code
deriving DecidableEq, Repr

def Pass.number : Pass → Nat
  | collect => 1
  | settle => 1
  | code => 2

/-- The state of an assembly between two lines. -/
structure Session where
  pass : Pass
  /-- Distances of the labels from the origin. -/
  symbols : Table UInt16
  equates : Table UInt16
  /-- The line that defines each name, zero for a predefined one. -/
  defined : Table Nat
  offset : UInt16 := 0
  origin : UInt16 := 0
  exec : UInt16 := 0

namespace Session

def evaluate (s : Session) (text : Bytes) : Except Cause UInt16 :=
  (Expr.evaluate text s.equates (s.pass = .code)).mapError .expression

/-- Gives a label the current offset, or checks in the code pass that it has it. -/
def define (s : Session) (lineNo : Nat) (name : Bytes) : Except Cause Session :=
  match s.pass with
  | .collect =>
    match s.defined.get? name with
    | some previous => .error (.labelDuplicate name previous)
    | none =>
      .ok { s with
        defined := s.defined.insert name lineNo
        symbols := s.symbols.insert name s.offset }
  | .settle => .ok { s with symbols := s.symbols.insert name s.offset }
  | .code =>
    match s.symbols.get? name with
    | some offset => if offset = s.offset then .ok s else .error (.phase name)
    | none => .ok s

def originDirective (s : Session) (ts : List Token) : Except Cause Session := do
  let origin ← s.evaluate (operandText [] false ts).1
  return { s with origin }

def equateDirective (s : Session) (label : Option Bytes) (ts : List Token) :
    Except Cause Session :=
  match label with
  | none => .error .labelRequired
  | some name => do
    let value ← s.evaluate (operandText [] false ts).1
    if s.pass = .code && (s.equates.get? name).getD 0 != value then throw (.phase name)
    return { s with symbols := s.symbols.erase name, equates := s.equates.insert name value }

def endDirective (s : Session) (ts : List Token) : Except Cause Session :=
  match skipBlanks ts with
  | [] => .error (.labelInvalid [])
  | t :: _ =>
    if t.kind != .identifier then .error (.labelInvalid t.text)
    else if s.pass != .code then .ok s
    else
      match s.symbols.get? t.word with
      | none => .error (.labelUndefined t.word)
      | some offset => .ok { s with exec := offset + s.origin }

def directive (s : Session) (label : Option Bytes) (word : Bytes) (ts : List Token) :
    Except Cause Session :=
  if word = ofString "ORG" then s.originDirective ts
  else if word = ofString "EQU" then s.equateDirective label ts
  else if word = ofString "END" then s.endDirective ts
  else .ok s

def autoDecrement (ts : List Token) : AutoMode × List Token :=
  match ts with
  | [] => (.none, [])
  | t :: r =>
    if t.kind = .decrement1 then (.decrement1, r)
    else if t.kind = .decrement2 then (.decrement2, r)
    else (.none, t :: r)

def autoIncrement (ts : List Token) : AutoMode :=
  match ts with
  | [] => .none
  | t :: _ =>
    if t.kind = .increment1 then .increment1
    else if t.kind = .increment2 then .increment2
    else .none

/-- The register of an indexed operand and its automatic mode, from the tokens after the comma. -/
def indexTarget (ts : List Token) : Except Cause (IndexRegister × AutoMode) :=
  let before := autoDecrement (skipBlanks ts)
  match before.2 with
  | [] => .error .endOfLine
  | t :: r =>
    match t.kind, IndexRegister.ofName? t.word with
    | .register, some reg =>
      .ok (reg, if before.1 = .none then autoIncrement r else before.1)
    | _, _ => .error (.registerInvalid t.word)

/-- Whether an offset is negated, and the tokens after the sign. -/
def offsetSign (ts : List Token) : Bool × List Token :=
  match ts with
  | [] => (false, [])
  | t :: r => if t.kind = .decrement1 then (true, r) else (false, t :: r)

def indexed (s : Session) (ts : List Token) : Except Cause Bytes :=
  let sign := offsetSign ts
  match operandText [.comma] false sign.2 with
  | (_, none) => .error .endOfLine
  | (text, some rest) => do
    let offset ← if trim text = [] then pure 0 else s.evaluate text
    let (reg, auto) ← indexTarget rest
    if auto != .none && offset != 0 then throw .operandInvalid
    return postbyte reg offset sign.1 auto

def immediate (s : Session) (mnemonic : Bytes) (ins : Instruction) (ts : List Token) :
    Except Cause Bytes := do
  let value ← s.evaluate (operandText [] false ts).1
  match ins.immediate8, ins.immediate16 with
  | some opcode, _ =>
    if value > 0xFF && s.pass = .code then throw .overflow
    return opcode ++ [lowByte value]
  | none, some opcode => return opcode ++ wordBytes value
  | none, none => throw (.instruction mnemonic)

def instruction (s : Session) (mnemonic : Bytes) (ts : List Token) : Except Cause Bytes :=
  match instruction? mnemonic with
  | none => .error (.instruction mnemonic)
  | some ins =>
    match ins.inherent with
    | some opcode => .ok opcode
    | none =>
      match skipBlanks ts with
      | [] => .error .endOfLine
      | t :: r =>
        if t.kind = .pound then s.immediate mnemonic ins r
        else
          match ins.indexed with
          | none => .error (.instruction mnemonic)
          | some opcode => do
            let post ← s.indexed (t :: r)
            return opcode ++ post

/-- The label of a line, the session in which it is defined, and the tokens after it. -/
def label (s : Session) (lineNo : Nat) (ts : List Token) :
    Except Cause (Option Bytes × Session × List Token) :=
  match skipBlanks ts with
  | [] => .ok (none, s, [])
  | t :: r =>
    if t.kind = .identifier then do
      let s ← s.define lineNo t.word
      return (some t.word, s, r)
    else .ok (none, s, t :: r)

def statement (s : Session) (lineNo : Nat) (text : Bytes) : Except Cause (Session × Bytes) := do
  let (label, s, ts) ← s.label lineNo (lexicon.tokens text)
  match skipBlanks ts with
  | [] => return (s, [])
  | t :: r =>
    match t.kind with
    | .comment | .newline => return (s, [])
    | .directive => return (← s.directive label t.word r, [])
    | .mnemonic =>
      let code ← s.instruction t.word r
      return ({ s with offset := s.offset + UInt16.ofNat code.length }, code)
    | _ => throw (.tokenUnexpected t.text)

end Session
end Forge6809.Assembly
