import Forge6809.Expr.Error
import Forge6809.Expr.Lexicon
import Forge6809.Stack
import Forge6809.Table

/-! # Values of operand expressions

Expressions are sums, differences and products of 16-bit words, with the product binding tighter
and all three associating to the left. Evaluation reads the tokens once from left to right with a
stack of values and a stack of pending operators and open parentheses. -/

namespace Forge6809.Expr

open Text

inductive Operator where
  | add
  | sub
  | mul
deriving DecidableEq, Repr

namespace Operator

def apply : Operator → UInt16 → UInt16 → UInt16
  | add, x, y => x + y
  | sub, x, y => x - y
  | mul, x, y => x * y

def precedence : Operator → Nat
  | add => 1
  | sub => 1
  | mul => 2

def ofKind? : Kind → Option Operator
  | .plus => some add
  | .minus => some sub
  | .asterisk => some mul
  | _ => none

end Operator

inductive Pending where
  | paren
  | op (o : Operator)
deriving DecidableEq, Repr

/-- The stacks between two tokens, and whether an operand has to come next. -/
structure State where
  values : Stack UInt16 := Stack.empty
  pending : Stack Pending := Stack.empty
  expectOperand : Bool := true
deriving DecidableEq, Repr

inductive Fault where
  | malformed
  | undefined (name : Bytes)
deriving DecidableEq, Repr

/-- Replaces the two topmost values by the result of an operator; none if there are fewer. -/
def reduce? (o : Operator) (values : Stack UInt16) : Option (Stack UInt16) :=
  match values.items with
  | right :: left :: r => some ⟨o.apply left right :: r⟩
  | _ => none

/-- Applies pending operators down to an open parenthesis or the first that `stop` holds of. -/
def unwind (stop : Operator → Bool) : List Pending → Stack UInt16 →
    Except Fault (List Pending × Stack UInt16)
  | .op o :: r, values =>
    if stop o then .ok (.op o :: r, values)
    else
      match reduce? o values with
      | some values => unwind stop r values
      | none => .error .malformed
  | ops, values => .ok (ops, values)

/-- The least number that does not fit in 64 bits. -/
def literalLimit : Nat := 0x10000000000000000

/-- The number that a run of digits stands for, if it fits in 64 bits, modulo 65536. -/
def literal (base : Nat) (digits : Bytes) : Except Fault UInt16 :=
  let n := numeralValue base digits
  if n < literalLimit then .ok (UInt16.ofNat n) else .error .malformed

/-- How the names of an expression are looked up: the value of a name, and whether it is known. -/
abbrev Resolver := Bytes → UInt16 × Bool

/-- Looks names up in a table of upper case names, without regard to case. -/
def resolver (equates : Table UInt16) : Resolver :=
  fun name =>
    match equates.get? (upper name) with
    | some v => (v, true)
    | none => (0, false)

instance : Coe (Table UInt16) Resolver := ⟨resolver⟩

/-- The value of a name. A name that need not be known has whatever value the resolver gives. -/
def nameValue (names : Resolver) (strict : Bool) (text : Bytes) : Except Fault UInt16 :=
  let (v, known) := names text
  if !known && strict then .error (.undefined (upper text)) else .ok v

/-- The value of an operand; none if the token is no operand. -/
def operand? (names : Resolver) (strict : Bool) (t : Token) : Option (Except Fault UInt16) :=
  match t.kind with
  | .hex => some (literal 16 t.text.tail)
  | .binary => some (literal 2 t.text.tail)
  | .integer => some (literal 10 t.text)
  | .identifier => some (nameValue names strict t.text)
  | _ => none

def step (names : Resolver) (strict : Bool) (s : State) (t : Token) : Except Fault State :=
  match operand? names strict t with
  | some value =>
    if s.expectOperand then do
      let v ← value
      return { s with values := s.values.push v, expectOperand := false }
    else throw .malformed
  | none =>
    match Operator.ofKind? t.kind with
    | some o =>
      if s.expectOperand then throw .malformed
      else do
        let (ops, values) ←
          unwind (fun top => top.precedence < o.precedence) s.pending.items s.values
        return ⟨values, ⟨.op o :: ops⟩, true⟩
    | none =>
      match t.kind with
      | .whitespace | .newline => return s
      | .leftParen =>
        if s.expectOperand then return { s with pending := s.pending.push .paren }
        else throw .malformed
      | .rightParen =>
        if s.expectOperand then throw .malformed
        else do
          let (ops, values) ← unwind (fun _ => false) s.pending.items s.values
          match ops with
          | .paren :: r => return ⟨values, ⟨r⟩, false⟩
          | _ => throw .malformed
      | _ => throw .malformed

def finish (s : State) : Except Fault UInt16 :=
  if s.expectOperand then throw .malformed
  else do
    let (ops, values) ← unwind (fun _ => false) s.pending.items s.values
    match ops, values.items with
    | [], [v] => return v
    | _, _ => throw .malformed

def evaluateTokens (names : Resolver) (strict : Bool) (ts : List Token) :
    Except Fault UInt16 := do
  finish (← ts.foldlM (step names strict) {})

/-- The value of an expression. A name that is not known is an error when `strict` is set. -/
def evaluate (text : Bytes) (names : Resolver) (strict : Bool) : Except Error UInt16 :=
  match evaluateTokens names strict (lexicon.tokens text) with
  | .ok v => .ok v
  | .error .malformed => .error (.malformed text)
  | .error (.undefined name) => .error (.undefined name)

end Forge6809.Expr
