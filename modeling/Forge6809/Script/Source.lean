import Forge6809.Script.Lexeme
import Forge6809.Script.Mistake
import Forge6809.Script.Term

/-! # Reading scripts

A script has a call on each line, and a name and an equals sign in front of it if the result is
saved. What does not fit is a mistake at the place where it was noticed: the start of a lexeme that
begins no argument, the end of any other lexeme that is not the expected one.

Expressions can be more than arguments: calls inside calls, operators, functions without a name.
They are read, so that a mistake after them is found, and refused when all is read. Blocks of
statements are refused at once. -/

namespace Forge6809.Script

open Text

structure Reader where
  rest : List Located
  refusal : Option Mistake := none

abbrev Reading := StateT Reader (Except Mistake)

namespace Reading

def comma : Lexeme := .mark [0x2C]
def colon : Lexeme := .mark [0x3A]
def semicolon : Lexeme := .mark [0x3B]
def equals : Lexeme := .mark [0x3D]
def dot : Lexeme := .mark [0x2E]
def star : Lexeme := .mark [0x2A]
def doubleStar : Lexeme := .mark [0x2A, 0x2A]
def minus : Lexeme := .mark [0x2D]
def openParen : Lexeme := .mark [0x28]
def closeParen : Lexeme := .mark [0x29]
def openBracket : Lexeme := .mark [0x5B]
def closeBracket : Lexeme := .mark [0x5D]
def openBrace : Lexeme := .mark [0x7B]
def closeBrace : Lexeme := .mark [0x7D]

def word (s : String) : Lexeme := .keyword (ofString s)

def peek : Reading Located := do
  match (← get).rest.head? with
  | some ⟨.bad reason, start, _⟩ => throw ⟨start, .lexical reason⟩
  | some l => return l
  | none => return ⟨.textEnd, {}, {}⟩

def advance : Reading Unit :=
  modify fun r => { r with rest := r.rest.tail }

def sees (ls : List Lexeme) : Reading Bool := do
  return ls.contains (← peek).lexeme

def accept (l : Lexeme) : Reading Bool := do
  if ← sees [l] then
    advance
    return true
  return false

def expect (l : Lexeme) : Reading Unit := do
  let next ← peek
  if next.lexeme == l then advance
  else throw ⟨next.stop, .expected next.lexeme.shown l.shown⟩

def refuse (here : Position) : Reading Unit :=
  modify fun r => { r with refusal := r.refusal <|> some ⟨here, .notCall⟩ }

/-- Refuses what stands at a place. The empty list takes its place. -/
def refused (here : Position) : Reading Term := do
  refuse here
  return .list []

def name : Reading Name := do
  let next ← peek
  match next.lexeme with
  | .name s =>
    advance
    return ⟨s, next.start⟩
  | _ => throw ⟨next.stop, .notName⟩

def attributes : Nat → Reading (List Bytes)
  | 0 => return []
  | bound + 1 => do
    if ← accept dot then
      let a ← name
      return a.text :: (← attributes bound)
    return []

/-- Items with commas between them, at least one. After the last one a comma can stand if what
follows it `ends` the items. -/
def items {α : Type} (ends : Lexeme → Bool) (item : Reading α) : Nat → Reading (List α)
  | 0 => return []
  | bound + 1 => do
    let a ← item
    if ← accept comma then
      if ends (← peek).lexeme then return [a]
      return a :: (← items ends item bound)
    return [a]

/-- Items up to a closing bracket, perhaps none. -/
def enclosed {α : Type} (close : Lexeme) (ends : Lexeme → Bool) (item : Reading α) (bound : Nat) :
    Reading (List α) := do
  if ← accept close then return []
  let found ← items ends item bound
  expect close
  return found

def endsList (l : Lexeme) : Bool :=
  [.textEnd, .lineEnd, equals, closeBrace, closeBracket, closeParen, semicolon].contains l

def operators : List Lexeme :=
  ["+", "-", "*", "/", "//", "%", "==", "!=", "<", ">", "<=", ">=", "|", "^", "&", "<<",
    ">>"].map (fun s => .mark (ofString s)) ++ ["and", "or", "in"].map word

def signs : List Lexeme :=
  ["+", "-", "~"].map fun s => .mark (ofString s)

structure Argument where
  position : Position
  /-- The name of the parameter, if it is given. -/
  label : Option Name
  term : Term

inductive Phrase where
  | term (t : Term)
  | call (callee : Name) (args : List Argument)

/-- An argument. `test` reads an expression. -/
def argument (test : Reading Term) : Reading Argument := do
  let start := (← peek).start
  if ← sees [star, doubleStar] then
    advance
    refuse start
    return ⟨start, none, ← test⟩
  let t ← test
  let next ← peek
  match t, next.lexeme == equals with
  | _, false => return ⟨start, none, t⟩
  | .ref name [], true =>
    advance
    return ⟨start, some name, ← test⟩
  | _, true => throw ⟨next.stop, .label⟩

/-- The arguments of a call up to the closing bracket, at least one. -/
def someArguments (test : Reading Term) : Nat → Reading (List Argument)
  | 0 => return []
  | bound + 1 => do
    let a ← argument test
    if ← accept closeParen then return [a]
    if ← sees [.textEnd] then expect closeParen
    expect comma
    if ← accept closeParen then return [a]
    return a :: (← someArguments test bound)

/-- The arguments of a call in brackets. -/
def arguments (test : Reading Term) (bound : Nat) : Reading (List Argument) := do
  expect openParen
  if ← accept closeParen then return []
  if ← sees [.textEnd] then expect closeParen
  someArguments test bound

/-- The parameters of a function, up to where they can end; `first` tells whether none was read. -/
def parameters (test : Reading Term) (first : Bool) : Nat → Reading Unit
  | 0 => return
  | bound + 1 => do
    if ← sees [closeParen, colon, .textEnd] then return
    if !first then expect comma
    if ← sees [closeParen] then return
    if ← accept star then
      if let .name _ := (← peek).lexeme then advance
    else if ← accept doubleStar then discard name
    else
      discard name
      if ← accept equals then discard test
    parameters test false bound

/-- What begins with a word other than a name: a negation or a function. -/
def wordPhrase (test : Reading Term) (bound : Nat) (next : Located) : Reading Term := do
  if ← accept (word "not") then
    discard test
    refused next.start
  else if ← accept (word "lambda") then
    parameters test true bound
    expect colon
    discard test
    refused next.start
  else throw ⟨next.start, .expected next.lexeme.shown (ofString "primary expression")⟩

/-- A list, a dictionary, something in brackets, or something with a sign. -/
def markPhrase (test operand : Reading Term) (bound : Nat) (next : Located) : Reading Term := do
  if ← accept openBracket then
    return .list (← enclosed closeBracket endsList test bound)
  else if ← accept openBrace then
    let pair : Reading (Term × Term) := do
      let k ← test
      expect colon
      return (k, ← test)
    return .dict (← enclosed closeBrace (· == closeBrace) pair bound)
  else if ← accept openParen then
    discard (enclosed closeParen endsList test bound)
    refused next.start
  else if ← sees signs then
    advance
    match next.lexeme == minus, ← operand with
    | true, .int n => return .int (-n)
    | _, _ => refused next.start
  else wordPhrase test bound next

/-- An operand without what may follow it. -/
def primary (test operand : Reading Term) (bound : Nat) : Reading Term := do
  let next ← peek
  match next.lexeme with
  | .name s =>
    advance
    return .ref ⟨s, next.start⟩ (← attributes bound)
  | .int n =>
    advance
    return .int n
  | .string s =>
    advance
    return .string s
  | .bytes s =>
    advance
    return .bytes s
  | .float =>
    advance
    refused next.start
  | _ => markPhrase test operand bound next

/-- What follows an operand: an index, arguments or attributes. A name with arguments is a call. -/
def suffixes (test : Reading Term) (fuel : Nat) (p : Phrase) : Nat → Reading Phrase
  | 0 => return p
  | bound + 1 => do
    let next ← peek
    if ← sees [openParen] then
      let args ← arguments test fuel
      match p with
      | .term (.ref callee []) => suffixes test fuel (.call callee args) bound
      | _ => suffixes test fuel (.term (← refused next.start)) bound
    else if ← accept openBracket then
      if !(← accept colon) then discard test
      expect closeBracket
      suffixes test fuel (.term (← refused next.start)) bound
    else if ← accept dot then
      discard name
      suffixes test fuel (.term (← refused next.start)) bound
    else return p

/-- What a phrase is as an argument. -/
def asTerm (here : Position) : Phrase → Reading Term
  | .term t => return t
  | .call .. => refused here

/-- What follows the first operand of an expression: an operator and another operand, or a choice.
A byte string can be repeated. -/
def operation (test : Reading Term) (p : Phrase) : Reading Phrase := do
  let next ← peek
  if ← sees operators then
    advance
    match p, next.lexeme == star, ← test with
    | .term (.bytes s), true, .int n => return .term (.repeated s n)
    | _, _, _ => return .term (← refused next.start)
  else if ← accept (word "not") then
    expect (word "in")
    discard test
    return .term (← refused next.start)
  else if ← accept (word "if") then
    discard test
    expect (word "else")
    discard test
    return .term (← refused next.start)
  else return p

/-- An expression, or only an operand of it. -/
def phrase (whole : Bool) : Nat → Reading Phrase
  | 0 => return .term (.list [])
  | bound + 1 => do
    let nested (whole : Bool) : Reading Term := do
      let here := (← peek).start
      asTerm here (← phrase whole bound)
    let t ← primary (nested true) (nested false) bound
    let p ← suffixes (nested true) bound (.term t) bound
    if whole then operation (nested true) p else return p

end Reading

open Reading

def atEnd : Reading Bool :=
  sees [.lineEnd, .textEnd, semicolon]

def blockWords : List Lexeme :=
  ["def", "load", "if", "for", "while"].map word

def branchWords : List Lexeme :=
  ["break", "continue", "pass"].map word

def updates : List Lexeme :=
  ["+=", "-=", "*=", "/=", "//=", "%=", "&=", "|=", "^=", "<<=", ">>="].map fun s =>
    .mark (ofString s)

/-- The call of a name, unless an argument without a name follows one with a name. -/
def callOf (save : Option Name) (callee : Name) (args : List Argument) : Reading Call := do
  if let some a := (args.dropWhile (·.label.isNone)).find? (·.label.isNone) then
    throw ⟨a.position, .afterNamed⟩
  return {
    callee, save
    args := args.filterMap fun a => if a.label.isNone then some a.term else none
    kwargs := args.filterMap fun a => a.label.map fun name => (name, a.term) }

def readBlock (bound : Nat) (first : Located) : Reading Unit := do
  if first.lexeme == word "def" then discard name
  else if first.lexeme == word "load" then expect openParen
  else discard (phrase true bound)
  throw ⟨first.start, .notCall⟩

def readPhrases (bound : Nat) : Reading Phrase := do
  let p ← phrase true bound
  let next ← peek
  if ← accept comma then
    if !endsList (← peek).lexeme then
      discard (items endsList (phrase true bound) bound)
    return .term (← refused next.start)
  return p

def readAssignment (bound : Nat) (start : Position) : Reading (Option Call) := do
  let target ← readPhrases bound
  let next ← peek
  let value ← if ← sees (equals :: updates) then
      advance
      some <$> readPhrases bound
    else pure none
  match target, value with
  | .call callee args, none => return some (← callOf none callee args)
  | .term (.ref save []), some (.call callee args) =>
    if next.lexeme != equals then refuse next.start
    return some (← callOf (some save) callee args)
  | _, _ =>
    refuse start
    return none

/-- A statement, which is a call unless it is refused. -/
def readStatement (bound : Nat) : Reading (Option Call) := do
  let first ← peek
  if blockWords.contains first.lexeme then
    advance
    readBlock bound first
    return none
  else if branchWords.contains first.lexeme then
    advance
    refuse first.start
    return none
  else if ← accept (word "return") then
    refuse first.start
    if !(← atEnd) then discard (readPhrases bound)
    return none
  else readAssignment bound first.start

def readStatements (bound : Nat) : Nat → Reading (List Call)
  | 0 => return []
  | n + 1 => do
    if ← sees [.textEnd] then return []
    if ← accept .lineEnd then return ← readStatements bound n
    let c ← readStatement bound
    if !(← accept semicolon) && !(← sees [.textEnd]) then expect .lineEnd
    return c.toList ++ (← readStatements bound n)

def readCalls (text : Bytes) : Except Mistake (List Call) :=
  let lexemes := Lexeme.ofText text
  let bound := lexemes.length + 1
  match (readStatements bound bound).run { rest := lexemes } with
  | .error e => .error e
  | .ok (_, { refusal := some e, .. }) => .error e
  | .ok (calls, _) => .ok calls

end Forge6809.Script
