import Forge6809.Expr.Eval
import Forge6809.Text.Quoted

/-! # Options of the command line

A flag starts with one or two hyphens. A switch stands alone or takes a truth value after an equals
sign; every other flag takes a value, after an equals sign or as the next argument. The flags end at
the first argument that is none, or after two hyphens that stand alone. Equates are evaluated as
they are read, so a later one may refer to an earlier one. -/

namespace Forge6809.CommandLine

open Text

inductive Flag where
  | define
  | compile
  | input
  | keep
  | listing
  | name
  | output
  | run
  | script
  | verbose
  | extract
deriving DecidableEq, Repr

namespace Flag

def all : List Flag :=
  [define, compile, input, keep, listing, name, output, run, script, verbose, extract]

def letter : Flag → UInt8
  | define => 0x44
  | compile => 0x63
  | input => 0x69
  | keep => 0x6B
  | listing => 0x6C
  | name => 0x6E
  | output => 0x6F
  | run => 0x72
  | script => 0x73
  | verbose => 0x76
  | extract => 0x78

def ofName? (s : Bytes) : Option Flag :=
  all.find? fun f => [f.letter] == s

/-- What the usage text calls the value of a flag; a switch has none. -/
def valueName? : Flag → Option String
  | define => some "value"
  | compile | input | name | output | script | extract => some "string"
  | keep | listing | run | verbose => none

def purpose : Flag → String
  | define => "Predefine an equate as NAME=VALUE"
  | compile => ".asm file to assemble"
  | input => ".dsk file to start from"
  | keep => "Keep an existing output file, do not overwrite"
  | listing => "Print the assembly listing"
  | name => "Disk file name of the assembled program"
  | output => ".dsk file to write"
  | run => "Run the assembled program, and print the screen"
  | script => ".star build script to run"
  | verbose => "Verbose mode"
  | extract => "Extract a disk file to standard output"

/-- A flag in the usage text: its purpose after a tab, on a line of its own if it takes a value. -/
def usage (f : Flag) : Bytes :=
  let gap := match f.valueName? with
    | some value => ofString " " ++ ofString value ++ ofString "\n    \t"
    | none => [0x09]
  ofString "  -" ++ f.letter :: gap ++ ofString f.purpose ++ [0x0A]

end Flag

def programName : String := "cocoasm"

def usage : Bytes :=
  ofString "Usage of " ++ ofString programName ++ ofString ":\n" ++ Flag.all.flatMap Flag.usage

/-- What the command line asks for; an empty text stands for a flag that was not given. -/
structure Options where
  compile : Bytes := []
  name : Bytes := []
  output : Bytes := []
  keep : Bool := false
  input : Bytes := []
  script : Bytes := []
  listing : Bool := false
  run : Bool := false
  extract : Bytes := []
  verbose : Bool := false
  defines : Table UInt16 := ∅
deriving Repr

inductive DefineError where
  /-- Not a name, an equals sign and a value. -/
  | shape (text : Bytes)
  | expression (e : Expr.Error)
deriving DecidableEq, Repr

def DefineError.message (lang : Language) : DefineError → Bytes
  | shape text => text ++ ofString ": expected NAME=VALUE"
  | expression e => e.message lang

inductive OptionError where
  | malformed (arg : Bytes)
  | unknown (name : Bytes)
  | missing (flag : Flag)
  | truth (flag : Flag) (value : Bytes)
  | define (value : Bytes) (reason : DefineError)
deriving DecidableEq, Repr

def OptionError.message (lang : Language) : OptionError → Bytes
  | malformed arg => ofString "bad flag syntax: " ++ arg
  | unknown name => ofString "flag provided but not defined: -" ++ name
  | missing flag => ofString "flag needs an argument: -" ++ [flag.letter]
  | truth flag value =>
    ofString "invalid boolean value " ++ quote value ++ ofString " for -" ++ [flag.letter]
      ++ ofString ": parse error"
  | define value reason =>
    ofString "invalid value " ++ quote value ++ ofString " for flag -" ++ [Flag.define.letter]
      ++ ofString ": " ++ reason.message lang

inductive Argument where
  /-- Not a flag. -/
  | plain
  /-- Two hyphens that stand alone. -/
  | hyphens
  /-- Hyphens without a name after them. -/
  | malformed
  | flag (name : Bytes) (value : Option Bytes)
deriving DecidableEq, Repr

namespace Argument

def ofBody (body : Bytes) : Argument :=
  match body with
  | [] => malformed
  | b :: _ =>
    if b = 0x2D ∨ b = 0x3D then malformed
    else
      match cutFirst? 0x3D body with
      | some (name, value) => flag name (some value)
      | none => flag body none

def ofBytes : Bytes → Argument
  | [0x2D, 0x2D] => hyphens
  | 0x2D :: 0x2D :: body => ofBody body
  | 0x2D :: b :: body => ofBody (b :: body)
  | _ => plain

end Argument

def truthOf? (s : Bytes) : Option Bool :=
  if s ∈ ["1", "t", "T", "TRUE", "true", "True"].map ofString then some true
  else if s ∈ ["0", "f", "F", "FALSE", "false", "False"].map ofString then some false
  else none

def predefine (defines : Table UInt16) (text : Bytes) : Except DefineError (Table UInt16) :=
  match cutFirst? 0x3D text with
  | none => .error (.shape text)
  | some (name, value) =>
    if name = [] then .error (.shape text)
    else
      match Expr.evaluate value defines true with
      | .error e => .error (.expression e)
      | .ok v => .ok (defines.insert (upper name) v)

namespace Options

def switch (o : Options) (f : Flag) (value : Bool) : Options :=
  match f with
  | .keep => { o with keep := value }
  | .listing => { o with listing := value }
  | .run => { o with run := value }
  | .verbose => { o with verbose := value }
  | _ => o

def assign (o : Options) (f : Flag) (value : Bytes) : Except OptionError Options :=
  match f with
  | .define =>
    match predefine o.defines value with
    | .ok defines => .ok { o with defines }
    | .error reason => .error (.define value reason)
  | .compile => .ok { o with compile := value }
  | .input => .ok { o with input := value }
  | .name => .ok { o with name := value }
  | .output => .ok { o with output := value }
  | .script => .ok { o with script := value }
  | .extract => .ok { o with extract := value }
  | f =>
    match truthOf? value with
    | some b => .ok (o.switch f b)
    | none => .error (.truth f value)

end Options

inductive Request where
  /-- The usage text. -/
  | help
  | refused (e : OptionError)
  /-- A run, with the arguments after the flags. -/
  | run (o : Options) (rest : List Bytes)

def isHelp (name : Bytes) : Bool :=
  name == ofString "h" || name == ofString "help"

namespace Request

/-- Reads arguments after those that gave the options so far. -/
def read (o : Options) : List Bytes → Request
  | [] => run o []
  | arg :: rest =>
    match Argument.ofBytes arg with
    | .plain => run o (arg :: rest)
    | .hyphens => run o rest
    | .malformed => refused (.malformed arg)
    | .flag name value =>
      match Flag.ofName? name with
      | none => if isHelp name then help else refused (.unknown name)
      | some f =>
        match value, f.valueName? with
        | some v, _ =>
          match o.assign f v with
          | .ok o => read o rest
          | .error e => refused e
        | none, none => read (o.switch f true) rest
        | none, some _ =>
          match rest with
          | [] => refused (.missing f)
          | v :: rest =>
            match o.assign f v with
            | .ok o => read o rest
            | .error e => refused e

def ofArguments (args : List Bytes) : Request :=
  read {} args

end Request
end Forge6809.CommandLine
