import Forge6809.Assembly.Assembler
import Forge6809.Disk.Envelope
import Forge6809.Disk.Transfer
import Forge6809.Script.Argument
import Forge6809.Script.Check
import Forge6809.Script.Source
import Forge6809.Store.Files

/-! # Running a build

A build runs the calls of a script against a disk. The first call that fails ends it, and leaves
what the calls before it did. How files are read is up to the caller, so a build runs in any monad
that can read files; what it journals is kept by kind and filtered by whoever shows it. -/

namespace Forge6809.Script

open Text

inductive Failure where
  | file (e : Store.FileError)
  | source (path : Bytes) (e : Assembly.SyntaxError)
  /-- Code of a source file, or of no file, that does not fit into a binary. -/
  | envelope (path : Option Bytes) (e : Disk.EnvelopeError)
  | disk (e : Disk.Error)
  | argument (builtin : Builtin) (param : String) (value : Bytes)
  /-- A value to be predefined that is no word. -/
  | define (name : Bytes)
  | call (e : CallError)
  /-- A mistake in the script of that path. -/
  | mistake (path : Bytes) (e : Mistake)

def Failure.message (lang : Language) : Failure → Bytes
  | file e => e.message
  | source path e => Message.say lang "%v: %v" [.text path, .text (e.message lang)]
  | envelope none e => e.message lang
  | envelope (some path) e => Message.say lang "%v: %v" [.text path, .text (e.message lang)]
  | disk e => e.message lang
  | argument b param value =>
    Message.say lang "%v: %v %v: %v"
      [.text (ofString b.name), .text (Message.say lang "argument invalid" []),
        .text (ofString param), .text value]
  | define name =>
    Message.say lang "%v: %v %v: %v"
      [.text (ofString Builtin.assemble.name), .text (ofString "defines"), .text name,
        .text (Message.say lang "define out of range" [])]
  | call e => e.message
  | mistake path e => e.message path

inductive Channel where
  | script
  | build
  | disk
deriving DecidableEq, Repr

structure Note where
  channel : Channel
  text : Bytes
deriving DecidableEq, Repr

structure Build where
  disk : Disk
  /-- Equates predefined for every source. -/
  defines : Table UInt16 := ∅
  /-- What the names of the script stand for. -/
  scope : Scope := {}
  notes : Array Note := #[]

/-- What a call gives: its result and the build after it. -/
abbrev Outcome := Except Failure Value × Build

inductive Contents where
  | absent
  /-- A string or a byte string. -/
  | text (s : Bytes)
  /-- A value of another type. -/
  | other (type : Bytes)

def Contents.ofValue : Value → Contents
  | .none => .absent
  | .bytes s | .string s => .text s
  | v => .other (ofString v.typeName)

structure FileArguments where
  name : Bytes
  data : Contents
  /-- The file that has the contents; empty if there is none. -/
  path : Bytes
  type : Bytes
  mode : Bytes

/-- The text of an argument, or what it is if it was left out. -/
def textOr (default : Bytes) : Option Value → Bytes
  | some (.string s) => s
  | _ => default

/-- The arguments that were bound to the parameters, with the defaults of those left out. -/
def FileArguments.ofBound : List (Option Value) → Except Failure FileArguments
  | [some (.string name), data, path, type, mode] => .ok {
      name
      data := Contents.ofValue (data.getD .none)
      path := textOr [] path
      type := textOr Disk.FileType.machineLanguage.label type
      mode := textOr Disk.FileMode.automatic.label mode }
  | _ => .error (.call (.missing .addFile "name"))

namespace Build

def note (b : Build) (channel : Channel) (entries : List Bytes) : Build :=
  { b with notes := entries.foldl (fun notes text => notes.push ⟨channel, text⟩) b.notes }

def predefineItems (a : Assembly.Assembler) :
    List (Value × Value) → Except Failure Assembly.Assembler
  | [] => .ok a
  | (.string name, .int n) :: rest =>
    if n < -0x80000000 ∨ 0x7FFFFFFF < n then .error (.call (.value (.intRange n)))
    else if n < 0 ∨ 0xFFFF < n then .error (.define name)
    else predefineItems (a.predefine name (UInt16.ofNat n.toNat)) rest
  | (.string _, v) :: _ => .error (.call (.value (.type v.typeName "int")))
  | (k, _) :: _ => .error (.argument .assemble "defines" k.written)

/-- The assembler of a call: the equates of the build and those of the call. -/
def assembler (b : Build) (defines : Option Value) : Except Failure Assembly.Assembler :=
  let a : Assembly.Assembler := b.defines.toList.foldl (fun a e => a.predefine e.1 e.2) {}
  match defines with
  | some (.dict items) => predefineItems a items
  | _ => .ok a

def wordValue (w : UInt16) : Value :=
  .int w.toNat

def assembleText (b : Build) (path source : Bytes) (defines : Option Value) : Outcome :=
  match b.assembler defines with
  | .error e => (.error e, b)
  | .ok a =>
    let r := a.assembly source
    let b := b.note .build (r.journal source)
    match r.result with
    | .error e => (.error (.source path e), b)
    | .ok p =>
      match Disk.Envelope.pack p.code p.origin p.exec with
      | .error e => (.error (.envelope (some path) e), b)
      | .ok binary =>
        let entry := ofString "assemble " ++ path ++ ofString ": " ++ decimal p.code.length
          ++ ofString " bytes at $" ++ hexUpper 4 p.origin.toNat ++ ofString ", exec $"
          ++ hexUpper 4 p.exec.toNat
        (.ok (.record [(ofString "binary", .bytes binary), (ofString "code", .bytes p.code),
          (ofString "exec", wordValue p.exec), (ofString "origin", wordValue p.origin)]),
          b.note .build [entry])

def addData (b : Build) (contents : Except Store.FileError Bytes) (name : Bytes)
    (type : Disk.FileType) (mode : Disk.FileMode) : Outcome :=
  match b.disk.addFrom contents name type mode with
  | (.error (.device e), disk) => (.error (.file e), { b with disk })
  | (.error (.refused e), disk) => (.error (.disk e), { b with disk })
  | (.ok p, disk) => (.ok .none, { b with disk }.note .disk p.journal)

def packCode (b : Build) (args : List (Option Value)) : Outcome :=
  match args with
  | [some (.bytes code), some (.int origin), some (.int exec)] =>
    match Disk.Envelope.pack code (UInt16.ofNat origin.toNat) (UInt16.ofNat exec.toNat) with
    | .error e => (.error (.envelope none e), b)
    | .ok binary => (.ok (.bytes binary), b)
  | _ => (.error (.call (.missing .envelope "code")), b)

def listFiles (b : Build) : Outcome :=
  match b.disk.files with
  | (_, some e) => (.error (.disk e), b)
  | (entries, none) => (.ok (.list (entries.map fun e => .string e.name)), b)

def printValues (b : Build) (args : List Value) (sep : Option Value) : Outcome :=
  let sep := match sep with
    | some (.string s) => s
    | _ => ofString " "
  (.ok .none, b.note .script [List.intercalate sep (args.map Value.printed)])

variable {m : Type → Type} [Monad m]

def assembleFile (read : Bytes → m (Except Store.FileError Bytes)) (b : Build)
    (args : List (Option Value)) : m Outcome := do
  match args with
  | [some (.string path), defines] =>
    match ← read path with
    | .error e => return (.error (.file e), b)
    | .ok source => return b.assembleText path source defines
  | _ => return (.error (.call (.missing .assemble "path")), b)

/-- Adds a file to the disk, from its contents or from another file. -/
def addFile (read : Bytes → m (Except Store.FileError Bytes)) (b : Build) (name : Bytes)
    (type : Disk.FileType) (mode : Disk.FileMode) (data : Contents) (path : Bytes) :
    m Outcome := do
  match data with
  | .absent =>
    if path = [] then return (.error (.argument .addFile "path" (ofString "None")), b)
    return b.addData (← read path) name type mode
  | .text contents =>
    if path ≠ [] then return (.error (.argument .addFile "path" path), b)
    return b.addData (.ok contents) name type mode
  | .other type => return (.error (.argument .addFile "data" type), b)

/-- Checks type and mode of a file to be added, and adds it. -/
def addFileNamed (read : Bytes → m (Except Store.FileError Bytes)) (b : Build)
    (args : FileArguments) : m Outcome := do
  match Disk.FileType.ofName? args.type, Disk.FileMode.ofName? args.mode with
  | none, _ => return (.error (.argument .addFile "type" args.type), b)
  | some _, none => return (.error (.argument .addFile "mode" args.mode), b)
  | some fileType, some fileMode =>
    let b := b.note .build [ofString "add_file " ++ args.name ++ ofString ": " ++ fileType.label
      ++ ofString " " ++ fileMode.label]
    b.addFile read args.name fileType fileMode args.data args.path

/-- Adds a file with the arguments that were delivered, if they were. -/
def addDelivered (read : Bytes → m (Except Store.FileError Bytes)) (b : Build)
    (delivered : Except Failure FileArguments) : m Outcome :=
  match delivered with
  | .error e => return (.error e, b)
  | .ok args => b.addFileNamed read args

end Build

def Builtin.params : Builtin → List Param
  | .assemble => [{ name := "path", type := .string },
      { name := "defines", type := .dict, optional := true }]
  | .envelope => [{ name := "code", type := .bytes }, { name := "origin", type := .word },
      { name := "exec", type := .word }]
  | .addFile => [{ name := "name", type := .string },
      { name := "data", type := .any, optional := true, skipsNone := true },
      { name := "path", type := .string, optional := true, skipsNone := true },
      { name := "type", type := .string, optional := true },
      { name := "mode", type := .string, optional := true }]
  | .print => [{ name := "sep", type := .string, optional := true }]
  | .files => []
  | .record => []

namespace Build

variable {m : Type → Type} [Monad m]

def apply (read : Bytes → m (Except Store.FileError Bytes)) (b : Build) (f : Builtin)
    (args : List Value) (kwargs : List (Bytes × Value)) : m Outcome := do
  let failed (e : CallError) : Outcome := (.error (.call e), b)
  match f with
  | .record =>
    if args.isEmpty then return (.ok (.record (Table.ofList kwargs).toList), b)
    else return failed (.positional f)
  | .print =>
    match bindArguments f f.params [] kwargs with
    | .error e => return failed e
    | .ok bound => return b.printValues args (bound.headD none)
  | _ =>
    match bindArguments f f.params args kwargs with
    | .error e => return failed e
    | .ok bound =>
      match f with
      | .assemble => b.assembleFile read bound
      | .envelope => return b.packCode bound
      | .addFile => b.addDelivered read (FileArguments.ofBound bound)
      | _ => return b.listFiles

def evaluate (b : Build) (c : Call) :
    Except CallError (Value × List Value × List (Bytes × Value)) := do
  let callee ← b.scope.value c.callee.text
  let args ← evalItems b.scope c.args
  let kwargs ← c.kwargs.mapM fun k => do return (k.1.text, ← k.2.eval b.scope)
  return (callee, args, kwargs)

/-- Makes a call. A script can save to the name of a builtin, which then stands for the result. -/
def call (read : Bytes → m (Except Store.FileError Bytes)) (b : Build) (c : Call) : m Outcome :=
  match b.evaluate c with
  | .error e => return (.error (.call e), b)
  | .ok (.builtin f, args, kwargs) => b.apply read f args kwargs
  | .ok (v, _) => return (.error (.call (.notFunction v.typeName)), b)

/-- Saves a result under the name that the call asks for. -/
def save (b : Build) (c : Call) (v : Value) : Build :=
  match c.save with
  | some name => { b with scope.globals := b.scope.globals.insert name.text v }
  | none => b

def runCalls (read : Bytes → m (Except Store.FileError Bytes)) (b : Build) :
    List Call → m (Except Failure Unit × Build)
  | [] => return (.ok (), b)
  | c :: rest => do
    match ← b.call read c with
    | (.error e, b) => return (.error e, b)
    | (.ok v, b) => runCalls read (b.save c v) rest

/-- Runs the text of the script of a path, unless there is a mistake in it. -/
def runText (read : Bytes → m (Except Store.FileError Bytes)) (b : Build) (path text : Bytes) :
    m (Except Failure Unit × Build) :=
  match readCalls text >>= checkCalls with
  | .error e => return (.error (.mistake path e), b)
  | .ok calls => { b with scope.declared := declaredNames calls }.runCalls read calls

def runFile (read : Bytes → m (Except Store.FileError Bytes)) (b : Build) (path : Bytes) :
    m (Except Failure Unit × Build) := do
  match ← read path with
  | .error e => return (.error (.file e), b)
  | .ok text => b.runText read path text

def journal (b : Build) (channels : List Channel) : List Bytes :=
  b.notes.toList.filterMap fun n => if n.channel ∈ channels then some n.text else none

end Build
end Forge6809.Script
