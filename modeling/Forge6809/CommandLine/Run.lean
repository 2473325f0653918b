import Forge6809.CommandLine.Host
import Forge6809.CommandLine.Options
import Forge6809.Emulator
import Forge6809.Script.Build

/-! # Running a command line

A run starts from a new disk or from an image, assembles a source and adds it to the disk, runs a
build script, and then extracts a file, writes the image or lists the directory. The first failure
ends the run; what was printed before it stays printed. -/

namespace Forge6809.CommandLine

open Text

structure Report where
  status : UInt32
  output : Bytes
  errors : Bytes
deriving DecidableEq, Repr

structure Work where
  disk : Disk := .new
  /-- What was written to standard output. -/
  output : Array Bytes := #[]
  /-- What was logged. -/
  log : Array Bytes := #[]

structure Fatal where
  subject : Bytes
  message : Bytes
deriving DecidableEq, Repr

def stepLimit : Nat := 1000000

abbrev Step (m : Type → Type) := ExceptT Fatal (StateT Work m)

def Fatal.entry (f : Fatal) : Bytes :=
  f.subject ++ ofString ": " ++ f.message

/-- The name on disk of a program whose source has a path: the last element of the path, in upper
case and with the extension of binaries. -/
def binaryName (path : Bytes) : Bytes :=
  let base := Store.Path.base path
  let extension := Store.Path.extension path
  let stem := if extension <:+ base then base.take (base.length - extension.length) else base
  upper stem ++ ofString ".BIN"

/-- The assembler of a run: equates of the command line come after those of the emulator. -/
def assemblerFor (o : Options) : Assembly.Assembler :=
  let builtin := if o.run then Emulator.defines else []
  (builtin ++ o.defines.toList).foldl (fun a e => a.predefine e.1 e.2) {}

namespace Step

variable {m : Type → Type} [Monad m]

def print (text : Bytes) : Step m Unit :=
  modify fun w => { w with output := w.output.push text }

def log (entries : List Bytes) : Step m Unit :=
  modify fun w => { w with log := w.log ++ entries }

def orFatal {ε α : Type} (subject : Bytes) (message : ε → Bytes) : Except ε α → Step m α
  | .ok a => return a
  | .error e => throw ⟨subject, message e⟩

def readFrom (host : Host m) (path : Bytes) : Step m Bytes := do
  orFatal path Store.FileError.message (← host.read path)

def loadImage (host : Host m) (lang : Language) (path : Bytes) : Step m Unit := do
  let data ← readFrom host path
  let disk ← orFatal path (Disk.Cause.message lang) (Disk.ofImage? data)
  modify fun w => { w with disk }

def execute (lang : Language) (o : Options) (p : Assembly.Program) : Step m Unit := do
  let e := (Emulator.initial.loadProgram p).reset
  if o.verbose then
    log (Core.Machine.resetEntry p.exec Emulator.stackTop :: e.runJournal stepLimit)
  match e.run stepLimit with
  | (.error err, _) => throw ⟨o.compile, err.message lang⟩
  | (.ok _, e) => print e.screen

def addProgram (lang : Language) (o : Options) (p : Assembly.Program) : Step m Unit := do
  let binary ← orFatal o.compile (Disk.EnvelopeError.message lang)
    (Disk.Envelope.pack p.code p.origin p.exec)
  let name := if o.name = [] then binaryName o.compile else o.name
  match (← get).disk.add ⟨name, .machineLanguage, .automatic, binary⟩ with
  | (.error e, _) => throw ⟨o.compile, e.message lang⟩
  | (.ok placement, disk) =>
    modify fun w => { w with disk }
    if o.verbose then log placement.journal

/-- Assembles a source; lists, runs and keeps the program as the options say. -/
def assemble (host : Host m) (lang : Language) (o : Options) : Step m Unit := do
  let source ← readFrom host o.compile
  let assembly := (assemblerFor o).assembly source
  if o.verbose then log (assembly.journal source)
  let p ← orFatal o.compile (Assembly.SyntaxError.message lang) assembly.result
  if o.listing then print p.listing.flatten
  if o.run then execute lang o p
  if o.output ≠ [] then addProgram lang o p

def build (host : Host m) (lang : Language) (o : Options) : Step m Unit := do
  let (dir, name) := Store.Path.splitDirectory o.script
  let start : Script.Build := { disk := (← get).disk, defines := o.defines }
  let (result, b) ← (start.runFile (host.readIn dir) name : m _)
  log (b.journal (if o.verbose then [.script, .build, .disk] else [.script]))
  modify fun w => { w with disk := b.disk }
  orFatal o.script (Script.Failure.message lang) result

def extract (lang : Language) (name : Bytes) : Step m Unit := do
  print (← orFatal name (Disk.Error.message lang) ((← get).disk.read name))

def save (host : Host m) (o : Options) : Step m Unit := do
  let disk := (← get).disk
  orFatal o.output Store.FileError.message (← host.write o.output (!o.keep) disk.marshal)

def list (lang : Language) (o : Options) : Step m Unit := do
  match (← get).disk.files with
  | (_, some e) => throw ⟨o.input, e.message lang⟩
  | (entries, none) => print (entries.flatMap fun e => e.listed ++ [0x0A])

def all (host : Host m) (lang : Language) (o : Options) : Step m Unit := do
  if o.input ≠ [] then loadImage host lang o.input
  if o.compile ≠ [] then assemble host lang o
  if o.script ≠ [] then build host lang o
  if o.extract ≠ [] then extract lang o.extract
  if o.output ≠ [] then save host o
  else if o.input ≠ [] ∧ o.compile = [] ∧ o.script = [] ∧ o.extract = [] then list lang o

end Step

def Work.report (w : Work) (result : Except Fatal Unit) : Report :=
  let output := w.output.toList.flatten
  let log := w.log.toList.flatMap terminated
  match result with
  | .ok _ => ⟨0, output, log⟩
  | .error f => ⟨1, output, log ++ terminated f.entry⟩

variable {m : Type → Type} [Monad m]

def run (host : Host m) (lang : Language) (args : List Bytes) : m Report := do
  match Request.ofArguments args with
  | .help => return ⟨0, [], usage⟩
  | .refused e => return ⟨2, [], e.message lang ++ [0x0A] ++ usage⟩
  | .run o [] =>
    let (result, w) ← (Step.all host lang o).run.run {}
    return w.report result
  | .run _ rest =>
    let message := ofString "Unknown arguments: [" ++ List.intercalate [0x20] rest ++ [0x5D]
    return Work.report {} (.error ⟨ofString programName, message⟩)

end Forge6809.CommandLine
