import Forge6809.CommandLine.Run

/-! # The program

The program reads its arguments and the language from the system, runs the command line on the
files of the system, and writes the report. -/

namespace Forge6809.CommandLine

open Text Store

def systemPath (path : Bytes) : String :=
  (String.fromUTF8? ⟨path.toArray⟩).getD ""

def reasonOf (e : IO.Error) : Reason :=
  match e with
  | .noFileOrDirectory .. => .notFound
  | .alreadyExists .. => .present
  | .inappropriateType _ _ details => .other (ofString details.decapitalize)
  | .permissionDenied _ _ details => .other (ofString details.decapitalize)
  | _ => .other (ofString (toString e))

def attempt {α : Type} (action : Action) (path : Bytes) (act : IO α) :
    IO (Except FileError α) := do
  try
    return .ok (← act)
  catch e =>
    return .error ⟨action, path, reasonOf e⟩

/-- Reads a file of the system; failures to open it call it `shown`. -/
def readSystem (shown path : Bytes) : IO (Except FileError Bytes) := do
  match ← attempt .opening shown (IO.FS.Handle.mk (systemPath path) .read) with
  | .error e => return .error e
  | .ok handle =>
    match ← attempt .reading path handle.readBinToEnd with
    | .error e => return .error e
    | .ok data => return .ok data.toList

def writeSystem (path : Bytes) (overwrite : Bool) (data : Bytes) : IO (Except FileError Unit) := do
  let mode := if overwrite then IO.FS.Mode.write else .writeNew
  match ← attempt .opening path (IO.FS.Handle.mk (systemPath path) mode) with
  | .error e => return .error e
  | .ok handle => attempt .creating path (handle.write ⟨data.toArray⟩)

def Host.system : Host IO where
  read path := readSystem path path
  readIn dir name :=
    if !Path.isLocal name || 0x00 ∈ name then return .error ⟨.opening, name, .invalid⟩
    else readSystem name (Path.shown dir name)
  write path overwrite data :=
    let (dir, name) := Path.splitDirectory path
    if !Path.isLocal name then return .error ⟨.creating, name, .invalid⟩
    else writeSystem (Path.inside dir name) overwrite data

def userLanguage : IO Language := do
  let locales := (← IO.getEnv "COCOASM_LANG").getD ""
  return Language.ofLocales (locales.splitToList fun c => c == ':' || c == ',')

end Forge6809.CommandLine

open Forge6809 CommandLine in
def main (args : List String) : IO UInt32 := do
  let report ← run Host.system (← userLanguage) (args.map Text.ofString)
  (← IO.getStdout).write ⟨report.output.toArray⟩
  (← IO.getStderr).write ⟨report.errors.toArray⟩
  return report.status
