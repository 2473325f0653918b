import Forge6809.Store.Path
import Forge6809.Table

/-! # Files

A file tree is a table of contents by path; the directories are those that the paths pass through.
The same tree is reached in two ways: as a collection in memory, where only proper local paths
exist, and as the current directory of a host, where paths are walked element by element. The two
describe their failures differently. -/

namespace Forge6809.Store

open Text

abbrev Files := Table Bytes

inductive Reason where
  /-- Absent from a collection in memory. -/
  | absent
  /-- Absent from the host. -/
  | notFound
  | invalid
  /-- A path with a zero byte, which no host can take. -/
  | zeroByte
  | present
  | isDirectory
  | notDirectory
  /-- The path or an element of it is longer than a host allows. -/
  | tooLong
  /-- Anything else that a host reports. -/
  | other (text : Bytes)
deriving DecidableEq, Repr

def Reason.message : Reason → Bytes
  | absent => ofString "file does not exist"
  | notFound => ofString "no such file or directory"
  | invalid => ofString "invalid argument"
  | zeroByte => ofString "invalid argument"
  | present => ofString "file exists"
  | isDirectory => ofString "is a directory"
  | notDirectory => ofString "not a directory"
  | tooLong => ofString "file name too long"
  | other text => text

inductive Action where
  | opening
  | reading
  | creating
deriving DecidableEq, Repr

def Action.name : Action → Bytes
  | opening => ofString "open"
  | reading => ofString "read"
  | creating => ofString "create"

structure FileError where
  action : Action
  path : Bytes
  reason : Reason
deriving DecidableEq, Repr

def FileError.message (e : FileError) : Bytes :=
  e.action.name ++ ofString " " ++ e.path ++ ofString ": " ++ e.reason.message

namespace Files

def isDirectory (files : Files) (path : Bytes) : Bool :=
  path == Path.dot || files.toList.any fun f => (path ++ [slash]).isPrefixOf f.1

def readMemory (files : Files) (path : Bytes) : Except FileError Bytes :=
  if !Path.isLocal path then .error ⟨.opening, path, .absent⟩
  else
    match files.get? path with
    | some data => .ok data
    | none =>
      if files.isDirectory path then .error ⟨.reading, path, .invalid⟩
      else .error ⟨.opening, path, .absent⟩

def elementLimit : Nat := 255

def pathLimit : Nat := 4095

inductive Place where
  | file (path : Bytes) (data : Bytes)
  | directory
  /-- Nothing, in a directory that exists. -/
  | vacant (path : Bytes)

/-- Follows path elements from a directory, given by its elements, the last one first. Outside the
tree there are directories but no files. -/
def walk (files : Files) (dir : Option (List Bytes)) : List Bytes → Except Reason Place
  | [] => .ok .directory
  | e :: rest =>
    if e = [] ∨ e = Path.dot then files.walk dir rest
    else if e = Path.dotDot then
      files.walk (match dir with
        | some (_ :: up) => some up
        | _ => none) rest
    else if e.length > elementLimit then .error .tooLong
    else
      match dir with
      | none => .error .notFound
      | some up =>
        let path := Path.join (e :: up).reverse
        match files.get? path with
        | some data => if rest = [] then .ok (.file path data) else .error .notDirectory
        | none =>
          if files.isDirectory path then files.walk (some (e :: up)) rest
          else if rest = [] then .ok (.vacant path)
          else .error .notFound

def locate (files : Files) (path : Bytes) : Except Reason Place :=
  if path = [] then .error .notFound
  else if 0x00 ∈ path then .error .zeroByte
  else if path.length > pathLimit then .error .tooLong
  else files.walk (if path.head? = some slash then none else some []) (Path.elements path)

/-- Reads a host file; failures name it as `openName` if it cannot be opened. -/
def readHostAs (files : Files) (openName path : Bytes) : Except FileError Bytes :=
  match files.locate path with
  | .error reason => .error ⟨.opening, openName, reason⟩
  | .ok (.vacant _) => .error ⟨.opening, openName, .notFound⟩
  | .ok .directory => .error ⟨.reading, path, .isDirectory⟩
  | .ok (.file _ data) => .ok data

def readHost (files : Files) (path : Bytes) : Except FileError Bytes :=
  files.readHostAs path path

/-- Reads a file of a host directory by its name there. -/
def readHostIn (files : Files) (dir name : Bytes) : Except FileError Bytes :=
  if !Path.isLocal name || 0x00 ∈ name then .error ⟨.opening, name, .invalid⟩
  else files.readHostAs name (Path.shown dir name)

/-- Writes a file of a host directory by its name there. Unless `overwrite` is set there must not
be one. -/
def writeHostIn (files : Files) (dir name : Bytes) (overwrite : Bool) (data : Bytes) :
    Except FileError Files :=
  if !Path.isLocal name then .error ⟨.creating, name, .invalid⟩
  else
    let path := Path.inside dir name
    let fail (reason : Reason) := .error ⟨.opening, path, reason⟩
    match files.locate path with
    | .error reason => fail reason
    | .ok (.vacant path) => .ok (files.insert path data)
    | .ok .directory => fail (if overwrite then .isDirectory else .present)
    | .ok (.file path _) => if overwrite then .ok (files.insert path data) else fail .present

def writeHost (files : Files) (path : Bytes) (overwrite : Bool) (data : Bytes) :
    Except FileError Files :=
  let (dir, name) := Path.splitDirectory path
  files.writeHostIn dir name overwrite data

end Files

end Forge6809.Store
