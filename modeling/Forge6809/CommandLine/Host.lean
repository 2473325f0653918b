import Forge6809.Store.Files

/-! # Hosts

A host is what the program needs of the system it runs on: reading and writing files. One host is a
file tree in memory, so that a run can be computed without a system. -/

namespace Forge6809.CommandLine

open Store

structure Host (m : Type → Type) where
  /-- Reads a file. -/
  read (path : Bytes) : m (Except FileError Bytes)
  /-- Reads a file of a directory by its name there. -/
  readIn (dir name : Bytes) : m (Except FileError Bytes)
  /-- Writes a file, over an existing one only if `overwrite` is set. -/
  write (path : Bytes) (overwrite : Bool) (data : Bytes) : m (Except FileError Unit)

def Host.tree : Host (StateM Files) where
  read path files := (files.readHost path, files)
  readIn dir name files := (files.readHostIn dir name, files)
  write path overwrite data files :=
    match files.writeHost path overwrite data with
    | .ok files => (.ok (), files)
    | .error e => (.error e, files)

end Forge6809.CommandLine
