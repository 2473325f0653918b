import Forge6809.Message.Template

/-! # Errors of disks -/

namespace Forge6809.Disk

open Message

inductive Cause where
  | full
  | imageSize
  | chain
  | nameTooLong
  | nameInvalid
  | typeInvalid
  | duplicate
  | notFound
deriving DecidableEq, Repr

def Cause.message (lang : Language) : Cause → Bytes
  | full => say lang "virtual disk full" []
  | imageSize => say lang "disk image size invalid" []
  | chain => say lang "granule chain invalid" []
  | nameTooLong => say lang "file name too long" []
  | nameInvalid => say lang "file name invalid" []
  | typeInvalid => say lang "file type invalid" []
  | duplicate => say lang "file exists" []
  | notFound => say lang "file not found" []

structure Error where
  name : Bytes
  cause : Cause
deriving DecidableEq, Repr

def Error.message (lang : Language) (e : Error) : Bytes :=
  say lang "%v: %v" [.text e.name, .text (e.cause.message lang)]

end Forge6809.Disk
