import Forge6809.Message.Template

/-! # Errors of expressions -/

namespace Forge6809.Expr

open Message

inductive Error where
  /-- The text is not an expression. -/
  | malformed (text : Bytes)
  /-- A name has no value. -/
  | undefined (name : Bytes)
deriving DecidableEq, Repr

def Error.message (lang : Language) : Error → Bytes
  | malformed text => say lang "'%v' %v" [.text text, .text (say lang "malformed expression" [])]
  | undefined name => say lang "%v %v" [.text (say lang "label undefined" []), .text name]

end Forge6809.Expr
