import Forge6809.Text.Numeral

/-! # Labels of coded values

Some properties are stored as small integers of which only a few have a name. The others are shown
as the property's name around the number. -/

namespace Forge6809.Text

def label (property : String) (names : List String) (code : Int) : Bytes :=
  let unnamed := ofString property ++ 0x28 :: signed code ++ [0x29]
  if code < 0 then unnamed
  else
    match names[code.toNat]? with
    | some name => ofString name
    | none => unnamed

def codeOf? (names : List String) (name : Bytes) : Option Nat :=
  names.findIdx? fun n => ofString n == name

end Forge6809.Text
