import Forge6809.Text.Utf8

/-! # White space around a text

White space is the Unicode property of that name: twenty-five characters, of which the tab and the
space are the only ones that also separate fields of a source line. -/

namespace Forge6809.Text

def spaceCodes : List Nat :=
  [0x09, 0x0A, 0x0B, 0x0C, 0x0D, 0x20, 0x85, 0xA0, 0x1680, 0x2000, 0x2001, 0x2002, 0x2003, 0x2004,
    0x2005, 0x2006, 0x2007, 0x2008, 0x2009, 0x200A, 0x2028, 0x2029, 0x202F, 0x205F, 0x3000]

def spaces : List Bytes :=
  spaceCodes.map Utf8.encode

/-- Removes from the start of a text, again and again, whichever of the given strings it starts
with. -/
def stripAny (ps : List Bytes) (s : Bytes) : Bytes :=
  match s with
  | [] => []
  | a :: r =>
    match ps.find? (·.isPrefixOf (a :: r)) with
    | some p => stripAny ps (r.drop (p.length - 1))
    | none => a :: r
termination_by s.length
decreasing_by simp only [List.length_drop, List.length_cons]; omega

def trim (s : Bytes) : Bytes :=
  (stripAny (spaces.map List.reverse) (stripAny spaces s).reverse).reverse

end Forge6809.Text
