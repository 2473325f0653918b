import Forge6809.Text.Lowercase

/-! # Spelling suggestions

The distance of two words is the least number of bytes to insert, delete or replace. Of some names
the nearest to a misspelt word is suggested, unless half of the word would have to change.
Underscores and case are ignored. -/

namespace Forge6809.Text

/-- The next row of the distance table: from the row of a word to the row of that word and the
byte `a`, where `corner` and `left` are the entries above and before the next one. -/
def distanceRow (a : UInt8) (corner left : Nat) : Bytes → List Nat → List Nat
  | b :: bs, above :: row =>
    let here := min (corner + if a = b then 0 else 1) (min (left + 1) (above + 1))
    here :: distanceRow a above here bs row
  | _, _ => []

/-- The distances of a word from all beginnings of another, the empty one first. -/
def distances (x y : Bytes) : List Nat :=
  x.foldl (fun row a =>
    match row with
    | [] => []
    | corner :: rest => (corner + 1) :: distanceRow a corner (corner + 1) y rest)
    (List.range (y.length + 1))

def distance (x y : Bytes) : Nat :=
  (distances x y).getLastD 0

def foldSpelling (s : Bytes) : Bytes :=
  mapChars lowerCode (s.filter (· != 0x5F))

/-- The name nearest to a word, the first of equally near ones. -/
def nearest? (word : Bytes) (names : List Bytes) : Option Bytes :=
  let word := foldSpelling word
  (names.foldl (fun (best : Option Bytes × Nat) name =>
    let d := distance word (foldSpelling name)
    if d < best.2 then (some name, d) else best) (none, (word.length + 1) / 2)).1

def hint : Option Bytes → Bytes
  | some name => ofString " (did you mean " ++ name ++ ofString "?)"
  | none => []

end Forge6809.Text
