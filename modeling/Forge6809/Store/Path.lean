import Forge6809.Text.Utf8

/-! # Paths

A path is a list of elements with slashes between them. `clean` drops empty and single-dot
elements and lets a double dot cancel the element before it. -/

namespace Forge6809.Store.Path

open Text

def dot : Bytes := [0x2E]

def dotDot : Bytes := [0x2E, 0x2E]

/-- The elements between slashes; never the empty list. -/
def elements : Bytes → List Bytes
  | [] => [[]]
  | b :: r =>
    if b = slash then [] :: elements r
    else
      match elements r with
      | [] => [[b]]
      | e :: es => (b :: e) :: es

def join (es : List Bytes) : Bytes :=
  List.intercalate [slash] es

/-- Whether a path names something below a directory, by elements that are not empty and not dots;
the directory itself is a single dot. -/
def isLocal (path : Bytes) : Bool :=
  Utf8.isValid path &&
    (path == dot || (elements path).all fun e => e != [] && e != dot && e != dotDot)

/-- What stands up to the last slash, and what stands after it. -/
def split (path : Bytes) : Bytes × Bytes :=
  match cutLast? slash path with
  | some (dir, name) => (dir ++ [slash], name)
  | none => ([], path)

/-- The directory of a path, a single dot if it names none, and the name in it. -/
def splitDirectory (path : Bytes) : Bytes × Bytes :=
  let (dir, name) := split path
  (if dir = [] then dot else dir, name)

/-- The last element of a path without trailing slashes: a single dot for the empty path, a slash
for one of slashes only. -/
def base (path : Bytes) : Bytes :=
  if path = [] then dot
  else
    let trimmed := trimEnd (· == slash) path
    if trimmed = [] then [slash] else (split trimmed).2

/-- The last element from its last dot on; empty if it has none. -/
def extension (path : Bytes) : Bytes :=
  match cutLast? 0x2E (split path).2 with
  | some (_, ext) => 0x2E :: ext
  | none => []

/-- One step of `clean` on the elements kept so far, the last one first. -/
def cleanStep (rooted : Bool) (kept : List Bytes) (e : Bytes) : List Bytes :=
  if e = [] ∨ e = dot then kept
  else if e = dotDot then
    match kept with
    | [] => if rooted then [] else [e]
    | k :: ks => if k = dotDot then e :: k :: ks else ks
  else e :: kept

/-- The shortest path with the same meaning. -/
def clean (path : Bytes) : Bytes :=
  let rooted := path.head? = some slash
  let body := join ((elements path).foldl (cleanStep rooted) []).reverse
  if rooted then slash :: body else if body = [] then dot else body

def inside (dir name : Bytes) : Bytes :=
  clean (dir ++ slash :: name)

/-- A name directly after its directory, as it is shown. -/
def shown (dir name : Bytes) : Bytes :=
  if dir.getLast? = some slash then dir ++ name else dir ++ slash :: name

end Forge6809.Store.Path
