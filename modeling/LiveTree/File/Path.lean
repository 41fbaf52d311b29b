import LiveTree.Text.Basic
import LiveTree.Text.Cut

namespace LiveTree.Path

def slash : CodePoint := '/'

def isAbsolute (path : Text) : Bool := path.head? == some slash

/-- The pieces between slashes. -/
def segments (path : Text) : List Text := path.splitOn slash

def ofSegments (segments : List Text) : Text := [slash].intercalate segments

/-- The slashes that a normalised path begins with: exactly two of them mean another root than one,
and more than two mean the same as one. -/
def rootSlashes (path : Text) : Nat :=
  match (path.takeWhile (· == slash)).length with
  | 0 => 0
  | 2 => 2
  | _ => 1

/-- One step of normalisation; the segments so far are in reverse. A `..` removes the segment
before it, is kept at the start of a relative path, and is dropped at the root. -/
def climb (absolute : Bool) (above : List Text) (segment : Text) : List Text :=
  if segment == [] || segment == "." then above
  else if segment != ".." then segment :: above
  else match above with
    | [] => if absolute then [] else [segment]
    | top :: rest => if top == ".." then segment :: above else rest

/-- The shortest path that means the same when no link is followed. -/
def normalise (path : Text) : Text :=
  let slashes := rootSlashes path
  let above := (segments path).foldl (climb (slashes != 0)) []
  let normal := List.replicate slashes slash ++ ofSegments above.reverse
  if normal.isEmpty then "." else normal

/-- `path` as it is seen from `directory`. -/
def append (directory path : Text) : Text :=
  if isAbsolute path then path
  else if directory.isEmpty || directory.getLast? == some slash then directory ++ path
  else directory ++ "/" ++ path

def absolute (workdir path : Text) : Text := normalise (append workdir path)

/-- Drops the segments that two lists begin with in common. -/
def diverge : List Text → List Text → List Text × List Text
  | a :: s, b :: t => if a == b then diverge s t else (a :: s, b :: t)
  | s, t => (s, t)

/-- The names that a path consists of. -/
def names (path : Text) : List Text := (segments path).filter (!·.isEmpty)

/-- The way from one absolute path to another. -/
def relative (start path : Text) : Text :=
  let (up, down) := diverge (names start) (names path)
  match List.replicate up.length (Text.ofString "..") ++ down with
  | [] => "."
  | steps => ofSegments steps

/-- The path up to its last slash, without slashes at the end unless it is all slashes. -/
def directory (path : Text) : Text :=
  let head := (cutLast (· == slash) path).1
  if head.all (· == slash) then head else trimRight (· == slash) head

/-- The last dot of the last segment and what follows it; nothing if only dots precede it there. -/
def extension (path : Text) : Text :=
  let name := (cutLast (· == slash) path).2
  let dot : CodePoint := '.'
  let (stem, ending) := cutLast (· == dot) name
  if stem.dropLast.all (· == dot) then [] else dot :: ending

/-- `path` below `root`, none if it could lead out. An empty path names the root itself, with a
slash. -/
def below? (root path : Text) : Option Text :=
  let path := if path.isEmpty then path else normalise path
  if isAbsolute path || path == ".." || startsWith path (Text.ofString "../") then none
  else some (append (if root.isEmpty then "." else root) path)

/-- A path as events and requests name it: seen from the root, both made absolute first. -/
def fromRoot (workdir root path : Text) : Text :=
  relative (absolute workdir root) (absolute workdir path)

/-- An absolute path and the directories that hold it, up to the root. -/
def lineage (path : Text) : List Text :=
  (List.range ((names path).length + 1)).reverse.map fun n =>
    slash :: ofSegments ((names path).take n)

end LiveTree.Path
