import LiveTree.Association

namespace LiveTree.File

/-- A file, with its octets or the reason why they cannot be read, or a folder of named entries. -/
inductive Tree where
  | file (content : Except Text Octets)
  | folder (entries : List (Text × Tree))

namespace Tree

def isFile : Tree → Bool
  | file _ => true
  | folder _ => false

def isFolder (tree : Tree) : Bool := !tree.isFile

/-- The entry of a folder. -/
def entry? (name : Text) : Tree → Option Tree
  | file _ => none
  | folder entries => Association.find? name entries

/-- Puts a tree in a place below, making the folders on the way there. What is below a file stays
away. -/
def insert : Tree → List Text → Tree → Tree
  | _, [], tree => tree
  | file content, _ :: _, _ => file content
  | folder entries, name :: names, tree =>
    let below := (Association.find? name entries).getD (folder [])
    folder (Association.put name (insert below names tree) entries)

/-- Follows names from a tree whose parents are `above`, the nearest first. The topmost folder is
its own parent; empty names and dots stay where they are, which must be a folder. -/
def follow (above : List Tree) (here : Tree) : List Text → Option Tree
  | [] => some here
  | name :: names =>
    if here.isFile then none
    else if name == [] || name == "." then follow above here names
    else if name == ".." then
      match above with
      | [] => follow [] here names
      | parent :: above => follow above parent names
    else
      match here.entry? name with
      | none => none
      | some tree => follow (here :: above) tree names

@[simp] theorem follow_nil (above : List Tree) (here : Tree) : follow above here [] = some here :=
  rfl

@[simp] theorem follow_file (above : List Tree) (content : Except Text Octets) (name : Text)
    (names : List Text) : follow above (file content) (name :: names) = none := by
  simp [follow, isFile]

mutual

/-- The paths of all files of a tree that is called `path`. -/
def paths (path : Text) : Tree → List Text
  | file _ => [path]
  | folder entries => entryPaths (path ++ "/") entries

/-- The paths of all files of some entries, each with `lead` before it. -/
def entryPaths (lead : Text) : List (Text × Tree) → List Text
  | [] => []
  | (name, tree) :: entries => paths (lead ++ name) tree ++ entryPaths lead entries

end

/-- The paths of all files below a folder. -/
def files : Tree → List Text
  | file _ => []
  | folder entries => entryPaths [] entries

end Tree

end LiveTree.File
