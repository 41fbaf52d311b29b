import LiveTree.File.Path
import LiveTree.File.Tree

namespace LiveTree.File

/-- All there is in the file system, and the directory that relative paths start from. -/
structure Disk where
  tree : Tree
  workdir : Text

namespace Disk

def absolute (disk : Disk) (path : Text) : Text := Path.absolute disk.workdir path

/-- What a path leads to. The empty path leads nowhere. -/
def find? (disk : Disk) (path : Text) : Option Tree :=
  if path.isEmpty then none
  else disk.tree.follow [] (Path.segments (Path.append disk.workdir path))

def contains (disk : Disk) (path : Text) : Bool := (disk.find? path).isSome

def isFile (disk : Disk) (path : Text) : Bool := (disk.find? path).any Tree.isFile

/-- The octets of a file, none for what is no file or cannot be read. -/
def read? (disk : Disk) (path : Text) : Option Octets :=
  match disk.find? path with
  | some (.file (.ok octets)) => some octets
  | _ => none

@[simp] theorem find?_nil (disk : Disk) : disk.find? [] = none := rfl

end Disk

end LiveTree.File
