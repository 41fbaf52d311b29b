import LiveTree.File.Disk
import LiveTree.File.Fault

namespace LiveTree.File

/-- The paths of all files below a folder, in code point order. -/
def Disk.list (disk : Disk) (root : Text) : Except Fault (List Text) :=
  match disk.find? root with
  | some (.folder entries) => .ok (Text.sort (Tree.folder entries).files)
  | _ => .error (.noFolder root)

end LiveTree.File
