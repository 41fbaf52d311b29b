import LiveTree.File.Fault
import LiveTree.Log
import LiveTree.Web.ContentType
import LiveTree.Web.Page

namespace LiveTree.Web

/-- A file of the viewer page: where it lies, and its octets or why they cannot be read. -/
structure Asset where
  location : Text
  content : Except Text Octets

namespace Asset

open File (Disk Tree)

/-- The name that stands for a directory: an index with the extension of the directory's own
name. -/
def indexName (path : Text) : Text :=
  match trimLeft (· == CodePoint.ofChar '.') (Path.extension path) with
  | [] => "index.html"
  | ending => "index." ++ ending

mutual

/-- The file that a name stands for, which is known to lead to `tree`. -/
def ofTree (root path : Text) : Tree → Except File.Fault Asset
  | .file content =>
    match Path.below? root path with
    | none => .error (.outside path)
    | some location => .ok ⟨location, content⟩
  | .folder entries => ofEntries root (path ++ "/" ++ indexName path) (indexName path) entries

/-- The file that the entry called `name` stands for. -/
def ofEntries (root path name : Text) : List (Text × Tree) → Except File.Fault Asset
  | [] => .error (.noFile path)
  | (entry, tree) :: entries =>
    if entry == name then ofTree root path tree else ofEntries root path name entries

end

/-- Looks up a name below a directory; `file` is what was asked for. -/
def lookup (disk : Disk) (root file path : Text) : Except File.Fault Asset :=
  match Path.below? root path with
  | none => .error (.outside file)
  | some location =>
    match disk.find? location with
    | none => .error (.noFile file)
    | some tree => ofTree root path tree

/-- The file that a request means, slashes around it aside. The empty request means the root
itself, and a directory its index. -/
def resolve (disk : Disk) (root file : Text) : Except File.Fault Asset :=
  match trim (· == Path.slash) file with
  | [] =>
    match disk.find? (disk.absolute root) with
    | none => .error (.noFile file)
    | some (.file content) => .ok ⟨disk.absolute root, content⟩
    | some (.folder _) => lookup disk root (indexName []) (indexName [])
  | path => lookup disk root file path

/-- The answer to a request: the file, or a page that says why there is none. -/
def send (disk : Disk) (root file : Text) : Except PageFault Page × Log :=
  match resolve disk root file with
  | .ok ⟨location, .ok octets⟩ => (.ok ⟨200, contentType location, octets⟩, [])
  | .ok ⟨_, .error reason⟩ =>
    (Page.ofMessage disk root 500 reason,
      [⟨.warning, .assets, "Unable to read '" ++ file ++ "': " ++ reason⟩])
  | .error fault => (Page.ofMessage disk root fault.status fault.message, [])

end Asset

end LiveTree.Web
