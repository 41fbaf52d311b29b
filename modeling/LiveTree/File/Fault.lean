import LiveTree.Text.Basic

namespace LiveTree.File

/-- Why there is no file or folder under a name. -/
inductive Fault where
  | noFile (file : Text)
  /-- A path that leads out of the directory it is to be looked up in. -/
  | outside (file : Text)
  | noFolder (folder : Text)
  | nothing (path : Text)
  /-- The system does not tell of changes there. -/
  | notWatched (path reason : Text)
  deriving DecidableEq

namespace Fault

def message : Fault → Text
  | .noFile file => "No such file '" ++ file ++ "'"
  | .outside file => "Invalid path '" ++ file ++ "'"
  | .noFolder folder => "No such directory '" ++ folder ++ "'"
  | .nothing path => "No such file or directory '" ++ path ++ "'"
  | .notWatched path reason => "Unable to watch '" ++ path ++ "': " ++ reason

def path : Fault → Text
  | .noFile path | .outside path | .noFolder path | .nothing path | .notWatched path _ => path

/-- The status of an answer that reports the fault. -/
def status : Fault → Nat
  | .notWatched _ _ => 500
  | _ => 404

end Fault

end LiveTree.File
