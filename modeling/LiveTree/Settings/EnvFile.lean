import LiveTree.File.Disk
import LiveTree.Settings.Expansion
import LiveTree.Settings.Options
import LiveTree.Settings.Statement
import LiveTree.Text.Digit
import LiveTree.Text.Line
import LiveTree.Text.Utf8

namespace LiveTree.Settings.EnvFile

/-- The text of a reference: a variable of the environment, else a key bound before, which is empty
without a value, else the fallback. -/
def referred (environment : Environment) (sofar : Association (Option Text))
    (reference : Reference) : Text :=
  match Association.find? reference.name environment with
  | some value => value
  | none =>
    match Association.find? reference.name sofar with
    | some value => value.getD []
    | none => reference.fallback

/-- Binds keys in turn. Where a key is repeated its last binding counts. -/
def bindAll (environment : Environment) (sofar : Association (Option Text)) :
    List (Text × Option Text) → Association (Option Text)
  | [] => sofar
  | (key, value) :: rest =>
    bindAll environment
      (Association.put key (value.map (expand (referred environment sofar))) sofar) rest

/-- Why a file of settings cannot be taken over. -/
inductive Fault where
  /-- The file is no text. -/
  | undecodable (fault : Utf8.Fault)
  /-- A name or a value with a null in it. -/
  | null
  /-- A name with an equals sign in it. -/
  | illegalName
  deriving DecidableEq

def Fault.message : Fault → Text
  | .undecodable fault => fault.message
  | .null => "embedded null byte"
  | .illegalName => "illegal environment variable name"

/-- Sets a variable. -/
def assign (name value : Text) (environment : Environment) : Except Fault Environment :=
  if (name ++ value).any (·.val == 0) then .error .null
  else if name.contains (CodePoint.ofChar '=') then .error .illegalName
  else .ok (environment ++ [(name, value)])

/-- Sets the variables that are not set yet, even to nothing. A key without a value sets none. -/
def assignAll (environment : Environment) : Association (Option Text) → Except Fault Environment
  | [] => .ok environment
  | (_, none) :: rest => assignAll environment rest
  | (name, some value) :: rest =>
    if Association.contains name environment then assignAll environment rest
    else
      match assign name value environment with
      | .error fault => .error fault
      | .ok environment => assignAll environment rest

def fileName : Text := ".env"

/-- Where a file of settings may be: in a directory, then in those that hold it. -/
def places (workdir : Text) : List Text := (Path.lineage workdir).map (Path.append · fileName)

/-- The nearest file of settings. -/
def locate? (disk : File.Disk) : Option Text :=
  (places (Path.normalise disk.workdir)).find? disk.isFile

/-- The environment with the settings of a file, and the lines that were passed over. -/
structure Loaded where
  environment : Except Fault Environment
  faultyLines : List Nat := []

/-- What is said of a line that was passed over. -/
def complaint (line : Nat) : Text :=
  "python-dotenv could not parse statement starting at line " ++ Text.ofNat line ++ "\n"

def Loaded.complaints (loaded : Loaded) : Text := loaded.faultyLines.flatMap complaint

/-- A text without the mark of its byte order. -/
def withoutMark (s : Text) : Text :=
  match s with
  | [] => []
  | c :: rest => if c.val == 0xFEFF then rest else s

/-- Adds the settings of a text to the environment, which comes first. -/
def loadText (text : Text) (environment : Environment) : Loaded :=
  let found := Statement.readAll (Text.normaliseLines (withoutMark text))
  { environment := assignAll environment (bindAll environment [] (Statement.bindings found))
    faultyLines := Statement.faultyLines found }

/-- Adds the settings of the nearest file, if there is one. -/
def load (disk : File.Disk) (environment : Environment) : Loaded :=
  match (locate? disk).bind disk.read? with
  | none => { environment := .ok environment }
  | some octets =>
    match Utf8.decode octets with
    | .error fault => { environment := .error (.undecodable fault) }
    | .ok text => loadText text environment

@[simp] theorem loadText_nil (environment : Environment) :
    loadText [] environment = { environment := .ok environment } := rfl

end LiveTree.Settings.EnvFile
