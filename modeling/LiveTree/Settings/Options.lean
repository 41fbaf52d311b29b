import LiveTree.Decimal.Numeral
import LiveTree.File.Path
import LiveTree.Settings.Flag
import LiveTree.Settings.Parameters

namespace LiveTree.Settings

/-- Variables and their values. -/
abbrev Environment := Association Text

/-- What a run of the viewer goes by. -/
structure Options where
  lua : Text
  main : Text
  root : Text := "."
  /-- None leaves the choice of a free port to the system. -/
  port : Option Nat := none
  /-- The rule that parsing starts with unless a request names one. -/
  entry : Option Text := none
  timeout : Float := defaultTimeout
  /-- The file whose tree is to be printed, if there is nothing to serve. -/
  printFile : Option Text := none
  /-- Whether the output of the language program is shown. -/
  log : Bool := false
  host : Text := "localhost"

/-- Why parameters make no options. -/
inductive Fault where
  /-- Names that are no flags, in order. -/
  | unknown (names : List Text)
  | noLua
  | noMain
  | noPrintFile
  | portNoNumber (port : Text)
  | portOutOfRange (port : Int)
  | timeoutNoNumber (timeout : Text)
  | timeoutNotPositive
  deriving DecidableEq

def Fault.message : Fault → Text
  | .unknown names =>
    "Unknown parameter(s): " ++
      (Text.ofString ", ").intercalate (names.map (Text.ofString "-" ++ ·)) ++ " (see -help)"
  | .noLua => "No Lua runtime specified, use -lua=<path>"
  | .noMain => "No language program specified, use -main=<path>"
  | .noPrintFile => "-print needs a file, use -print=<file>"
  | .portNoNumber port => "Port must be a number, got '" ++ port ++ "'"
  | .portOutOfRange port => "Port out of range: " ++ Text.ofInt port
  | .timeoutNoNumber timeout => "Timeout must be a number of seconds, got '" ++ timeout ++ "'"
  | .timeoutNotPositive => "Timeout must be positive"

/-- An empty text counts as none. -/
def nonEmpty : Option Text → Option Text
  | some (c :: s) => some (c :: s)
  | _ => none

/-- The value of a flag: its parameter if that is not empty, else its variable if that is not. -/
def value? (parameters : Parameters) (environment : Environment) (flag : Flag) : Option Text :=
  match nonEmpty (Association.find? flag.name parameters).join with
  | some value => some value
  | none => nonEmpty (flag.inEnvironment?.bind fun name => Association.find? name environment)

/-- The parameters that are no flags, in code point order. -/
def unknownNames (parameters : Parameters) : List Text :=
  Text.sort ((parameters.map Prod.fst).filter fun name => !(Flag.all.map Flag.name).contains name)

def maxPort : Nat := 65535

def readPort : Option Text → Except Fault (Option Nat)
  | none => .ok none
  | some text =>
    match Numeral.readInt? text with
    | none => .error (.portNoNumber text)
    | some (.negSucc n) => .error (.portOutOfRange (.negSucc n))
    | some (.ofNat n) => if n ≤ maxPort then .ok (some n) else .error (.portOutOfRange n)

/-- What is no number passes for a timeout. -/
def readTimeout : Option Text → Except Fault Float
  | none => .ok defaultTimeout
  | some text =>
    match Numeral.readFloat? text with
    | none => .error (.timeoutNoNumber text)
    | some seconds => if seconds ≤ 0 then .error .timeoutNotPositive else .ok seconds

/-- The value of a parameter that must not be empty where it is given. -/
def readPrintFile (parameters : Parameters) : Except Fault (Option Text) :=
  match Association.find? Flag.print.name parameters with
  | none => .ok none
  | some value =>
    match nonEmpty value with
    | none => .error .noPrintFile
    | some file => .ok (some file)

namespace Options

/-- Of several faults the first in the order unknown names, lua, main, print, port, timeout
counts. -/
def ofParameters (parameters : Parameters) (environment : Environment) : Except Fault Options :=
  match unknownNames parameters with
  | name :: names => .error (.unknown (name :: names))
  | [] =>
    match value? parameters environment .lua with
    | none => .error .noLua
    | some lua =>
      match value? parameters environment .main with
      | none => .error .noMain
      | some main => do
        let printFile ← readPrintFile parameters
        let port ← readPort (value? parameters environment .port)
        let timeout ← readTimeout (value? parameters environment .timeout)
        .ok { lua, main, port, timeout, printFile
              root := (value? parameters environment .root).getD "."
              entry := value? parameters environment .entry
              log := Association.contains Flag.log.name parameters }

/-- The directory that the language program lies in. -/
def programDirectory (options : Options) (workdir : Text) : Text :=
  Path.directory (Path.absolute workdir options.main)

end Options

end LiveTree.Settings
