import LiveTree.Decimal.Layout
import LiveTree.Text.Cut

namespace LiveTree.Settings

/-- What can be set on the command line. -/
inductive Flag where
  | entry
  | help
  | log
  | lua
  | main
  | port
  | print
  | root
  | timeout
  deriving DecidableEq, Repr

/-- The seconds a parse may take unless they are set. -/
def defaultTimeout : Float := 5

namespace Flag

/-- All flags in the order of their names. -/
def all : List Flag := [.entry, .help, .log, .lua, .main, .port, .print, .root, .timeout]

def name : Flag → Text
  | .entry => "entry"
  | .help => "help"
  | .log => "log"
  | .lua => "lua"
  | .main => "main"
  | .port => "port"
  | .print => "print"
  | .root => "root"
  | .timeout => "timeout"

def description : Flag → Text
  | .entry => "Entry rule used when the viewer does not name one"
  | .help => "Show this help"
  | .log => "Print the language program's output to the console"
  | .lua => "Lua executable path"
  | .main => "Main lua file of the language program"
  | .port =>
    "Port to host the server on. If unspecified, an available port is used and the viewer is opened"
  | .print => "Print the syntax tree of the given file to the console instead of serving the viewer"
  | .root => "Root directory of the language files to view (default: current directory)"
  | .timeout =>
    "Seconds a single parse may take (default: " ++
      Decimal.Layout.brief.write defaultTimeout ++ ")"

/-- The environment variable that stands in for a flag. -/
def inEnvironment? : Flag → Option Text
  | .help | .log | .print => none
  | flag => some ("DESCEND_" ++ flag.name.map CodePoint.toAsciiUpper)

theorem mem_all (flag : Flag) : flag ∈ all := by cases flag <;> decide

/-- The width of the longest name. -/
def width : Nat := (all.map (·.name.length)).foldl max 0

def helpLine (flag : Flag) : Text :=
  "-" ++ flag.name ++ List.replicate (width - flag.name.length) (CodePoint.ofChar ' ') ++
    "\t" ++ flag.description

end Flag

/-- One line for each flag. -/
def helpText : Text := List.intercalate (Text.ofString "\n") (Flag.all.map Flag.helpLine)

end LiveTree.Settings
