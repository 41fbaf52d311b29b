import LiveTree.Decimal.Layout
import LiveTree.Json.Reader

namespace LiveTree.Parser

/-- Why a parser did not run to its end. -/
inductive Fault where
  | notStarted (lua reason : Text)
  /-- An argument that no command line can hold: one with a null in it, or with a surrogate that
  stands for no octet of a file name. -/
  | unfit (reason : Text)
  | timedOut (timeout : Float) (exit : Int)
  | killed (exit : Int)
  /-- The source holds a surrogate, so there are no octets to write. -/
  | unencodable
  /-- The last line of the output is nested more deeply than can be read. -/
  | tooDeep

namespace Fault

def message : Fault → Text
  | .notStarted lua reason => "Unable to start parser '" ++ lua ++ "': " ++ reason
  | .unfit reason => reason
  | .timedOut timeout _ =>
    "Parser timed out after " ++ Decimal.Layout.brief.write timeout ++ "s"
  | .killed exit => "Parser was killed by signal " ++ Text.ofInt (-exit)
  | .unencodable => []
  | .tooDeep => Json.Cause.nesting.text

/-- Whether the process is to blame, so that a handler of processes takes care of it. -/
def isOfProcess : Fault → Bool
  | .notStarted _ _ => true
  | .unfit _ => false
  | .timedOut _ _ => true
  | .killed _ => true
  | .unencodable => false
  | .tooDeep => false

/-- The exit code of the process, none if there was none. -/
def exit? : Fault → Option Int
  | .notStarted _ _ => none
  | .unfit _ => none
  | .timedOut _ exit => some exit
  | .killed exit => some exit
  | .unencodable => none
  | .tooDeep => none

end Fault

/-- Why the last line of an output is no tree. -/
inductive DecodeFault where
  | empty
  | notJson (line : Text) (fault : Json.Fault)
  | tooDeep (line : Text)

namespace DecodeFault

def message : DecodeFault → Text
  | .empty => "Parser output is empty"
  | .notJson _ fault => "Last line of output is not valid JSON: " ++ fault.message
  | .tooDeep _ => Json.Cause.nesting.text

/-- The line that could not be read. -/
def line : DecodeFault → Text
  | .empty => []
  | .notJson line _ => line
  | .tooDeep line => line

end DecodeFault

end LiveTree.Parser
