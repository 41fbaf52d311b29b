import LiveTree.Display.Drawing
import LiveTree.Event.Codec
import LiveTree.Parser.Fault

namespace LiveTree

/-- What a handler can tell about a fault: the viewer's own, a transport that broke, a refusal of
the operating system, a value that would not do, or none of these. -/
inductive Family where
  | viewer
  | transport
  | system
  | value
  | other
  deriving DecidableEq, Repr

/-- What can go wrong between a viewer, its parser and its streams. -/
inductive Fault where
  /-- A response that is no tree. -/
  | noTree (file : Text)
  /-- A tree that cannot be drawn. -/
  | drawing (fault : Display.DrawFault)
  | parser (fault : Parser.Fault)
  | event (fault : Event.DecodeFault)
  /-- A frame that could not be written. -/
  | transport (message : Text)
  /-- An event with a surrogate in it. -/
  | unencodable
  /-- A fault raised outside the library, under the name that it has there. -/
  | outside (family : Family) (name message : Text)

namespace Fault

/-- What is raised where values lie too deep in one another for the stack. -/
def tooDeep : Fault := .outside .other "RecursionError" Json.Cause.nesting.text

/-- What is raised where an event has no encoding. -/
def ofEncode : Event.EncodeFault → Fault
  | .tooDeep => tooDeep
  | .surrogate => .unencodable

def message : Fault → Text
  | .noTree file => "No syntax tree for '" ++ file ++ "'"
  | .drawing _ => []
  | .parser fault => fault.message
  | .event fault => fault.message
  | .transport message => message
  | .unencodable => []
  | .outside _ _ message => message

def family : Fault → Family
  | .noTree _ => .viewer
  | .drawing _ => .other
  | .parser .unencodable => .value
  | .parser (.unfit _) => .value
  | .parser .tooDeep => .other
  | .parser _ => .viewer
  | .event (.base64 _) => .value
  | .event (.utf8 _) => .value
  | .event (.json fault) => if fault.cause = .nesting then .other else .value
  | .event .notObject => .other
  | .event .noType => .other
  | .transport _ => .transport
  | .unencodable => .value
  | .outside family _ _ => family

/-- How a fault of writing looks to the sender: what the system or a value is to blame for counts
as the transport's. -/
def sent (fault : Fault) : Fault :=
  match fault.family with
  | .system => .transport fault.message
  | .value => .transport fault.message
  | _ => fault

/-- Whether a fetch may fail this way without the viewer failing too. -/
def isFetchFault (fault : Fault) : Bool :=
  match fault.family with
  | .viewer => true
  | .transport => true
  | .system => true
  | _ => false

end Fault

end LiveTree
