import LiveTree.Text.Basic

namespace LiveTree

inductive Level where
  | info
  | warning
  | error
  deriving DecidableEq, Repr

/-- The part of the viewer that notes something. -/
inductive Source where
  | parser
  /-- The language program itself, whose output is passed on. -/
  | program
  | events
  | viewer
  | watch
  | web
  | assets
  deriving DecidableEq, Repr

def Level.name : Level → Text
  | .info => "INFO"
  | .warning => "WARNING"
  | .error => "ERROR"

def Source.name : Source → Text
  | .parser => "parser"
  | .program => "program"
  | .events => "events"
  | .viewer => "viewer"
  | .watch => "watch"
  | .web => "web"
  | .assets => "assets"

structure Record where
  level : Level
  source : Source
  message : Text
  deriving DecidableEq

/-- A record on a line of its own. -/
def Record.line (record : Record) : Text :=
  record.level.name ++ " " ++ record.source.name ++ ": " ++ record.message ++ "\n"

abbrev Log := List Record

end LiveTree
