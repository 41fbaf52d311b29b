import LiveTree.File.Path

namespace LiveTree.Parser

/-- The language program and the interpreter that runs it. -/
structure Program where
  lua : Text
  main : Text

/-- What to parse: a file or literal source, starting at a rule. Literal source goes to standard
input unless it is `inline`. -/
structure Request where
  path : Option Text := none
  source : Option Text := none
  entry : Option Text := none
  inline : Bool := false

/-- A flag with a value, left out where the value is missing or empty. -/
def flag (name : Text) : Option Text → List Text
  | none => []
  | some [] => []
  | some value => [name ++ value]

/-- The command line of a request. -/
def Program.arguments (program : Program) (workdir : Text) (request : Request) : List Text :=
  [program.lua, Path.normalise program.main, "-mode=parse"] ++
    flag "-entry=" request.entry ++
    (match request.inline, request.source with
      | true, some source => ["-src=" ++ source]
      | _, _ => []) ++
    flag "-input=" (match request.path with
      | none => none
      | some [] => none
      | some path => some (Path.absolute workdir path))

/-- What is written to standard input, if it is connected at all. -/
def Request.input? (request : Request) : Option Text :=
  if request.inline then none else request.source.map (· ++ "\n")

end LiveTree.Parser
