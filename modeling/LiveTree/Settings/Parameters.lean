import LiveTree.Association
import LiveTree.Text.Cut

namespace LiveTree.Settings

/-- The parameters of a command line by name. One that is only named has no value. -/
abbrev Parameters := Association (Option Text)

/-- The name and the value that an argument sets; none for what does not begin with a dash. -/
def parameter? : Text → Option (Text × Option Text)
  | [] => none
  | c :: rest => if c == '-' then some (cutOnce (CodePoint.ofChar '=') rest) else none

namespace Parameters

/-- Where a parameter is repeated its last value counts. -/
def ofArguments (arguments : List Text) : Parameters :=
  Association.collapse (arguments.filterMap parameter?)

/-- Without any parameters there is nothing to do but to show the help. -/
def wantsHelp (parameters : Parameters) : Bool :=
  parameters.isEmpty || Association.contains "help" parameters

@[simp] theorem ofArguments_nil : ofArguments [] = [] := rfl

/-- The argument that sets a parameter. -/
def argument : Text × Option Text → Text
  | (name, none) => "-" ++ name
  | (name, some value) => "-" ++ name ++ "=" ++ value

end Parameters

end LiveTree.Settings
