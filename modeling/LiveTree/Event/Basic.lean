import LiveTree.Json.Basic

namespace LiveTree

/-- What the viewers are told. -/
structure Event where
  type : Json
  data : Json := .null

namespace Event

/-- The assets of the viewer page changed. -/
def reload : Text := "reload"

/-- The language program changed. -/
def programMod : Text := "programMod"

/-- A source file changed; the data names it. -/
def fileMod : Text := "fileMod"

/-- Whether an event calls for a new tree of `file`; none for an event of unknown type. -/
def calls? (file : Text) (event : Event) : Option Bool :=
  match event.type with
  | .text type =>
    if type = reload ∨ type = programMod then some true
    else if type = fileMod then
      match event.data with
      | .text changed => some (changed == file)
      | _ => some false
    else none
  | _ => none

end Event

end LiveTree
