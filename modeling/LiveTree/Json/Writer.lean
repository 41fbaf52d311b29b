import LiveTree.Decimal.Layout
import LiveTree.Json.Basic
import LiveTree.Json.Quoted

namespace LiveTree.Json

mutual

/-- The JSON text of a value, on one line and with a blank after each comma and colon. -/
def write : Json → Text
  | null => "null"
  | bool true => "true"
  | bool false => "false"
  | int n => Text.ofInt n
  | float x => Decimal.Layout.json.write x
  | text s => quote s
  | list items => "[" ++ writeItems items ++ "]"
  | object members => "\x7b" ++ writeMembers members ++ "\x7d"

def writeItems : List Json → Text
  | [] => []
  | [item] => write item
  | item :: items => write item ++ ", " ++ writeItems items

def writeMembers : List (Text × Json) → Text
  | [] => []
  | [(key, value)] => quote key ++ ": " ++ write value
  | (key, value) :: members => quote key ++ ": " ++ write value ++ ", " ++ writeMembers members

end

/-- The text that a writer gives for a value; none if the value lies too deep for it. -/
def write? (v : Json) : Option Text := if v.depth ≤ maxNesting then some v.write else none

end LiveTree.Json
