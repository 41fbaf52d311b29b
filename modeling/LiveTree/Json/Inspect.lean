import LiveTree.Decimal.Layout
import LiveTree.Json.Basic
import LiveTree.Text.Printable

namespace LiveTree.Json

/-- A code point inside a text quoted for a reader; what has no visible form is given by number. -/
def inspectPoint (quote c : CodePoint) : Text :=
  if c == quote || c == '\\' then ['\\', c]
  else if c == '\n' then "\\n"
  else if c == '\r' then "\\r"
  else if c == '\t' then "\\t"
  else if c.isPrintable then [c]
  else if c.val < 0x100 then "\\x" ++ Text.hex 2 c.val
  else if c.val < 0x10000 then "\\u" ++ Text.hex 4 c.val
  else "\\U" ++ Text.hex 8 c.val

/-- Single quotes, or double ones around a text that holds single quotes only. -/
def inspectText (s : Text) : Text :=
  let quote : CodePoint := if s.contains '\'' && !s.contains '"' then '"' else '\''
  [quote] ++ s.flatMap (inspectPoint quote) ++ [quote]

mutual

/-- A value as messages name it. -/
def inspect : Json → Text
  | null => "None"
  | bool true => "True"
  | bool false => "False"
  | int n => Text.ofInt n
  | float x => Decimal.Layout.plain.write x
  | text s => inspectText s
  | list items => "[" ++ inspectItems items ++ "]"
  | object members => "\x7b" ++ inspectMembers members ++ "\x7d"

def inspectItems : List Json → Text
  | [] => []
  | [item] => inspect item
  | item :: items => inspect item ++ ", " ++ inspectItems items

def inspectMembers : List (Text × Json) → Text
  | [] => []
  | [(key, value)] => inspectText key ++ ": " ++ inspect value
  | (key, value) :: members =>
    inspectText key ++ ": " ++ inspect value ++ ", " ++ inspectMembers members

end

/-- A value as text: a text is itself, all else as messages name it. -/
def asText : Json → Text
  | text s => s
  | value => inspect value

end LiveTree.Json
