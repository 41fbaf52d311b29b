import LiveTree.Display.Node
import LiveTree.Text.Cut
import LiveTree.Text.Line

namespace LiveTree.Display

/-- Why a node has no caption. -/
inductive DrawFault where
  | labelNotText
  | tagNotText
  deriving DecidableEq, Repr

/-- What is written for a node: its label, its tag with blanks for tabs, and a mark if it is
invalid. An empty tag, of whatever type, is left out. -/
def caption (label tag : Json) (kind : Kind) : Except DrawFault Text :=
  let mark : Text := if kind = .invalid then "  !" else []
  if tag.isVoid then
    match label with
    | .text label => .ok (label ++ mark)
    | _ => .error .labelNotText
  else
    match label, tag with
    | .text label, .text tag => .ok (label ++ "  " ++ replace (CodePoint.ofChar '\t') " " tag ++ mark)
    | _, .text _ => .error .labelNotText
    | _, _ => .error .tagNotText

namespace Node

mutual

/-- The lines of a tree: `lead` stands before its root, `indent` before all that is below. -/
def lines (lead indent : Text) : Node → Except DrawFault (List Text)
  | ⟨label, tag, kind, children⟩ =>
    match caption label tag kind with
    | .error fault => .error fault
    | .ok text => (childLines indent children).map fun below => (lead ++ text) :: below

def childLines (indent : Text) : List Node → Except DrawFault (List Text)
  | [] => .ok []
  | [last] => lines (indent ++ "└── ") (indent ++ "    ") last
  | child :: next :: children =>
    match lines (indent ++ "├── ") (indent ++ "│   ") child with
    | .error fault => .error fault
    | .ok above => (childLines indent (next :: children)).map (above ++ ·)

end

/-- The drawing of a tree, one line for each node. -/
def draw (node : Node) : Except DrawFault Text :=
  (node.lines [] []).map fun lines => lines.flatMap (· ++ "\n")

end Node

/-- The width and the height of a drawing, in code points and lines. -/
def drawnSize (drawing : Text) : Nat × Nat :=
  let lines := Text.displayLines drawing
  ((lines.map List.length).foldl max 0, lines.length)

end LiveTree.Display
