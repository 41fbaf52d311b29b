import LiveTree.Text.Cut
import LiveTree.Text.Basic

namespace LiveTree

/-- The code points that end a line on display. -/
def CodePoint.isLineBreak (c : CodePoint) : Bool :=
  let n := c.val
  (0x0A ≤ n && n ≤ 0x0D) || (0x1C ≤ n && n ≤ 0x1E) || n == 0x85 || n == 0x2028 || n == 0x2029

namespace Text

/-- Cuts at every line break; a line feed directly after a carriage return ends no line of its
own. The current line is held in reverse. -/
def displayLinesFrom (line : Text) (afterReturn : Bool) : Text → List Text
  | [] => if line.isEmpty then [] else [line.reverse]
  | c :: s =>
    if afterReturn && c == '\n' then displayLinesFrom line false s
    else if c.isLineBreak then line.reverse :: displayLinesFrom [] (c == '\r') s
    else displayLinesFrom (c :: line) false s

/-- The lines as a display shows them, with no empty line after the last break. -/
def displayLines (s : Text) : List Text := displayLinesFrom [] false s

@[simp] theorem displayLines_nil : displayLines [] = [] := rfl

def normaliseLinesFrom (afterReturn : Bool) : Text → Text
  | [] => []
  | c :: s =>
    if afterReturn && c == '\n' then normaliseLinesFrom false s
    else if c == '\r' then '\n' :: normaliseLinesFrom true s
    else c :: normaliseLinesFrom false s

/-- Writes every line ending, be it a carriage return, a line feed or both, as one line feed. -/
def normaliseLines (s : Text) : Text := normaliseLinesFrom false s

@[simp] theorem normaliseLines_nil : normaliseLines [] = [] := rfl

end Text

end LiveTree
