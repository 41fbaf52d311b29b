import LiveTree.Text.Basic
import LiveTree.Text.Cut

namespace LiveTree

/-- White space: the bidirectional classes WS, B and S, and the space separators. -/
def CodePoint.isBlank (c : CodePoint) : Bool :=
  let n := c.val
  (0x09 ≤ n && n ≤ 0x0D) || (0x1C ≤ n && n ≤ 0x20) || n == 0x85 || n == 0xA0 || n == 0x1680 ||
    (0x2000 ≤ n && n ≤ 0x200A) || n == 0x2028 || n == 0x2029 || n == 0x202F || n == 0x205F ||
    n == 0x3000

namespace Text

def strip (s : Text) : Text := trim CodePoint.isBlank s

/-- Holds nothing but white space. -/
def isBlank (s : Text) : Bool := s.all CodePoint.isBlank

@[simp] theorem isBlank_nil : isBlank [] = true := rfl

@[simp] theorem isBlank_cons (c : CodePoint) (s : Text) :
    isBlank (c :: s) = (c.isBlank && isBlank s) := rfl

end Text

end LiveTree
