import LiveTree.Display.Node
import LiveTree.Json.Quoted
import LiveTree.Syntax.Node

namespace LiveTree.Display

/-- A position between its marks. -/
def marker (position : Text) : Text := "〈" ++ position ++ "〉"

/-- Where a node stands in its branch: the number of its slot and, in a slot of several nodes, its
number there. -/
def position (slot place size : Nat) : Text :=
  if size > 1 then Text.ofNat slot ++ "." ++ Text.ofNat place else Text.ofNat slot

open Syntax (Branch Branches)

mutual

/-- The tree drawn for a syntax tree. A tag given from above replaces the node's own. -/
def ofSyntax (tag : Option Text) : Syntax.Node → Node
  | .token symbol value =>
    ⟨.text (Json.escape value), .text (tag.getD symbol), .value, []⟩
  | .rule symbol [] => ⟨.text symbol, .text (tag.getD []), .invalid, []⟩
  | .rule symbol [(key, ⟨reqs, entries⟩)] =>
    ⟨.text symbol, .text (tag.getD reqs ++ "\t" ++ marker key), .rule, ofSlots reqs 1 entries⟩
  | .rule symbol (first :: second :: rest) =>
    ⟨.text symbol, .text (tag.getD []), .branching, ofBranches (first :: second :: rest)⟩
  | .self _ => ⟨.text "self", .text (tag.getD []), .invalid, []⟩
  | .malformed _ => ⟨.text "?", .text (tag.getD []), .invalid, []⟩

def ofBranches : Branches → List Node
  | [] => []
  | (key, ⟨reqs, entries⟩) :: branches =>
    ⟨.text key, .text reqs, .branch, ofSlots reqs 1 entries⟩ :: ofBranches branches

/-- The nodes of all slots, from slot number `slot` on. -/
def ofSlots (reqs : Text) (slot : Nat) : List (List Syntax.Node) → List Node
  | [] => []
  | nodes :: slots => ofNodes reqs slot 1 nodes.length nodes ++ ofSlots reqs (slot + 1) slots

/-- The nodes of one slot of `size` nodes, from the one numbered `place` on. -/
def ofNodes (reqs : Text) (slot place size : Nat) : List Syntax.Node → List Node
  | [] => []
  | node :: nodes =>
    ofSyntax (some (marker (position slot place size) ++ "\t" ++ reqs)) node ::
      ofNodes reqs slot (place + 1) size nodes

end

/-- The nodes of a branch, each tagged with its position. -/
def flatten (branch : Branch Syntax.Node) : List Node := ofSlots branch.reqs 1 branch.entries

end LiveTree.Display
