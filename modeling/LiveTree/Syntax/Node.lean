import LiveTree.Json.Inspect

namespace LiveTree.Syntax

/-- One alternative of a rule that matched: what it requires, and the nodes in each of its slots. -/
structure Branch (ν : Type) where
  reqs : Text
  entries : List (List ν)

/-- A node of the tree that the parser reports. -/
inductive Node where
  | token (symbol value : Text)
  | rule (symbol : Text) (branches : List (Text × Branch Node))
  /-- Stands for a rule that refers to itself. -/
  | self (name : Text)
  /-- A value that describes no node. -/
  | malformed (raw : Json)

abbrev Branches := List (Text × Branch Node)

namespace Node

mutual

def ofJson : Json → Node
  | .text name => .self name
  | .object members =>
    match Association.find? "symbol" members with
    | some (.text symbol) =>
      match Association.find? "value" members, Association.contains "branches" members with
      | some (.text value), false => .token symbol value
      | none, true =>
        match branchesOfMembers members with
        | some branches => .rule symbol branches
        | none => .malformed (.object members)
      | _, _ => .malformed (.object members)
    | _ => .malformed (.object members)
  | raw => .malformed raw

/-- The branches of a rule, none if one of them is no branch. -/
def branchesOfMembers : Json.Members → Option Branches
  | [] => none
  | (key, value) :: members =>
    if key == "branches" then branchesOfJson value else branchesOfMembers members

def branchesOfJson : Json → Option Branches
  | .object branches => branchList branches
  | _ => none

def branchList : Json.Members → Option Branches
  | [] => some []
  | (key, .object branch) :: branches =>
    match entriesOfMembers branch, branchList branches with
    | some entries, some rest =>
      some ((key, ⟨((Association.find? "reqs" branch).map Json.asText).getD [], entries⟩) :: rest)
    | _, _ => none
  | _ :: _ => none

/-- The slots of a branch; a branch without the member has none. -/
def entriesOfMembers : Json.Members → Option (List (List Node))
  | [] => some []
  | (key, value) :: members =>
    if key == "entries" then entriesOfJson value else entriesOfMembers members

def entriesOfJson : Json → Option (List (List Node))
  | .list slots => some (slotList slots)
  | _ => none

/-- A slot that is no list holds one malformed node. -/
def slotList : List Json → List (List Node)
  | [] => []
  | .list nodes :: slots => nodeList nodes :: slotList slots
  | raw :: slots => [.malformed raw] :: slotList slots

def nodeList : List Json → List Node
  | [] => []
  | node :: nodes => ofJson node :: nodeList nodes

end

mutual

def toJson : Node → Json
  | .token symbol value => .object [("symbol", .text symbol), ("value", .text value)]
  | .rule symbol branches =>
    .object [("symbol", .text symbol), ("branches", .object (branchMembers branches))]
  | .self name => .text name
  | .malformed raw => raw

def branchMembers : Branches → Json.Members
  | [] => []
  | (key, ⟨reqs, entries⟩) :: branches =>
    (key, .object [("reqs", .text reqs), ("entries", .list (slotItems entries))]) ::
      branchMembers branches

def slotItems : List (List Node) → List Json
  | [] => []
  | slot :: slots => .list (nodeItems slot) :: slotItems slots

def nodeItems : List Node → List Json
  | [] => []
  | node :: nodes => toJson node :: nodeItems nodes

end

end Node

end LiveTree.Syntax
