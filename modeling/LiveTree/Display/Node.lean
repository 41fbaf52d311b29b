import LiveTree.Json.Inspect

namespace LiveTree.Display

/-- What a node of the drawn tree shows. -/
inductive Kind where
  | value
  | rule
  | branch
  | branching
  | invalid
  | special
  deriving DecidableEq, Repr

namespace Kind

def name : Kind → Text
  | .value => "value"
  | .rule => "rule"
  | .branch => "branch"
  | .branching => "branching"
  | .invalid => "invalid"
  | .special => "special"

def all : List Kind := [.value, .rule, .branch, .branching, .invalid, .special]

def ofName? (name : Text) : Option Kind := all.find? (·.name == name)

theorem ofName?_name (kind : Kind) : ofName? kind.name = some kind := by cases kind <;> decide

end Kind

/-- A node of the tree as it is drawn. Labels and tags are texts unless the tree was handed over
as JSON, where they are not checked. -/
structure Node where
  label : Json
  tag : Json := .text []
  kind : Kind := .special
  children : List Node := []

/-- Why a JSON value is no tree. -/
inductive Fault where
  | noLabel
  | unknownKind (kind : Json)
  /-- A value of the wrong shape. -/
  | mistyped
  /-- Nodes that lie too deep in one another. -/
  | tooDeep

def Fault.message : Fault → Text
  | .noLabel => Json.inspectText "label"
  | .unknownKind kind => kind.inspect ++ " is not a valid NodeKind"
  | .mistyped => []
  | .tooDeep => []

/-- A node with nothing but a label. -/
def placeholder (label : Text) : Node := { label := .text label }

namespace Node

mutual

def toJson : Node → Json
  | ⟨label, tag, kind, children⟩ =>
    .object [("label", label), ("tag", tag), ("kind", .text kind.name),
      ("children", .list (childItems children))]

def childItems : List Node → List Json
  | [] => []
  | child :: children => toJson child :: childItems children

end

def kindOf : Option Json → Except Fault Kind
  | none => .ok .special
  | some (.text name) => match Kind.ofName? name with
    | some kind => .ok kind
    | none => .error (.unknownKind (.text name))
  | some kind => .error (.unknownKind kind)

/-- How many nodes may lie in one another where they are read from JSON. The stack of the runtime
has room for about half as many nodes as it has for lists and objects. -/
def maxLevels : Nat := 494

mutual

/-- The node that a value stands for, with room for so many levels of nodes. Of several faults the
first in the order label, room, kind, children counts. -/
def read (room : Nat) : Json → Except Fault Node
  | .object members =>
    match Association.find? "label" members with
    | none => .error .noLabel
    | some label =>
      match room with
      | 0 => .error .tooDeep
      | room + 1 =>
        match kindOf (Association.find? "kind" members) with
        | .error fault => .error fault
        | .ok kind =>
          match childrenOfMembers room members with
          | .error fault => .error fault
          | .ok children =>
            .ok ⟨label, (Association.find? "tag" members).getD (.text []), kind, children⟩
  | _ => .error .mistyped

def childrenOfMembers (room : Nat) : Json.Members → Except Fault (List Node)
  | [] => .ok []
  | (key, value) :: members =>
    if key == "children" then childrenOfJson room value else childrenOfMembers room members

/-- An empty text or object counts as no children. -/
def childrenOfJson (room : Nat) : Json → Except Fault (List Node)
  | .list items => nodeList room items
  | .text [] => .ok []
  | .object [] => .ok []
  | _ => .error .mistyped

def nodeList (room : Nat) : List Json → Except Fault (List Node)
  | [] => .ok []
  | item :: items =>
    match read room item with
    | .error fault => .error fault
    | .ok node =>
      match nodeList room items with
      | .error fault => .error fault
      | .ok nodes => .ok (node :: nodes)

end

def ofJson (value : Json) : Except Fault Node := read maxLevels value

mutual

def count : Node → Nat
  | ⟨_, _, _, children⟩ => 1 + countList children

def countList : List Node → Nat
  | [] => 0
  | child :: children => count child + countList children

end

mutual

def same : Node → Node → Bool
  | ⟨label, tag, kind, children⟩, ⟨label', tag', kind', children'⟩ =>
    label == label' && tag == tag' && kind == kind' && sameList children children'

def sameList : List Node → List Node → Bool
  | [], [] => true
  | a :: s, b :: t => same a b && sameList s t
  | _, _ => false

end

instance : BEq Node := ⟨same⟩

/-- The tree that a JSON value stands for; what is no tree is none. Of the faults of reading only
that of lying too deep is not taken for this. -/
def ofPayload (payload : Json) : Except Fault (Option Node) :=
  match ofJson payload with
  | .ok node => .ok (some node)
  | .error .tooDeep => .error .tooDeep
  | .error _ => .ok none

/-- The tree that a JSON value stands for, none if there is none to be had of it. -/
def ofPayload? (payload : Json) : Option Node := (ofPayload payload).toOption.join

end Node

end LiveTree.Display
