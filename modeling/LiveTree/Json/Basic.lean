import LiveTree.Association

namespace LiveTree

/-- A JSON value. Integers are unbounded and differ from doubles; the members of an object keep
their order. -/
inductive Json where
  | null
  | bool (b : Bool)
  | int (n : Int)
  | float (x : Float)
  | text (s : Text)
  | list (items : List Json)
  | object (members : List (Text × Json))
  deriving Inhabited

namespace Json

abbrev Members := Association Json

mutual

/-- How many lists and objects lie in one another. -/
def depth : Json → Nat
  | list items => depthItems items + 1
  | object members => depthMembers members + 1
  | _ => 0

def depthItems : List Json → Nat
  | [] => 0
  | item :: items => max (depth item) (depthItems items)

def depthMembers : List (Text × Json) → Nat
  | [] => 0
  | (_, value) :: members => max (depth value) (depthMembers members)

end

/-- How many lists and objects may lie in one another. The stack of the runtime has no room for
more, be they read or written. -/
def maxNesting : Nat := 991

/-- Null, false, a zero, and anything empty. -/
def isVoid : Json → Bool
  | null => true
  | bool b => !b
  | int n => n == 0
  | float x => x == 0
  | text s => s.isEmpty
  | list items => items.isEmpty
  | object members => members.isEmpty

mutual

/-- Whether two values are the same, doubles by their bits. -/
def same : Json → Json → Bool
  | null, null => true
  | bool a, bool b => a == b
  | int m, int n => m == n
  | float x, float y => x.toBits == y.toBits
  | text s, text t => s == t
  | list a, list b => sameItems a b
  | object a, object b => sameMembers a b
  | _, _ => false

def sameItems : List Json → List Json → Bool
  | [], [] => true
  | a :: s, b :: t => same a b && sameItems s t
  | _, _ => false

def sameMembers : List (Text × Json) → List (Text × Json) → Bool
  | [], [] => true
  | (k, a) :: s, (l, b) :: t => k == l && same a b && sameMembers s t
  | _, _ => false

end

instance : BEq Json := ⟨same⟩

end Json

end LiveTree
