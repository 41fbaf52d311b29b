import LiveTree.Syntax.Node

namespace LiveTree.Syntax.Node

/-- The nodes right below a node, branch by branch and slot by slot. -/
def children : Node → List Node
  | .rule _ branches => branches.flatMap fun b => b.2.entries.flatten
  | _ => []

theorem mem_children_rule {symbol : Text} {branches : Branches} {child : Node} :
    child ∈ children (.rule symbol branches) ↔
      ∃ b ∈ branches, ∃ slot ∈ b.2.entries, child ∈ slot := by
  simp only [children, List.mem_flatMap, List.mem_flatten]

mutual

/-- All nodes of a tree, each before those below it. -/
def nodes : Node → List Node
  | .rule symbol branches => .rule symbol branches :: nodesOfBranches branches
  | node => [node]

def nodesOfBranches : Branches → List Node
  | [] => []
  | (_, ⟨_, entries⟩) :: branches => nodesOfSlots entries ++ nodesOfBranches branches

def nodesOfSlots : List (List Node) → List Node
  | [] => []
  | slot :: slots => nodesOfSlot slot ++ nodesOfSlots slots

def nodesOfSlot : List Node → List Node
  | [] => []
  | node :: slot => nodes node ++ nodesOfSlot slot

end

theorem nodesOfSlot_eq (slot : List Node) : nodesOfSlot slot = slot.flatMap nodes := by
  induction slot with
  | nil => rfl
  | cons node slot ih => rw [nodesOfSlot, ih, List.flatMap_cons]

theorem nodesOfSlots_eq (slots : List (List Node)) :
    nodesOfSlots slots = slots.flatten.flatMap nodes := by
  induction slots with
  | nil => rfl
  | cons slot slots ih =>
    rw [nodesOfSlots, nodesOfSlot_eq, ih, List.flatten_cons, List.flatMap_append]

theorem nodesOfBranches_eq (branches : Branches) :
    nodesOfBranches branches =
      (branches.flatMap fun b => b.2.entries.flatten).flatMap nodes := by
  induction branches with
  | nil => rfl
  | cons b branches ih =>
    rw [nodesOfBranches, nodesOfSlots_eq, ih, List.flatMap_cons, List.flatMap_append]

theorem nodes_eq (node : Node) : node.nodes = node :: node.children.flatMap nodes := by
  cases node with
  | rule symbol branches => rw [nodes, nodesOfBranches_eq, children]
  | _ => rfl

theorem self_mem_nodes (node : Node) : node ∈ node.nodes := by
  rw [nodes_eq]
  exact List.mem_cons_self

theorem mem_nodes {node below : Node} :
    below ∈ node.nodes ↔ below = node ∨ ∃ child ∈ node.children, below ∈ child.nodes := by
  rw [nodes_eq, List.mem_cons, List.mem_flatMap]

theorem sizeOf_lt_of_mem_children {node child : Node} (h : child ∈ node.children) :
    sizeOf child < sizeOf node := by
  cases node with
  | rule symbol branches =>
    obtain ⟨⟨key, ⟨reqs, entries⟩⟩, hb, slot, hslot, hchild⟩ := mem_children_rule.mp h
    have hbranch := List.sizeOf_lt_of_mem hb
    have hentry : sizeOf slot < sizeOf entries := List.sizeOf_lt_of_mem hslot
    have hnode := List.sizeOf_lt_of_mem hchild
    simp only [Prod.mk.sizeOf_spec, Branch.mk.sizeOf_spec] at hbranch
    rw [rule.sizeOf_spec]
    omega
  | _ => exact absurd h List.not_mem_nil

/-- What holds of a node if it holds of all right below it, holds of every node. -/
theorem induction_children {P : Node → Prop}
    (step : ∀ node, (∀ child ∈ node.children, P child) → P node) (node : Node) : P node :=
  step node fun child h =>
    have := sizeOf_lt_of_mem_children h
    induction_children step child
termination_by sizeOf node

def fork? : Node → Option (Text × Branches)
  | .rule symbol branches => if 2 ≤ branches.length then some (symbol, branches) else none
  | _ => none

/-- The rules with at least two branches, in the order of the nodes. -/
def forks (node : Node) : List (Text × Branches) := node.nodes.filterMap fork?

theorem forks_eq (node : Node) :
    node.forks = node.fork?.toList ++ node.children.flatMap forks := by
  rw [forks, nodes_eq, List.filterMap_cons, List.filterMap_flatMap]
  cases node.fork? <;> rfl

/-- The nodes of a tree and, once more, the branches of its forks. -/
def extent (node : Node) : Nat := node.nodes.length + (node.forks.flatMap Prod.snd).length

def extentList : List Node → Nat
  | [] => 0
  | node :: nodes => extent node + extentList nodes

theorem extentList_append (nodes more : List Node) :
    extentList (nodes ++ more) = extentList nodes + extentList more := by
  induction nodes with
  | nil => rw [List.nil_append, extentList, Nat.zero_add]
  | cons node nodes ih => rw [List.cons_append, extentList, extentList, ih, Nat.add_assoc]

theorem extentList_eq (children : List Node) :
    extentList children = (children.flatMap nodes).length +
      ((children.flatMap forks).flatMap Prod.snd).length := by
  induction children with
  | nil => rfl
  | cons child children ih =>
    simp only [extentList, ih, extent, List.flatMap_cons, List.flatMap_append, List.length_append]
    omega

theorem extent_eq (node : Node) :
    node.extent =
      1 + (node.fork?.toList.flatMap Prod.snd).length + extentList node.children := by
  rw [extentList_eq, extent, nodes_eq, forks_eq, List.length_cons, List.flatMap_append,
    List.length_append]
  omega

end LiveTree.Syntax.Node
