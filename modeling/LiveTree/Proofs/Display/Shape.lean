import LiveTree.Display.Transform
import LiveTree.Proofs.Syntax.Node
import Mathlib.Data.List.Forall2

namespace LiveTree.Display

open Syntax (Branches)

namespace Node

mutual

/-- All nodes of a drawn tree, each before those below it. -/
def nodes : Node → List Node
  | ⟨label, tag, kind, children⟩ => ⟨label, tag, kind, children⟩ :: nodesOfList children

def nodesOfList : List Node → List Node
  | [] => []
  | child :: children => nodes child ++ nodesOfList children

end

mutual

/-- A drawn tree with every branch node replaced by what is below it. -/
def splice : Node → List Node
  | ⟨label, tag, kind, children⟩ =>
    if kind = .branch then spliceList children else [⟨label, tag, kind, spliceList children⟩]

def spliceList : List Node → List Node
  | [] => []
  | child :: children => splice child ++ spliceList children

end

theorem nodesOfList_eq (children : List Node) : nodesOfList children = children.flatMap nodes := by
  induction children with
  | nil => rfl
  | cons child children ih => rw [nodesOfList, ih, List.flatMap_cons]

theorem nodes_mk (label tag : Json) (kind : Kind) (children : List Node) :
    nodes ⟨label, tag, kind, children⟩ =
      ⟨label, tag, kind, children⟩ :: children.flatMap nodes := by
  rw [nodes, nodesOfList_eq]

theorem spliceList_eq (children : List Node) :
    spliceList children = children.flatMap splice := by
  induction children with
  | nil => rfl
  | cons child children ih => rw [spliceList, ih, List.flatMap_cons]

theorem splice_branch (label tag : Json) (children : List Node) :
    splice ⟨label, tag, .branch, children⟩ = children.flatMap splice := by
  rw [splice, if_pos rfl, spliceList_eq]

theorem splice_of_ne (label tag : Json) {kind : Kind} (h : kind ≠ .branch) (children : List Node) :
    splice ⟨label, tag, kind, children⟩ = [⟨label, tag, kind, children.flatMap splice⟩] := by
  rw [splice, if_neg h, spliceList_eq]

end Node

/-- What a rule is drawn as, by the number of its branches. -/
def ruleKind : Nat → Kind
  | 0 => .invalid
  | 1 => .rule
  | _ => .branching

/-- A drawn tree of the shape of a syntax tree, each node showing the node in its place. -/
inductive Mirrors : Syntax.Node → Node → Prop
  | token (symbol value : Text) (tag : Json) :
      Mirrors (.token symbol value) ⟨.text (Json.escape value), tag, .value, []⟩
  | rule (symbol : Text) (branches : Branches) (tag : Json) {children : List Node}
      (each : List.Forall₂ Mirrors (branches.flatMap fun b => b.2.entries.flatten) children) :
      Mirrors (.rule symbol branches) ⟨.text symbol, tag, ruleKind branches.length, children⟩
  | self (name : Text) (tag : Json) : Mirrors (.self name) ⟨.text "self", tag, .invalid, []⟩
  | malformed (raw tag : Json) : Mirrors (.malformed raw) ⟨.text "?", tag, .invalid, []⟩

section Induction

variable {P : Syntax.Node → Node → Prop}

theorem forall₂_ofNodes {slot : List Syntax.Node}
    (h : ∀ node ∈ slot, ∀ tag, P node (ofSyntax tag node)) (reqs : Text) (number place size : Nat) :
    List.Forall₂ P slot (ofNodes reqs number place size slot) := by
  induction slot generalizing place with
  | nil => exact .nil
  | cons node slot ih =>
    rw [List.forall_mem_cons] at h
    rw [ofNodes]
    exact .cons (h.1 _) (ih h.2 (place + 1))

theorem forall₂_ofSlots {entries : List (List Syntax.Node)}
    (h : ∀ slot ∈ entries, ∀ node ∈ slot, ∀ tag, P node (ofSyntax tag node)) (reqs : Text)
    (number : Nat) : List.Forall₂ P entries.flatten (ofSlots reqs number entries) := by
  induction entries generalizing number with
  | nil => exact .nil
  | cons slot entries ih =>
    rw [List.forall_mem_cons] at h
    rw [ofSlots, List.flatten_cons]
    exact List.rel_append (forall₂_ofNodes h.1 reqs number 1 slot.length) (ih h.2 (number + 1))

/-- The drawing of one branch of several: a node of its own, with the branch's nodes below. -/
def DrawsBranch (P : Syntax.Node → Node → Prop) (b : Text × Syntax.Branch Syntax.Node)
    (tree : Node) : Prop :=
  ∃ children, tree = ⟨.text b.1, .text b.2.reqs, .branch, children⟩ ∧
    List.Forall₂ P b.2.entries.flatten children

theorem forall₂_ofBranches {branches : Branches}
    (h : ∀ b ∈ branches, ∀ slot ∈ b.2.entries, ∀ node ∈ slot, ∀ tag, P node (ofSyntax tag node)) :
    List.Forall₂ (DrawsBranch P) branches (ofBranches branches) := by
  induction branches with
  | nil => exact .nil
  | cons b branches ih =>
    rw [List.forall_mem_cons] at h
    rw [ofBranches]
    exact .cons ⟨_, rfl, forall₂_ofSlots h.1 b.2.reqs 1⟩ (ih h.2)

/-- What holds of the drawing of a node whenever it holds of the drawings of the nodes below it,
holds of every drawing. -/
theorem ofSyntax_induction
    (token : ∀ symbol value tag,
      P (.token symbol value) ⟨.text (Json.escape value), .text tag, .value, []⟩)
    (bare : ∀ symbol tag, P (.rule symbol []) ⟨.text symbol, .text tag, .invalid, []⟩)
    (single : ∀ symbol b tag children, List.Forall₂ P b.2.entries.flatten children →
      P (.rule symbol [b]) ⟨.text symbol, .text tag, .rule, children⟩)
    (fork : ∀ symbol branches tag children, 2 ≤ branches.length →
      List.Forall₂ (DrawsBranch P) branches children →
      P (.rule symbol branches) ⟨.text symbol, .text tag, .branching, children⟩)
    (self : ∀ name tag, P (.self name) ⟨.text "self", .text tag, .invalid, []⟩)
    (malformed : ∀ raw tag, P (.malformed raw) ⟨.text "?", .text tag, .invalid, []⟩)
    (tag : Option Text) (node : Syntax.Node) : P node (ofSyntax tag node) := by
  induction node using Syntax.Node.induction_children generalizing tag with
  | step node ih =>
    match node with
    | .token symbol value =>
      rw [ofSyntax]
      exact token symbol value _
    | .self name =>
      rw [ofSyntax]
      exact self name _
    | .malformed raw =>
      rw [ofSyntax]
      exact malformed raw _
    | .rule symbol [] =>
      rw [ofSyntax]
      exact bare symbol _
    | .rule symbol [(key, ⟨reqs, entries⟩)] =>
      rw [ofSyntax]
      refine single symbol _ _ _ (forall₂_ofSlots (fun slot hslot node hnode tag => ?_) reqs 1)
      refine ih node (Syntax.Node.mem_children_rule.mpr ?_) tag
      exact ⟨_, List.mem_cons_self, slot, hslot, hnode⟩
    | .rule symbol (first :: second :: rest) =>
      rw [ofSyntax]
      have htwo : 2 ≤ (first :: second :: rest).length := Nat.le_add_left 2 rest.length
      refine fork symbol _ _ _ htwo (forall₂_ofBranches fun b hb slot hslot node hnode tag => ?_)
      exact ih node (Syntax.Node.mem_children_rule.mpr ⟨b, hb, slot, hslot, hnode⟩) tag

end Induction

theorem forall₂_splice {R : Syntax.Node → Node → Prop} {nodes : List Syntax.Node}
    {trees : List Node}
    (h : List.Forall₂ (fun node tree => ∃ spliced, tree.splice = [spliced] ∧ R node spliced)
      nodes trees) : List.Forall₂ R nodes (trees.flatMap Node.splice) := by
  induction h with
  | nil => exact .nil
  | cons hhead _ ih =>
    obtain ⟨spliced, hsplice, hr⟩ := hhead
    rw [List.flatMap_cons, hsplice]
    exact .cons hr ih

theorem splice_drawsBranch {R : Syntax.Node → Node → Prop} {branches : Branches}
    {trees : List Node}
    (h : List.Forall₂ (DrawsBranch fun node tree => ∃ spliced, tree.splice = [spliced] ∧
      R node spliced) branches trees) :
    List.Forall₂ R (branches.flatMap fun b => b.2.entries.flatten) (trees.flatMap Node.splice) := by
  induction h with
  | nil => exact .nil
  | cons hhead _ ih =>
    obtain ⟨children, rfl, hchildren⟩ := hhead
    rw [List.flatMap_cons, List.flatMap_cons, Node.splice_branch]
    exact List.rel_append (forall₂_splice hchildren) ih

theorem ruleKind_of_two_le {n : Nat} (h : 2 ≤ n) : ruleKind n = .branching := by
  obtain ⟨n, rfl⟩ := Nat.exists_eq_add_of_le' h
  rfl

/-- Without its branch nodes a drawing is a single tree, of the shape of the syntax tree. -/
theorem exists_mirrors_splice (tag : Option Text) (node : Syntax.Node) :
    ∃ spliced, (ofSyntax tag node).splice = [spliced] ∧ Mirrors node spliced := by
  refine ofSyntax_induction (P := fun node tree => ∃ spliced, tree.splice = [spliced] ∧
    Mirrors node spliced) ?token ?bare ?single ?fork ?self ?malformed tag node
  case token =>
    intro symbol value tag
    exact ⟨_, rfl, .token symbol value _⟩
  case bare =>
    intro symbol tag
    exact ⟨_, rfl, .rule symbol [] _ .nil⟩
  case single =>
    intro symbol b tag children h
    refine ⟨_, Node.splice_of_ne _ _ (by decide) _, .rule symbol [b] _ ?_⟩
    rw [List.flatMap_cons, List.flatMap_nil, List.append_nil]
    exact forall₂_splice h
  case fork =>
    intro symbol branches tag children hlen h
    refine ⟨_, Node.splice_of_ne _ _ (by decide) _, ?_⟩
    rw [← ruleKind_of_two_le hlen]
    exact .rule symbol branches _ (splice_drawsBranch h)
  case self =>
    intro name tag
    exact ⟨_, rfl, .self name _⟩
  case malformed =>
    intro raw tag
    exact ⟨_, rfl, .malformed raw _⟩

theorem exists_of_mem_right {α β : Type} {R : α → β → Prop} {l : List α} {l' : List β}
    (h : List.Forall₂ R l l') {b : β} (hb : b ∈ l') : ∃ a ∈ l, R a b := by
  induction h with
  | nil => exact absurd hb List.not_mem_nil
  | cons hhead _ ih =>
    rcases List.mem_cons.mp hb with rfl | hb
    · exact ⟨_, List.mem_cons_self, hhead⟩
    · obtain ⟨a, ha, hr⟩ := ih hb
      exact ⟨a, List.mem_cons_of_mem _ ha, hr⟩

theorem map_eq_map_of_forall₂ {α β γ : Type} {f : α → γ} {g : β → γ} {l : List α} {l' : List β}
    (h : List.Forall₂ (fun a b => f a = g b) l l') : l.map f = l'.map g := by
  induction h with
  | nil => rfl
  | cons hhead _ ih => rw [List.map_cons, List.map_cons, hhead, ih]

/-- A tree in which branch nodes stand right below branching nodes only. -/
def IsPlaced (tree : Node) : Prop :=
  ∀ t ∈ tree.nodes, ∀ child ∈ t.children, child.kind = .branch → t.kind = .branching

theorem isPlaced_leaf (label tag : Json) (kind : Kind) : IsPlaced ⟨label, tag, kind, []⟩ := by
  intro t ht child hchild
  obtain rfl := List.mem_singleton.mp ht
  exact absurd hchild List.not_mem_nil

theorem isPlaced_of_children {tree : Node}
    (hroot : ∀ child ∈ tree.children, child.kind = .branch → tree.kind = .branching)
    (hbelow : ∀ child ∈ tree.children, IsPlaced child) : IsPlaced tree := by
  intro t ht
  obtain ⟨label, tag, kind, children⟩ := tree
  rw [Node.nodes_mk, List.mem_cons, List.mem_flatMap] at ht
  rcases ht with rfl | ⟨child, hchild, ht⟩
  · exact hroot
  · exact hbelow child hchild t ht

theorem isPlaced_ofSyntax (tag : Option Text) (node : Syntax.Node) :
    (ofSyntax tag node).kind ≠ .branch ∧ IsPlaced (ofSyntax tag node) := by
  refine ofSyntax_induction (P := fun _ tree => tree.kind ≠ .branch ∧ IsPlaced tree)
    ?token ?bare ?single ?fork ?self ?malformed tag node
  case single =>
    intro symbol b tag children h
    have hchild : ∀ child ∈ children, child.kind ≠ .branch ∧ IsPlaced child := fun child hc =>
      (exists_of_mem_right h hc).elim fun _ hn => hn.2
    refine ⟨nofun, isPlaced_of_children ?_ fun child hc => (hchild child hc).2⟩
    exact fun child hc hkind => absurd hkind (hchild child hc).1
  case fork =>
    intro symbol branches tag trees hlen h
    refine ⟨nofun, isPlaced_of_children (fun _ _ _ => rfl) fun tree ht => ?_⟩
    obtain ⟨b, -, children, rfl, hchildren⟩ := exists_of_mem_right h ht
    have hchild : ∀ child ∈ children, child.kind ≠ .branch ∧ IsPlaced child := fun child hc =>
      (exists_of_mem_right hchildren hc).elim fun _ hn => hn.2
    refine isPlaced_of_children ?_ fun child hc => (hchild child hc).2
    exact fun child hc hkind => absurd hkind (hchild child hc).1
  all_goals
    intros
    exact ⟨nofun, isPlaced_leaf _ _ _⟩

/-- The branching nodes of a drawn tree. -/
def branchings (tree : Node) : List Node := tree.nodes.filter (·.kind == .branching)

theorem branchings_branching (label tag : Json) (children : List Node) :
    branchings ⟨label, tag, .branching, children⟩ =
      ⟨label, tag, .branching, children⟩ :: children.flatMap branchings := by
  rw [branchings, Node.nodes_mk, List.filter_cons_of_pos rfl, List.filter_flatMap]
  rfl

theorem branchings_of_ne (label tag : Json) {kind : Kind} (h : kind ≠ .branching)
    (children : List Node) :
    branchings ⟨label, tag, kind, children⟩ = children.flatMap branchings := by
  have hkind : ¬(kind == .branching) = true := fun hb => h (eq_of_beq hb)
  rw [branchings, Node.nodes_mk, List.filter_cons, if_neg hkind, List.filter_flatMap]
  rfl

/-- What a branching node shows of itself and of the nodes right below it. -/
def shown (tree : Node) : Json × List (Json × Json × Kind) :=
  (tree.label, tree.children.map fun child => (child.label, child.tag, child.kind))

/-- What is to be shown of a rule of several branches: one branch node for each. -/
def asDrawn (fork : Text × Branches) : Json × List (Json × Json × Kind) :=
  (.text fork.1, fork.2.map fun b => (.text b.1, .text b.2.reqs, .branch))

theorem flatMap_eq_of_forall₂ {α β γ : Type} {f : α → List γ} {g : β → List γ} {l : List α}
    {l' : List β} (h : List.Forall₂ (fun a b => f a = g b) l l') : l.flatMap f = l'.flatMap g := by
  rw [List.flatMap_def, List.flatMap_def, map_eq_map_of_forall₂ h]

/-- The branching nodes of a drawing are the rules of several branches, and each has exactly one
branch node for each of its branches. -/
theorem branchings_ofSyntax (tag : Option Text) (node : Syntax.Node) :
    node.forks.map asDrawn = (branchings (ofSyntax tag node)).map shown := by
  refine ofSyntax_induction (P := fun node tree =>
    node.forks.map asDrawn = (branchings tree).map shown) ?token ?bare ?single ?fork ?self
    ?malformed tag node
  case single =>
    intro symbol b tag children h
    have hbelow : (b.2.entries.flatten.flatMap fun node => node.forks.map asDrawn) =
        children.flatMap fun tree => (branchings tree).map shown := flatMap_eq_of_forall₂ h
    have hforks : (Syntax.Node.rule symbol [b]).forks =
        b.2.entries.flatten.flatMap Syntax.Node.forks := by
      rw [Syntax.Node.forks_eq, Syntax.Node.children, List.flatMap_singleton]
      rfl
    have hkind : Kind.rule ≠ .branching := by decide
    rw [hforks, branchings_of_ne _ _ hkind, List.map_flatMap, List.map_flatMap, hbelow]
  case fork =>
    intro symbol branches tag trees hlen h
    have hbelow : ((branches.flatMap fun b => b.2.entries.flatten).flatMap fun node =>
        node.forks.map asDrawn) = trees.flatMap fun tree => (branchings tree).map shown := by
      rw [List.flatMap_assoc]
      refine flatMap_eq_of_forall₂ (h.imp fun b tree => ?_)
      rintro ⟨children, rfl, hchildren⟩
      have hkind : Kind.branch ≠ .branching := by decide
      rw [branchings_of_ne _ _ hkind, List.map_flatMap]
      exact flatMap_eq_of_forall₂ hchildren
    have hheads : (branches.map fun b => (Json.text b.1, Json.text b.2.reqs, Kind.branch)) =
        trees.map fun tree => (tree.label, tree.tag, tree.kind) := by
      refine map_eq_map_of_forall₂ (h.imp fun b tree => ?_)
      rintro ⟨children, rfl, -⟩
      rfl
    rw [Syntax.Node.forks_eq, Syntax.Node.fork?, if_pos hlen, branchings_branching,
      Syntax.Node.children, Option.toList_some, List.singleton_append, List.map_cons, List.map_cons,
      List.map_flatMap, List.map_flatMap, hbelow, asDrawn, hheads]
    rfl
  all_goals
    intros
    rfl

theorem extentList_eq_countList {nodes : List Syntax.Node} {trees : List Node}
    (h : List.Forall₂ (fun node tree => node.extent = tree.count) nodes trees) :
    Syntax.Node.extentList nodes = Node.countList trees := by
  induction h with
  | nil => rfl
  | cons hhead _ ih => rw [Syntax.Node.extentList, Node.countList, hhead, ih]

theorem countList_drawsBranch {branches : Branches} {trees : List Node}
    (h : List.Forall₂ (DrawsBranch fun node tree => node.extent = tree.count) branches trees) :
    Node.countList trees = branches.length +
      Syntax.Node.extentList (branches.flatMap fun b => b.2.entries.flatten) := by
  induction h with
  | nil => rfl
  | cons hhead _ ih =>
    obtain ⟨children, rfl, hchildren⟩ := hhead
    rw [List.flatMap_cons, Syntax.Node.extentList_append, extentList_eq_countList hchildren,
      Node.countList, Node.count, ih, List.length_cons]
    omega

/-- A drawing has a node for each node of the syntax tree and one for each branch of a rule of
several. -/
theorem count_ofSyntax (tag : Option Text) (node : Syntax.Node) :
    node.extent = (ofSyntax tag node).count := by
  refine ofSyntax_induction (P := fun node tree => node.extent = tree.count) ?token ?bare ?single
    ?fork ?self ?malformed tag node
  case single =>
    intro symbol b tag children h
    rw [Syntax.Node.extent_eq, Node.count, Syntax.Node.children, List.flatMap_singleton,
      extentList_eq_countList h]
    rfl
  case fork =>
    intro symbol branches tag trees hlen h
    rw [Syntax.Node.extent_eq, Node.count, countList_drawsBranch h, Syntax.Node.fork?, if_pos hlen,
      Syntax.Node.children, Option.toList_some, List.flatMap_singleton, Nat.add_assoc]
  all_goals
    intros
    rfl

/-- A drawing loses, doubles and moves nothing. Without its branch nodes it is one tree of the shape
of the syntax tree; branch nodes stand below branching nodes only, one for each branch of a rule of
several, in order and with its key and requirement; and there are no other nodes. -/
theorem ofSyntax_keeps_shape (tag : Option Text) (node : Syntax.Node) :
    (∃ spliced, (ofSyntax tag node).splice = [spliced] ∧ Mirrors node spliced) ∧
      ((ofSyntax tag node).kind ≠ .branch ∧ IsPlaced (ofSyntax tag node)) ∧
      (branchings (ofSyntax tag node)).map shown = node.forks.map asDrawn ∧
      (ofSyntax tag node).count = node.nodes.length + (node.forks.flatMap Prod.snd).length :=
  ⟨exists_mirrors_splice tag node, isPlaced_ofSyntax tag node, (branchings_ofSyntax tag node).symm,
    (count_ofSyntax tag node).symm⟩

end LiveTree.Display
