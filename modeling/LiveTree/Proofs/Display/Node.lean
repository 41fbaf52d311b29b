import LiveTree.Proofs.Display.Shape

namespace LiveTree

section Traversal

variable {ε α β : Type} {f : α → Except ε β}

theorem mapM_cons_eq (a : α) (l : List α) :
    (a :: l).mapM f = (f a).bind fun b => (l.mapM f).map (b :: ·) := by
  rw [List.mapM_cons]
  cases f a <;> cases l.mapM f <;> rfl

theorem mapM_cons_of_ok {a : α} {b : β} (h : f a = .ok b) (l : List α) :
    (a :: l).mapM f = (l.mapM f).map (b :: ·) := by
  rw [mapM_cons_eq, h]
  rfl

theorem mapM_cons_of_error {a : α} {e : ε} (h : f a = .error e) (l : List α) :
    (a :: l).mapM f = .error e := by
  rw [mapM_cons_eq, h]
  rfl

theorem mapM_append_eq (l m : List α) :
    (l ++ m).mapM f = (l.mapM f).bind fun bs => (m.mapM f).map (bs ++ ·) := by
  rw [List.mapM_append]
  cases l.mapM f <;> cases m.mapM f <;> rfl

theorem mapM_congr {g : α → Except ε β} {l : List α} (h : ∀ a ∈ l, f a = g a) :
    l.mapM f = l.mapM g := by
  induction l with
  | nil => rfl
  | cons a l ih =>
    rw [List.forall_mem_cons] at h
    rw [List.mapM_cons, List.mapM_cons, h.1, ih h.2]

theorem mapM_eq_ok_iff {l : List α} {bs : List β} :
    l.mapM f = .ok bs ↔ List.Forall₂ (fun a b => f a = .ok b) l bs := by
  induction l generalizing bs with
  | nil =>
    rw [List.mapM_nil, List.forall₂_nil_left_iff]
    constructor
    · intro h
      exact (Except.ok.inj h).symm
    · rintro rfl
      rfl
  | cons a l ih =>
    rw [List.forall₂_cons_left_iff]
    cases ha : f a with
    | error e =>
      rw [mapM_cons_of_error ha]
      simp
    | ok b =>
      rw [mapM_cons_of_ok ha]
      constructor
      · intro h
        cases hl : l.mapM f with
        | error e => simp [hl, Except.map] at h
        | ok cs =>
          have hbs : bs = b :: cs := by simpa [hl, Except.map] using h.symm
          exact ⟨b, cs, rfl, ih.mp hl, hbs⟩
      · rintro ⟨c, cs, hc, hcs, rfl⟩
        rw [ih.mpr hcs, Except.ok.inj hc]
        rfl

theorem exists_mapM_eq_ok_iff {l : List α} :
    (∃ bs, l.mapM f = .ok bs) ↔ ∀ a ∈ l, ∃ b, f a = .ok b := by
  induction l with
  | nil => simp [pure, Except.pure]
  | cons a l ih =>
    rw [List.forall_mem_cons, ← ih]
    cases ha : f a with
    | error e => simp [mapM_cons_of_error ha]
    | ok b =>
      rw [mapM_cons_of_ok ha]
      cases l.mapM f <;> simp [Except.map]

end Traversal

namespace Display.Node

open Association (find? find?_cons)

/-- What holds of a node if it holds of all right below it, holds of every node. -/
theorem induction_children {P : Node → Prop}
    (step : ∀ node : Node, (∀ child ∈ node.children, P child) → P node) (node : Node) : P node :=
  step node fun child h =>
    have : sizeOf child < sizeOf node := by
      obtain ⟨label, tag, kind, children⟩ := node
      have hchild : sizeOf child < sizeOf children := List.sizeOf_lt_of_mem h
      rw [mk.sizeOf_spec]
      omega
    induction_children step child
termination_by sizeOf node

theorem nodes_eq (node : Node) : node.nodes = node :: node.children.flatMap nodes := by
  obtain ⟨label, tag, kind, children⟩ := node
  exact nodes_mk label tag kind children

theorem forall_mem_nodes {P : Node → Prop} {node : Node} :
    (∀ t ∈ node.nodes, P t) ↔ P node ∧ ∀ child ∈ node.children, ∀ t ∈ child.nodes, P t := by
  rw [nodes_eq, List.forall_mem_cons, List.forall_mem_flatMap]

theorem childItems_eq (children : List Node) : childItems children = children.map toJson := by
  induction children with
  | nil => rfl
  | cons child children ih => rw [childItems, ih, List.map_cons]

mutual

/-- How many nodes lie in one another in a value that is read as a tree. -/
def levels : Json → Nat
  | .object members => levelsOfMembers members + 1
  | _ => 0

def levelsOfMembers : Json.Members → Nat
  | [] => 0
  | (key, value) :: members =>
    if key == "children" then levelsOfChildren value else levelsOfMembers members

def levelsOfChildren : Json → Nat
  | .list items => levelsOfItems items
  | _ => 0

def levelsOfItems : List Json → Nat
  | [] => 0
  | item :: items => max (levels item) (levelsOfItems items)

end

theorem levelsOfMembers_eq (members : Json.Members) :
    levelsOfMembers members = ((find? "children" members).map levelsOfChildren).getD 0 := by
  induction members with
  | nil => rfl
  | cons member members ih =>
    obtain ⟨key, value⟩ := member
    simp only [levelsOfMembers, find?_cons, beq_iff_eq]
    split
    · rfl
    · exact ih

theorem levels_of_list {members : Json.Members} {items : List Json}
    (h : find? "children" members = some (.list items)) :
    levels (.object members) = levelsOfItems items + 1 := by
  rw [levels, levelsOfMembers_eq, h]
  rfl

theorem levelsOfItems_le_iff {items : List Json} {n : Nat} :
    levelsOfItems items ≤ n ↔ ∀ item ∈ items, levels item ≤ n := by
  induction items with
  | nil => simp [levelsOfItems]
  | cons item items ih => rw [levelsOfItems, Nat.max_le, ih, List.forall_mem_cons]

theorem nodeList_eq (room : Nat) (items : List Json) :
    nodeList room items = items.mapM (read room) := by
  induction items with
  | nil => rfl
  | cons item items ih =>
    rw [nodeList, ih, mapM_cons_eq]
    cases read room item <;> cases items.mapM (read room) <;> rfl

theorem childrenOfMembers_eq (room : Nat) (members : Json.Members) :
    childrenOfMembers room members =
      ((find? "children" members).map (childrenOfJson room)).getD (.ok []) := by
  induction members with
  | nil => rfl
  | cons member members ih =>
    obtain ⟨key, value⟩ := member
    simp only [childrenOfMembers, find?_cons, beq_iff_eq]
    split
    · rfl
    · exact ih

/-- What may stand for a kind; nothing stands for a special node. -/
def NamesKind (value : Option Json) (kind : Kind) : Prop :=
  value = none ∧ kind = .special ∨ value = some (.text kind.name)

/-- What counts as no children. -/
def NamesNone (value : Option Json) : Prop :=
  value = none ∨ value = some (.text []) ∨ value = some (.object [])

/-- What stands for children: what counts as none, or a list that they are read from. -/
def NamesChildren (room : Nat) (value : Option Json) (children : List Node) : Prop :=
  NamesNone value ∧ children = [] ∨ ∃ items, value = some (.list items) ∧
    List.Forall₂ (fun item child => read room item = .ok child) items children

theorem ofName?_eq_some_iff {name : Text} {kind : Kind} :
    Kind.ofName? name = some kind ↔ name = kind.name := by
  constructor
  · intro h
    have hname := List.find?_some h
    exact (eq_of_beq hname).symm
  · rintro rfl
    exact Kind.ofName?_name kind

theorem kindOf_eq_ok_iff {value : Option Json} {kind : Kind} :
    kindOf value = .ok kind ↔ NamesKind value kind := by
  rw [NamesKind]
  cases value with
  | none => simp [kindOf, eq_comm]
  | some value =>
    cases value with
    | text name =>
      have hname : Kind.ofName? name = some kind ↔ name = kind.name := ofName?_eq_some_iff
      cases h : Kind.ofName? name with
      | none => simpa [kindOf, h] using hname
      | some other => simpa [kindOf, h] using hname
    | _ => simp [kindOf]

theorem childrenOfMembers_eq_ok_iff {room : Nat} {members : Json.Members}
    {children : List Node} : childrenOfMembers room members = .ok children ↔
      NamesChildren room (find? "children" members) children := by
  rw [childrenOfMembers_eq, NamesChildren, NamesNone]
  cases find? "children" members with
  | none => simp [eq_comm]
  | some value =>
    cases value with
    | list items => simp [childrenOfJson, nodeList_eq, mapM_eq_ok_iff]
    | text s => cases s <;> simp [childrenOfJson, eq_comm]
    | object members => cases members <;> simp [childrenOfJson, eq_comm]
    | _ => simp [childrenOfJson]

/-- An object that a node is read from, by its members; below it there is so much room. -/
structure Describes (room : Nat) (members : Json.Members) (node : Node) : Prop where
  label : find? "label" members = some node.label
  tag : (find? "tag" members).getD (.text []) = node.tag
  kind : NamesKind (find? "kind" members) node.kind
  children : NamesChildren room (find? "children" members) node.children

/-- What reading an object with a label comes to. -/
theorem read_of_label {members : Json.Members} {label : Json}
    (hlabel : find? "label" members = some label) (room : Nat) :
    read 0 (.object members) = .error .tooDeep ∧
      read (room + 1) (.object members) = (kindOf (find? "kind" members)).bind fun kind =>
        (childrenOfMembers room members).map fun children =>
          ⟨label, (find? "tag" members).getD (.text []), kind, children⟩ := by
  constructor
  · simp only [read, hlabel]
  · simp only [read, hlabel]
    cases kindOf (find? "kind" members) with
    | error fault => rfl
    | ok kind => cases childrenOfMembers room members <;> rfl

theorem read_eq_ok_iff {room : Nat} {value : Json} {node : Node} :
    read room value = .ok node ↔ ∃ below members, room = below + 1 ∧ value = .object members ∧
      Describes below members node := by
  constructor
  · intro h
    cases value with
    | object members =>
      cases hlabel : find? "label" members with
      | none => simp [read, hlabel] at h
      | some label =>
        cases room with
        | zero => cases (read_of_label hlabel 0).1.symm.trans h
        | succ below =>
          rw [(read_of_label hlabel below).2] at h
          cases hkind : kindOf (find? "kind" members) with
          | error fault => simp [hkind, Except.bind] at h
          | ok kind =>
            cases hchildren : childrenOfMembers below members with
            | error fault => simp [hkind, hchildren, Except.bind, Except.map] at h
            | ok children =>
              rw [hkind, hchildren] at h
              obtain rfl := Except.ok.inj h
              exact ⟨below, members, rfl, rfl, hlabel, rfl, kindOf_eq_ok_iff.mp hkind,
                childrenOfMembers_eq_ok_iff.mp hchildren⟩
    | _ => simp [read] at h
  · rintro ⟨below, members, rfl, rfl, hlabel, htag, hkind, hchildren⟩
    obtain ⟨label, tag, kind, children⟩ := node
    rw [(read_of_label hlabel below).2, kindOf_eq_ok_iff.mpr hkind,
      childrenOfMembers_eq_ok_iff.mpr hchildren, htag]
    rfl

theorem read_object {room : Nat} {members : Json.Members} {node : Node} :
    read (room + 1) (.object members) = .ok node ↔ Describes room members node := by
  rw [read_eq_ok_iff]
  constructor
  · rintro ⟨below, others, hroom, hmembers, h⟩
    rwa [Nat.succ.inj hroom, Json.object.inj hmembers]
  · exact fun h => ⟨room, members, rfl, rfl, h⟩

end Display.Node

end LiveTree
