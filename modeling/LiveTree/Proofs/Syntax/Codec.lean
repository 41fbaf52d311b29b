import LiveTree.Syntax.Node

namespace LiveTree.Syntax

open Association (find? find?_cons contains)

namespace Node

/-- The nodes of a slot. -/
def ofSlot : Json → List Node
  | .list nodes => nodes.map ofJson
  | raw => [.malformed raw]

end Node

namespace Branch

def toJson (branch : Branch Node) : Json :=
  .object [("reqs", .text branch.reqs),
    ("entries", .list (branch.entries.map fun slot => .list (slot.map Node.toJson)))]

/-- The slots of a value that is read as a branch. -/
def slots : Json → List Json
  | .object members =>
    match find? "entries" members with
    | some (.list slots) => slots
    | _ => []
  | _ => []

/-- The branch that a value is read as. -/
def ofJson (value : Json) : Branch Node :=
  let reqs := match value with
    | .object members => ((find? "reqs" members).map Json.asText).getD []
    | _ => []
  ⟨reqs, (slots value).map Node.ofSlot⟩

/-- A value that is read as a branch: an object whose entries, if it has any, are a list. -/
def IsReadable (value : Json) : Prop :=
  ∃ members, value = .object members ∧
    (find? "entries" members = none ∨ ∃ slots, find? "entries" members = some (.list slots))

end Branch

namespace Node

theorem nodeItems_eq (nodes : List Node) : nodeItems nodes = nodes.map toJson := by
  induction nodes with
  | nil => rfl
  | cons node nodes ih => rw [nodeItems, ih, List.map_cons]

theorem slotItems_eq (slots : List (List Node)) :
    slotItems slots = slots.map fun slot => .list (slot.map toJson) := by
  induction slots with
  | nil => rfl
  | cons slot slots ih => rw [slotItems, nodeItems_eq, ih, List.map_cons]

theorem branchMembers_eq (branches : Branches) :
    branchMembers branches = branches.map fun b => (b.1, b.2.toJson) := by
  induction branches with
  | nil => rfl
  | cons b branches ih => rw [branchMembers, slotItems_eq, ih, List.map_cons, Branch.toJson]

theorem toJson_rule (symbol : Text) (branches : Branches) :
    toJson (.rule symbol branches) = .object [("symbol", .text symbol),
      ("branches", .object (branches.map fun b => (b.1, b.2.toJson)))] := by
  rw [toJson, branchMembers_eq]

theorem nodeList_eq (values : List Json) : nodeList values = values.map ofJson := by
  induction values with
  | nil => rfl
  | cons value values ih => rw [nodeList, ih, List.map_cons]

theorem slotList_eq (values : List Json) : slotList values = values.map ofSlot := by
  induction values with
  | nil => rfl
  | cons value values ih =>
    rw [List.map_cons, ← ih]
    cases value with
    | list nodes => rw [slotList, nodeList_eq, ofSlot]
    | _ => rfl

theorem entriesOfMembers_eq (members : Json.Members) :
    entriesOfMembers members = ((find? "entries" members).map entriesOfJson).getD (some []) := by
  induction members with
  | nil => rfl
  | cons member members ih =>
    obtain ⟨key, value⟩ := member
    simp only [entriesOfMembers, find?_cons, beq_iff_eq]
    split
    · rfl
    · exact ih

theorem branchesOfMembers_eq (members : Json.Members) :
    branchesOfMembers members = (find? "branches" members).bind branchesOfJson := by
  induction members with
  | nil => rfl
  | cons member members ih =>
    obtain ⟨key, value⟩ := member
    simp only [branchesOfMembers, find?_cons, beq_iff_eq]
    split
    · rfl
    · exact ih

theorem entriesOfMembers_eq_some_iff {members : Json.Members} {entries : List (List Node)} :
    entriesOfMembers members = some entries ↔
      Branch.IsReadable (.object members) ∧
        entries = (Branch.slots (.object members)).map ofSlot := by
  have hreadable : Branch.IsReadable (.object members) ↔
      (find? "entries" members = none ∨ ∃ slots, find? "entries" members = some (.list slots)) := by
    simp [Branch.IsReadable]
  rw [entriesOfMembers_eq, hreadable, Branch.slots]
  cases find? "entries" members with
  | none => simp [eq_comm]
  | some value =>
    cases value with
    | list slots => simp [entriesOfJson, slotList_eq, eq_comm]
    | _ => simp [entriesOfJson]

theorem branchList_eq_some_iff {members : Json.Members} {branches : Branches} :
    branchList members = some branches ↔
      (∀ m ∈ members, Branch.IsReadable m.2) ∧
        branches = members.map fun m => (m.1, Branch.ofJson m.2) := by
  induction members generalizing branches with
  | nil => simp [branchList, eq_comm]
  | cons member members ih =>
    obtain ⟨key, value⟩ := member
    rw [List.forall_mem_cons, List.map_cons]
    cases value with
    | object branch =>
      rw [branchList]
      constructor
      · intro h
        split at h
        · rename_i entries rest hentries hrest
          obtain ⟨hreadable, rfl⟩ := entriesOfMembers_eq_some_iff.mp hentries
          obtain ⟨hall, rfl⟩ := ih.mp hrest
          exact ⟨⟨hreadable, hall⟩, (Option.some.inj h).symm⟩
        · cases h
      · rintro ⟨⟨hreadable, hall⟩, rfl⟩
        rw [entriesOfMembers_eq_some_iff.mpr ⟨hreadable, rfl⟩, ih.mpr ⟨hall, rfl⟩]
        rfl
    | _ => simp [branchList, Branch.IsReadable]

theorem ofJson_token {members : Json.Members} {symbol value : Text}
    (hsymbol : find? "symbol" members = some (.text symbol))
    (hvalue : find? "value" members = some (.text value))
    (hbranches : find? "branches" members = none) :
    ofJson (.object members) = .token symbol value := by
  simp [ofJson, contains, hsymbol, hvalue, hbranches]

theorem ofJson_rule {members branches : Json.Members} {symbol : Text}
    (hsymbol : find? "symbol" members = some (.text symbol))
    (hvalue : find? "value" members = none)
    (hbranches : find? "branches" members = some (.object branches))
    (hreadable : ∀ b ∈ branches, Branch.IsReadable b.2) :
    ofJson (.object members) =
      .rule symbol (branches.map fun b => (b.1, Branch.ofJson b.2)) := by
  have hlist : branchesOfMembers members =
      some (branches.map fun b => (b.1, Branch.ofJson b.2)) := by
    rw [branchesOfMembers_eq, hbranches]
    exact branchList_eq_some_iff.mpr ⟨hreadable, rfl⟩
  simp [ofJson, contains, hsymbol, hvalue, hbranches, hlist]

/-- The node that a value is read as, with what the value is then known to hold. -/
inductive Reading : Json → Node → Prop
  | self (name : Text) : Reading (.text name) (.self name)
  | token {members : Json.Members} {symbol value : Text}
      (symbol_eq : find? "symbol" members = some (.text symbol))
      (value_eq : find? "value" members = some (.text value))
      (branches_eq : find? "branches" members = none) :
      Reading (.object members) (.token symbol value)
  | rule {members branches : Json.Members} {symbol : Text}
      (symbol_eq : find? "symbol" members = some (.text symbol))
      (value_eq : find? "value" members = none)
      (branches_eq : find? "branches" members = some (.object branches))
      (readable : ∀ b ∈ branches, Branch.IsReadable b.2) :
      Reading (.object members) (.rule symbol (branches.map fun b => (b.1, Branch.ofJson b.2)))
  | malformed (raw : Json) : Reading raw (.malformed raw)

theorem reading (value : Json) : Reading value (ofJson value) := by
  cases value with
  | text name =>
    rw [ofJson]
    exact .self name
  | object members =>
    rw [ofJson]
    split
    · rename_i symbol hsymbol
      split
      · rename_i value hvalue hcontains
        exact .token hsymbol hvalue (by simpa [contains] using hcontains)
      · rename_i hvalue hcontains
        split
        · rename_i branches hbranches
          rw [branchesOfMembers_eq, Option.bind_eq_some_iff] at hbranches
          obtain ⟨value, hfind, hread⟩ := hbranches
          cases value with
          | object values =>
            obtain ⟨hreadable, rfl⟩ := branchList_eq_some_iff.mp hread
            exact .rule hsymbol hvalue hfind hreadable
          | _ => cases hread
        · exact .malformed _
      · exact .malformed _
    · exact .malformed _
  | _ => exact .malformed _

/-- A malformed node holds the value that it was read from. -/
theorem raw_eq_of_ofJson {value raw : Json} (h : ofJson value = .malformed raw) : raw = value := by
  have hreading := reading value
  rw [h] at hreading
  cases hreading
  rfl

inductive HasBranch : Json → Json → Prop
  | of_rule {members branches : Json.Members} {symbol : Text} {decoded : Branches}
      {b : Text × Json} (read : ofJson (.object members) = .rule symbol decoded)
      (found : find? "branches" members = some (.object branches)) (mem : b ∈ branches) :
      HasBranch (.object members) b.2

/-- The second value is read as a node when the first is. -/
inductive Reaches : Json → Json → Prop
  | self (value : Json) : Reaches value value
  | within {value branch node reached : Json} {nodes : List Json} (has : HasBranch value branch)
      (slot_mem : .list nodes ∈ Branch.slots branch) (node_mem : node ∈ nodes)
      (reaches : Reaches node reached) : Reaches value reached

theorem sizeOf_lt_of_find? {key : Text} {value : Json} {members : Json.Members}
    (h : find? key members = some value) : sizeOf value < sizeOf (Json.object members) := by
  have hmem := List.sizeOf_lt_of_mem (Association.mem_of_find? h)
  rw [Prod.mk.sizeOf_spec] at hmem
  rw [Json.object.sizeOf_spec]
  omega

theorem sizeOf_lt_of_mem_slots {branch slot : Json} (h : slot ∈ Branch.slots branch) :
    sizeOf slot < sizeOf branch := by
  cases branch with
  | object members =>
    rw [Branch.slots] at h
    split at h
    · rename_i slots hfind
      have hentries := sizeOf_lt_of_find? hfind
      have hslot := List.sizeOf_lt_of_mem h
      rw [Json.list.sizeOf_spec] at hentries
      omega
    · exact absurd h List.not_mem_nil
  | _ => exact absurd h List.not_mem_nil

theorem HasBranch.sizeOf_lt {value branch : Json} (h : HasBranch value branch) :
    sizeOf branch < sizeOf value := by
  cases h with
  | @of_rule members branches symbol decoded b read found mem =>
    have hbranches := sizeOf_lt_of_find? found
    have hmem := List.sizeOf_lt_of_mem mem
    have hb : sizeOf b = 1 + sizeOf b.1 + sizeOf b.2 := Prod.mk.sizeOf_spec b.1 b.2
    rw [Json.object.sizeOf_spec] at hbranches
    omega

/-- What holds of a value if it holds of all that are read as nodes within it, holds of every
value. -/
theorem induction_read {P : Json → Prop}
    (step : ∀ value, (∀ branch, HasBranch value branch →
      ∀ nodes, .list nodes ∈ Branch.slots branch → ∀ node ∈ nodes, P node) → P value)
    (value : Json) : P value :=
  step value fun branch has nodes hslot node hnode =>
    have : sizeOf node < sizeOf value := by
      have hbranch := has.sizeOf_lt
      have hlist := sizeOf_lt_of_mem_slots hslot
      have hmem := List.sizeOf_lt_of_mem hnode
      rw [Json.list.sizeOf_spec] at hlist
      omega
    induction_read step node
termination_by sizeOf value

end Node

end LiveTree.Syntax
