import LiveTree.Proofs.Syntax.Codec
import Mathlib.Data.List.Forall2
import Mathlib.Data.Set.List

namespace LiveTree.Syntax

open Association (find? find?_of_perm_pair)
open Node (ofJson ofSlot HasBranch)

mutual

/-- A value that a node is written as, or one that is read as no node. -/
inductive Canonical : Json → Prop
  | text (name : Text) : Canonical (.text name)
  | token {members : Json.Members} {symbol value : Text}
      (exactly : members.Perm [("symbol", .text symbol), ("value", .text value)]) :
      Canonical (.object members)
  | rule {members branches : Json.Members} {symbol : Text}
      (exactly : members.Perm [("symbol", .text symbol), ("branches", .object branches)])
      (each : ∀ b ∈ branches, CanonicalBranch b.2) : Canonical (.object members)
  | malformed {value raw : Json} (read : ofJson value = .malformed raw) : Canonical value

inductive CanonicalBranch : Json → Prop
  | branch {members : Json.Members} {reqs : Text} {entries : List (List Json)}
      (exactly : members.Perm [("reqs", .text reqs), ("entries", .list (entries.map .list))])
      (each : ∀ slot ∈ entries, ∀ node ∈ slot, Canonical node) : CanonicalBranch (.object members)

end

mutual

/-- Two values that differ at most in which comes first: of a token its symbol or its value, of a
rule its symbol or its branches, of a branch its requirement or its entries. -/
inductive Alike : Json → Json → Prop
  | refl (value : Json) : Alike value value
  | token {members members' : Json.Members} {symbol value : Json}
      (left : members.Perm [("symbol", symbol), ("value", value)])
      (right : members'.Perm [("symbol", symbol), ("value", value)]) :
      Alike (.object members) (.object members')
  | rule {members members' branches branches' : Json.Members} {symbol : Json}
      (left : members.Perm [("symbol", symbol), ("branches", .object branches)])
      (right : members'.Perm [("symbol", symbol), ("branches", .object branches')])
      (each : List.Forall₂ AlikeBranch branches branches') :
      Alike (.object members) (.object members')

inductive AlikeBranch : Text × Json → Text × Json → Prop
  | refl (b : Text × Json) : AlikeBranch b b
  | branch {key : Text} {members members' : Json.Members} {reqs : Json} {slots slots' : List Json}
      (left : members.Perm [("reqs", reqs), ("entries", .list slots)])
      (right : members'.Perm [("reqs", reqs), ("entries", .list slots')])
      (each : List.Forall₂ AlikeSlot slots slots') :
      AlikeBranch (key, .object members) (key, .object members')

inductive AlikeSlot : Json → Json → Prop
  | refl (slot : Json) : AlikeSlot slot slot
  | list {nodes nodes' : List Json} (each : List.Forall₂ Alike nodes nodes') :
      AlikeSlot (.list nodes) (.list nodes')

end

theorem Alike.exists_token {symbol value : Text} {other : Json}
    (h : Alike (.object [("symbol", .text symbol), ("value", .text value)]) other) :
    ∃ members, other = .object members ∧
      members.Perm [("symbol", .text symbol), ("value", .text value)] := by
  cases h with
  | refl => exact ⟨_, rfl, .refl _⟩
  | token left right =>
    obtain ⟨hsymbol, hvalue, -⟩ := find?_of_perm_pair (by decide) left
    obtain rfl := Option.some.inj hsymbol
    obtain rfl := Option.some.inj hvalue
    exact ⟨_, rfl, right⟩
  | rule left right each =>
    obtain ⟨-, hbranches, -⟩ := find?_of_perm_pair (by decide) left
    cases hbranches

theorem Alike.exists_rule {symbol other : Json} {branches : Json.Members}
    (h : Alike (.object [("symbol", symbol), ("branches", .object branches)]) other) :
    ∃ members branches', other = .object members ∧
      members.Perm [("symbol", symbol), ("branches", .object branches')] ∧
      List.Forall₂ AlikeBranch branches branches' := by
  cases h with
  | refl => exact ⟨_, branches, rfl, .refl _, List.forall₂_same.mpr fun b _ => .refl b⟩
  | token left right =>
    obtain ⟨-, hvalue, -⟩ := find?_of_perm_pair (by decide) left
    cases hvalue
  | rule left right each =>
    obtain ⟨hsymbol, hbranches, -⟩ := find?_of_perm_pair (by decide) left
    obtain rfl := Option.some.inj hsymbol
    obtain rfl := Json.object.inj (Option.some.inj hbranches)
    exact ⟨_, _, rfl, right, each⟩

theorem AlikeBranch.exists_branch {key : Text} {reqs value : Json} {slots : List Json}
    (h : AlikeBranch (key, .object [("reqs", reqs), ("entries", .list slots)]) (key, value)) :
    ∃ members slots', value = .object members ∧
      members.Perm [("reqs", reqs), ("entries", .list slots')] ∧
      List.Forall₂ AlikeSlot slots slots' := by
  cases h with
  | refl => exact ⟨_, slots, rfl, .refl _, List.forall₂_same.mpr fun slot _ => .refl slot⟩
  | branch left right each =>
    obtain ⟨hreqs, hentries, -⟩ := find?_of_perm_pair (by decide) left
    obtain rfl := Option.some.inj hreqs
    obtain rfl := Json.list.inj (Option.some.inj hentries)
    exact ⟨_, _, rfl, right, each⟩

theorem AlikeSlot.exists_list {nodes : List Json} {slot : Json}
    (h : AlikeSlot (.list nodes) slot) :
    ∃ nodes', slot = .list nodes' ∧ List.Forall₂ Alike nodes nodes' := by
  cases h with
  | refl => exact ⟨nodes, rfl, List.forall₂_same.mpr fun node _ => .refl node⟩
  | list each => exact ⟨_, rfl, each⟩

theorem branch_of_perm {members : Json.Members} {reqs : Text} {slots : List Json}
    (exactly : members.Perm [("reqs", .text reqs), ("entries", .list slots)]) :
    Branch.IsReadable (.object members) ∧ Branch.slots (.object members) = slots ∧
      (Branch.ofJson (.object members)).toJson = .object [("reqs", .text reqs),
        ("entries", .list (slots.map fun slot => .list ((ofSlot slot).map Node.toJson)))] := by
  obtain ⟨hreqs, hentries, -⟩ := find?_of_perm_pair (by decide) exactly
  have hslots : Branch.slots (.object members) = slots := by rw [Branch.slots, hentries]
  refine ⟨⟨members, rfl, .inr ⟨slots, hentries⟩⟩, hslots, ?_⟩
  rw [Branch.toJson, Branch.ofJson, hslots, hreqs, List.map_map]
  rfl

theorem forall₂_map_self {α β : Type} {R : β → α → Prop} {f : α → β} {l : List α} :
    List.Forall₂ R (l.map f) l ↔ ∀ a ∈ l, R (f a) a :=
  List.forall₂_map_left_iff.trans List.forall₂_same

/-- A list of lists, told by its items. -/
theorem exists_map_list {slots : List Json} (h : ∀ slot ∈ slots, ∃ nodes, slot = .list nodes) :
    ∃ entries : List (List Json), slots = entries.map .list := by
  have hrange : slots ∈ Set.range (List.map Json.list) := by
    rw [Set.range_list_map]
    intro slot hslot
    obtain ⟨nodes, rfl⟩ := h slot hslot
    exact ⟨nodes, rfl⟩
  obtain ⟨entries, rfl⟩ := hrange
  exact ⟨entries, rfl⟩

theorem alikeBranch_of_canonical {key : Text} {value : Json} (h : CanonicalBranch value)
    (ih : ∀ nodes, .list nodes ∈ Branch.slots value → ∀ node ∈ nodes,
      Canonical node → Alike (ofJson node).toJson node) :
    AlikeBranch (key, (Branch.ofJson value).toJson) (key, value) := by
  cases h with
  | branch exactly each =>
    obtain ⟨-, hslots, hwritten⟩ := branch_of_perm exactly
    rw [hwritten]
    refine .branch (.refl _) exactly (forall₂_map_self.mpr fun slot hslot => ?_)
    obtain ⟨nodes, hnodes, rfl⟩ := List.mem_map.mp hslot
    refine .list ?_
    rw [ofSlot, List.map_map]
    refine forall₂_map_self.mpr fun node hnode => ?_
    exact ih nodes (hslots ▸ hslot) node hnode (each nodes hnodes node hnode)

theorem canonicalBranch_of_alike {key : Text} {value : Json}
    (h : AlikeBranch (key, (Branch.ofJson value).toJson) (key, value))
    (ih : ∀ nodes, .list nodes ∈ Branch.slots value → ∀ node ∈ nodes,
      Alike (ofJson node).toJson node → Canonical node) : CanonicalBranch value := by
  obtain ⟨members, slots, rfl, exactly, each⟩ := h.exists_branch
  obtain ⟨-, hslots, -⟩ := branch_of_perm exactly
  rw [Branch.ofJson, hslots, List.map_map, forall₂_map_self] at each
  have hlists : ∀ slot ∈ slots, ∃ nodes, slot = .list nodes ∧
      List.Forall₂ Alike ((ofSlot slot).map Node.toJson) nodes := fun slot hslot =>
    (each slot hslot).exists_list
  obtain ⟨entries, rfl⟩ := exists_map_list fun slot hslot =>
    (hlists slot hslot).imp fun _ hnodes => hnodes.1
  refine .branch exactly fun nodes hnodes node hnode => ?_
  have hslot : .list nodes ∈ entries.map Json.list := List.mem_map_of_mem hnodes
  obtain ⟨nodes', heq, halike⟩ := hlists _ hslot
  obtain rfl := Json.list.inj heq
  rw [ofSlot, List.map_map, forall₂_map_self] at halike
  exact ih nodes (hslots.symm ▸ hslot) node hnode (halike node hnode)

theorem alike_of_canonical (value : Json) (h : Canonical value) :
    Alike (ofJson value).toJson value := by
  induction value using Node.induction_read with
  | step value ih =>
    cases h with
    | text name => exact .refl _
    | token exactly =>
      obtain ⟨hsymbol, hvalue, hnone⟩ := find?_of_perm_pair (by decide) exactly
      rw [Node.ofJson_token hsymbol hvalue (hnone _ (by decide) (by decide))]
      exact .token (.refl _) exactly
    | @rule members branches symbol exactly each =>
      obtain ⟨hsymbol, hbranches, hnone⟩ := find?_of_perm_pair (by decide) exactly
      have hreadable : ∀ b ∈ branches, Branch.IsReadable b.2 := fun b hb => by
        have hbranch := each b hb
        generalize b.2 = value at hbranch ⊢
        cases hbranch with
        | branch exactly _ => exact (branch_of_perm exactly).1
      have hread := Node.ofJson_rule hsymbol (hnone _ (by decide) (by decide)) hbranches hreadable
      rw [hread, Node.toJson_rule, List.map_map]
      refine .rule (.refl _) exactly (forall₂_map_self.mpr fun b hb => ?_)
      exact alikeBranch_of_canonical (each b hb) (ih b.2 (.of_rule hread hbranches hb))
    | malformed read =>
      rw [read, Node.raw_eq_of_ofJson read]
      exact .refl _

theorem canonical_of_alike (value : Json) (h : Alike (ofJson value).toJson value) :
    Canonical value := by
  induction value using Node.induction_read with
  | step value ih =>
    have hreading := Node.reading value
    generalize hnode : ofJson value = node at h hreading
    cases hreading with
    | self name => exact .text name
    | token =>
      obtain ⟨members, heq, exactly⟩ := h.exists_token
      rw [heq]
      exact .token exactly
    | @rule members branches symbol symbol_eq value_eq branches_eq readable =>
      rw [Node.toJson_rule, List.map_map] at h
      obtain ⟨_, branches', heq, exactly, each⟩ := h.exists_rule
      obtain rfl := Json.object.inj heq
      obtain ⟨-, hbranches, -⟩ := find?_of_perm_pair (by decide) exactly
      obtain rfl := Json.object.inj (Option.some.inj (branches_eq.symm.trans hbranches))
      rw [forall₂_map_self] at each
      refine .rule exactly fun b hb => ?_
      exact canonicalBranch_of_alike (each b hb) (ih b.2 (.of_rule hnode branches_eq hb))
    | malformed => exact .malformed hnode

/-- A value is read and written again without loss exactly if it is canonical. -/
theorem alike_reread_iff (value : Json) : Alike (ofJson value).toJson value ↔ Canonical value :=
  ⟨canonical_of_alike value, alike_of_canonical value⟩

end LiveTree.Syntax
