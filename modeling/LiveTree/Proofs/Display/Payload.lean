import LiveTree.Proofs.Display.Drawing

namespace LiveTree.Display.Node

open Association (find?)

section Shape

variable {P : Json → Option Json → Prop} {Q : Json → Json → Prop}

end Shape

theorem toJson_eq (node : Node) :
    node.toJson = .object [("label", node.label), ("tag", node.tag),
      ("kind", .text node.kind.name), ("children", .list (node.children.map toJson))] := by
  obtain ⟨label, tag, kind, children⟩ := node
  rw [toJson, childItems_eq]

theorem levels_toJson (node : Node) :
    levels node.toJson = levelsOfItems (node.children.map toJson) + 1 := by
  rw [toJson_eq]
  exact levels_of_list rfl

/-- A tree is read back from what is written for it, if there is room for it. -/
theorem read_toJson {node : Node} {room : Nat} (h : levels node.toJson ≤ room) :
    read room node.toJson = .ok node := by
  induction node using induction_children generalizing room with
  | step node ih =>
    rw [levels_toJson] at h
    obtain ⟨room, rfl⟩ := Nat.exists_eq_succ_of_ne_zero (Nat.ne_of_gt (Nat.zero_lt_of_lt h))
    have hfits := levelsOfItems_le_iff.mp (Nat.le_of_succ_le_succ h)
    have hitems : List.Forall₂ (fun item child => read room item = .ok child)
        (node.children.map toJson) node.children := by
      rw [List.forall₂_map_left_iff, List.forall₂_same]
      exact fun child hchild => ih child hchild (hfits _ (List.mem_map_of_mem hchild))
    rw [toJson_eq, read_object]
    exact ⟨rfl, rfl, .inr rfl, .inr ⟨_, rfl, hitems⟩⟩

end LiveTree.Display.Node
