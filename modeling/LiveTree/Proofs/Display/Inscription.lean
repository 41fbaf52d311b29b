import LiveTree.Proofs.Display.Drawing

namespace LiveTree.Display

/-- A lead is as wide as four code points for each step of its trail. -/
theorem length_lead (trail : List Bool) : (lead trail).length = 4 * trail.length := by
  induction trail with
  | nil => rfl
  | cons last trail ih =>
    by_cases h : trail = []
    · subst h
      exact length_connector last
    · rw [lead_cons last h, List.length_append, length_cell, ih, List.length_cons]
      omega

namespace Node

/-- A node whose label and tag are texts. -/
def IsTextual (node : Node) : Prop :=
  ∃ label tag : Text, node.label = .text label ∧ node.tag = .text tag

/-- What is written for a node of texts: its label, two blanks and its tag with blanks for tabs if
it has a tag, and a mark if it is invalid. -/
def inscription : Node → Text
  | ⟨.text label, .text tag, kind, _⟩ => label ++ shownTag tag ++ shownKind kind
  | _ => []

theorem heading_of_isTextual {node : Node} (h : node.IsTextual) :
    node.heading = .ok node.inscription := by
  obtain ⟨label, tag, kind, children⟩ := node
  obtain ⟨label, tag, rfl, rfl⟩ := h
  exact caption_text label tag kind

theorem of_mem_inscription {label tag : Text} {kind : Kind} {children : List Node} {c : CodePoint}
    (h : c ∈ inscription ⟨.text label, .text tag, kind, children⟩) :
    c ∈ label ++ tag ∨ c ∈ Text.ofString " !" := by
  have hblank : Text.ofString " " ⊆ Text.ofString " !" := by decide
  have hkind : shownKind kind ⊆ Text.ofString " !" := by cases kind <;> decide
  rw [inscription, List.mem_append, List.mem_append] at h
  rw [List.mem_append]
  rcases h with (h | h) | h
  · exact .inl (.inl h)
  · exact (of_mem_shownTag h).imp .inr (hblank ·)
  · exact .inr (hkind h)

/-- The line of a node of texts in its place. -/
def inscribed (p : List Bool × Node) : Text := lead p.1 ++ p.2.inscription

/-- A tree of texts is drawn, with the line of each of its nodes. -/
theorem draw_of_isTextual {node : Node} (h : ∀ t ∈ node.nodes, t.IsTextual) :
    node.draw = .ok (unlines (node.placed.map inscribed)) := by
  have hlines : node.placed.mapM (line []) = .ok (node.placed.map inscribed) := by
    rw [mapM_eq_ok_iff, List.forall₂_map_right_iff, List.forall₂_same]
    intro p hp
    have hheading := heading_of_isTextual (h p.2 (mem_nodes_of_mem_placed hp))
    exact line_eq_ok_iff.mpr ⟨p.2.inscription, hheading, rfl⟩
  rw [draw_eq, hlines]
  rfl

end Node

theorem isTextual_of_children {label tag : Text} {kind : Kind} {children : List Node}
    (h : ∀ child ∈ children, ∀ t ∈ child.nodes, t.IsTextual) :
    ∀ t ∈ (Node.mk (.text label) (.text tag) kind children).nodes, t.IsTextual :=
  Node.forall_mem_nodes.mpr ⟨⟨label, tag, rfl, rfl⟩, h⟩

/-- All labels and tags that are drawn for a syntax tree are texts. -/
theorem isTextual_ofSyntax (tag : Option Text) (node : Syntax.Node) :
    ∀ t ∈ (ofSyntax tag node).nodes, t.IsTextual := by
  have hleaf : ∀ (label tag : Text) (kind : Kind),
      ∀ t ∈ (Node.mk (.text label) (.text tag) kind []).nodes, t.IsTextual :=
    fun _ _ _ => isTextual_of_children fun _ h => absurd h List.not_mem_nil
  refine ofSyntax_induction (P := fun _ tree => ∀ t ∈ tree.nodes, t.IsTextual) ?token ?bare
    ?single ?fork ?self ?malformed tag node
  case single =>
    intro symbol b tag children h
    refine isTextual_of_children fun child hchild => ?_
    obtain ⟨-, -, htexts⟩ := exists_of_mem_right h hchild
    exact htexts
  case fork =>
    intro symbol branches tag trees hlen h
    refine isTextual_of_children fun tree htree => ?_
    obtain ⟨b, -, children, rfl, hchildren⟩ := exists_of_mem_right h htree
    refine isTextual_of_children fun child hchild => ?_
    obtain ⟨-, -, htexts⟩ := exists_of_mem_right hchildren hchild
    exact htexts
  case token => exact fun _ value tag => hleaf (Json.escape value) tag .value
  case bare => exact fun symbol tag => hleaf symbol tag .invalid
  case self => exact fun _ tag => hleaf "self" tag .invalid
  case malformed => exact fun _ tag => hleaf "?" tag .invalid

end LiveTree.Display
