import LiveTree.Console
import LiveTree.Proofs.Display.Inscription

namespace LiveTree

namespace Text

open Display (lineFeed unlines)

theorem isLineBreak_of_all {s : Text} (h : s.all (!·.isLineBreak) = true) :
    ∀ c ∈ s, c.isLineBreak = false := by
  simpa [List.all_eq_true] using h

/-- A line is shown once it is ended by a line feed. -/
theorem displayLinesFrom_append_cons {line : Text} (h : ∀ c ∈ line, c.isLineBreak = false)
    (begun rest : Text) :
    displayLinesFrom begun false (line ++ lineFeed :: rest) =
      (begun.reverse ++ line) :: displayLines rest := by
  induction line generalizing begun with
  | nil =>
    -- A line feed is no carriage return, so nothing right after it is taken as part of the break.
    have hbreak : lineFeed.isLineBreak = true := by decide
    have hreturn : (lineFeed == CodePoint.ofChar '\r') = false := by decide
    rw [List.nil_append, displayLinesFrom, Bool.false_and, hbreak, hreturn, List.append_nil]
    rfl
  | cons c line ih =>
    rw [List.forall_mem_cons] at h
    rw [List.cons_append, displayLinesFrom, Bool.false_and, h.1, if_neg Bool.false_ne_true,
      if_neg Bool.false_ne_true, ih h.2, List.reverse_cons, List.append_assoc,
      List.singleton_append]

theorem displayLines_unlines {lines : List Text}
    (h : ∀ line ∈ lines, ∀ c ∈ line, c.isLineBreak = false) :
    displayLines (unlines lines) = lines := by
  induction lines with
  | nil => rfl
  | cons line lines ih =>
    rw [List.forall_mem_cons] at h
    rw [Display.unlines_cons, displayLines, displayLinesFrom_append_cons h.1, ih h.2,
      List.reverse_nil, List.nil_append]

end Text

namespace Display

theorem drawnSize_unlines {lines : List Text}
    (h : ∀ line ∈ lines, ∀ c ∈ line, c.isLineBreak = false) :
    drawnSize (unlines lines) = ((lines.map List.length).foldl max 0, lines.length) := by
  rw [drawnSize, Text.displayLines_unlines h]

namespace Node

mutual

/-- All nodes of a tree whose root is at a depth, each with its own depth. -/
def leveled (depth : Nat) : Node → List (Nat × Node)
  | ⟨label, tag, kind, children⟩ =>
    (depth, ⟨label, tag, kind, children⟩) :: leveledBelow (depth + 1) children

def leveledBelow (depth : Nat) : List Node → List (Nat × Node)
  | [] => []
  | child :: children => leveled depth child ++ leveledBelow depth children

end

mutual

/-- A node is as deep as its trail is long. -/
theorem leveled_eq (depth : Nat) : ∀ node : Node,
    leveled depth node = node.placed.map fun p => (depth + p.1.length, p.2)
  | ⟨label, tag, kind, children⟩ => by
    rw [leveled, placed, List.map_cons, leveledBelow_eq depth children]
    rfl

theorem leveledBelow_eq (depth : Nat) : ∀ children : List Node,
    leveledBelow (depth + 1) children =
      (placedBelow children).map fun p => (depth + p.1.length, p.2)
  | [] => rfl
  | child :: children => by
    have hdeeper : ∀ p : List Bool × Node,
        (depth + 1 + p.1.length, p.2) = (depth + (children.isEmpty :: p.1).length, p.2) := by
      intro p
      rw [List.length_cons, Nat.add_assoc, Nat.add_comm 1]
    rw [leveledBelow, placedBelow, List.map_append, List.map_map, leveled_eq (depth + 1) child,
      leveledBelow_eq depth children]
    exact congrArg (· ++ _) (List.map_congr_left fun p _ => hdeeper p)

end

/-- A node of texts in which no line ends. -/
def IsUnbroken (node : Node) : Prop :=
  ∃ label tag : Text, node.label = .text label ∧ node.tag = .text tag ∧
    ∀ c ∈ label ++ tag, c.isLineBreak = false

theorem IsUnbroken.isTextual {node : Node} (h : node.IsUnbroken) : node.IsTextual := by
  obtain ⟨label, tag, hlabel, htag, -⟩ := h
  exact ⟨label, tag, hlabel, htag⟩

theorem isLineBreak_of_mem_inscribed {p : List Bool × Node} (h : p.2.IsUnbroken) {c : CodePoint}
    (hc : c ∈ inscribed p) : c.isLineBreak = false := by
  have hlead : ∀ c ∈ Text.ofString "│├└─ ", c.isLineBreak = false :=
    Text.isLineBreak_of_all (by decide)
  have hmark : ∀ c ∈ Text.ofString " !", c.isLineBreak = false :=
    Text.isLineBreak_of_all (by decide)
  obtain ⟨trail, ⟨label, tag, kind, children⟩⟩ := p
  obtain ⟨label, tag, rfl, rfl, hplain⟩ := h
  rw [inscribed, List.mem_append] at hc
  rcases hc with hc | hc
  · exact hlead c (of_mem_lead hc)
  · rcases of_mem_inscription hc with hc | hc
    · exact hplain c hc
    · exact hmark c hc

theorem length_inscribed (p : List Bool × Node) :
    (inscribed p).length = 4 * p.1.length + p.2.inscription.length := by
  rw [inscribed, List.length_append, length_lead]

/-- How far the text of each node of a tree reaches. -/
theorem map_length_inscribed (node : Node) :
    (node.placed.map inscribed).map List.length =
      (node.leveled 0).map fun p => 4 * p.1 + p.2.inscription.length := by
  rw [leveled_eq, List.map_map, List.map_map]
  refine List.map_congr_left fun p _ => ?_
  simp only [Function.comp_apply, length_inscribed, Nat.zero_add]

theorem map_snd_leveled (node : Node) : (node.leveled 0).map Prod.snd = node.nodes := by
  rw [leveled_eq, List.map_map, ← map_snd_placed]
  rfl

theorem max?_eq_some_foldl {lengths : List Nat} (h : lengths ≠ []) :
    lengths.max? = some (lengths.foldl max 0) := by
  cases lengths with
  | nil => exact absurd rfl h
  | cons n lengths => rw [List.max?_cons', List.foldl_cons, Nat.zero_max]

/-- A drawing is as wide as the text that reaches farthest, and has a line for each node. -/
theorem exists_draw_size {node : Node} (h : ∀ t ∈ node.nodes, t.IsUnbroken) :
    ∃ drawing width, node.draw = .ok drawing ∧ drawnSize drawing = (width, node.count) ∧
      ((node.leveled 0).map fun p => 4 * p.1 + p.2.inscription.length).max? = some width := by
  have hplain : ∀ line ∈ node.placed.map inscribed, ∀ c ∈ line, c.isLineBreak = false := by
    rw [List.forall_mem_map]
    intro p hp c hc
    exact isLineBreak_of_mem_inscribed (h p.2 (mem_nodes_of_mem_placed hp)) hc
  have hne : (node.placed.map inscribed).map List.length ≠ [] := by
    rw [placed_eq]
    exact List.cons_ne_nil _ _
  refine ⟨unlines (node.placed.map inscribed),
    ((node.placed.map inscribed).map List.length).foldl max 0,
    draw_of_isTextual fun t ht => (h t ht).isTextual, ?_, ?_⟩
  · rw [drawnSize_unlines hplain, List.length_map, length_placed]
  · rw [← map_length_inscribed, max?_eq_some_foldl hne]

end Node

end Display

namespace Console

open Display (drawnSize)
open Display.Node (IsUnbroken inscription leveled map_snd_leveled exists_draw_size)

/-- The size that is told of a tree without line breaks in its labels and tags is that of its
nodes: the width is the farthest that the text of a node reaches, where each level above the node
moves it by four code points, and the height is the number of the nodes. -/
theorem render_size {node : Display.Node} (plain : ∀ t ∈ node.nodes, t.IsUnbroken)
    (console : Console) :
    ∃ drawing width, node.draw = .ok drawing ∧
      render node console =
        (.ok (.ofNat width, .ofNat node.count), console.print drawing) ∧
      drawnSize drawing = (width, node.count) ∧
      (node.leveled 0).map Prod.snd = node.nodes ∧
      ((node.leveled 0).map fun p => 4 * p.1 + p.2.inscription.length).max? = some width := by
  obtain ⟨drawing, width, hdraw, hsize, hwidth⟩ := exists_draw_size plain
  refine ⟨drawing, width, hdraw, ?_, hsize, map_snd_leveled node, hwidth⟩
  rw [render, hdraw]
  simp only [hsize]

/-- A tree with empty labels and a tab in a tag, whose deepest node reaches farthest. -/
def crooked : Display.Node :=
  { label := .text []
    children := [
      { label := .text "a", tag := .text "x\ty", kind := .value },
      { label := .text "b"
        children := [{ label := .text [], tag := .text "〈1〉", kind := .invalid }] }] }

theorem render_size_crooked :
    (∀ t ∈ crooked.nodes, t.IsUnbroken) ∧ ∃ drawing, crooked.draw = .ok drawing ∧
      render crooked {} = (.ok (.ofNat 16, .ofNat 4), ({} : Console).print drawing) := by
  have hplain : ∀ t ∈ crooked.nodes, t.IsUnbroken := by
    intro t ht
    simp only [crooked, Display.Node.nodes, Display.Node.nodesOfList, List.append_nil,
      List.cons_append, List.nil_append, List.mem_cons, List.not_mem_nil, or_false] at ht
    rcases ht with rfl | rfl | rfl | rfl
    all_goals exact ⟨_, _, rfl, rfl, Text.isLineBreak_of_all (by decide)⟩
  obtain ⟨drawing, width, hdraw, hrender, -, -, hwidth⟩ := render_size hplain {}
  have hsixteen : width = 16 := by
    have hmax : ((crooked.leveled 0).map fun p => 4 * p.1 + p.2.inscription.length).max? =
        some 16 := by decide
    exact Option.some.inj (hwidth.symm.trans hmax)
  rw [hsixteen] at hrender
  exact ⟨hplain, drawing, hdraw, hrender⟩

end Console

end LiveTree
