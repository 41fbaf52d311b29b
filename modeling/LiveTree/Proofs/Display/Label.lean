import LiveTree.Proofs.Display.Inscription
import LiveTree.Proofs.Json.RoundTrip

namespace LiveTree

namespace Syntax.Node

variable (f : Text → Text → Text × Text)

mutual

/-- A tree with other tokens in place of its tokens. -/
def retoken : Node → Node
  | .token symbol value => .token (f symbol value).1 (f symbol value).2
  | .rule symbol branches => .rule symbol (retokenBranches branches)
  | node => node

def retokenBranches : Branches → Branches
  | [] => []
  | (key, ⟨reqs, entries⟩) :: branches =>
    (key, ⟨reqs, retokenSlots entries⟩) :: retokenBranches branches

def retokenSlots : List (List Node) → List (List Node)
  | [] => []
  | slot :: slots => retokenSlot slot :: retokenSlots slots

def retokenSlot : List Node → List Node
  | [] => []
  | node :: slot => retoken node :: retokenSlot slot

end

theorem length_retokenSlot (slot : List Node) : (retokenSlot f slot).length = slot.length := by
  induction slot with
  | nil => rfl
  | cons node slot ih => rw [retokenSlot, List.length_cons, List.length_cons, ih]

end Syntax.Node

namespace Display

open Syntax (Branches)
open Syntax.Node (retoken retokenBranches retokenSlots retokenSlot length_retokenSlot)

namespace Node

/-- The line feeds that are written for each node of some trees. -/
def breaks (trees : List Node) : List Nat :=
  (trees.flatMap nodes).map fun t => t.inscription.count lineFeed

theorem breaks_singleton (tree : Node) :
    breaks [tree] = tree.inscription.count lineFeed :: breaks tree.children := by
  rw [breaks, List.flatMap_singleton, nodes_eq]
  rfl

theorem breaks_append (trees more : List Node) :
    breaks (trees ++ more) = breaks trees ++ breaks more := by
  rw [breaks, List.flatMap_append, List.map_append]
  rfl

theorem breaks_cons_congr {tree tree' : Node} {trees trees' : List Node}
    (first : breaks [tree] = breaks [tree']) (rest : breaks trees = breaks trees') :
    breaks (tree :: trees) = breaks (tree' :: trees') := by
  rw [← List.singleton_append, ← List.singleton_append (x := tree'), breaks_append, breaks_append,
    first, rest]

/-- What is written of a node does not depend on the nodes below it. -/
theorem breaks_node_congr (label tag : Json) (kind : Kind) {children children' : List Node}
    (below : breaks children = breaks children') :
    breaks [⟨label, tag, kind, children⟩] = breaks [⟨label, tag, kind, children'⟩] := by
  have hroot : inscription ⟨label, tag, kind, children⟩ =
      inscription ⟨label, tag, kind, children'⟩ := by
    cases label <;> cases tag <;> rfl
  rw [breaks_singleton, breaks_singleton, hroot, below]

theorem count_inscription (label tag : Text) (kind : Kind) (children : List Node) :
    (inscription ⟨.text label, .text tag, kind, children⟩).count lineFeed =
      label.count lineFeed + tag.count lineFeed := by
  have htag : (shownTag tag).count lineFeed = tag.count lineFeed := by
    rw [shownTag]
    split
    · rename_i h
      rw [h]
    · have hblanks : lineFeed ∉ Text.ofString "  " := by decide
      rw [List.count_append, List.count_eq_zero_of_not_mem hblanks, Nat.zero_add]
      exact count_replace (by decide) (by decide) tag
  have hkind : (shownKind kind).count lineFeed = 0 :=
    List.count_eq_zero_of_not_mem (lineFeed_notMem_shownKind kind)
  rw [inscription, List.count_append, List.count_append, htag, hkind, Nat.add_zero]

theorem count_unlines (lines : List Text) :
    (unlines lines).count lineFeed = (lines.map (·.count lineFeed)).sum + lines.length := by
  induction lines with
  | nil => rfl
  | cons line lines ih =>
    rw [unlines_cons, List.count_append, List.count_cons_self, ih, List.map_cons, List.sum_cons,
      List.length_cons]
    omega

/-- A drawing has a line feed for each node, and those that are written for the nodes. -/
theorem exists_draw_count {node : Node} (h : ∀ t ∈ node.nodes, t.IsTextual) :
    ∃ drawing, node.draw = .ok drawing ∧
      drawing.count lineFeed = (breaks [node]).sum + (breaks [node]).length := by
  have hline : ∀ p, (inscribed p).count lineFeed = p.2.inscription.count lineFeed := by
    intro p
    rw [inscribed, List.count_append, List.count_eq_zero_of_not_mem (lineFeed_notMem_lead p.1),
      Nat.zero_add]
  have hbreaks : (node.placed.map inscribed).map (·.count lineFeed) = breaks [node] := by
    rw [breaks, List.flatMap_singleton, ← map_snd_placed, List.map_map, List.map_map]
    exact List.map_congr_left fun p _ => hline p
  refine ⟨_, draw_of_isTextual h, ?_⟩
  rw [count_unlines, hbreaks, ← List.length_map (f := (·.count lineFeed)), hbreaks]

end Node

open Node (breaks breaks_append breaks_cons_congr breaks_node_congr)

/-- The label of a token has no line feed, so those of its line are those of its tag. -/
theorem breaks_token (value tag : Text) :
    breaks [⟨.text (Json.escape value), .text tag, .value, []⟩] = [tag.count lineFeed] := by
  have hlabel : lineFeed ∉ Json.escape value := by
    intro h
    exact absurd (Json.le_of_mem_escape h) (by decide)
  rw [Node.breaks_singleton, Node.count_inscription, List.count_eq_zero_of_not_mem hlabel,
    Nat.zero_add]
  rfl

theorem draw_token (symbol value : Text) (tag : Option Text) :
    (ofSyntax tag (.token symbol value)).draw =
      .ok (Json.escape value ++ Node.shownTag (tag.getD symbol) ++ "\n") := by
  have hmark : Node.shownKind .value = [] := rfl
  have hfeed : Text.ofString "\n" = [lineFeed] := by decide
  rw [Node.draw_of_isTextual (isTextual_ofSyntax tag _), ofSyntax, Node.placed_eq,
    Node.placedBelow, List.map_singleton, Node.inscribed, lead, List.nil_append, Node.inscription,
    hmark, List.append_nil, unlines, List.flatMap_singleton, hfeed]

section Retoken

variable (f : Text → Text → Text × Text)

/-- With a tag from above a node does not show its own. -/
theorem tag_retoken (tag : Text) (node : Syntax.Node) :
    (ofSyntax (some tag) (node.retoken f)).tag = (ofSyntax (some tag) node).tag := by
  match node with
  | .token _ _ | .self _ | .malformed _ => rfl
  | .rule _ [] | .rule _ [_] | .rule _ (_ :: _ :: _) => rfl

mutual

/-- The line feeds that are written for a tree do not come from its tokens, as long as the root
shows the same tag. -/
theorem breaks_retoken (tag : Option Text) : ∀ node : Syntax.Node,
    (ofSyntax tag (node.retoken f)).tag = (ofSyntax tag node).tag →
      breaks [ofSyntax tag (node.retoken f)] = breaks [ofSyntax tag node]
  | .token symbol value, h => by
    -- The one place where the root's tag matters: all other tokens have theirs from their branch.
    rw [retoken, ofSyntax, ofSyntax] at h
    have htag : tag.getD (f symbol value).1 = tag.getD symbol := Json.text.inj h
    rw [retoken, ofSyntax, ofSyntax, breaks_token, breaks_token, htag]
  | .rule symbol [], _ => rfl
  | .rule symbol [(key, ⟨reqs, entries⟩)], _ => by
    rw [retoken, retokenBranches, retokenBranches, ofSyntax, ofSyntax]
    exact breaks_node_congr _ _ _ (breaks_retokenSlots reqs 1 entries)
  | .rule symbol (first :: second :: rest), _ =>
    breaks_node_congr _ _ _ (breaks_retokenBranches (first :: second :: rest))
  | .self _, _ => rfl
  | .malformed _, _ => rfl

theorem breaks_retokenBranches : ∀ branches : Branches,
    breaks (ofBranches (retokenBranches f branches)) = breaks (ofBranches branches)
  | [] => rfl
  | (key, ⟨reqs, entries⟩) :: branches => by
    rw [retokenBranches, ofBranches, ofBranches]
    exact breaks_cons_congr (breaks_node_congr _ _ _ (breaks_retokenSlots reqs 1 entries))
      (breaks_retokenBranches branches)

theorem breaks_retokenSlots (reqs : Text) (slot : Nat) : ∀ slots : List (List Syntax.Node),
    breaks (ofSlots reqs slot (retokenSlots f slots)) = breaks (ofSlots reqs slot slots)
  | [] => rfl
  | nodes :: slots => by
    rw [retokenSlots, ofSlots, ofSlots, breaks_append, breaks_append, length_retokenSlot,
      breaks_retokenSlot reqs slot 1 nodes.length nodes, breaks_retokenSlots reqs (slot + 1) slots]

theorem breaks_retokenSlot (reqs : Text) (slot place size : Nat) : ∀ nodes : List Syntax.Node,
    breaks (ofNodes reqs slot place size (retokenSlot f nodes)) =
      breaks (ofNodes reqs slot place size nodes)
  | [] => rfl
  | node :: nodes => by
    rw [retokenSlot, ofNodes, ofNodes]
    exact breaks_cons_congr (breaks_retoken _ node (tag_retoken f _ node))
      (breaks_retokenSlot reqs slot (place + 1) size nodes)

end

end Retoken

/-- The label of a token is its text as a JSON text without the quotes: it has no control
characters, it gives the text back between quotes, and so it tells tokens of different texts apart.
A drawing has as many line feeds as with any other tokens in place of its tokens, as long as the
root shows the same tag. Only a token at the root, without a tag from above, shows its symbol for a
tag, and so a line feed that is in its symbol. -/
theorem token_label_exact :
    (∀ (symbol value : Text) (tag : Option Text), ∃ label : Text,
      (ofSyntax tag (.token symbol value)).label = .text label ∧
      label = ((Json.write (.text value)).drop 1).dropLast ∧
      (∀ c ∈ label, 0x20 ≤ c.val) ∧
      Json.read ("\"" ++ label ++ "\"") = .ok (.text value) ∧
      (∀ symbol' value' tag',
        (ofSyntax tag' (.token symbol' value')).label = .text label ↔ value' = value) ∧
      (ofSyntax tag (.token symbol value)).draw =
        .ok (label ++ Node.shownTag (tag.getD symbol) ++ "\n")) ∧
    ∀ (f : Text → Text → Text × Text) (tag : Option Text) (node : Syntax.Node),
      (ofSyntax tag (node.retoken f)).tag = (ofSyntax tag node).tag →
        ∃ drawing drawing', (ofSyntax tag node).draw = .ok drawing ∧
          (ofSyntax tag (node.retoken f)).draw = .ok drawing' ∧
          drawing'.count lineFeed = drawing.count lineFeed := by
  refine ⟨fun symbol value tag => ?label, fun f tag node h => ?drawing⟩
  case label =>
    refine ⟨Json.escape value, rfl, ?_, fun c => Json.le_of_mem_escape, Json.read_quote value,
      fun symbol' value' tag' => ?_, ?_⟩
    · rw [Json.write_text, List.drop_one, List.tail_cons, List.dropLast_concat]
    · rw [ofSyntax, Json.text.injEq, Json.escape_inj]
    · exact draw_token symbol value tag
  case drawing =>
    obtain ⟨drawing, hdraw, hcount⟩ := Node.exists_draw_count (isTextual_ofSyntax tag node)
    obtain ⟨drawing', hdraw', hcount'⟩ :=
      Node.exists_draw_count (isTextual_ofSyntax tag (node.retoken f))
    refine ⟨drawing, drawing', hdraw, hdraw', ?_⟩
    rw [hcount', hcount, breaks_retoken f tag node h]

/-- A token that is full of escapes, and a tree of two tokens that are replaced by it. -/
theorem token_label_exact_escaped :
    let value : Text := Text.ofString "\"\n\x1f\\" ++ [.ofNat 0xD800]
    let label : Text := Text.ofString "\\\"\\n\\u001f\\\\" ++ [.ofNat 0xD800]
    let row : Text → Text → Syntax.Node := fun first second =>
      .rule "row" [("1", ⟨"A B", [[.token "A" first], [.token "B" second]]⟩)]
    (ofSyntax none (.token "T" value)).label = .text label ∧
      Json.read ("\"" ++ label ++ "\"") = .ok (.text value) ∧
      (ofSyntax none ((row "a" "b").retoken fun _ _ => ("\n", value))).tag =
        (ofSyntax none (row "a" "b")).tag ∧
      ∃ drawing drawing', (ofSyntax none (row "a" "b")).draw = .ok drawing ∧
        (ofSyntax none ((row "a" "b").retoken fun _ _ => ("\n", value))).draw = .ok drawing' ∧
        drawing'.count lineFeed = drawing.count lineFeed := by
  intro value label row
  have hlabel : (ofSyntax none (.token "T" value)).label = .text label := by
    rw [ofSyntax]
    exact congrArg Json.text (by decide +kernel)
  obtain ⟨hexact, hbreaks⟩ := token_label_exact
  obtain ⟨label', hlabel', -, -, hread, -, -⟩ := hexact "T" value none
  obtain rfl : label' = label := Json.text.inj (hlabel'.symm.trans hlabel)
  have htag : (ofSyntax none ((row "a" "b").retoken fun _ _ => ("\n", value))).tag =
      (ofSyntax none (row "a" "b")).tag := rfl
  exact ⟨hlabel, hread, htag, hbreaks _ none _ htag⟩

/-- A line feed in the symbol of a token that is drawn without a tag breaks its line. -/
theorem symbol_breaks_line :
    let tree := ofSyntax none (.token "A\nB" "x")
    tree.count = 1 ∧ tree.draw = .ok "x  A\nB\n" ∧
      ¬ ∀ (symbol value drawing : Text), (ofSyntax none (.token symbol value)).draw = .ok drawing →
        drawing.count lineFeed = 1 := by
  intro tree
  have htext : Json.escape "x" ++ Node.shownTag "A\nB" ++ "\n" = Text.ofString "x  A\nB\n" := by
    decide +kernel
  have hdraw : tree.draw = .ok "x  A\nB\n" := by
    rw [← htext]
    exact draw_token "A\nB" "x" none
  refine ⟨rfl, hdraw, fun h => ?_⟩
  exact absurd (h "A\nB" "x" _ hdraw) (by decide)

end Display

end LiveTree
