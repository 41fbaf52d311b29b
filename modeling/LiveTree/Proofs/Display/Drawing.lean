import LiveTree.Display.Drawing
import LiveTree.Proofs.Display.Node
import LiveTree.Proofs.Text.Cut

namespace LiveTree.Display

/-- What stands in a line for a node that the line's node is below: blanks if it is a last child. -/
def cell (last : Bool) : Text := if last then "    " else "│   "

/-- What joins a node to the one above it. -/
def connector (last : Bool) : Text := if last then "└── " else "├── "

/-- What a line begins with. Of the line's node and all above it, the root apart, the trail tells
from the top whether each is a last child. -/
def lead : List Bool → Text
  | [] => []
  | [last] => connector last
  | last :: trail => cell last ++ lead trail

/-- The code point that every line ends with. -/
def lineFeed : CodePoint := '\n'

def unlines (lines : List Text) : Text := lines.flatMap (· ++ [lineFeed])

theorem unlines_cons (line : Text) (lines : List Text) :
    unlines (line :: lines) = line ++ lineFeed :: unlines lines := by
  simp [unlines]

theorem length_cell (last : Bool) : (cell last).length = 4 := by cases last <;> rfl

theorem length_connector (last : Bool) : (connector last).length = 4 := by cases last <;> rfl

theorem lead_cons (last : Bool) {trail : List Bool} (h : trail ≠ []) :
    lead (last :: trail) = cell last ++ lead trail := by
  cases trail with
  | nil => exact absurd rfl h
  | cons next trail => rfl

/-- A cell for each node above, then a connector. -/
theorem lead_concat (above : List Bool) (last : Bool) :
    lead (above ++ [last]) = above.flatMap cell ++ connector last := by
  induction above with
  | nil => rfl
  | cons first above ih =>
    have hne : above ++ [last] ≠ [] := by simp
    rw [List.cons_append, lead_cons first hne, ih, List.flatMap_cons, List.append_assoc]

theorem of_mem_lead {trail : List Bool} {c : CodePoint} (h : c ∈ lead trail) :
    c ∈ Text.ofString "│├└─ " := by
  have hcell : ∀ last, cell last ⊆ Text.ofString "│├└─ " := by decide
  have hconnector : ∀ last, connector last ⊆ Text.ofString "│├└─ " := by decide
  induction trail with
  | nil => cases h
  | cons last trail ih =>
    by_cases htrail : trail = []
    · subst htrail
      exact hconnector last h
    · rw [lead_cons last htrail, List.mem_append] at h
      exact h.elim (hcell last ·) ih

theorem connector_append_ne {trail : List Bool} (h : trail ≠ []) (last first : Bool) (a b : Text) :
    connector last ++ a ≠ lead (first :: trail) ++ b := by
  have hapart : ∀ x y, connector x ≠ cell y := by decide
  intro heq
  rw [lead_cons first h, List.append_assoc] at heq
  obtain ⟨hcell, -⟩ := List.append_inj heq (by rw [length_connector, length_cell])
  exact hapart last first hcell

/-- The first connector ends the lead, whatever follows it. -/
theorem lead_append_inj {s t : List Bool} (hs : s ≠ []) (ht : t ≠ []) {a b : Text}
    (h : lead s ++ a = lead t ++ b) : s = t ∧ a = b := by
  have hconnector : ∀ x y, connector x = connector y → x = y := by decide
  have hcell : ∀ x y, cell x = cell y → x = y := by decide
  induction s generalizing t with
  | nil => exact absurd rfl hs
  | cons x s ih =>
    cases t with
    | nil => exact absurd rfl ht
    | cons y t =>
      by_cases hs' : s = [] <;> by_cases ht' : t = []
      · subst hs' ht'
        obtain ⟨hxy, hab⟩ := List.append_inj h (by rw [lead, lead, length_connector,
          length_connector])
        exact ⟨by rw [hconnector x y hxy], hab⟩
      · subst hs'
        exact absurd h (connector_append_ne ht' x y a b)
      · subst ht'
        exact absurd h.symm (connector_append_ne hs' y x b a)
      · rw [lead_cons x hs', lead_cons y ht', List.append_assoc, List.append_assoc] at h
        obtain ⟨hxy, hrest⟩ := List.append_inj h (by rw [length_cell, length_cell])
        obtain ⟨hst, hab⟩ := ih hs' ht' hrest
        exact ⟨by rw [hcell x y hxy, hst], hab⟩

namespace Node

/-- What is written for a node. -/
def heading (node : Node) : Except DrawFault Text := caption node.label node.tag node.kind

mutual

/-- All nodes of a tree, each before those below it, with their trails. -/
def placed : Node → List (List Bool × Node)
  | ⟨label, tag, kind, children⟩ => ([], ⟨label, tag, kind, children⟩) :: placedBelow children

def placedBelow : List Node → List (List Bool × Node)
  | [] => []
  | child :: children =>
    (placed child).map (fun p => (children.isEmpty :: p.1, p.2)) ++ placedBelow children

end

theorem placed_eq (node : Node) : node.placed = ([], node) :: placedBelow node.children := by
  obtain ⟨label, tag, kind, children⟩ := node
  rw [placed]

theorem placedBelow_cons (child : Node) (children : List Node) :
    placedBelow (child :: children) = ([children.isEmpty], child) ::
      (placedBelow child.children).map (fun p => (children.isEmpty :: p.1, p.2)) ++
        placedBelow children := by
  rw [placedBelow, placed_eq, List.map_cons]

theorem trail_ne_nil {children : List Node} {p : List Bool × Node} (h : p ∈ placedBelow children) :
    p.1 ≠ [] := by
  induction children with
  | nil => cases h
  | cons child children ih =>
    rw [placedBelow, List.mem_append, List.mem_map] at h
    rcases h with ⟨q, -, rfl⟩ | h
    · exact List.cons_ne_nil _ _
    · exact ih h

theorem map_snd_placed (node : Node) : node.placed.map Prod.snd = node.nodes := by
  induction node using induction_children with
  | step node ih =>
    have hbelow : (placedBelow node.children).map Prod.snd = node.children.flatMap nodes := by
      generalize node.children = children at ih
      induction children with
      | nil => rfl
      | cons child children ihc =>
        rw [List.forall_mem_cons] at ih
        rw [placedBelow, List.map_append, List.map_map, List.flatMap_cons, ihc ih.2, ← ih.1]
        rfl
    rw [placed_eq, List.map_cons, hbelow, nodes_eq]

theorem mem_nodes_of_mem_placed {node : Node} {p : List Bool × Node} (h : p ∈ node.placed) :
    p.2 ∈ node.nodes := by
  rw [← map_snd_placed]
  exact List.mem_map_of_mem h

theorem length_nodes (node : Node) : node.nodes.length = node.count := by
  induction node using induction_children with
  | step node ih =>
    obtain ⟨label, tag, kind, children⟩ := node
    have hbelow : (children.flatMap nodes).length = countList children := by
      change ∀ child ∈ children, _ at ih
      induction children with
      | nil => rfl
      | cons child children ihc =>
        rw [List.forall_mem_cons] at ih
        rw [List.flatMap_cons, List.length_append, ih.1, ihc ih.2, countList]
    rw [nodes_mk, List.length_cons, hbelow, count, Nat.add_comm]

theorem length_placed (node : Node) : node.placed.length = node.count := by
  rw [← length_nodes, ← map_snd_placed, List.length_map]

/-- The line of a node in a drawing that is indented as a whole. -/
def line (indent : Text) (p : List Bool × Node) : Except DrawFault Text :=
  p.2.heading.map (indent ++ lead p.1 ++ ·)

theorem line_cons (indent : Text) (last : Bool) {p : List Bool × Node} (h : p.1 ≠ []) :
    line indent (last :: p.1, p.2) = line (indent ++ cell last) p := by
  rw [line, line, lead_cons last h, List.append_assoc indent]

theorem childLines_cons (indent : Text) (child : Node) (children : List Node) :
    childLines indent (child :: children) =
      (lines (indent ++ connector children.isEmpty) (indent ++ cell children.isEmpty) child).bind
        fun above => (childLines indent children).map (above ++ ·) := by
  cases children with
  | nil =>
    change lines (indent ++ connector true) (indent ++ cell true) child = _
    cases h : lines (indent ++ connector true) (indent ++ cell true) child with
    | error fault => simp [h, Except.bind]
    | ok above => simp [h, childLines, Except.bind, Except.map]
  | cons next children =>
    have hchild : lines (indent ++ "├── ") (indent ++ "│   ") child =
        lines (indent ++ connector false) (indent ++ cell false) child := rfl
    change _ = (lines (indent ++ connector false) (indent ++ cell false) child).bind _
    rw [childLines, hchild]
    cases lines (indent ++ connector false) (indent ++ cell false) child <;> rfl

theorem lines_eq_of_childLines {node : Node} {indent first : Text}
    (below : childLines indent node.children = (placedBelow node.children).mapM (line indent)) :
    lines first indent node = node.heading.bind fun text =>
      ((placedBelow node.children).mapM (line indent)).map ((first ++ text) :: ·) := by
  obtain ⟨label, tag, kind, children⟩ := node
  rw [lines, below, heading]
  cases caption label tag kind <;> rfl

/-- The lines of a child: its own begins with a connector, those below it with a cell. -/
theorem lines_child {child : Node} (indent : Text) (last : Bool)
    (below : ∀ indent, childLines indent child.children =
      (placedBelow child.children).mapM (line indent)) :
    lines (indent ++ connector last) (indent ++ cell last) child =
      (child.placed.map fun p => (last :: p.1, p.2)).mapM (line indent) := by
  have hbelow : ((placedBelow child.children).map fun p => (last :: p.1, p.2)).mapM (line indent) =
      (placedBelow child.children).mapM (line (indent ++ cell last)) := by
    rw [List.mapM_map]
    exact mapM_congr fun p hp => line_cons indent last (trail_ne_nil hp)
  have hline : line indent ([last], child) = child.heading.map (indent ++ connector last ++ ·) := rfl
  rw [lines_eq_of_childLines (below _), placed_eq, List.map_cons, mapM_cons_eq, hline, hbelow]
  cases child.heading <;> rfl

theorem childLines_eq (node : Node) (indent : Text) :
    childLines indent node.children = (placedBelow node.children).mapM (line indent) := by
  induction node using induction_children generalizing indent with
  | step node ih =>
    generalize node.children = children at ih
    induction children with
    | nil => rfl
    | cons child children ihc =>
      rw [List.forall_mem_cons] at ih
      rw [childLines_cons, lines_child indent children.isEmpty ih.1, ihc ih.2, placedBelow,
        mapM_append_eq]

/-- The lines of a drawing are those of its nodes, each before those below it; the first node
without a line is the first without a heading. -/
theorem lines_eq (node : Node) : lines [] [] node = node.placed.mapM (line []) := by
  have hline : line [] ([], node) = node.heading := by
    rw [line, lead]
    cases node.heading <;> rfl
  rw [lines_eq_of_childLines (childLines_eq node []), placed_eq, mapM_cons_eq, hline]
  rfl

theorem draw_eq (node : Node) : node.draw = (node.placed.mapM (line [])).map unlines := by
  rw [draw, lines_eq]
  rfl

theorem isOk_line {indent : Text} {p : List Bool × Node} :
    (∃ text, line indent p = .ok text) ↔ ∃ text, p.2.heading = .ok text := by
  rw [line]
  cases p.2.heading <;> simp [Except.map]

/-- The headings of a tree, each with its trail. -/
def outlineBelow (children : List Node) : List (List Bool × Except DrawFault Text) :=
  (placedBelow children).map fun p => (p.1, p.2.heading)

theorem outlineBelow_cons (child : Node) (children : List Node) :
    outlineBelow (child :: children) = ([children.isEmpty], child.heading) ::
      ((outlineBelow child.children).map (fun q => (children.isEmpty :: q.1, q.2)) ++
        outlineBelow children) := by
  rw [outlineBelow, placedBelow_cons, List.cons_append, List.map_cons, List.map_append,
    List.map_map, outlineBelow, List.map_map]
  rfl

/-- Trees of one shape with the same headings. -/
inductive Alike : Node → Node → Prop
  | mk {a b : Node} (heading : a.heading = b.heading)
      (below : List.Forall₂ Alike a.children b.children) : Alike a b

theorem append_inj_of_takeWhile {α : Type} {p : α → Bool} {l l' r r' : List α}
    (hl : ∀ a ∈ l, p a = true) (hl' : ∀ a ∈ l', p a = true) (hr : ∀ a ∈ r.head?, p a = false)
    (hr' : ∀ a ∈ r'.head?, p a = false) (h : l ++ r = l' ++ r') : l = l' ∧ r = r' := by
  have hstop : ∀ r : List α, (∀ a ∈ r.head?, p a = false) → r.takeWhile p = [] := by
    intro r hr
    cases r with
    | nil => rfl
    | cons a r => exact List.takeWhile_cons_of_neg (by simp [hr a rfl])
  have hfront : l = l' := by
    have htake := congrArg (List.takeWhile p) h
    rwa [List.takeWhile_append_of_pos hl, List.takeWhile_append_of_pos hl', hstop r hr,
      hstop r' hr', List.append_nil, List.append_nil] at htake
  subst hfront
  exact ⟨rfl, List.append_cancel_left h⟩

theorem outlineBelow_ne_nil (child : Node) (children : List Node) :
    outlineBelow (child :: children) ≠ outlineBelow [] := by
  rw [outlineBelow_cons]
  exact List.cons_ne_nil _ _

/-- The nodes below a child have longer trails than the next child, so it is seen where they end. -/
theorem outlineBelow_append_inj {below below' rest rest' : List Node} (last : Bool)
    (h : (outlineBelow below).map (fun q => (last :: q.1, q.2)) ++ outlineBelow rest =
      (outlineBelow below').map (fun q => (last :: q.1, q.2)) ++ outlineBelow rest') :
    outlineBelow below = outlineBelow below' ∧ outlineBelow rest = outlineBelow rest' := by
  -- The next child is the first node whose trail has one step only.
  let isDeep : List Bool × Except DrawFault Text → Bool := fun q => 1 < q.1.length
  have hdeep : ∀ below, ∀ q ∈ (outlineBelow below).map (fun q => (last :: q.1, q.2)),
      isDeep q = true := by
    intro below q hq
    rw [outlineBelow, List.map_map, List.mem_map] at hq
    obtain ⟨p, hp, rfl⟩ := hq
    simpa [isDeep, List.length_pos_iff] using trail_ne_nil hp
  have hnext : ∀ rest, ∀ q ∈ (outlineBelow rest).head?, isDeep q = false := by
    intro rest q hq
    cases rest with
    | nil => cases hq
    | cons next rest =>
      rw [outlineBelow_cons, List.head?_cons, Option.mem_some] at hq
      simp [isDeep, ← hq]
  obtain ⟨hbelow, hrest⟩ := append_inj_of_takeWhile (hdeep below) (hdeep below') (hnext rest)
    (hnext rest') h
  refine ⟨(List.map_inj_right fun x y hxy => ?_).mp hbelow, hrest⟩
  obtain ⟨htrail, hheading⟩ := Prod.mk.inj hxy
  exact Prod.ext (List.cons.inj htrail).2 hheading

theorem outlineBelow_inj (node : Node) (others : List Node)
    (h : outlineBelow node.children = outlineBelow others) :
    List.Forall₂ Alike node.children others := by
  induction node using induction_children generalizing others with
  | step node ih =>
    generalize node.children = children at ih h
    induction children generalizing others with
    | nil =>
      cases others with
      | nil => exact .nil
      | cons other others => exact absurd h.symm (outlineBelow_ne_nil other others)
    | cons child children ihc =>
      cases others with
      | nil => exact absurd h (outlineBelow_ne_nil child children)
      | cons other others =>
        rw [List.forall_mem_cons] at ih
        rw [outlineBelow_cons, outlineBelow_cons] at h
        obtain ⟨hfirst, hrest⟩ := List.cons.inj h
        obtain ⟨htrail, hheading⟩ := Prod.mk.inj hfirst
        have hlast : children.isEmpty = others.isEmpty := List.singleton_inj.mp htrail
        -- Both rests begin with the nodes below a child, whose trails begin alike.
        rw [hlast] at hrest
        obtain ⟨hbelow, hnext⟩ := outlineBelow_append_inj _ hrest
        exact .cons (.mk hheading (ih.1 other.children hbelow)) (ihc others ih.2 hnext)

theorem outlineBelow_eq_of_forall₂ (node : Node) (others : List Node)
    (h : List.Forall₂ Alike node.children others) :
    outlineBelow node.children = outlineBelow others := by
  induction node using induction_children generalizing others with
  | step node ih =>
    generalize node.children = children at ih h
    induction h with
    | nil => rfl
    | @cons child other children others hfirst hrest ihc =>
      rw [List.forall_mem_cons] at ih
      obtain ⟨hheading, hbelow⟩ := hfirst
      have hlast : children.isEmpty = others.isEmpty := by
        cases hrest <;> rfl
      rw [outlineBelow_cons, outlineBelow_cons, ih.1 _ hbelow, ihc ih.2, hlast, hheading]

/-- A node with nothing but single lines of text. -/
def IsOneLined (node : Node) : Prop :=
  ∃ label tag : Text, node.label = .text label ∧ node.tag = .text tag ∧
    lineFeed ∉ label ∧ lineFeed ∉ tag

/-- What is written of a tag. -/
def shownTag (tag : Text) : Text :=
  if tag = [] then [] else "  " ++ replace (CodePoint.ofChar '\t') " " tag

/-- What is written of a kind. -/
def shownKind (kind : Kind) : Text := if kind = .invalid then "  !" else []

theorem caption_text (label tag : Text) (kind : Kind) :
    caption (.text label) (.text tag) kind = .ok (label ++ shownTag tag ++ shownKind kind) := by
  cases tag with
  | nil =>
    change Except.ok (label ++ shownKind kind) = _
    rw [shownTag, if_pos rfl, List.append_nil]
  | cons c tag =>
    change Except.ok (label ++ "  " ++ replace (CodePoint.ofChar '\t') " " (c :: tag) ++
      shownKind kind) = _
    rw [shownTag, if_neg (List.cons_ne_nil c tag), ← List.append_assoc label]

theorem of_mem_shownTag {tag : Text} {c : CodePoint} (h : c ∈ shownTag tag) :
    c ∈ tag ∨ c ∈ Text.ofString " " := by
  have hblanks : Text.ofString "  " ⊆ Text.ofString " " := by decide
  rw [shownTag] at h
  split at h
  · cases h
  · rw [List.mem_append] at h
    rcases h with h | h
    · exact .inr (hblanks h)
    · rw [replace, List.mem_flatMap] at h
      obtain ⟨d, hd, hc⟩ := h
      split at hc
      · exact .inr hc
      · rw [List.mem_singleton] at hc
        exact .inl (hc ▸ hd)

theorem lineFeed_notMem_shownTag {tag : Text} (h : lineFeed ∉ tag) : lineFeed ∉ shownTag tag :=
  fun hmem => (of_mem_shownTag hmem).elim h (by decide)

theorem lineFeed_notMem_shownKind (kind : Kind) : lineFeed ∉ shownKind kind := by
  cases kind <;> decide

theorem heading_of_isOneLined {node : Node} (h : node.IsOneLined) :
    ∃ text, node.heading = .ok text ∧ lineFeed ∉ text := by
  obtain ⟨label, tag, hlabel, htag, hl, ht⟩ := h
  refine ⟨label ++ shownTag tag ++ shownKind node.kind, ?_, ?_⟩
  · rw [heading, hlabel, htag, caption_text]
  · rw [List.mem_append, List.mem_append, not_or, not_or]
    exact ⟨⟨hl, lineFeed_notMem_shownTag ht⟩, lineFeed_notMem_shownKind node.kind⟩

theorem lineFeed_notMem_lead (trail : List Bool) : lineFeed ∉ lead trail :=
  fun hmem => absurd (of_mem_lead hmem) (by decide)

/-- A line of a drawing for a node in its place. -/
def IsLine (p : List Bool × Node) (line : Text) : Prop :=
  ∃ text, p.2.heading = .ok text ∧ line = lead p.1 ++ text

theorem line_eq_ok_iff {p : List Bool × Node} {text : Text} :
    line [] p = .ok text ↔ IsLine p text := by
  rw [line, IsLine, List.nil_append]
  cases p.2.heading <;> simp [Except.map, eq_comm]

theorem splitOn_unlines {lines : List Text} (h : ∀ line ∈ lines, lineFeed ∉ line) :
    (unlines lines).splitOn lineFeed = lines ++ [[]] := by
  induction lines with
  | nil => rfl
  | cons line lines ih =>
    rw [List.forall_mem_cons] at h
    rw [unlines_cons, List.splitOn_append_cons_self_of_not_mem h.1, ih h.2, List.cons_append]

/-- The lines of a drawing, if all headings are single lines. -/
theorem exists_lines {node : Node} (plain : ∀ t ∈ node.nodes, t.IsOneLined) :
    ∃ lines, node.draw = .ok (unlines lines) ∧ (unlines lines).splitOn lineFeed = lines ++ [[]] ∧
      List.Forall₂ IsLine node.placed lines := by
  have hplaced : ∀ p ∈ node.placed, ∃ text, p.2.heading = .ok text ∧ lineFeed ∉ text := by
    intro p hp
    exact heading_of_isOneLined (plain p.2 (mem_nodes_of_mem_placed hp))
  obtain ⟨lines, hlines⟩ := exists_mapM_eq_ok_iff.mpr fun p hp =>
    isOk_line.mpr ((hplaced p hp).imp fun _ h => h.1)
  have heach : List.Forall₂ IsLine node.placed lines :=
    (mapM_eq_ok_iff.mp hlines).imp fun _ _ => line_eq_ok_iff.mp
  refine ⟨lines, by rw [draw_eq, hlines]; rfl, splitOn_unlines fun line hline => ?_, heach⟩
  obtain ⟨p, hp, text, hheading, rfl⟩ := exists_of_mem_right heach hline
  obtain ⟨text', hheading', hfree⟩ := hplaced p hp
  obtain rfl := Except.ok.inj (hheading.symm.trans hheading')
  rw [List.mem_append, not_or]
  exact ⟨lineFeed_notMem_lead p.1, hfree⟩

theorem outlineBelow_eq_of_lines {children others : List Node} {lines : List Text}
    (h : List.Forall₂ IsLine (placedBelow children) lines)
    (h' : List.Forall₂ IsLine (placedBelow others) lines) :
    outlineBelow children = outlineBelow others := by
  have hne : ∀ p ∈ placedBelow children, p.1 ≠ [] := fun p => trail_ne_nil
  have hne' : ∀ p ∈ placedBelow others, p.1 ≠ [] := fun p => trail_ne_nil
  rw [outlineBelow, outlineBelow]
  generalize placedBelow children = places at h hne
  generalize placedBelow others = places' at h' hne'
  induction h generalizing places' with
  | nil =>
    cases h'
    rfl
  | cons hline hrest ih =>
    cases h' with
    | cons hline' hrest' =>
      rw [List.forall_mem_cons] at hne hne'
      obtain ⟨text, hheading, rfl⟩ := hline
      obtain ⟨text', hheading', heq⟩ := hline'
      obtain ⟨htrail, htext⟩ := lead_append_inj hne.1 hne'.1 heq
      rw [List.map_cons, List.map_cons, ih hne.2 _ hrest' hne'.2, htrail, hheading, hheading', htext]

theorem alike_of_lines {a b : Node} {lines : List Text} (ha : List.Forall₂ IsLine a.placed lines)
    (hb : List.Forall₂ IsLine b.placed lines) : a.Alike b := by
  rw [placed_eq] at ha hb
  cases ha with
  | cons hroot hbelow =>
    cases hb with
    | cons hroot' hbelow' =>
      obtain ⟨text, hheading, hline⟩ := hroot
      obtain ⟨text', hheading', hline'⟩ := hroot'
      have htext : text = text' := hline.symm.trans hline'
      rw [← htext] at hheading'
      exact .mk (hheading.trans hheading'.symm)
        (outlineBelow_inj a b.children (outlineBelow_eq_of_lines hbelow hbelow'))

/-- The drawing depends on trails and headings alone. -/
theorem draw_eq_of_alike {a b : Node} (h : a.Alike b) : a.draw = b.draw := by
  obtain ⟨hheading, hbelow⟩ := h
  have houtline := outlineBelow_eq_of_forall₂ a b.children hbelow
  have hline : ∀ node : Node, node.placed.mapM (line []) =
      (([], node.heading) :: outlineBelow node.children).mapM
        fun q : List Bool × Except DrawFault Text => q.2.map (lead q.1 ++ ·) := by
    intro node
    have hmap : ([], node.heading) :: outlineBelow node.children =
        node.placed.map fun p => (p.1, p.2.heading) := by
      rw [placed_eq]
      rfl
    rw [hmap, List.mapM_map]
    rfl
  rw [draw_eq, draw_eq, hline, hline, houtline, hheading]

/-- A tree of single lines is drawn as one line for each of its nodes, from the top: a cell for each
node above but the root, a connector, and the node's heading. Two such trees have one drawing
exactly if they have one shape and the same headings, whatever the headings begin with. -/
theorem draw_unambiguous (node : Node) (plain : ∀ t ∈ node.nodes, t.IsOneLined) :
    (∃ drawing lines, node.draw = .ok drawing ∧ drawing.splitOn lineFeed = lines ++ [[]] ∧
      lines.length = node.count ∧ List.Forall₂ IsLine node.placed lines) ∧
    node.placed.map Prod.snd = node.nodes ∧
    (∀ above last, lead (above ++ [last]) = above.flatMap cell ++ connector last) ∧
    ∀ other : Node, (∀ t ∈ other.nodes, t.IsOneLined) →
      (other.draw = node.draw ↔ other.Alike node) := by
  obtain ⟨lines, hdraw, hcut, heach⟩ := exists_lines plain
  have hlength : lines.length = node.count := by
    rw [← heach.length_eq, length_placed]
  refine ⟨⟨unlines lines, lines, hdraw, hcut, hlength, heach⟩, map_snd_placed node, lead_concat,
    fun other plain' => ⟨fun h => ?_, draw_eq_of_alike⟩⟩
  obtain ⟨lines', hdraw', hcut', heach'⟩ := exists_lines plain'
  have hdrawing : unlines lines' = unlines lines :=
    Except.ok.inj (hdraw'.symm.trans (h.trans hdraw))
  have hlines : lines' = lines := by
    rw [hdrawing, hcut] at hcut'
    exact (List.append_cancel_right hcut').symm
  rw [hlines] at heach'
  exact alike_of_lines heach' heach

/-- A tree whose labels look like the beginnings of lines. -/
def sprout (tag : Text) : Node :=
  { label := .text "root"
    children := [
      { label := .text "├── a", tag := .text tag, children := [{ label := .text "│   b" }] },
      { label := .text "    └── c", kind := .invalid }] }

theorem draw_unambiguous_sprout :
    (∀ t ∈ (sprout "x\ty").nodes, t.IsOneLined) ∧ (∀ t ∈ (sprout "x y").nodes, t.IsOneLined) ∧
      (sprout "x y").draw = (sprout "x\ty").draw ∧ (sprout "x y").Alike (sprout "x\ty") := by
  have hplain : ∀ tag : Text, lineFeed ∉ tag → ∀ t ∈ (sprout tag).nodes, t.IsOneLined := by
    intro tag htag t ht
    simp only [sprout, nodes, nodesOfList, List.append_nil, List.cons_append, List.nil_append,
      List.mem_cons, List.not_mem_nil, or_false] at ht
    rcases ht with rfl | rfl | rfl | rfl
    · exact ⟨_, _, rfl, rfl, by decide, by decide⟩
    · exact ⟨_, _, rfl, rfl, by decide, htag⟩
    · exact ⟨_, _, rfl, rfl, by decide, by decide⟩
    · exact ⟨_, _, rfl, rfl, by decide, by decide⟩
  have htag : shownTag "x y" = shownTag "x\ty" := by decide
  have hdraw : (sprout "x y").draw = (sprout "x\ty").draw := by
    simp only [draw, sprout, lines, childLines, caption_text, htag]
  have htab := hplain "x\ty" (by decide)
  have hblank := hplain "x y" (by decide)
  exact ⟨htab, hblank, hdraw, ((draw_unambiguous _ htab).2.2.2 _ hblank).mp hdraw⟩

end Node

end LiveTree.Display
