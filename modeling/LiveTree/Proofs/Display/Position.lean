import LiveTree.Proofs.Display.Shape
import LiveTree.Proofs.Text.Cut
import LiveTree.Proofs.Text.Digit
import Mathlib.Data.List.MinMax

namespace LiveTree

section Groups

variable {α β : Type}

/-- The elements by their labels, from label 1 to the last that there is. -/
def groups (label : α → Nat) (l : List α) : List (List α) :=
  (List.range ((l.map label).foldr max 0)).map fun k => l.filter (label · == k + 1)

/-- What is grouped by labels of images has the images for groups. -/
theorem groups_map (label : β → Nat) (f : α → β) (l : List α) :
    groups label (l.map f) = (groups (label ∘ f) l).map (List.map f) := by
  rw [groups, groups, List.map_map, List.map_map]
  refine List.map_congr_left fun k _ => ?_
  rw [List.filter_map]
  rfl

/-- Each element is labelled with the number of its list, counted from `n` on. -/
def Labelled (label : α → Nat) (n : Nat) (lists : List (List α)) : Prop :=
  ∀ p ∈ lists.zipIdx n, ∀ a ∈ p.1, label a = p.2

theorem labelled_cons {label : α → Nat} {n : Nat} {l : List α} {lists : List (List α)} :
    Labelled label n (l :: lists) ↔ (∀ a ∈ l, label a = n) ∧ Labelled label (n + 1) lists := by
  rw [Labelled, List.zipIdx_cons, List.forall_mem_cons]
  rfl

theorem label_bounds_of_labelled {label : α → Nat} {n : Nat} {lists : List (List α)}
    (h : Labelled label n lists) {a : α} (ha : a ∈ lists.flatten) :
    n ≤ label a ∧ label a < n + lists.length := by
  induction lists generalizing n with
  | nil => cases ha
  | cons l lists ih =>
    rw [labelled_cons] at h
    rw [List.flatten_cons, List.mem_append] at ha
    rw [List.length_cons]
    rcases ha with ha | ha
    · have hlabel := h.1 a ha
      omega
    · have hlabel := ih h.2 ha
      omega

theorem filter_label_eq_nil {label : α → Nat} {l : List α} {k : Nat} (h : ∀ a ∈ l, label a ≠ k) :
    l.filter (label · == k) = [] := by
  rw [List.filter_eq_nil_iff]
  intro a ha
  rw [beq_iff_eq]
  exact h a ha

theorem filter_flatten_of_labelled {label : α → Nat} {n : Nat} {lists : List (List α)}
    (h : Labelled label n lists) (k : Nat) :
    lists.flatten.filter (label · == n + k) = lists.getD k [] := by
  induction lists generalizing n k with
  | nil => rfl
  | cons l lists ih =>
    rw [labelled_cons] at h
    obtain ⟨hl, hlists⟩ := h
    rw [List.flatten_cons, List.filter_append]
    cases k with
    | zero =>
      have hall : l.filter (label · == n + 0) = l := by
        rw [List.filter_eq_self]
        intro a ha
        simp [hl a ha]
      have hnone : lists.flatten.filter (label · == n + 0) = [] := by
        refine filter_label_eq_nil fun a ha => ?_
        have hlabel := (label_bounds_of_labelled hlists ha).1
        omega
      rw [hall, hnone, List.append_nil, List.getD_cons_zero]
    | succ k =>
      have hnone : l.filter (label · == n + (k + 1)) = [] := by
        refine filter_label_eq_nil fun a ha => ?_
        rw [hl a ha]
        omega
      rw [hnone, List.nil_append, List.getD_cons_succ, ← ih hlists, Nat.add_right_comm n 1 k,
        Nat.add_assoc]

theorem labelled_zipIdx {label : β → Nat} {f : α × Nat → List β}
    (h : ∀ p, ∀ b ∈ f p, label b = p.2) (n : Nat) (l : List α) :
    Labelled label n ((l.zipIdx n).map f) := by
  induction l generalizing n with
  | nil => exact fun _ hp => absurd hp List.not_mem_nil
  | cons a l ih =>
    rw [List.zipIdx_cons, List.map_cons, labelled_cons]
    exact ⟨h (a, n), ih (n + 1)⟩

theorem pairwise_flatten_of_labelled {label : α → Nat} {n : Nat} {lists : List (List α)}
    (h : Labelled label n lists) {R : α → α → Prop} (within : ∀ l ∈ lists, l.Pairwise R)
    (across : ∀ a b, label a < label b → R a b) : lists.flatten.Pairwise R := by
  induction lists generalizing n with
  | nil => exact .nil
  | cons l lists ih =>
    rw [labelled_cons] at h
    rw [List.forall_mem_cons] at within
    rw [List.flatten_cons, List.pairwise_append]
    refine ⟨within.1, ih h.2 within.2, fun a ha b hb => across a b ?_⟩
    have hfirst := h.1 a ha
    have hlater := (label_bounds_of_labelled h.2 hb).1
    omega

theorem forall₂_zipIdx {R : α → β → Prop} {f : α × Nat → β} {n : Nat} {l : List α}
    (h : ∀ p ∈ l.zipIdx n, R p.1 (f p)) : List.Forall₂ R l ((l.zipIdx n).map f) := by
  have heach : List.Forall₂ R ((l.zipIdx n).map Prod.fst) ((l.zipIdx n).map f) := by
    rw [List.forall₂_map_left_iff, List.forall₂_map_right_iff, List.forall₂_same]
    exact h
  rwa [List.zipIdx_map_fst] at heach

/-- Labelled lists are got back from their elements, up to empty lists at the end. -/
theorem exists_groups_flatten {label : α → Nat} {lists : List (List α)}
    (h : Labelled label 1 lists) :
    ∃ n, lists = groups label lists.flatten ++ List.replicate n [] := by
  -- No label exceeds the number of lists, so beyond the last label all lists are empty.
  rw [groups]
  generalize hlast : (lists.flatten.map label).foldr max 0 = last
  have hle : last ≤ lists.length := by
    rw [← hlast]
    refine List.max_le_of_forall_le _ _ ?_
    rw [List.forall_mem_map]
    intro a ha
    have hlabel := (label_bounds_of_labelled h ha).2
    omega
  have hafter : ∀ k, lists.flatten.filter (label · == last + k + 1) = [] := by
    intro k
    refine filter_label_eq_nil fun a ha => ?_
    have hlabel := List.le_max_of_le' 0 (List.mem_map_of_mem (f := label) ha) le_rfl
    omega
  have hlists : lists = (List.range lists.length).map fun k =>
      lists.flatten.filter (label · == k + 1) := by
    refine List.ext_getElem (by simp) fun k hk _ => ?_
    rw [List.getElem_map, List.getElem_range, Nat.add_comm k 1, filter_flatten_of_labelled h,
      List.getD_eq_getElem?_getD, List.getElem?_eq_getElem hk, Option.getD_some]
  obtain ⟨n, hn⟩ := Nat.exists_eq_add_of_le hle
  have hempty : (List.range n).map (fun k => lists.flatten.filter (label · == last + k + 1)) =
      List.replicate n [] := by
    rw [List.eq_replicate_iff, List.forall_mem_map]
    exact ⟨by simp, fun k _ => hafter k⟩
  refine ⟨n, ?_⟩
  calc
    lists = (List.range (last + n)).map fun k => lists.flatten.filter (label · == k + 1) := by
      rw [← hn]
      exact hlists
    _ = _ := by
      rw [List.range_add, List.map_append, List.map_map, ← hempty]
      rfl

end Groups

namespace Display

/-- The code point that ends a position. -/
def endMark : CodePoint := '〉'

/-- The position in a tag: all that stands after the first code point and before an end mark. -/
def positionIn (tag : Text) : Text := (tag.drop 1).takeWhile (· != endMark)

/-- The slot and the place that a position names. A number alone names the first place. -/
def seatOf (position : Text) : Nat × Nat :=
  let (slot, place) := cutOnce (CodePoint.ofChar '.') position
  (Numeral.value (digitsOf slot), (place.map fun s => Numeral.value (digitsOf s)).getD 1)

/-- Where a drawn node stands in its branch, by its tag. -/
def Node.seat (tree : Node) : Nat × Nat := seatOf (positionIn tree.tag.asText)

theorem notMem_ofNat {c : CodePoint} (h : c.isAsciiDigit = false) (n : Nat) : c ∉ Text.ofNat n := by
  intro hc
  rw [Text.isAsciiDigit_of_mem_ofNat hc] at h
  cases h

theorem position_cases (slot place size : Nat) :
    position slot place size = Text.ofNat slot ∧ size ≤ 1 ∨
      position slot place size = Text.ofNat slot ++ "." ++ Text.ofNat place := by
  rw [position]
  split
  · exact .inr rfl
  · exact .inl ⟨rfl, by omega⟩

theorem seatOf_position {place size : Nat} (first : 1 ≤ place) (last : place ≤ size) (slot : Nat) :
    seatOf (position slot place size) = (slot, place) := by
  have hpoint : CodePoint.ofChar '.' ∉ Text.ofNat slot := notMem_ofNat (by decide) slot
  have hpair : Text.ofNat slot ++ "." ++ Text.ofNat place =
      Text.ofNat slot ++ CodePoint.ofChar '.' :: Text.ofNat place := by
    rw [List.append_assoc]
    rfl
  rw [seatOf]
  rcases position_cases slot place size with ⟨hposition, hsize⟩ | hposition
  · obtain rfl : place = 1 := by omega
    rw [hposition, cutOnce_of_notMem hpoint]
    exact Prod.ext (Text.value_ofNat slot) rfl
  · rw [hposition, hpair, cutOnce_append_cons hpoint]
    exact Prod.ext (Text.value_ofNat slot) (Text.value_ofNat place)

theorem endMark_notMem_position (slot place size : Nat) : endMark ∉ position slot place size := by
  have hnumber : ∀ n, endMark ∉ Text.ofNat n := notMem_ofNat (by decide)
  have hpoint : endMark ∉ (("." : String) : Text) := by decide
  rcases position_cases slot place size with ⟨hposition, -⟩ | hposition
  · rw [hposition]
    exact hnumber slot
  · rw [hposition, List.mem_append, List.mem_append, not_or, not_or]
    exact ⟨⟨hnumber slot, hpoint⟩, hnumber place⟩

theorem positionIn_marker {position : Text} (h : endMark ∉ position) (rest : Text) :
    positionIn (marker position ++ rest) = position := by
  have hall : ∀ c ∈ position, (c != endMark) = true := by
    intro c hc
    have hne : c ≠ endMark := fun heq => h (heq ▸ hc)
    simpa using hne
  have hmarker : marker position ++ rest = CodePoint.ofChar '〈' :: (position ++ endMark :: rest) := by
    rw [marker, List.append_assoc, List.append_assoc]
    rfl
  rw [positionIn, hmarker, List.drop_one, List.tail_cons, takeWhile_append_cons (by simp),
    List.takeWhile_eq_self_iff.mpr hall]

/-- What the tag of a node ends with: the key of its branch, if it is a rule with one branch. -/
def keyMark : Syntax.Node → Text
  | .rule _ [(key, _)] => "\t" ++ marker key
  | _ => []

theorem tag_ofSyntax (tag : Text) (node : Syntax.Node) :
    (ofSyntax (some tag) node).tag = .text (tag ++ keyMark node) := by
  have hplain : Json.text tag = .text (tag ++ []) := by rw [List.append_nil]
  match node with
  | .rule symbol [(key, ⟨reqs, entries⟩)] =>
    rw [ofSyntax, keyMark, List.append_assoc]
    rfl
  | .token symbol value => rw [ofSyntax]; exact hplain
  | .self name => rw [ofSyntax]; exact hplain
  | .malformed raw => rw [ofSyntax]; exact hplain
  | .rule symbol [] => rw [ofSyntax]; exact hplain
  | .rule symbol (first :: second :: rest) => rw [ofSyntax]; exact hplain

/-- The drawing of a node in its place. -/
def drawnAt (reqs : Text) (slot place size : Nat) (node : Syntax.Node) : Node :=
  ofSyntax (some (marker (position slot place size) ++ "\t" ++ reqs)) node

def drawnSlot (reqs : Text) (slot : Nat) (nodes : List Syntax.Node) : List Node :=
  (nodes.zipIdx 1).map fun (node, place) => drawnAt reqs slot place nodes.length node

/-- The slots of a branch with a drawing for each of their nodes. -/
def drawnSlots (branch : Syntax.Branch Syntax.Node) : List (List Node) :=
  (branch.entries.zipIdx 1).map fun (nodes, slot) => drawnSlot branch.reqs slot nodes

theorem ofNodes_eq (reqs : Text) (slot place size : Nat) (nodes : List Syntax.Node) :
    ofNodes reqs slot place size nodes =
      (nodes.zipIdx place).map fun (node, place) => drawnAt reqs slot place size node := by
  induction nodes generalizing place with
  | nil => rfl
  | cons node nodes ih =>
    rw [ofNodes, ih, List.zipIdx_cons, List.map_cons]
    rfl

theorem ofSlots_eq (reqs : Text) (slot : Nat) (entries : List (List Syntax.Node)) :
    ofSlots reqs slot entries =
      ((entries.zipIdx slot).map fun (nodes, slot) => drawnSlot reqs slot nodes).flatten := by
  induction entries generalizing slot with
  | nil => rfl
  | cons nodes entries ih =>
    rw [ofSlots, ih, ofNodes_eq, List.zipIdx_cons, List.map_cons, List.flatten_cons]
    rfl

theorem flatten_eq (branch : Syntax.Branch Syntax.Node) :
    flatten branch = (drawnSlots branch).flatten := ofSlots_eq branch.reqs 1 branch.entries

theorem positionIn_drawnAt (reqs : Text) (slot place size : Nat) (node : Syntax.Node) :
    positionIn (drawnAt reqs slot place size node).tag.asText = position slot place size := by
  rw [drawnAt, tag_ofSyntax, Json.asText, List.append_assoc, List.append_assoc,
    positionIn_marker (endMark_notMem_position slot place size)]

theorem seat_drawnAt {place size : Nat} (first : 1 ≤ place) (last : place ≤ size) (reqs : Text)
    (slot : Nat) (node : Syntax.Node) : (drawnAt reqs slot place size node).seat = (slot, place) := by
  rw [Node.seat, positionIn_drawnAt, seatOf_position first last]

/-- What the tag of a node in a branch says, and what is read off it. -/
def IsTagged (reqs : Text) (node : Syntax.Node) (tree : Node) : Prop :=
  ∃ position slot place, tree.tag = .text (marker position ++ "\t" ++ reqs ++ keyMark node) ∧
    (position = Text.ofNat slot ∨ position = Text.ofNat slot ++ "." ++ Text.ofNat place) ∧
    positionIn tree.tag.asText = position ∧ tree.seat = (slot, place)

theorem isTagged_drawnAt {place size : Nat} (first : 1 ≤ place) (last : place ≤ size) (reqs : Text)
    (slot : Nat) (node : Syntax.Node) :
    IsTagged reqs node (drawnAt reqs slot place size node) := by
  exact ⟨position slot place size, slot, place, tag_ofSyntax _ node,
    (position_cases slot place size).imp_left And.left,
    positionIn_drawnAt reqs slot place size node, seat_drawnAt first last reqs slot node⟩

theorem isTagged_flatten (branch : Syntax.Branch Syntax.Node) :
    List.Forall₂ (IsTagged branch.reqs) branch.entries.flatten (flatten branch) := by
  rw [flatten_eq]
  refine List.rel_flatten (forall₂_zipIdx fun (nodes, slot) _ => forall₂_zipIdx ?_)
  intro (node, place) hplace
  change (node, place) ∈ nodes.zipIdx 1 at hplace
  obtain ⟨hfirst, hlast, -⟩ := List.mem_zipIdx hplace
  exact isTagged_drawnAt hfirst (by omega) branch.reqs slot node

theorem map_seat_drawnSlot (reqs : Text) (slot : Nat) (nodes : List Syntax.Node) :
    (drawnSlot reqs slot nodes).map Node.seat =
      (List.range' 1 nodes.length).map fun place => (slot, place) := by
  rw [← List.zipIdx_map_snd 1 nodes, drawnSlot, List.map_map, List.map_map]
  refine List.map_congr_left fun (node, place) hplace => ?_
  obtain ⟨hfirst, hlast, -⟩ := List.mem_zipIdx hplace
  exact seat_drawnAt hfirst (by omega) reqs slot node

theorem slot_of_mem_drawnSlot {reqs : Text} {slot : Nat} {nodes : List Syntax.Node} {tree : Node}
    (h : tree ∈ drawnSlot reqs slot nodes) : tree.seat.1 = slot := by
  have hseat : tree.seat ∈ (drawnSlot reqs slot nodes).map Node.seat := List.mem_map_of_mem h
  rw [map_seat_drawnSlot, List.mem_map] at hseat
  obtain ⟨place, -, hplace⟩ := hseat
  rw [← hplace]

theorem labelled_drawnSlots (branch : Syntax.Branch Syntax.Node) :
    Labelled (fun tree : Node => tree.seat.1) 1 (drawnSlots branch) :=
  labelled_zipIdx (fun _ _ h => slot_of_mem_drawnSlot h) 1 branch.entries

/-- By slot, and in a slot by place. -/
def Precedes (a b : Node) : Prop := Prod.Lex (· < ·) (· < ·) a.seat b.seat

theorem pairwise_drawnSlot (reqs : Text) (slot : Nat) (nodes : List Syntax.Node) :
    (drawnSlot reqs slot nodes).Pairwise Precedes := by
  have hplaces : (List.range' 1 nodes.length).Pairwise (· < ·) := List.pairwise_lt_range'
  have hseats : ((drawnSlot reqs slot nodes).map Node.seat).Pairwise
      (Prod.Lex (· < ·) (· < ·)) := by
    rw [map_seat_drawnSlot, List.pairwise_map]
    exact hplaces.imp fun h => .right _ h
  rw [List.pairwise_map] at hseats
  exact hseats

theorem pairwise_flatten (branch : Syntax.Branch Syntax.Node) :
    (flatten branch).Pairwise Precedes := by
  rw [flatten_eq]
  refine pairwise_flatten_of_labelled (labelled_drawnSlots branch) ?_ fun a b h => .left _ _ h
  rw [drawnSlots, List.forall_mem_map]
  exact fun (nodes, slot) _ => pairwise_drawnSlot branch.reqs slot nodes

theorem nodup_positions (branch : Syntax.Branch Syntax.Node) :
    ((flatten branch).map fun tree => positionIn tree.tag.asText).Nodup := by
  rw [List.nodup_iff_pairwise_ne, List.pairwise_map]
  refine (pairwise_flatten branch).imp fun {a b} h heq => ?_
  have hseat : a.seat = b.seat := congrArg seatOf heq
  rw [Precedes, hseat] at h
  exact irrefl _ h

theorem exists_drawnSlots_eq (branch : Syntax.Branch Syntax.Node) :
    ∃ n, drawnSlots branch =
      groups (fun tree : Node => tree.seat.1) (flatten branch) ++ List.replicate n [] := by
  rw [flatten_eq]
  exact exists_groups_flatten (labelled_drawnSlots branch)

theorem map_length_drawnSlots (branch : Syntax.Branch Syntax.Node) :
    (drawnSlots branch).map List.length = branch.entries.map List.length := by
  have hslot : ∀ (reqs : Text) (slot : Nat) (nodes : List Syntax.Node),
      (drawnSlot reqs slot nodes).length = nodes.length := by
    intro reqs slot nodes
    rw [drawnSlot, List.length_map, List.length_zipIdx]
  have hmap := congrArg (List.map List.length) (List.zipIdx_map_fst 1 branch.entries)
  rw [← hmap, drawnSlots, List.map_map, List.map_map]
  exact List.map_congr_left fun _ _ => hslot _ _ _

/-- The sizes of the slots, up to the last that is not empty, by the tags of the nodes. -/
def sizesOf (tags : List Json) : List Nat :=
  (groups (fun tag : Json => (seatOf (positionIn tag.asText)).1) tags).map List.length

theorem exists_sizes_eq (branch : Syntax.Branch Syntax.Node) :
    ∃ n, branch.entries.map List.length =
      sizesOf ((flatten branch).map Node.tag) ++ List.replicate n 0 := by
  obtain ⟨n, hn⟩ := exists_drawnSlots_eq branch
  refine ⟨n, ?_⟩
  rw [← map_length_drawnSlots, hn, sizesOf, groups_map, List.map_append, List.map_replicate,
    List.map_map]
  congr 1
  refine List.map_congr_left fun trees _ => ?_
  exact (List.length_map Node.tag).symm

/-- The tags of a drawn branch tell where its nodes stand, whatever requirement, keys and symbols
are. Each tag is a position between marks and the requirement, and after them the key of a rule with
one branch; the position is the number of a slot alone or with that of a place, and is read off the
tag. Positions are distinct and increase by slot and place. The nodes, grouped by the slots that are
read off their tags, are the slots of the branch with a drawing for each node, up to empty slots at
the end; so from the tags alone the sizes of the slots are known, up to those. -/
theorem flatten_tells_slots (branch : Syntax.Branch Syntax.Node) :
    List.Forall₂ (IsTagged branch.reqs) branch.entries.flatten (flatten branch) ∧
    (flatten branch).Pairwise Precedes ∧
    ((flatten branch).map fun tree => positionIn tree.tag.asText).Nodup ∧
    (∃ n, drawnSlots branch =
      groups (fun tree : Node => tree.seat.1) (flatten branch) ++ List.replicate n []) ∧
    ∀ other : Syntax.Branch Syntax.Node,
      (flatten other).map Node.tag = (flatten branch).map Node.tag →
        ∃ sizes m n, branch.entries.map List.length = sizes ++ List.replicate m 0 ∧
          other.entries.map List.length = sizes ++ List.replicate n 0 := by
  refine ⟨isTagged_flatten branch, pairwise_flatten branch, nodup_positions branch,
    exists_drawnSlots_eq branch, fun other h => ?_⟩
  obtain ⟨m, hm⟩ := exists_sizes_eq branch
  obtain ⟨n, hn⟩ := exists_sizes_eq other
  rw [h] at hn
  exact ⟨_, m, n, hm, hn⟩

/-- A branch whose texts look like positions, with a slot that is empty and perhaps more at its
end. -/
def marked (name : Text) (empty : Nat) : Syntax.Branch Syntax.Node where
  reqs := "〉\t3.1"
  entries :=
    [[.self name], [], [.token name "〈2〉", .rule "〈1〉" [("〉1.2", ⟨"〈4〉", [[.self name]]⟩)]]] ++
      List.replicate empty []

theorem flatten_tells_slots_marked :
    (flatten (marked "a" 2)).map Node.tag = (flatten (marked "〈9〉" 0)).map Node.tag ∧
      ∃ sizes m n, (marked "〈9〉" 0).entries.map List.length = sizes ++ List.replicate m 0 ∧
        (marked "a" 2).entries.map List.length = sizes ++ List.replicate n 0 := by
  have htags : (flatten (marked "a" 2)).map Node.tag = (flatten (marked "〈9〉" 0)).map Node.tag := by
    rfl
  obtain ⟨-, -, -, -, hsizes⟩ := flatten_tells_slots (marked "〈9〉" 0)
  exact ⟨htags, hsizes (marked "a" 2) htags⟩

end Display

end LiveTree
