import LiveTree.File.Disk
import LiveTree.Proofs.File.Path

namespace LiveTree.File

open LiveTree.Path

namespace Tree

/-- What names lead to below a tree. -/
def descend (tree : Tree) : List Text → Option Tree
  | [] => some tree
  | name :: names => (tree.entry? name).bind (·.descend names)

theorem descend_append (tree : Tree) (names more : List Text) :
    tree.descend (names ++ more) = (tree.descend names).bind (·.descend more) := by
  induction names generalizing tree with
  | nil => rfl
  | cons name names ih =>
    cases hentry : tree.entry? name with
    | none => simp [descend, hentry]
    | some below => simpa [descend, hentry] using ih below

theorem descend_filter_isFolder (tree? : Option Tree) {names : List Text} (hne : names ≠ []) :
    (tree?.filter isFolder).bind (·.descend names) = tree?.bind (·.descend names) := by
  obtain ⟨name, names, rfl⟩ := List.exists_cons_of_ne_nil hne
  rcases tree? with _ | ⟨content⟩ | ⟨entries⟩
  · rfl
  · rfl
  · rfl

/-- Where one segment leads, with the parents of that place. -/
def move (above : List Tree) (here : Tree) (segment : Text) : Option (List Tree × Tree) :=
  if here.isFile then none
  else if segment == [] || segment == "." then some (above, here)
  else if segment == ".." then
    match above with
    | [] => some ([], here)
    | parent :: above => some (above, parent)
  else (here.entry? segment).map (here :: above, ·)

theorem follow_cons (above : List Tree) (here : Tree) (segment : Text) (segments : List Text) :
    follow above here (segment :: segments) =
      (move above here segment).bind fun place => follow place.1 place.2 segments := by
  simp only [follow, move]
  split_ifs
  · rfl
  · rfl
  · cases above <;> rfl
  · cases here.entry? segment <;> rfl

theorem move_stay {segment : Text} (h : segment = [] ∨ segment = ".") (above : List Tree)
    (here : Tree) :
    move above here segment = if here.isFile then none else some (above, here) := by
  have hstay : (segment == [] || segment == ".") = true := by simpa using h
  simp only [move, hstay, if_true]

theorem move_up (above : List Tree) (here : Tree) :
    move above here ".." =
      if here.isFile then none else some (above.tail, above.head?.getD here) := by
  cases above <;> rfl

theorem move_name {name : Text} (h : IsName name) (above : List Tree) (here : Tree) :
    move above here name = (here.entry? name).map (here :: above, ·) := by
  obtain ⟨hnil, hhere, hup⟩ := h.ne
  cases here with
  | file content => rfl
  | folder entries => simp [move, isFile, hnil, hhere, hup]

theorem move_cases {above : List Tree} {here : Tree} {segment : Text} {place : List Tree × Tree}
    (h : move above here segment = some place) :
    place = (above, here) ∨ place = (above.tail, above.head?.getD here) ∨
      ∃ below, here.entry? segment = some below ∧ place = (here :: above, below) := by
  simp only [move] at h
  split_ifs at h
  · exact .inl (Option.some.inj h).symm
  · cases above with
    | nil => exact .inl (Option.some.inj h).symm
    | cons parent above => exact .inr (.inl (Option.some.inj h).symm)
  · obtain ⟨below, hentry, rfl⟩ := Option.map_eq_some_iff.mp h
    exact .inr (.inr ⟨below, hentry, rfl⟩)

theorem follow_append (above : List Tree) (here : Tree) (segments more : List Text)
    {after : Tree → Option Tree} (h : ∀ above here, follow above here more = after here) :
    follow above here (segments ++ more) = (follow above here segments).bind after := by
  induction segments generalizing above here with
  | nil => exact h above here
  | cons segment segments ih =>
    rw [List.cons_append, follow_cons, follow_cons]
    cases move above here segment with
    | none => rfl
    | some place => exact ih place.1 place.2

theorem follow_names {names : List Text} (h : ∀ name ∈ names, IsName name) (above : List Tree)
    (here : Tree) : follow above here names = here.descend names := by
  induction names generalizing above here with
  | nil => rfl
  | cons name names ih =>
    rw [List.forall_mem_cons] at h
    rw [follow_cons, move_name h.1, descend]
    cases here.entry? name with
    | none => rfl
    | some tree => exact ih h.2 (here :: above) tree

theorem follow_slashes (above : List Tree) {here : Tree} (h : here.isFile = false) (n : Nat)
    (segments : List Text) :
    follow above here (List.replicate n [] ++ segments) = follow above here segments := by
  induction n with
  | zero => rfl
  | succ n ih =>
    rw [List.replicate_succ, List.cons_append, follow_cons, move_stay (.inl rfl), h]
    exact ih

/-- An empty segment and a dot ask for a folder. -/
theorem follow_append_stay {segment : Text} (h : segment = [] ∨ segment = ".") (above : List Tree)
    (here : Tree) (segments : List Text) :
    follow above here (segments ++ [segment]) = (follow above here segments).filter isFolder := by
  have hstay (above : List Tree) (here : Tree) :
      follow above here [segment] = (some here).filter isFolder := by
    rw [follow_cons, move_stay h]
    cases here with
    | file content => rfl
    | folder entries => rfl
  rw [follow_append above here segments [segment] hstay]
  cases follow above here segments <;> rfl

theorem follow_ofNames {names : List Text} (h : ∀ name ∈ names, IsName name) (above : List Tree)
    (here : Tree) (segments : List Text) :
    follow above here (segments ++ Path.segments (ofNames names)) =
      ((follow above here segments).filter isFolder).bind (·.descend names) := by
  by_cases hne : names = []
  · have hdot : Path.segments (ofNames []) = [Text.ofString "."] := by decide
    rw [hne, hdot, follow_append_stay (.inr rfl)]
    cases (follow above here segments).filter isFolder <;> rfl
  · rw [segments_ofNames h hne, descend_filter_isFolder _ hne]
    exact follow_append above here segments names fun above here => follow_names h above here

/-- Below a place, by the names that lead there from the top, the nearest first. -/
inductive Reached (top : Tree) : List Text → List Tree → Tree → Prop
  | top : Reached top [] [] top
  | down {names : List Text} {parents : List Tree} {parent here : Tree} {name : Text}
    (above : Reached top names parents parent) (is_name : IsName name)
    (entry : parent.entry? name = some here) : Reached top (name :: names) (parent :: parents) here

theorem Reached.descend {top here : Tree} {names : List Text} {parents : List Tree}
    (h : Reached top names parents here) : top.descend names.reverse = some here := by
  induction h with
  | top => rfl
  | down above _ entry ih =>
    rw [List.reverse_cons, descend_append, ih]
    simp [Tree.descend, entry]

/-- One step in the tree is one step of normalisation. -/
theorem Reached.move {top here : Tree} {names : List Text} {parents : List Tree}
    (h : Reached top names parents here) {segment : Text} (hsegment : slash ∉ segment)
    {place : List Tree × Tree} (hmove : move parents here segment = some place) :
    Reached top (climb true names segment) place.1 place.2 := by
  rcases isName_or hsegment with hname | hstay | rfl
  · rw [move_name hname, Option.map_eq_some_iff] at hmove
    obtain ⟨tree, hentry, rfl⟩ := hmove
    rw [climb_name _ _ hname]
    exact h.down hname hentry
  · have hclimb : climb true names segment = names := by
      rcases hstay with rfl | rfl
      · rfl
      · rfl
    rw [move_stay hstay] at hmove
    split at hmove
    · cases hmove
    · obtain rfl := Option.some.inj hmove
      rwa [hclimb]
  · rw [move_up] at hmove
    split at hmove
    · cases hmove
    · obtain rfl := Option.some.inj hmove
      -- The topmost folder is its own parent, and there is no way up from a root.
      cases h with
      | top => exact .top
      | down above is_name entry =>
        rw [climb_up_name _ _ is_name]
        exact above

theorem Reached.follow {top here tree : Tree} {names : List Text} {parents : List Tree}
    (h : Reached top names parents here) {segments : List Text}
    (hsegments : ∀ segment ∈ segments, slash ∉ segment)
    (hfollow : follow parents here segments = some tree) :
    top.descend (segments.foldl (climb true) names).reverse = some tree := by
  induction segments generalizing here names parents with
  | nil =>
    obtain rfl := Option.some.inj hfollow
    exact h.descend
  | cons segment segments ih =>
    rw [List.forall_mem_cons] at hsegments
    rw [follow_cons] at hfollow
    obtain ⟨place, hmove, hplace⟩ := Option.bind_eq_some_iff.mp hfollow
    exact ih (h.move hsegments.1 hmove) hsegments.2 hplace

end Tree

namespace Disk

variable (disk : Disk)

variable {disk} in
theorem ne_nil_of_find? {path : Text} {tree : Tree} (h : disk.find? path = some tree) :
    path ≠ [] := by
  rintro rfl
  cases h

theorem find?_of_ne_nil {path : Text} (hne : path ≠ []) :
    disk.find? path = disk.tree.follow [] (segments (Path.append disk.workdir path)) := by
  have hpath : path.isEmpty = false := by simpa using hne
  rw [find?, hpath]
  rfl

/-- Names lead down from what a path leads to. -/
theorem find?_append {root : Text} (hroot : root ≠ []) {names : List Text}
    (h : ∀ name ∈ names, IsName name) :
    disk.find? (Path.append root (ofNames names)) =
      ((disk.find? root).filter Tree.isFolder).bind (·.descend names) := by
  have hrelative := isAbsolute_ofNames h
  have hne : Path.append root (ofNames names) ≠ [] := append_ne_nil root (ofNames_ne_nil h)
  have hstart : Path.append disk.workdir root ≠ [] := append_ne_nil disk.workdir hroot
  rw [find?_of_ne_nil disk hne, find?_of_ne_nil disk hroot, append_assoc _ root hrelative]
  obtain ⟨front, happend, hfront⟩ := exists_segments_append hstart hrelative
  rw [happend, Tree.follow_ofNames h]
  rcases hfront with hfront | hfront
  · rw [hfront]
  · rw [hfront, Tree.follow_append_stay (.inl rfl), Option.filter_filter]
    simp only [Bool.and_self]

variable {disk}

/-- What is found by no names at all is a folder. -/
theorem ne_nil_of_find?_append {root : Text} (hroot : root ≠ []) {names : List Text}
    (h : ∀ name ∈ names, IsName name) {content : Except Text Octets}
    (hfind : disk.find? (Path.append root (ofNames names)) = some (.file content)) :
    names ≠ [] := by
  rintro rfl
  rw [disk.find?_append hroot h] at hfind
  obtain ⟨tree, htree, hfile⟩ := Option.bind_eq_some_iff.mp hfind
  obtain rfl := Option.some.inj hfile
  exact Bool.false_ne_true (Option.filter_eq_some_iff.mp htree).2

theorem find?_rooted {n : Nat} (hpos : 0 < n) {names : List Text}
    (h : ∀ name ∈ names, IsName name) (hfolder : disk.tree.isFile = false) :
    disk.find? (rooted n names) = disk.tree.descend names := by
  have habsolute := isAbsolute_rooted hpos names
  rw [find?_of_ne_nil disk (ne_nil_of_isAbsolute habsolute), append_of_isAbsolute habsolute,
    segments_rooted,
    Tree.follow_slashes [] hfolder]
  by_cases hnames : names = []
  · have hslash : disk.tree.follow [] [[]] = some disk.tree := by
      rw [Tree.follow_cons, Tree.move_stay (.inl rfl), hfolder]
      rfl
    rw [hnames]
    exact hslash
  · rw [segments_names h hnames, Tree.follow_names h]

theorem isFile_of_find? {path : Text} {tree : Tree} (h : disk.find? path = some tree) :
    disk.tree.isFile = false := by
  rw [find?_of_ne_nil disk (ne_nil_of_find? h)] at h
  cases htree : disk.tree with
  | folder entries => rfl
  | file content =>
    obtain ⟨segment, segments, hsegments⟩ :=
      List.exists_cons_of_ne_nil (segments_ne_nil (Path.append disk.workdir path))
    rw [hsegments, htree, Tree.follow_file] at h
    cases h

/-- Without links, a path that leads somewhere leads there when it is made absolute. -/
theorem find?_absolute (hworkdir : isAbsolute disk.workdir = true) {path : Text} {tree : Tree}
    (h : disk.find? path = some tree) : disk.find? (disk.absolute path) = some tree := by
  have hfolder := isFile_of_find? h
  have hne := ne_nil_of_find? h
  have habsolute := isAbsolute_append_of_isAbsolute hworkdir path
  have hpos := rootSlashes_pos habsolute
  have hclimb : steps (Path.append disk.workdir path) =
      ((segments (Path.append disk.workdir path)).foldl (climb true) []).reverse := by
    rw [steps, bne_iff_ne.mpr hpos.ne']
  rw [find?_of_ne_nil disk hne] at h
  rw [absolute, Path.absolute, normalise_of_isAbsolute habsolute,
    find?_rooted hpos (isName_of_mem_steps habsolute) hfolder, hclimb]
  exact Tree.Reached.top.follow (fun s hs => slash_notMem_of_mem_segments hs) h

end Disk

end LiveTree.File
