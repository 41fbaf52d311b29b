import LiveTree.File.Listing
import LiveTree.Proofs.File.Tree
import LiveTree.Proofs.Text.Order
import Mathlib.Data.List.Nodup

namespace LiveTree.File

open LiveTree.Path

namespace Tree

mutual

/-- The folders of a tree have entries of different names. -/
def Proper : Tree → Prop
  | file _ => True
  | folder entries => (entries.map Prod.fst).Nodup ∧ ProperEntries entries

/-- Entries have names that a system gives, and are proper themselves. -/
def ProperEntries : List (Text × Tree) → Prop
  | [] => True
  | (name, tree) :: entries => IsName name ∧ Proper tree ∧ ProperEntries entries

end

mutual

/-- The names on the way to each file of a tree. -/
def trails : Tree → List (List Text)
  | file _ => [[]]
  | folder entries => entryTrails entries

def entryTrails : List (Text × Tree) → List (List Text)
  | [] => []
  | (name, tree) :: entries => (trails tree).map (name :: ·) ++ entryTrails entries

end

theorem exists_of_mem_entryTrails {names : List Text} {entries : List (Text × Tree)}
    (h : names ∈ entryTrails entries) :
    ∃ name rest, names = name :: rest ∧ name ∈ entries.map Prod.fst := by
  induction entries with
  | nil => cases h
  | cons entry entries ih =>
    obtain ⟨name, tree⟩ := entry
    rw [entryTrails, List.mem_append] at h
    rcases h with h | h
    · obtain ⟨rest, -, rfl⟩ := List.mem_map.mp h
      exact ⟨name, rest, rfl, List.mem_cons_self⟩
    · obtain ⟨name', rest, rfl, hmem⟩ := ih h
      exact ⟨name', rest, rfl, List.mem_cons_of_mem _ hmem⟩

mutual

/-- A path is the names on the way, a slash before each. -/
theorem paths_eq (path : Text) : ∀ tree : Tree,
    paths path tree = (trails tree).map fun names => path ++ names.flatMap (slash :: ·)
  | file content => by simp [paths, trails]
  | folder entries => by
    rw [paths, entryPaths_eq (path ++ "/") entries, trails]
    apply List.map_congr_left
    intro names hnames
    obtain ⟨name, rest, rfl, -⟩ := exists_of_mem_entryTrails hnames
    rw [ofSegments_cons, List.flatMap_cons, List.append_assoc]
    rfl

theorem entryPaths_eq (lead : Text) : ∀ entries : List (Text × Tree),
    entryPaths lead entries = (entryTrails entries).map (lead ++ ofSegments ·)
  | [] => rfl
  | (name, tree) :: entries => by
    rw [entryPaths, paths_eq (lead ++ name) tree, entryPaths_eq lead entries, entryTrails,
      List.map_append, List.map_map]
    congr 1
    apply List.map_congr_left
    intro names _
    simp only [Function.comp_apply, ofSegments_cons, List.append_assoc]

end

theorem files_eq (tree : Tree) :
    tree.files = if tree.isFile then [] else (trails tree).map ofSegments := by
  cases tree with
  | file content => rfl
  | folder entries => exact entryPaths_eq [] entries

mutual

theorem mem_trails {names : List Text} : ∀ {tree : Tree}, tree.Proper →
    (names ∈ trails tree ↔ (tree.descend names).any isFile = true)
  | file content, _ => by
    cases names with
    | nil => simp [trails, descend, isFile]
    | cons name names => simp [trails, descend, entry?]
  | folder entries, h => by
    cases names with
    | nil =>
      have hnil : [] ∉ entryTrails entries := by
        intro hmem
        obtain ⟨name, rest, hcons, -⟩ := exists_of_mem_entryTrails hmem
        cases hcons
      simpa [trails, descend, isFile] using hnil
    | cons name names => exact mem_entryTrails h.1 h.2

theorem mem_entryTrails {name : Text} {names : List Text} : ∀ {entries : List (Text × Tree)},
    (entries.map Prod.fst).Nodup → ProperEntries entries →
    (name :: names ∈ entryTrails entries ↔
      ((Association.find? name entries).bind (·.descend names)).any isFile = true)
  | [], _, _ => by simp [entryTrails]
  | (other, tree) :: entries, distinct, h => by
    obtain ⟨hfresh, hrest⟩ := List.nodup_cons.mp distinct
    rw [entryTrails, List.mem_append, Association.find?_cons]
    by_cases hname : other = name
    · -- No other entry has the name, so the way is through this one.
      have hnot : name :: names ∉ entryTrails entries := by
        intro hmem
        obtain ⟨name', rest, hcons, hkey⟩ := exists_of_mem_entryTrails hmem
        rw [← (List.cons.inj hcons).1, ← hname] at hkey
        exact hfresh hkey
      have hhere : name :: names ∈ (trails tree).map (other :: ·) ↔ names ∈ trails tree := by
        simp [hname]
      rw [or_iff_left hnot, hhere, if_pos hname, mem_trails h.2.1]
      rfl
    · have hnot : name :: names ∉ (trails tree).map (other :: ·) := by
        simp [hname]
      rw [or_iff_right hnot, if_neg hname]
      exact mem_entryTrails hrest h.2.2

end

mutual

theorem nodup_trails : ∀ {tree : Tree}, tree.Proper → (trails tree).Nodup
  | file _, _ => List.nodup_singleton []
  | folder _, h => nodup_entryTrails h.1 h.2

theorem nodup_entryTrails : ∀ {entries : List (Text × Tree)},
    (entries.map Prod.fst).Nodup → ProperEntries entries → (entryTrails entries).Nodup
  | [], _, _ => List.nodup_nil
  | (name, tree) :: entries, distinct, h => by
    obtain ⟨hfresh, hrest⟩ := List.nodup_cons.mp distinct
    rw [entryTrails, List.nodup_append]
    refine ⟨List.Nodup.map List.cons_injective (nodup_trails h.2.1),
      nodup_entryTrails hrest h.2.2, ?_⟩
    rintro trail hhere other hthere rfl
    obtain ⟨names, -, rfl⟩ := List.mem_map.mp hhere
    obtain ⟨name', rest, hcons, hkey⟩ := exists_of_mem_entryTrails hthere
    rw [← (List.cons.inj hcons).1] at hkey
    exact hfresh hkey

end

mutual

theorem isName_of_mem_trails : ∀ {tree : Tree}, tree.Proper → ∀ names ∈ trails tree,
    ∀ name ∈ names, IsName name
  | file content, _ => by simp [trails]
  | folder entries, h => isName_of_mem_entryTrails h.2

theorem isName_of_mem_entryTrails : ∀ {entries : List (Text × Tree)}, ProperEntries entries →
    ∀ names ∈ entryTrails entries, ∀ name ∈ names, IsName name
  | [], _ => nofun
  | (name, tree) :: entries, h => by
    intro names hnames
    rw [entryTrails, List.mem_append] at hnames
    rcases hnames with hhere | hthere
    · obtain ⟨rest, hrest, rfl⟩ := List.mem_map.mp hhere
      exact List.forall_mem_cons.mpr ⟨h.1, isName_of_mem_trails h.2.1 rest hrest⟩
    · exact isName_of_mem_entryTrails h.2.2 names hthere

end

theorem proper_of_mem {entries : List (Text × Tree)} (h : ProperEntries entries)
    {entry : Text × Tree} (hmem : entry ∈ entries) : entry.2.Proper := by
  induction entries with
  | nil => cases hmem
  | cons first entries ih =>
    obtain ⟨name, tree⟩ := first
    rcases List.mem_cons.mp hmem with rfl | hmem
    · exact h.2.1
    · exact ih h.2.2 hmem

theorem proper_of_entry {tree below : Tree} (h : tree.Proper) {name : Text}
    (hentry : tree.entry? name = some below) : below.Proper := by
  cases tree with
  | file content => cases hentry
  | folder entries => exact proper_of_mem h.2 (Association.mem_of_find? hentry)

theorem proper_of_follow {above : List Tree} {here tree : Tree} (habove : ∀ t ∈ above, t.Proper)
    (hhere : here.Proper) {segments : List Text} (h : follow above here segments = some tree) :
    tree.Proper := by
  induction segments generalizing above here with
  | nil =>
    obtain rfl := Option.some.inj h
    exact hhere
  | cons segment segments ih =>
    rw [follow_cons] at h
    obtain ⟨place, hmove, hplace⟩ := Option.bind_eq_some_iff.mp h
    obtain rfl | rfl | ⟨below, hentry, rfl⟩ := move_cases hmove
    · exact ih habove hhere hplace
    · refine ih (fun t ht => habove t (List.mem_of_mem_tail ht)) ?_ hplace
      cases above with
      | nil => exact hhere
      | cons parent above => exact habove parent List.mem_cons_self
    · exact ih (List.forall_mem_cons.mpr ⟨hhere, habove⟩) (proper_of_entry hhere hentry) hplace

theorem segments_of_mem_trails {entries : List (Text × Tree)} (h : (folder entries).Proper)
    {names : List Text} (hmem : names ∈ trails (folder entries)) :
    segments (ofSegments names) = names := by
  obtain ⟨name, rest, rfl, -⟩ := exists_of_mem_entryTrails hmem
  exact segments_names (isName_of_mem_trails h _ hmem) (List.cons_ne_nil name rest)

theorem nodup_files {tree : Tree} (h : tree.Proper) : tree.files.Nodup := by
  cases tree with
  | file content => exact List.nodup_nil
  | folder entries =>
    rw [files_eq]
    apply List.Nodup.map_on _ (nodup_trails h)
    intro names hnames others hothers heq
    rw [← segments_of_mem_trails h hnames, heq, segments_of_mem_trails h hothers]

/-- A path is listed if its segments are the names on the way to a file. -/
theorem mem_files {entries : List (Text × Tree)} (h : (folder entries).Proper) {p : Text} :
    p ∈ (folder entries).files ↔ (∀ segment ∈ segments p, IsName segment) ∧
      ((folder entries).descend (segments p)).any isFile = true := by
  rw [files_eq]
  constructor
  · intro hmem
    obtain ⟨names, hnames, rfl⟩ := List.mem_map.mp hmem
    rw [segments_of_mem_trails h hnames]
    exact ⟨isName_of_mem_trails h names hnames, (mem_trails h).mp hnames⟩
  · rintro ⟨-, hfile⟩
    exact List.mem_map.mpr ⟨segments p, (mem_trails h).mpr hfile, List.intercalate_splitOn slash⟩

end Tree

namespace Disk

variable {disk : Disk}

/-- What leads from a folder to an entry of an entry, and so on, leads there from its path. -/
theorem find?_append_segments {root : Text} {entries : List (Text × Tree)}
    (hroot : disk.find? root = some (.folder entries)) {p : Text}
    (h : ∀ segment ∈ segments p, IsName segment) :
    disk.find? (Path.append root p) = (Tree.folder entries).descend (segments p) := by
  have hfind := disk.find?_append (ne_nil_of_find? hroot) h
  rw [ofNames_segments, hroot] at hfind
  exact hfind

theorem proper_of_find? (hproper : disk.tree.Proper) {path : Text} {tree : Tree}
    (h : disk.find? path = some tree) : tree.Proper := by
  rw [find?_of_ne_nil disk (ne_nil_of_find? h)] at h
  exact Tree.proper_of_follow (by simp) hproper h

/-- The paths that are listed of a folder are strictly increasing. Their segments are names, they
lead to files from there, and there are no others. -/
theorem exists_list (hproper : disk.tree.Proper) {root : Text} {entries : List (Text × Tree)}
    (hroot : disk.find? root = some (.folder entries)) :
    ∃ files, disk.list root = .ok files ∧
      files.Pairwise (fun p q => Text.le p q = true ∧ p ≠ q) ∧
      ∀ p, p ∈ files ↔
        (∀ segment ∈ segments p, IsName segment) ∧ disk.isFile (Path.append root p) = true := by
  have hfolder := proper_of_find? hproper hroot
  refine ⟨Text.sort (Tree.folder entries).files, by rw [list, hroot],
    Text.sort_increasing (Tree.nodup_files hfolder), fun p => ?_⟩
  rw [Text.mem_sort, Tree.mem_files hfolder]
  apply and_congr_right
  intro hnames
  rw [isFile, find?_append_segments hroot hnames]

end Disk

end LiveTree.File
