import LiveTree.Proofs.File.Tree
import LiveTree.Web.Asset

namespace LiveTree

namespace Web.Asset

open File (Disk Tree)
open LiveTree.Path

theorem of_mem_extension {path : Text} {c : CodePoint} (h : c ∈ extension path) :
    c = CodePoint.ofChar '.' ∨ c ∈ path ∧ c ≠ slash := by
  simp only [extension] at h
  split at h
  · cases h
  · rcases List.mem_cons.mp h with hdot | hending
    · exact .inl hdot
    · obtain ⟨hpath, hslash⟩ := of_mem_cutLast (of_mem_cutLast hending).1
      exact .inr ⟨hpath, by simpa using hslash⟩

theorem slash_notMem_extension (path : Text) : slash ∉ extension path := by
  intro hslash
  rcases of_mem_extension hslash with hdot | ⟨-, hne⟩
  · exact absurd hdot (by decide)
  · exact hne rfl

theorem isName_indexName (path : Text) : IsName (indexName path) := by
  have hslash : slash ∉ trimLeft (· == CodePoint.ofChar '.') (extension path) :=
    fun h => slash_notMem_extension path ((List.dropWhile_sublist _).subset h)
  rw [indexName]
  cases hending : trimLeft (· == CodePoint.ofChar '.') (extension path) with
  | nil => decide
  | cons c ending =>
    refine ⟨?_, List.not_mem_append (by decide) (by rwa [← hending])⟩
    intro hdots
    have hlength : (Text.ofString "index." ++ (c :: ending)).length ≤ 2 := by
      simp only [List.mem_cons, List.not_mem_nil, or_false] at hdots
      rcases hdots with h | h | h <;> (rw [h]; decide)
    rw [List.length_append] at hlength
    have hindex : (Text.ofString "index.").length = 6 := rfl
    omega

theorem isAbsolute_trim (file : Text) : isAbsolute (trim (· == slash) file) = false := by
  have hhead : isAbsolute (trimLeft (· == slash) file) = false := by
    have h := List.head?_dropWhile_not (· == slash) file
    rw [trimLeft, isAbsolute]
    cases hc : (file.dropWhile (· == slash)).head? with
    | none => rfl
    | some c => simpa [hc] using h
  have hstart : trim (· == slash) file <+: trimLeft (· == slash) file := by
    rw [trim, trimRight, ← List.reverse_suffix, List.reverse_reverse]
    exact List.dropWhile_suffix _
  cases htrim : trim (· == slash) file with
  | nil => rfl
  | cons c rest =>
    rw [htrim] at hstart
    obtain ⟨more, hmore⟩ := hstart
    rwa [← hmore] at hhead

theorem trim_of_ends {s : Text} (hhead : isAbsolute s = false) (hlast : s.getLast? ≠ some slash) :
    trim (· == slash) s = s := by
  have hfirst : ∀ c ∈ s.head?, (c == slash) = false := by
    intro c hc
    rw [isAbsolute, Option.mem_def.mp hc] at hhead
    simpa using hhead
  have hend : ∀ c ∈ s.getLast?, (c == slash) = false := by
    intro c hc
    rw [Option.mem_def.mp hc] at hlast
    simpa using hlast
  have hnone : ∀ c ∈ ([] : Text), (c == slash) = true := by simp
  have h : trim (· == slash) ([] ++ (s ++ [])) = s := trim_padding hnone hnone hfirst hend
  rwa [List.nil_append, List.append_nil] at h

theorem getLast?_name {name : Text} (h : IsName name) (s : Text) :
    (s ++ name).getLast? ≠ some slash := by
  rw [List.getLast?_append_of_ne_nil s h.ne.1]
  exact fun hslash => h.2 (List.mem_of_getLast? hslash)

theorem trim_append_name {path name : Text} (hrelative : isAbsolute path = false)
    (hne : path ≠ []) (hname : IsName name) :
    trim (· == slash) (path ++ "/" ++ name) = path ++ "/" ++ name := by
  apply trim_of_ends
  · rwa [List.append_assoc, isAbsolute_append_of_ne_nil hne]
  · exact getLast?_name hname _

/-- What one look at a name comes to: an end, or the name that is looked at next. -/
inductive Look where
  | ended (result : Except File.Fault Asset)
  | next (name : Text)

/-- A look at a location, where `index` is to stand for a directory. -/
def lookAt (disk : Disk) (file location index : Text) : Look :=
  match disk.find? location with
  | none => .ended (.error (.noFile file))
  | some (.file content) => .ended (.ok ⟨location, content⟩)
  | some (.folder _) => .next index

/-- One look at a name. A directory is its index, whatever that is. -/
def look (disk : Disk) (root file : Text) : Look :=
  let path := trim (· == slash) file
  if path.isEmpty then lookAt disk file (disk.absolute root) (indexName path)
  else
    match below? root path with
    | none => .ended (.error (.outside file))
    | some location => lookAt disk file location (path ++ "/" ++ indexName path)

/-- Looks in turn, up to one that is the last. -/
inductive Resolves (disk : Disk) (root : Text) : Text → Except File.Fault Asset → Prop
  | ended {file : Text} {result : Except File.Fault Asset}
    (look_eq : look disk root file = .ended result) : Resolves disk root file result
  | next {file name : Text} {result : Except File.Fault Asset}
    (look_eq : look disk root file = .next name) (rest : Resolves disk root name result) :
    Resolves disk root file result

section Look

variable {disk : Disk} {root file : Text}

theorem Resolves.unique {result other : Except File.Fault Asset}
    (h : Resolves disk root file result) (hother : Resolves disk root file other) :
    result = other := by
  induction h with
  | ended look_eq =>
    cases hother with
    | ended other_eq => exact Look.ended.inj (look_eq.symm.trans other_eq)
    | next other_eq => cases look_eq.symm.trans other_eq
  | next look_eq _ ih =>
    cases hother with
    | ended other_eq => cases look_eq.symm.trans other_eq
    | next other_eq rest =>
      obtain rfl := Look.next.inj (look_eq.symm.trans other_eq)
      exact ih rest

theorem look_of_nil (htrim : trim (· == slash) file = []) :
    look disk root file = lookAt disk file (disk.absolute root) (indexName []) := by
  simp only [look, htrim, List.isEmpty_nil, if_true]

variable {path : Text} (htrim : trim (· == slash) file = path) (hne : path ≠ [])

include htrim hne

theorem look_of_none (hbelow : below? root path = none) :
    look disk root file = .ended (.error (.outside file)) := by
  have hpath : path.isEmpty = false := by simpa using hne
  simp only [look, htrim, hpath, hbelow, Bool.false_eq_true, if_false]

theorem look_of_some {location : Text} (hbelow : below? root path = some location) :
    look disk root file = lookAt disk file location (path ++ "/" ++ indexName path) := by
  have hpath : path.isEmpty = false := by simpa using hne
  simp only [look, htrim, hpath, hbelow, Bool.false_eq_true, if_false]

end Look

section Root

variable {disk : Disk} {root : Text} (hroot : root ≠ [])

include hroot

theorem find?_index {names : List Text} (hnames : ∀ name ∈ names, IsName name)
    {entries : List (Text × Tree)}
    (hfind : disk.find? (append root (ofNames names)) = some (.folder entries)) {name : Text}
    (hname : IsName name) :
    disk.find? (append root (ofNames (names ++ [name]))) = Association.find? name entries := by
  have hall : ∀ n ∈ names ++ [name], IsName n :=
    List.forall_mem_append.mpr ⟨hnames, List.forall_mem_singleton.mpr hname⟩
  rw [disk.find?_append hroot hnames] at hfind
  simp only [disk.find?_append hroot hall, Tree.descend_append, ← Option.bind_assoc, hfind]
  exact Option.bind_fun_some _

mutual

/-- What a name is known to lead to is looked at no more. -/
theorem resolves_ofTree : ∀ (tree : Tree) {file path : Text} {names : List Text},
    trim (· == slash) file = path → path ≠ [] → Inner path names →
    disk.find? (append root (ofNames names)) = some tree →
    Resolves disk root file (ofTree root path tree)
  | .file content, file, path, names, htrim, hne, hinner, hfind => by
    have hbelow := below?_of_inner hinner hne hroot
    apply Resolves.ended
    rw [look_of_some htrim hne hbelow, lookAt, hfind, ofTree, hbelow]
  | .folder entries, file, path, names, htrim, hne, hinner, hfind => by
    have hname := isName_indexName path
    have hbelow := below?_of_inner hinner hne hroot
    have hlook : look disk root file = .next (path ++ "/" ++ indexName path) := by
      rw [look_of_some htrim hne hbelow, lookAt, hfind]
    have hindex : (path ++ "/" ++ indexName path : Text) ≠ [] :=
      List.append_ne_nil_of_right_ne_nil _ hname.ne.1
    -- The index is an entry of the directory at hand, so the recursion is on the tree.
    rw [ofTree]
    apply Resolves.next hlook
    apply resolves_ofEntries entries (trim_append_name hinner.relative hne hname) hindex
      (hinner.append_name hne hname)
    exact find?_index hroot hinner.names hfind hname

/-- A name that leads to an entry stands for what the entry stands for. -/
theorem resolves_ofEntries : ∀ (entries : List (Text × Tree)) {path name : Text}
    {names : List Text}, trim (· == slash) path = path → path ≠ [] → Inner path names →
    disk.find? (append root (ofNames names)) = Association.find? name entries →
    Resolves disk root path (ofEntries root path name entries)
  | [], path, name, names, htrim, hne, hinner, hfind => by
    have hbelow := below?_of_inner hinner hne hroot
    apply Resolves.ended
    rw [look_of_some htrim hne hbelow, lookAt, hfind]
    rfl
  | (entry, tree) :: entries, path, name, names, htrim, hne, hinner, hfind => by
    rw [ofEntries]
    rw [Association.find?_cons] at hfind
    split
    · rename_i heq
      rw [if_pos (eq_of_beq heq)] at hfind
      exact resolves_ofTree tree htrim hne hinner hfind
    · rename_i hdiffers
      rw [if_neg (by simpa using hdiffers)] at hfind
      exact resolves_ofEntries entries htrim hne hinner hfind

end

theorem resolves_lookup {file path : Text} (htrim : trim (· == slash) file = path)
    (hne : path ≠ []) : Resolves disk root file (lookup disk root file path) := by
  rw [lookup]
  cases hbelow : below? root path with
  | none => exact .ended (look_of_none htrim hne hbelow)
  | some location =>
    obtain ⟨names, hinner, rfl⟩ := exists_inner_of_below? hroot hne hbelow
    cases hfind : disk.find? (append root (ofNames names)) with
    | none =>
      simp only [hfind]
      apply Resolves.ended
      rw [look_of_some htrim hne hbelow, lookAt, hfind]
    | some tree =>
      simp only [hfind]
      exact resolves_ofTree hroot tree htrim hne hinner hfind

theorem resolves_resolve (disk : Disk) (file : Text) :
    Resolves disk root file (resolve disk root file) := by
  rw [resolve]
  cases htrim : trim (· == slash) file with
  | cons c path =>
    exact resolves_lookup hroot htrim (List.cons_ne_nil c path)
  | nil =>
    have hlook : look disk root file = _ := look_of_nil htrim
    rw [lookAt] at hlook
    have hindex : trim (· == slash) (indexName []) = indexName [] := by decide
    cases hfind : disk.find? (disk.absolute root) with
    | none => exact .ended (by rw [hlook, hfind])
    | some tree =>
      rw [hfind] at hlook
      cases tree with
      | file content => exact .ended hlook
      | folder entries =>
        exact .next hlook (resolves_lookup hroot hindex (isName_indexName []).ne.1)

/-- What a request may end in: a fault that is not found, a file below the root, or the file that
is in the place of the root where nothing but that is asked for. -/
def Allowed (disk : Disk) (root file : Text) : Except File.Fault Asset → Prop
  | .error fault => fault.status = 404
  | .ok asset =>
    disk.find? asset.location = some (.file asset.content) ∧
      (Below root asset.location ∨
        trim (· == slash) file = [] ∧ asset.location = disk.absolute root)

omit hroot in
theorem lookAt_ended {file location index : Text} {result : Except File.Fault Asset}
    (h : lookAt disk file location index = .ended result) :
    result = .error (.noFile file) ∨
      ∃ content, result = .ok ⟨location, content⟩ ∧ disk.find? location = some (.file content) := by
  rw [lookAt] at h
  cases hfind : disk.find? location with
  | none =>
    rw [hfind] at h
    exact .inl (Look.ended.inj h).symm
  | some tree =>
    rw [hfind] at h
    cases tree with
    | file content => exact .inr ⟨content, (Look.ended.inj h).symm, rfl⟩
    | folder entries => cases h

theorem allowed_of_look {file : Text} {result : Except File.Fault Asset}
    (h : look disk root file = .ended result) : Allowed disk root file result := by
  by_cases hne : trim (· == slash) file = []
  · rw [look_of_nil hne] at h
    obtain rfl | ⟨content, rfl, hfind⟩ := lookAt_ended h
    · rfl
    · exact ⟨hfind, .inr ⟨hne, rfl⟩⟩
  · cases hbelow : below? root (trim (· == slash) file) with
    | none =>
      rw [look_of_none rfl hne hbelow] at h
      obtain rfl := Look.ended.inj h
      rfl
    | some location =>
      obtain ⟨names, hinner, rfl⟩ := exists_inner_of_below? hroot hne hbelow
      rw [look_of_some rfl hne hbelow] at h
      obtain rfl | ⟨content, rfl, hfind⟩ := lookAt_ended h
      · rfl
      · have hnames := File.Disk.ne_nil_of_find?_append hroot hinner.names hfind
        exact ⟨hfind, .inl (below_of_names root hinner.names hnames)⟩

omit hroot in
theorem lookAt_next {file location index name : Text}
    (h : lookAt disk file location index = .next name) : name = index := by
  rw [lookAt] at h
  split at h
  · cases h
  · cases h
  · exact (Look.next.inj h).symm

omit hroot in
/-- After the first look there is a name. -/
theorem trim_of_next {file name : Text} (h : look disk root file = .next name) :
    trim (· == slash) name ≠ [] := by
  by_cases hne : trim (· == slash) file = []
  · rw [look_of_nil hne] at h
    obtain rfl := lookAt_next h
    decide
  · cases hbelow : below? root (trim (· == slash) file) with
    | none =>
      rw [look_of_none rfl hne hbelow] at h
      cases h
    | some location =>
      rw [look_of_some rfl hne hbelow] at h
      have hname := isName_indexName (trim (· == slash) file)
      rw [lookAt_next h, trim_append_name (isAbsolute_trim file) hne hname]
      exact List.append_ne_nil_of_right_ne_nil _ hname.ne.1

theorem Resolves.allowed {file : Text} {result : Except File.Fault Asset}
    (h : Resolves disk root file result) : Allowed disk root file result := by
  induction h with
  | ended look_eq => exact allowed_of_look hroot look_eq
  | next look_eq _ ih =>
    rename_i file name result _
    cases result with
    | error fault => exact ih
    | ok asset =>
      obtain ⟨hfind, hbelow | ⟨htrim, -⟩⟩ := ih
      · exact ⟨hfind, .inl hbelow⟩
      · exact absurd htrim (trim_of_next look_eq)

end Root

theorem lookup_congr (disk : Disk) (root path file other : Text) :
    (lookup disk root file path).toOption = (lookup disk root other path).toOption := by
  rw [lookup, lookup]
  cases below? root path with
  | none => rfl
  | some location =>
    rcases hfind : disk.find? location with _ | tree
    · simp only [hfind]
      rfl
    · simp only [hfind]

theorem resolve_congr (disk : Disk) (root : Text) {file other : Text}
    (h : trim (· == slash) file = trim (· == slash) other) :
    (resolve disk root file).toOption = (resolve disk root other).toOption := by
  rw [resolve, resolve, h]
  cases trim (· == slash) other with
  | cons c path => exact lookup_congr disk root (c :: path) file other
  | nil =>
    rcases disk.find? (disk.absolute root) with _ | ⟨content⟩ | ⟨entries⟩
    · rfl
    · rfl
    · rfl

/-- A request ends, however many directories are indexes of one another: looking in turn comes to
what is resolved and to nothing else. That is a fault that is not found, or a file whose location
is the root and a normal path below it. Only where a request is nothing but slashes, it is what is
in the place of the root, if that is a file. Slashes around a request make no difference. -/
theorem resolve_confined (disk : Disk) {root : Text} (hroot : root ≠ []) (file : Text) :
    (∀ result, Resolves disk root file result ↔ result = resolve disk root file) ∧
      Allowed disk root file (resolve disk root file) ∧
      ∀ m n, (resolve disk root
        (List.replicate m slash ++ file ++ List.replicate n slash)).toOption =
          (resolve disk root file).toOption := by
  have hresolves : Resolves disk root file (resolve disk root file) :=
    resolves_resolve hroot disk file
  refine ⟨fun result => ⟨?_, ?_⟩, hresolves.allowed hroot, ?_⟩
  · exact fun h => h.unique hresolves
  · rintro rfl
    exact hresolves
  · intro m n
    have hslashes (k : Nat) : ∀ c ∈ List.replicate k slash, (c == slash) = true := by
      intro c hc
      rw [List.eq_of_mem_replicate hc]
      exact beq_self_eq_true slash
    exact resolve_congr disk root (trim_append (hslashes m) (hslashes n) file)

/-- Directories that are called like indexes, one in another. -/
def nestedIndexes : Disk where
  tree := .folder [("site.x", .folder [("index.x", .folder [("index.x", .file (.ok [0x78]))])])]
  workdir := "/"

theorem resolve_confined_nested :
    let asset : Asset := ⟨"/site.x/index.x/index.x", .ok [0x78]⟩
    ("/" : Text) ≠ [] ∧ Resolves nestedIndexes "/" "/site.x//" (.ok asset) ∧
      nestedIndexes.find? asset.location = some (.file asset.content) ∧
      (resolve nestedIndexes "/" "site.x").toOption = some asset := by
  intro asset
  have hroot : ("/" : Text) ≠ [] := by decide
  have hresolve : resolve nestedIndexes "/" "/site.x//" = .ok asset := rfl
  obtain ⟨hresolves, hallowed, -⟩ := resolve_confined nestedIndexes hroot "/site.x//"
  obtain ⟨-, -, hslashes⟩ := resolve_confined nestedIndexes hroot "site.x"
  rw [hresolve] at hresolves hallowed
  refine ⟨hroot, (hresolves _).mpr rfl, hallowed.1, ?_⟩
  rw [← hslashes 1 2]
  exact congrArg Except.toOption hresolve

/-- A root that leads nowhere, in the place of a file. -/
theorem resolve_not_below :
    let disk : Disk := ⟨.folder [("f.txt", .file (.ok []))], "/"⟩
    let root : Text := "missing/../f.txt"
    root ≠ [] ∧ disk.isFile root = false ∧
      ∃ asset, resolve disk root [] = .ok asset ∧ ¬Below root asset.location := by
  intro disk root
  have hroot : root ≠ [] := by decide
  refine ⟨hroot, by decide, ⟨"/f.txt", .ok []⟩, rfl, ?_⟩
  rintro ⟨path, hlocation, -, hrelative, -⟩
  have habsolute := congrArg isAbsolute hlocation
  rw [isAbsolute_append hroot hrelative] at habsolute
  exact absurd habsolute (by decide)

end Web.Asset

end LiveTree
