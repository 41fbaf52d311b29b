import LiveTree.File.Path
import LiveTree.Proofs.Text.Blank
import LiveTree.Proofs.Text.Cut
import Mathlib.Data.List.Basic

namespace LiveTree.Path

/-- A name that an entry of a folder can have. -/
def IsName (name : Text) : Prop := name ∉ ([[], ".", ".."] : List Text) ∧ slash ∉ name

instance : DecidablePred IsName := fun name =>
  inferInstanceAs (Decidable (name ∉ ([[], ".", ".."] : List Text) ∧ slash ∉ name))

theorem IsName.ne {name : Text} (h : IsName name) : name ≠ [] ∧ name ≠ "." ∧ name ≠ ".." := by
  simpa [IsName, not_or] using h.1

/-- What a segment can be. -/
theorem isName_or {segment : Text} (h : slash ∉ segment) :
    IsName segment ∨ (segment = [] ∨ segment = ".") ∨ segment = ".." := by
  by_contra hnot
  simp only [not_or] at hnot
  exact hnot.1 ⟨by simp [hnot.2], h⟩

theorem isAbsolute_append_of_ne_nil {path : Text} (hne : path ≠ []) (s : Text) :
    isAbsolute (path ++ s) = isAbsolute path := by
  obtain ⟨c, rest, rfl⟩ := List.exists_cons_of_ne_nil hne
  rfl

theorem ne_nil_of_isAbsolute {path : Text} (h : isAbsolute path = true) : path ≠ [] := by
  rintro rfl
  cases h

theorem segments_ne_nil (path : Text) : segments path ≠ [] := List.splitOn_ne_nil slash path

theorem segments_of_notMem {s : Text} (h : slash ∉ s) : segments s = [s] :=
  List.splitOn_eq_singleton h

theorem segments_append_slash (s t : Text) :
    segments (s ++ slash :: t) = segments s ++ segments t :=
  List.splitOn_append_cons_self s t

theorem slash_notMem_of_mem_segments {s path : Text} (h : s ∈ segments path) : slash ∉ s := by
  induction path using piecewise_induction slash with
  | last t ht =>
    rw [segments_of_notMem ht, List.mem_singleton] at h
    rwa [h]
  | piece t u ht ih =>
    rw [segments_append_slash, segments_of_notMem ht, List.singleton_append, List.mem_cons] at h
    rcases h with rfl | h
    · exact ht
    · exact ih h

@[simp] theorem ofSegments_nil : ofSegments [] = [] := rfl

@[simp] theorem ofSegments_singleton (s : Text) : ofSegments [s] = s := List.intercalate_singleton

theorem ofSegments_cons (s : Text) (rest : List Text) :
    ofSegments (s :: rest) = s ++ rest.flatMap (slash :: ·) := by
  induction rest generalizing s with
  | nil => simp
  | cons t rest ih =>
    have hjoin : ofSegments (s :: t :: rest) = s ++ [slash] ++ ofSegments (t :: rest) :=
      List.intercalate_cons_cons
    rw [hjoin, ih, List.flatMap_cons]
    simp

theorem ofSegments_append {s t : List Text} (hs : s ≠ []) (ht : t ≠ []) :
    ofSegments (s ++ t) = ofSegments s ++ slash :: ofSegments t := by
  obtain ⟨a, s, rfl⟩ := List.exists_cons_of_ne_nil hs
  obtain ⟨b, t, rfl⟩ := List.exists_cons_of_ne_nil ht
  rw [List.cons_append, ofSegments_cons, ofSegments_cons, ofSegments_cons, List.flatMap_append,
    List.flatMap_cons]
  simp

theorem ofSegments_ne_nil {segments : List Text} (hne : segments ≠ [])
    (h : ∀ segment ∈ segments, segment ≠ []) : ofSegments segments ≠ [] := by
  obtain ⟨s, rest, rfl⟩ := List.exists_cons_of_ne_nil hne
  rw [ofSegments_cons]
  exact List.append_ne_nil_of_left_ne_nil (h s List.mem_cons_self) _

section Names

variable {names : List Text} (h : ∀ name ∈ names, IsName name)

include h

theorem isAbsolute_ofSegments : isAbsolute (ofSegments names) = false := by
  cases names with
  | nil => rfl
  | cons name names =>
    have hname := h name List.mem_cons_self
    obtain ⟨c, rest, rfl⟩ := List.exists_cons_of_ne_nil hname.ne.1
    have hc : c ≠ slash := fun hc => hname.2 (hc ▸ List.mem_cons_self)
    rw [ofSegments_cons]
    simpa [isAbsolute] using hc

theorem getLast?_ofSegments : (ofSegments names).getLast? ≠ some slash := by
  rcases names.eq_nil_or_concat with rfl | ⟨front, name, rfl⟩
  · exact nofun
  · have hname := h name (by simp)
    have hlast : (ofSegments (front ++ [name])).getLast? = name.getLast? := by
      by_cases hfront : front = []
      · rw [hfront, List.nil_append, ofSegments_singleton]
      · rw [ofSegments_append hfront (List.cons_ne_nil _ _), ofSegments_singleton,
          List.append_cons]
        exact List.getLast?_append_of_ne_nil _ hname.ne.1
    rw [List.concat_eq_append, hlast]
    intro hslash
    exact hname.2 (List.mem_of_getLast? hslash)

theorem segments_names (hne : names ≠ []) : segments (ofSegments names) = names :=
  List.splitOn_intercalate slash (fun name hname => (h name hname).2) hne

end Names

@[simp] theorem climb_nil (absolute : Bool) (above : List Text) : climb absolute above [] = above :=
  rfl

theorem climb_name (absolute : Bool) (above : List Text) {name : Text} (h : IsName name) :
    climb absolute above name = name :: above := by
  obtain ⟨hnil, hhere, hup⟩ := h.ne
  simp [climb, hnil, hhere, hup]

theorem climb_up_name (absolute : Bool) (above : List Text) {name : Text} (h : IsName name) :
    climb absolute (name :: above) ".." = above := by
  have hup : (name == ("..": Text)) = false := beq_false_of_ne h.ne.2.2
  change (if name == (".." : Text) then _ else above) = above
  rw [hup]
  rfl

theorem foldl_climb_names (absolute : Bool) (above : List Text) {names : List Text}
    (h : ∀ name ∈ names, IsName name) :
    names.foldl (climb absolute) above = names.reverse ++ above := by
  induction names generalizing above with
  | nil => rfl
  | cons name names ih =>
    rw [List.forall_mem_cons] at h
    rw [List.foldl_cons, climb_name absolute above h.1, ih _ h.2]
    simp

theorem foldl_climb_replicate (absolute : Bool) (above : List Text) (n : Nat) :
    (List.replicate n []).foldl (climb absolute) above = above := by
  induction n with
  | zero => rfl
  | succ n ih => rwa [List.replicate_succ, List.foldl_cons, climb_nil]

/-- What the segments of a path come to, the last first: names, and beyond them the steps up that
no name was left for. There is no way up from a root. -/
def Climbed (absolute : Bool) (above : List Text) : Prop :=
  ∃ names ups, above = names ++ List.replicate ups (Text.ofString "..") ∧
    (∀ name ∈ names, IsName name) ∧ (absolute = true → ups = 0)

theorem climbed_nil (absolute : Bool) : Climbed absolute [] := ⟨[], 0, rfl, nofun, fun _ => rfl⟩

theorem Climbed.climb {absolute : Bool} {above : List Text} (h : Climbed absolute above)
    {segment : Text} (hsegment : slash ∉ segment) :
    Climbed absolute (climb absolute above segment) := by
  obtain ⟨names, ups, rfl, hnames, hups⟩ := h
  rcases isName_or hsegment with hname | (rfl | rfl) | rfl
  · rw [climb_name _ _ hname]
    exact ⟨segment :: names, ups, rfl, List.forall_mem_cons.mpr ⟨hname, hnames⟩, hups⟩
  · exact ⟨names, ups, rfl, hnames, hups⟩
  · exact ⟨names, ups, rfl, hnames, hups⟩
  · cases names with
    | cons name names =>
      rw [List.forall_mem_cons] at hnames
      rw [List.cons_append, climb_up_name absolute _ hnames.1]
      exact ⟨names, ups, rfl, hnames.2, hups⟩
    | nil =>
      cases ups with
      | succ ups =>
        refine ⟨[], ups + 2, rfl, hnames, fun h => ?_⟩
        exact absurd (hups h) (Nat.succ_ne_zero ups)
      | zero =>
        cases absolute with
        | true => exact ⟨[], 0, rfl, hnames, hups⟩
        | false => exact ⟨[], 1, rfl, hnames, nofun⟩

theorem climbed_foldl {absolute : Bool} {above segments : List Text} (h : Climbed absolute above)
    (hsegments : ∀ segment ∈ segments, slash ∉ segment) :
    Climbed absolute (segments.foldl (Path.climb absolute) above) := by
  induction segments generalizing above with
  | nil => exact h
  | cons segment segments ih =>
    rw [List.forall_mem_cons] at hsegments
    exact ih (h.climb hsegments.1) hsegments.2

theorem takeWhile_slashes (n : Nat) {s : Text} (h : isAbsolute s = false) :
    (List.replicate n slash ++ s).takeWhile (· == slash) = List.replicate n slash := by
  induction n with
  | zero =>
    cases s with
    | nil => rfl
    | cons c s =>
      have hc : (c == slash) = false := by simpa [isAbsolute] using h
      exact List.takeWhile_cons_of_neg (by simp [hc])
  | succ n ih =>
    rw [List.replicate_succ, List.cons_append, List.takeWhile_cons, beq_self_eq_true,
      if_pos rfl, ih]

theorem exists_slashes (path : Text) :
    ∃ n s, path = List.replicate n slash ++ s ∧ isAbsolute s = false := by
  induction path with
  | nil => exact ⟨0, [], rfl, rfl⟩
  | cons c path ih =>
    by_cases hc : c = slash
    · obtain ⟨n, s, rfl, hs⟩ := ih
      exact ⟨n + 1, s, by rw [hc]; rfl, hs⟩
    · exact ⟨0, c :: path, rfl, by simpa [isAbsolute] using hc⟩

theorem rootSlashes_replicate {n : Nat} (hn : n ≤ 2) {s : Text} (h : isAbsolute s = false) :
    rootSlashes (List.replicate n slash ++ s) = n := by
  rw [rootSlashes, takeWhile_slashes n h, List.length_replicate]
  match n, hn with
  | 0, _ => rfl
  | 1, _ => rfl
  | 2, _ => rfl

theorem rootSlashes_le (path : Text) : rootSlashes path ≤ 2 := by
  unfold rootSlashes
  split
  · omega
  · omega
  · omega

theorem rootSlashes_eq_zero {path : Text} : rootSlashes path = 0 ↔ isAbsolute path = false := by
  obtain ⟨n, s, rfl, hs⟩ := exists_slashes path
  rw [rootSlashes, takeWhile_slashes n hs, List.length_replicate]
  match n with
  | 0 => simpa using hs
  | 1 => simp [isAbsolute]
  | 2 => simp [isAbsolute, List.replicate]
  | n + 3 => simp [isAbsolute, List.replicate_succ]

/-- What normalisation leaves of the segments of a path. -/
def steps (path : Text) : List Text :=
  ((segments path).foldl (climb (rootSlashes path != 0)) []).reverse

theorem climbed_steps (path : Text) : Climbed (rootSlashes path != 0) (steps path).reverse := by
  rw [steps, List.reverse_reverse]
  exact climbed_foldl (climbed_nil _) fun s hs => slash_notMem_of_mem_segments hs

/-- A path is normal as the steps up from where it starts, and the names after them. -/
theorem exists_steps (path : Text) :
    ∃ ups names, steps path = List.replicate ups (Text.ofString "..") ++ names ∧
      (∀ name ∈ names, IsName name) ∧ (isAbsolute path = true → ups = 0) := by
  obtain ⟨names, ups, hsteps, hnames, hups⟩ := climbed_steps path
  refine ⟨ups, names.reverse, ?_, ?_, ?_⟩
  · rw [← List.reverse_reverse (steps path), hsteps, List.reverse_append, List.reverse_replicate]
  · exact fun name hname => hnames name (List.mem_reverse.mp hname)
  · intro habsolute
    apply hups
    have hne : rootSlashes path ≠ 0 := by simp [rootSlashes_eq_zero, habsolute]
    simpa using hne

theorem steps_ne_nil {path : Text} : ∀ step ∈ steps path, step ≠ [] := by
  obtain ⟨ups, names, hsteps, hnames, -⟩ := exists_steps path
  intro step hstep
  rw [hsteps, List.mem_append] at hstep
  rcases hstep with hup | hname
  · rw [List.eq_of_mem_replicate hup]
    decide
  · exact (hnames step hname).ne.1

/-- A relative path of names; that of no names is a dot. -/
def ofNames (names : List Text) : Text := if names = [] then "." else ofSegments names

theorem ofNames_segments (path : Text) : ofNames (segments path) = path := by
  rw [ofNames, if_neg (segments_ne_nil path)]
  exact List.intercalate_splitOn slash

/-- An absolute path of names. -/
def rooted (slashes : Nat) (names : List Text) : Text :=
  List.replicate slashes slash ++ ofSegments names

theorem normalise_eq (path : Text) :
    normalise path =
      if (rooted (rootSlashes path) (steps path)).isEmpty then Text.ofString "."
      else rooted (rootSlashes path) (steps path) := rfl

theorem normalise_ne_nil (path : Text) : normalise path ≠ [] := by
  rw [normalise_eq]
  split
  · decide
  · rename_i hne
    exact mt List.isEmpty_iff.mpr hne

theorem normalise_of_isAbsolute {path : Text} (h : isAbsolute path = true) :
    normalise path = rooted (rootSlashes path) (steps path) := by
  have hslashes : rootSlashes path ≠ 0 := by simp [rootSlashes_eq_zero, h]
  have hne : (rooted (rootSlashes path) (steps path)).isEmpty = false := by
    simp [rooted, hslashes]
  rw [normalise_eq, hne]
  rfl

theorem normalise_of_not_isAbsolute {path : Text} (h : isAbsolute path = false) :
    normalise path = ofNames (steps path) := by
  rw [normalise_eq, rootSlashes_eq_zero.mpr h, rooted, List.replicate_zero, List.nil_append,
    ofNames]
  by_cases hsteps : steps path = []
  · rw [hsteps]
    rfl
  · have hne := ofSegments_ne_nil hsteps steps_ne_nil
    rw [if_neg hsteps, if_neg (by simpa using hne)]

section Names

variable {names : List Text} (h : ∀ name ∈ names, IsName name)

include h

theorem ofNames_ne_nil : ofNames names ≠ [] := by
  unfold ofNames
  split
  · decide
  · rename_i hne
    exact ofSegments_ne_nil hne fun name hname => (h name hname).ne.1

theorem segments_ofNames (hne : names ≠ []) : segments (ofNames names) = names := by
  rw [ofNames, if_neg hne, segments_names h hne]

theorem steps_ofNames : steps (ofNames names) = names := by
  by_cases hne : names = []
  · rw [hne]
    rfl
  · rw [steps, segments_ofNames h hne, foldl_climb_names _ _ h]
    simp

theorem isAbsolute_ofNames : isAbsolute (ofNames names) = false := by
  by_cases hne : names = []
  · rw [hne]
    rfl
  · rw [ofNames, if_neg hne]
    exact isAbsolute_ofSegments h

theorem normalise_ofNames : normalise (ofNames names) = ofNames names := by
  rw [normalise_of_not_isAbsolute (isAbsolute_ofNames h), steps_ofNames h]

omit h in
theorem segments_rooted (n : Nat) (names : List Text) :
    segments (rooted n names) = List.replicate n [] ++ segments (ofSegments names) := by
  induction n with
  | zero => rfl
  | succ n ih =>
    have hslash : rooted (n + 1) names = [] ++ slash :: rooted n names := rfl
    rw [hslash, segments_append_slash, ih]
    rfl

theorem steps_rooted (n : Nat) : steps (rooted n names) = names := by
  rw [steps, segments_rooted, List.foldl_append, foldl_climb_replicate]
  by_cases hne : names = []
  · rw [hne]
    rfl
  · rw [segments_names h hne, foldl_climb_names _ _ h]
    simp

theorem names_rooted (n : Nat) : Path.names (rooted n names) = names := by
  have hkept : names.filter (!·.isEmpty) = names := by
    rw [List.filter_eq_self]
    intro name hname
    simpa using (h name hname).ne.1
  rw [Path.names, segments_rooted, List.filter_append]
  by_cases hne : names = []
  · rw [hne]
    simp [segments]
  · rw [segments_names h hne, hkept]
    simp

omit h in
theorem isAbsolute_rooted {n : Nat} (hpos : 0 < n) (names : List Text) :
    isAbsolute (rooted n names) = true := by
  obtain ⟨n, rfl⟩ := Nat.exists_eq_succ_of_ne_zero hpos.ne'
  rfl

theorem normalise_rooted {n : Nat} (hpos : 0 < n) (hn : n ≤ 2) :
    normalise (rooted n names) = rooted n names := by
  have hslashes : rootSlashes (rooted n names) = n :=
    rootSlashes_replicate hn (isAbsolute_ofSegments h)
  rw [normalise_of_isAbsolute (isAbsolute_rooted hpos names), steps_rooted h, hslashes]

end Names

theorem rootSlashes_pos {path : Text} (h : isAbsolute path = true) : 0 < rootSlashes path := by
  have hslashes : rootSlashes path ≠ 0 := by simp [rootSlashes_eq_zero, h]
  exact Nat.pos_of_ne_zero hslashes

/-- There is no step up from a root. -/
theorem isName_of_mem_steps {path : Text} (h : isAbsolute path = true) :
    ∀ step ∈ steps path, IsName step := by
  obtain ⟨ups, names, hsteps, hnames, hups⟩ := exists_steps path
  rw [hups h, List.replicate_zero, List.nil_append] at hsteps
  rwa [hsteps]

theorem append_of_isAbsolute {path : Text} (h : isAbsolute path = true) (directory : Text) :
    append directory path = path := if_pos h

theorem append_ne_nil (directory : Text) {path : Text} (hne : path ≠ []) :
    append directory path ≠ [] := by
  unfold append
  split
  · exact hne
  · split
    · exact List.append_ne_nil_of_right_ne_nil _ hne
    · exact List.append_ne_nil_of_right_ne_nil _ hne

/-- A directory that ends in a slash needs none before what it is followed by. -/
theorem append_of_slash {directory path : Text} (hpath : isAbsolute path = false)
    (h : directory = [] ∨ directory.getLast? = some slash) :
    append directory path = directory ++ path := by
  have hslash : (directory.isEmpty || directory.getLast? == some slash) = true := by
    simpa [Bool.or_eq_true] using h
  rw [append, hpath, hslash]
  rfl

theorem append_of_no_slash {directory path : Text} (hpath : isAbsolute path = false)
    (hne : directory ≠ []) (h : directory.getLast? ≠ some slash) :
    append directory path = directory ++ slash :: path := by
  have hslash : (directory.isEmpty || directory.getLast? == some slash) = false := by
    simp [hne, h]
  rw [append, hpath, hslash]
  simp
  rfl

theorem isAbsolute_append {directory : Text} (hne : directory ≠ []) {path : Text}
    (hpath : isAbsolute path = false) :
    isAbsolute (append directory path) = isAbsolute directory := by
  obtain ⟨c, rest, rfl⟩ := List.exists_cons_of_ne_nil hne
  by_cases h : (c :: rest).getLast? = some slash
  · rw [append_of_slash hpath (.inr h)]
    rfl
  · rw [append_of_no_slash hpath hne h]
    rfl

theorem isAbsolute_append_of_isAbsolute {directory : Text} (h : isAbsolute directory = true)
    (path : Text) : isAbsolute (append directory path) = true := by
  cases habsolute : isAbsolute path with
  | true => rwa [append_of_isAbsolute habsolute]
  | false => rwa [isAbsolute_append (ne_nil_of_isAbsolute h) habsolute]

/-- What is appended to a path comes after the same text, whatever it is. -/
theorem exists_lead (start : Text) :
    ∃ lead, ∀ path, isAbsolute path = false → append start path = lead ++ path := by
  by_cases h : start = [] ∨ start.getLast? = some slash
  · exact ⟨start, fun path hpath => append_of_slash hpath h⟩
  · obtain ⟨hnil, hslash⟩ := not_or.mp h
    refine ⟨start ++ [slash], fun path hpath => ?_⟩
    rw [append_of_no_slash hpath hnil hslash, List.append_assoc, List.singleton_append]

/-- The segments of both, but for the empty one behind a slash at the end. -/
theorem exists_segments_append {start : Text} (hne : start ≠ []) {path : Text}
    (hpath : isAbsolute path = false) :
    ∃ front, segments (append start path) = front ++ segments path ∧
      (segments start = front ∨ segments start = front ++ [[]]) := by
  by_cases hslash : start.getLast? = some slash
  · obtain ⟨front, rfl⟩ := List.getLast?_eq_some_iff.mp hslash
    refine ⟨segments front, ?_, .inr (segments_append_slash front [])⟩
    rw [append_of_slash hpath (.inr hslash), List.append_assoc, List.singleton_append,
      segments_append_slash]
  · refine ⟨segments start, ?_, .inl rfl⟩
    rw [append_of_no_slash hpath hne hslash, segments_append_slash]

/-- Both sides end as `directory` does before `path` comes; if that is empty, as `start` does. -/
theorem append_assoc (start directory : Text) {path : Text} (hpath : isAbsolute path = false) :
    append start (append directory path) = append (append start directory) path := by
  cases habsolute : isAbsolute directory with
  | true =>
    rw [append_of_isAbsolute habsolute,
      append_of_isAbsolute (isAbsolute_append_of_isAbsolute habsolute path)]
  | false =>
    by_cases hne : directory = []
    · rw [hne, append_of_slash hpath (.inl rfl), List.nil_append]
      have hnone : isAbsolute [] = false := rfl
      by_cases hslash : start = [] ∨ start.getLast? = some slash
      · rw [append_of_slash hnone hslash, List.append_nil]
      · obtain ⟨hnil, hlast⟩ := not_or.mp hslash
        have hends : (start ++ [slash]).getLast? = some slash := by simp
        rw [append_of_no_slash hnone hnil hlast, append_of_slash hpath (.inr hends),
          append_of_no_slash hpath hnil hlast, List.append_assoc, List.singleton_append]
    · have hboth : isAbsolute (append directory path) = false :=
        (isAbsolute_append hne hpath).trans habsolute
      have hlast (s : Text) : (s ++ directory).getLast? = directory.getLast? :=
        List.getLast?_append_of_ne_nil s hne
      obtain ⟨s, hs⟩ := exists_lead start
      rw [hs _ hboth, hs _ habsolute]
      by_cases hslash : directory.getLast? = some slash
      · rw [append_of_slash hpath (.inr hslash),
          append_of_slash hpath (.inr (by rw [hlast, hslash])), List.append_assoc]
      · have hends : (s ++ directory).getLast? ≠ some slash := by rwa [hlast]
        rw [append_of_no_slash hpath hne hslash, append_of_no_slash hpath (by simp [hne]) hends,
          List.append_assoc]

theorem rootSlashes_congr (n : Nat) {s t : Text} (hs : isAbsolute s = false)
    (ht : isAbsolute t = false) :
    rootSlashes (List.replicate n slash ++ s) = rootSlashes (List.replicate n slash ++ t) := by
  rw [rootSlashes, rootSlashes, takeWhile_slashes n hs, takeWhile_slashes n ht]

/-- What is appended leaves the slashes in front as they are. -/
theorem rootSlashes_append {start path : Text} (hne : start ≠ [])
    (hpath : isAbsolute path = false) :
    rootSlashes (append start path) = rootSlashes start := by
  obtain ⟨n, s, rfl, hs⟩ := exists_slashes start
  by_cases hnil : s = []
  · obtain ⟨n, rfl⟩ : ∃ k, n = k + 1 := by
      cases n with
      | zero => exact absurd hnil hne
      | succ n => exact ⟨n, rfl⟩
    have hlast : (List.replicate (n + 1) slash ++ s).getLast? = some slash := by
      simp [hnil, List.getLast?_replicate]
    rw [append_of_slash hpath (.inr hlast), hnil, List.append_nil]
    have hnone : isAbsolute [] = false := rfl
    simpa using rootSlashes_congr (n + 1) hpath hnone
  · have hmore (t : Text) : isAbsolute (s ++ t) = false := by
      rwa [isAbsolute_append_of_ne_nil hnil]
    by_cases hlast : (List.replicate n slash ++ s).getLast? = some slash
    · rw [append_of_slash hpath (.inr hlast), List.append_assoc]
      exact rootSlashes_congr n (hmore path) hs
    · rw [append_of_no_slash hpath hne hlast, List.append_assoc]
      exact rootSlashes_congr n (hmore (slash :: path)) hs

/-- What is appended goes on from the steps of a path. -/
theorem steps_append {start : Text} (hstart : start ≠ []) {path : Text}
    (hpath : isAbsolute path = false) :
    (steps (append start path)).reverse =
      (segments path).foldl (climb (rootSlashes start != 0)) (steps start).reverse := by
  obtain ⟨front, happend, hfront⟩ := exists_segments_append hstart hpath
  rw [steps, steps, List.reverse_reverse, List.reverse_reverse, rootSlashes_append hstart hpath,
    happend, List.foldl_append]
  rcases hfront with hfront | hfront
  · rw [hfront]
  · rw [hfront, List.foldl_append]
    rfl

/-- Names that are appended come after the steps so far. -/
theorem steps_append_names {start : Text} (hstart : start ≠ []) {names : List Text}
    (h : ∀ name ∈ names, IsName name) (hne : names ≠ []) :
    steps (append start (ofNames names)) = steps start ++ names := by
  rw [← List.reverse_inj, steps_append hstart (isAbsolute_ofNames h), segments_ofNames h hne,
    foldl_climb_names _ _ h, List.reverse_append]

theorem append_rooted {n : Nat} (hpos : 0 < n) {above below : List Text}
    (habove : ∀ name ∈ above, IsName name) (hbelow : ∀ name ∈ below, IsName name)
    (hne : below ≠ []) :
    append (rooted n above) (ofSegments below) = rooted n (above ++ below) := by
  have hbelow := isAbsolute_ofSegments hbelow
  obtain ⟨n, rfl⟩ := Nat.exists_eq_succ_of_ne_zero hpos.ne'
  by_cases hnone : above = []
  · have hlast : (rooted (n + 1) []).getLast? = some slash := by
      simp [rooted, List.getLast?_replicate]
    rw [hnone, append_of_slash hbelow (.inr hlast)]
    simp [rooted]
  · have hlast : (rooted (n + 1) above).getLast? ≠ some slash := by
      have hnonempty : ofSegments above ≠ [] :=
        ofSegments_ne_nil hnone fun name hname => (habove name hname).ne.1
      rw [rooted, List.getLast?_append_of_ne_nil _ hnonempty]
      exact getLast?_ofSegments habove
    rw [append_of_no_slash hbelow (by simp [rooted]) hlast, rooted, rooted,
      ofSegments_append hnone hne]
    simp

/-- Names that are appended come after what a path is normalised to. -/
theorem normalise_append_names {start : Text} (hstart : isAbsolute start = true)
    {names : List Text} (h : ∀ name ∈ names, IsName name) (hne : names ≠ []) :
    normalise (append start (ofNames names)) = append (normalise start) (ofNames names) := by
  have hne' := ne_nil_of_isAbsolute hstart
  have hlong := isAbsolute_append_of_isAbsolute hstart (ofNames names)
  rw [normalise_of_isAbsolute hlong, normalise_of_isAbsolute hstart,
    rootSlashes_append hne' (isAbsolute_ofNames h), steps_append_names hne' h hne, ofNames,
    if_neg hne, append_rooted (rootSlashes_pos hstart) (isName_of_mem_steps hstart) h hne]

theorem diverge_append (above names : List Text) :
    diverge above (above ++ names) = ([], names) := by
  induction above with
  | nil => cases names <;> rfl
  | cons name above ih => rw [List.cons_append, diverge, beq_self_eq_true, if_pos rfl, ih]

/-- The empty path is the directory that it is seen from. -/
theorem absolute_nil (workdir : Text) : absolute workdir [] = absolute workdir "." := by
  by_cases hne : workdir = []
  · rw [hne]
    rfl
  · have hnone : isAbsolute [] = false := rfl
    have hdot : isAbsolute (Text.ofString ".") = false := rfl
    have hsteps : steps (append workdir []) = steps (append workdir ".") := by
      rw [← List.reverse_inj, steps_append hne hnone, steps_append hne hdot]
      rfl
    rw [absolute, absolute, normalise_eq, normalise_eq, rootSlashes_append hne hnone,
      rootSlashes_append hne hdot, hsteps]

section Absolute

variable {workdir : Text} (hworkdir : isAbsolute workdir = true)

include hworkdir

theorem exists_rooted_absolute (path : Text) :
    ∃ n names, absolute workdir path = rooted n names ∧ 0 < n ∧ n ≤ 2 ∧
      ∀ name ∈ names, IsName name := by
  have habsolute := isAbsolute_append_of_isAbsolute hworkdir path
  exact ⟨_, _, normalise_of_isAbsolute habsolute, rootSlashes_pos habsolute, rootSlashes_le _,
    isName_of_mem_steps habsolute⟩

omit hworkdir in
theorem absolute_ne_nil (workdir path : Text) : absolute workdir path ≠ [] := normalise_ne_nil _

omit hworkdir in
theorem absolute_rooted (workdir : Text) {n : Nat} (hpos : 0 < n) (hn : n ≤ 2) {names : List Text}
    (h : ∀ name ∈ names, IsName name) : absolute workdir (rooted n names) = rooted n names := by
  rw [absolute, append_of_isAbsolute (isAbsolute_rooted hpos names), normalise_rooted h hpos hn]

/-- What is absolute already stays as it is. -/
theorem absolute_absolute (path : Text) :
    absolute workdir (absolute workdir path) = absolute workdir path := by
  obtain ⟨n, names, hroot, hpos, hn, hnames⟩ := exists_rooted_absolute hworkdir path
  rw [hroot, absolute_rooted workdir hpos hn hnames]

/-- A path of names is made absolute by making its directory absolute. -/
theorem absolute_append (root : Text) {names : List Text}
    (h : ∀ name ∈ names, IsName name) (hne : names ≠ []) :
    absolute workdir (append root (ofNames names)) =
      append (absolute workdir root) (ofNames names) := by
  rw [absolute, append_assoc workdir root (isAbsolute_ofNames h)]
  exact normalise_append_names (isAbsolute_append_of_isAbsolute hworkdir root) h hne

/-- A path of names below it stays as it is, too. -/
theorem absolute_append_names (path : Text) {names : List Text} (h : ∀ name ∈ names, IsName name)
    (hne : names ≠ []) :
    absolute workdir (append (absolute workdir path) (ofNames names)) =
      append (absolute workdir path) (ofNames names) := by
  rw [absolute_append hworkdir (absolute workdir path) h hne, absolute_absolute hworkdir path]

/-- The way from an absolute path to names below it. -/
theorem relative_append_names (path : Text) {names : List Text} (h : ∀ name ∈ names, IsName name)
    (hne : names ≠ []) :
    relative (absolute workdir path) (append (absolute workdir path) (ofNames names)) =
      ofNames names := by
  obtain ⟨n, above, hroot, hpos, hn, habove⟩ := exists_rooted_absolute hworkdir path
  have hall : ∀ name ∈ above ++ names, IsName name := List.forall_mem_append.mpr ⟨habove, h⟩
  rw [hroot, ofNames, if_neg hne, append_rooted hpos habove h hne, relative, names_rooted habove,
    names_rooted hall, diverge_append]
  obtain ⟨name, names, rfl⟩ := List.exists_cons_of_ne_nil hne
  rfl

end Absolute

/-- A path that comes to names alone. -/
structure Inner (path : Text) (names : List Text) : Prop where
  relative : isAbsolute path = false
  steps : steps path = names
  names : ∀ name ∈ names, IsName name

theorem inner_ofNames {names : List Text} (h : ∀ name ∈ names, IsName name) :
    Inner (ofNames names) names := ⟨isAbsolute_ofNames h, steps_ofNames h, h⟩

theorem Inner.normalise {path : Text} {names : List Text} (h : Inner path names) :
    normalise path = ofNames names := by
  rw [normalise_of_not_isAbsolute h.relative, h.steps]

/-- A name more. -/
theorem Inner.append_name {path : Text} {names : List Text} (h : Inner path names)
    (hne : path ≠ []) {name : Text} (hname : IsName name) :
    Inner (path ++ "/" ++ name) (names ++ [name]) := by
  obtain ⟨c, rest, rfl⟩ := List.exists_cons_of_ne_nil hne
  have habsolute : isAbsolute (c :: rest ++ "/" ++ name) = false := h.relative
  have hsegments : segments (c :: rest ++ "/" ++ name) = segments (c :: rest) ++ [name] := by
    rw [List.append_assoc]
    exact (segments_append_slash _ _).trans (congrArg _ (segments_of_notMem hname.2))
  refine ⟨habsolute, ?_, ?_⟩
  · have hsteps := h.steps
    rw [Path.steps, rootSlashes_eq_zero.mpr h.relative] at hsteps
    rw [Path.steps, rootSlashes_eq_zero.mpr habsolute, hsegments, List.foldl_append,
      List.foldl_cons, List.foldl_nil, climb_name _ _ hname, List.reverse_cons, hsteps]
  · exact List.forall_mem_append.mpr ⟨h.names, List.forall_mem_singleton.mpr hname⟩

theorem startsWith_append (start s : Text) : startsWith (start ++ s) start = true := by
  rw [startsWith, dropStart?_append]
  rfl

theorem exists_of_startsWith {s start : Text} (h : startsWith s start = true) :
    ∃ rest, s = start ++ rest := by
  obtain ⟨rest, hrest⟩ := Option.isSome_iff_exists.mp h
  exact ⟨rest, (List.isPrefixOf?_eq_some_iff_append_eq.mp hrest).symm⟩

/-- Names do not begin with a step up. -/
theorem ofNames_stays {names : List Text} (h : ∀ name ∈ names, IsName name) :
    ofNames names ≠ ".." ∧ startsWith (ofNames names) (Text.ofString "../") = false := by
  have hno : ∀ rest : List Text, segments (ofNames names) ≠ Text.ofString ".." :: rest := by
    intro rest hrest
    by_cases hne : names = []
    · rw [hne] at hrest
      exact absurd (List.cons.inj hrest).1 (by decide)
    · rw [segments_ofNames h hne] at hrest
      exact (h ".." (by rw [hrest]; exact List.mem_cons_self)).ne.2.2 rfl
  constructor
  · intro heq
    exact hno [] (by rw [heq]; rfl)
  · rw [Bool.eq_false_iff]
    intro hstart
    obtain ⟨rest, hrest⟩ := exists_of_startsWith hstart
    apply hno (segments rest)
    rw [hrest]
    exact segments_append_slash ".." rest

theorem below?_of_inner {path : Text} {names : List Text} (h : Inner path names) (hne : path ≠ [])
    {root : Text} (hroot : root ≠ []) : below? root path = some (append root (ofNames names)) := by
  have hpath : path.isEmpty = false := by simpa using hne
  have hsome : root.isEmpty = false := by simpa using hroot
  obtain ⟨hup, hstart⟩ := ofNames_stays h.names
  simp [below?, hpath, hsome, h.normalise, isAbsolute_ofNames h.names, hup, hstart]

theorem below?_of_isAbsolute {path : Text} (h : isAbsolute path = true) (root : Text) :
    below? root path = none := by
  have hpath : path.isEmpty = false := by simpa using ne_nil_of_isAbsolute h
  simp [below?, hpath, normalise_of_isAbsolute h, isAbsolute_rooted (rootSlashes_pos h)]

theorem exists_inner_of_below? {root path location : Text} (hroot : root ≠ []) (hne : path ≠ [])
    (h : below? root path = some location) :
    ∃ names, Inner path names ∧ location = append root (ofNames names) := by
  cases habsolute : isAbsolute path with
  | true =>
    rw [below?_of_isAbsolute habsolute] at h
    cases h
  | false =>
    obtain ⟨ups, names, hsteps, hnames, -⟩ := exists_steps path
    cases ups with
    | zero =>
      have hinner : Inner path names := ⟨habsolute, hsteps, hnames⟩
      rw [below?_of_inner hinner hne hroot] at h
      exact ⟨names, hinner, (Option.some.inj h).symm⟩
    | succ ups =>
      -- A step up that is left over is refused.
      obtain ⟨rest, hrest⟩ : ∃ rest : List Text, steps path = Text.ofString ".." :: rest :=
        ⟨_, hsteps⟩
      have hnormal : normalise path = Text.ofString ".." ++ rest.flatMap (slash :: ·) := by
        rw [normalise_of_not_isAbsolute habsolute, ofNames, hrest, if_neg (List.cons_ne_nil _ _)]
        exact ofSegments_cons _ _
      have hpath : path.isEmpty = false := by simpa using hne
      have hout : (normalise path == ".." || startsWith (normalise path) (Text.ofString "../")) =
          true := by
        rw [hnormal]
        cases rest with
        | nil => rfl
        | cons s rest =>
          have hstart : Text.ofString ".." ++ (s :: rest).flatMap (slash :: ·) =
              Text.ofString "../" ++ (s ++ rest.flatMap (slash :: ·)) := rfl
          rw [hstart, startsWith_append, Bool.or_true]
      rw [below?, hpath] at h
      simp only [Bool.false_eq_true, if_false, Bool.or_assoc, hout, Bool.or_true, if_true] at h
      cases h

/-- A location that is written as the root and a normal path below it. -/
def Below (root location : Text) : Prop :=
  ∃ path, location = append root path ∧ normalise path = path ∧ isAbsolute path = false ∧
    Text.ofString ".." ∉ segments path ∧ path ≠ "."

theorem below_of_names (root : Text) {names : List Text} (h : ∀ name ∈ names, IsName name)
    (hne : names ≠ []) : Below root (append root (ofNames names)) := by
  have hsegments := segments_ofNames h hne
  refine ⟨ofNames names, rfl, normalise_ofNames h, isAbsolute_ofNames h, ?_, ?_⟩
  · rw [hsegments]
    exact fun hup => (h _ hup).ne.2.2 rfl
  · intro hdot
    rw [hdot] at hsegments
    exact (h "." (by rw [← hsegments]; decide)).ne.2.1 rfl

end LiveTree.Path
