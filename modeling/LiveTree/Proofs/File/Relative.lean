import LiveTree.Proofs.File.Path

namespace LiveTree.Path

theorem exists_diverge (s t : List Text) :
    ∃ common, s = common ++ (diverge s t).1 ∧ t = common ++ (diverge s t).2 := by
  induction s generalizing t with
  | nil => exact ⟨[], rfl, rfl⟩
  | cons a s ih =>
    cases t with
    | nil => exact ⟨[], rfl, rfl⟩
    | cons b t =>
      by_cases h : a = b
      · obtain ⟨common, hs, ht⟩ := ih t
        have hdiverge : diverge (a :: s) (b :: t) = diverge s t := by
          rw [diverge, if_pos (by simpa using h)]
        rw [hdiverge]
        exact ⟨a :: common, congrArg (a :: ·) hs, by rw [← h]; exact congrArg (a :: ·) ht⟩
      · have hdiverge : diverge (a :: s) (b :: t) = (a :: s, b :: t) := by
          rw [diverge, if_neg (by simpa using h)]
        rw [hdiverge]
        exact ⟨[], rfl, rfl⟩

/-- The steps from the names of one path to those of another. -/
def way (above below : List Text) : List Text :=
  List.replicate (diverge above below).1.length (Text.ofString "..") ++ (diverge above below).2

theorem relative_eq (start path : Text) :
    relative start path = ofNames (way (names start) (names path)) := by
  rw [relative, way]
  rcases diverge (names start) (names path) with ⟨up, down⟩
  simp only
  cases List.replicate up.length (Text.ofString "..") ++ down with
  | nil => rfl
  | cons step steps => rfl

theorem relative_rooted {above below : List Text} (habove : ∀ name ∈ above, IsName name)
    (hbelow : ∀ name ∈ below, IsName name) (m n : Nat) :
    relative (rooted m above) (rooted n below) = ofNames (way above below) := by
  rw [relative_eq, names_rooted habove, names_rooted hbelow]

theorem mem_way {above below : List Text} {step : Text} (h : step ∈ way above below) :
    step = ".." ∨ step ∈ below := by
  obtain ⟨common, -, hbelow⟩ := exists_diverge above below
  rcases List.mem_append.mp h with hup | hdown
  · exact .inl (List.eq_of_mem_replicate hup)
  · rw [hbelow]
    exact .inr (List.mem_append_right common hdown)

section Steps

variable {above below : List Text} (hbelow : ∀ name ∈ below, IsName name)

include hbelow

theorem slash_notMem_of_mem_way : ∀ step ∈ way above below, slash ∉ step := by
  intro step hstep
  rcases mem_way hstep with rfl | hname
  · decide
  · exact (hbelow step hname).2

theorem ne_nil_of_mem_way : ∀ step ∈ way above below, step ≠ [] := by
  intro step hstep
  rcases mem_way hstep with rfl | hname
  · decide
  · exact (hbelow step hname).ne.1

theorem isAbsolute_ofNames_way : isAbsolute (ofNames (way above below)) = false := by
  cases hsteps : way above below with
  | nil => rfl
  | cons step steps =>
    have hstep : step ∈ way above below := by rw [hsteps]; exact List.mem_cons_self
    have hslash : slash ∉ step := slash_notMem_of_mem_way hbelow step hstep
    obtain ⟨c, rest, rfl⟩ := List.exists_cons_of_ne_nil (ne_nil_of_mem_way hbelow step hstep)
    have hc : c ≠ slash := fun hc => hslash (hc ▸ List.mem_cons_self)
    rw [ofNames, if_neg (List.cons_ne_nil _ _), ofSegments_cons]
    simpa [isAbsolute] using hc

theorem ofNames_way_ne_nil : ofNames (way above below) ≠ [] := by
  rw [ofNames]
  split
  · decide
  · rename_i hsteps
    exact ofSegments_ne_nil hsteps (ne_nil_of_mem_way hbelow)

/-- A path of no steps is a dot, which is no step. -/
theorem foldl_climb_way (absolute : Bool) (stack : List Text) :
    (segments (ofNames (way above below))).foldl (climb absolute) stack =
      (way above below).foldl (climb absolute) stack := by
  by_cases hsteps : way above below = []
  · rw [hsteps]
    rfl
  · have hsegments : segments (ofSegments (way above below)) = way above below :=
      List.splitOn_intercalate slash (slash_notMem_of_mem_way hbelow) hsteps
    rw [ofNames, if_neg hsteps, hsegments]

end Steps

theorem foldl_climb_ups (absolute : Bool) (above : List Text) {names : List Text}
    (h : ∀ name ∈ names, IsName name) :
    (List.replicate names.length (Text.ofString "..")).foldl (climb absolute) (names ++ above) =
      above := by
  induction names with
  | nil => rfl
  | cons name names ih =>
    rw [List.forall_mem_cons] at h
    rw [List.length_cons, List.replicate_succ, List.foldl_cons, List.cons_append,
      climb_up_name absolute _ h.1, ih h.2]

/-- Going the way leads from the names it begins at to those it ends at. -/
theorem foldl_climb_of_way (absolute : Bool) {above below : List Text}
    (habove : ∀ name ∈ above, IsName name) (hbelow : ∀ name ∈ below, IsName name) :
    (way above below).foldl (climb absolute) above.reverse = below.reverse := by
  obtain ⟨common, hup, hdown⟩ := exists_diverge above below
  have hnamesUp : ∀ name ∈ (diverge above below).1.reverse, IsName name := by
    intro name hname
    exact habove name (by rw [hup]; exact List.mem_append_right _ (List.mem_reverse.mp hname))
  have hnamesDown : ∀ name ∈ (diverge above below).2, IsName name := by
    intro name hname
    exact hbelow name (by rw [hdown]; exact List.mem_append_right _ hname)
  have hclimb := foldl_climb_ups absolute common.reverse hnamesUp
  rw [List.length_reverse, ← List.reverse_append, ← hup] at hclimb
  rw [way, List.foldl_append, hclimb, foldl_climb_names _ _ hnamesDown, ← List.reverse_append,
    ← hdown]

/-- The way to a path, gone from where it was taken, leads to the names of that path. -/
theorem normalise_append_relative {start : Text} (hstart : isAbsolute start = true)
    {below : List Text} (hbelow : ∀ name ∈ below, IsName name) (n : Nat) :
    normalise (append start (relative (normalise start) (rooted n below))) =
      rooted (rootSlashes start) below := by
  have hne := ne_nil_of_isAbsolute hstart
  have habove := isName_of_mem_steps hstart
  have hrelative : isAbsolute (ofNames (way (steps start) below)) = false :=
    isAbsolute_ofNames_way hbelow
  have hsteps : steps (append start (ofNames (way (steps start) below))) = below := by
    rw [← List.reverse_inj, steps_append hne hrelative, foldl_climb_way hbelow,
      foldl_climb_of_way _ habove hbelow]
  rw [normalise_of_isAbsolute hstart, relative_rooted habove hbelow,
    normalise_of_isAbsolute (isAbsolute_append_of_isAbsolute hstart _), hsteps,
    rootSlashes_append hne hrelative]

theorem rootSlashes_append_ne_two {start path : Text} (hstart : rootSlashes start ≠ 2)
    (hpath : rootSlashes path ≠ 2) : rootSlashes (append start path) ≠ 2 := by
  cases habsolute : isAbsolute path with
  | true => rwa [append_of_isAbsolute habsolute]
  | false =>
    by_cases hne : start = []
    · rwa [hne, append_of_slash habsolute (.inl rfl)]
    · rwa [rootSlashes_append hne habsolute]

section Absolute

variable {workdir : Text} (hworkdir : isAbsolute workdir = true)
  (hsingle : rootSlashes workdir ≠ 2)

include hworkdir hsingle

theorem rootSlashes_append_eq_one {path : Text} (h : rootSlashes path ≠ 2) :
    rootSlashes (append workdir path) = 1 := by
  have hpos := rootSlashes_pos (isAbsolute_append_of_isAbsolute hworkdir path)
  have hle := rootSlashes_le (append workdir path)
  have hne := rootSlashes_append_ne_two hsingle h
  omega

/-- The one form that all absolute paths have. -/
theorem exists_absolute_eq {path : Text} (h : rootSlashes path ≠ 2) :
    ∃ names, absolute workdir path = rooted 1 names ∧ ∀ name ∈ names, IsName name := by
  have habsolute := isAbsolute_append_of_isAbsolute hworkdir path
  refine ⟨steps (append workdir path), ?_, isName_of_mem_steps habsolute⟩
  rw [absolute, normalise_of_isAbsolute habsolute, rootSlashes_append_eq_one hworkdir hsingle h]

omit hsingle in
theorem absolute_append_relative (root : Text) {below : List Text}
    (hbelow : ∀ name ∈ below, IsName name) (n : Nat) :
    absolute workdir (append root (relative (absolute workdir root) (rooted n below))) =
      rooted (rootSlashes (append workdir root)) below := by
  have hstart := isAbsolute_append_of_isAbsolute hworkdir root
  have hrelative : isAbsolute (relative (absolute workdir root) (rooted n below)) = false := by
    rw [absolute, normalise_of_isAbsolute hstart,
      relative_rooted (isName_of_mem_steps hstart) hbelow]
    exact isAbsolute_ofNames_way hbelow
  rw [absolute, append_assoc workdir root hrelative]
  exact normalise_append_relative hstart hbelow n

omit hsingle in
theorem fromRoot_ne_nil (root path : Text) : fromRoot workdir root path ≠ [] := by
  obtain ⟨m, above, hroot, -, -, habove⟩ := exists_rooted_absolute hworkdir root
  obtain ⟨n, below, hpath, -, -, hbelow⟩ := exists_rooted_absolute hworkdir path
  rw [fromRoot, hroot, hpath, relative_rooted habove hbelow]
  exact ofNames_way_ne_nil hbelow

/-- A path as it is seen from the root is the same path below the root, also where it leads out of
it. -/
theorem absolute_append_fromRoot {root path : Text} (hroot : rootSlashes root ≠ 2)
    (hpath : rootSlashes path ≠ 2) :
    absolute workdir (append root (fromRoot workdir root path)) = absolute workdir path := by
  obtain ⟨below, hbelow, hnames⟩ := exists_absolute_eq hworkdir hsingle hpath
  rw [fromRoot, hbelow, absolute_append_relative hworkdir root hnames,
    rootSlashes_append_eq_one hworkdir hsingle hroot]

/-- Two paths that look the same from the root are the same. -/
theorem fromRoot_inj {root path other : Text} (hroot : rootSlashes root ≠ 2)
    (hpath : rootSlashes path ≠ 2) (hother : rootSlashes other ≠ 2) :
    fromRoot workdir root path = fromRoot workdir root other ↔
      absolute workdir path = absolute workdir other := by
  constructor
  · intro h
    rw [← absolute_append_fromRoot hworkdir hsingle hroot hpath, h,
      absolute_append_fromRoot hworkdir hsingle hroot hother]
  · intro h
    rw [fromRoot, h, fromRoot]

end Absolute

end LiveTree.Path
