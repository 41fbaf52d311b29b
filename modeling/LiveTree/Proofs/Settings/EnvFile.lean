import LiveTree.Proofs.Association
import LiveTree.Settings.EnvFile

namespace LiveTree.Settings.EnvFile

open Association (find? put)

section Bindings

variable (environment : Environment)

theorem bindAll_append (sofar : Association (Option Text))
    (first rest : List (Text × Option Text)) :
    bindAll environment sofar (first ++ rest) =
      bindAll environment (bindAll environment sofar first) rest := by
  induction first generalizing sofar with
  | nil => rfl
  | cons pair first ih => exact ih _

theorem nodup_bindAll (sofar : Association (Option Text))
    (distinct : (sofar.map Prod.fst).Nodup) (pairs : List (Text × Option Text)) :
    ((bindAll environment sofar pairs).map Prod.fst).Nodup := by
  induction pairs generalizing sofar with
  | nil => exact distinct
  | cons pair pairs ih => exact ih _ (Association.nodup_put distinct _ _)

/-- Of several bindings of a key the last one counts, and it may refer to those before it. -/
theorem find?_bindAll_concat (sofar : Association (Option Text))
    (pairs : List (Text × Option Text)) (key : Text) (value : Option Text) (name : Text) :
    let before := bindAll environment sofar pairs
    find? name (bindAll environment sofar (pairs ++ [(key, value)])) =
      if name = key then some (value.map (expand (referred environment before)))
      else find? name before := by
  intro before
  rw [bindAll_append]
  exact Association.find?_put _ _ _ _

end Bindings

/-- A name and a value that a variable may have. -/
structure Settable (name value : Text) : Prop where
  clear : (name ++ value).any (·.val == 0) = false
  legal : CodePoint.ofChar '=' ∉ name

theorem assign_eq_ok_iff {name value : Text} {environment after : Environment} :
    assign name value environment = .ok after ↔
      Settable name value ∧ after = environment ++ [(name, value)] := by
  unfold assign
  constructor
  · intro h
    split at h
    · cases h
    · rename_i hclear
      split at h
      · cases h
      · rename_i hlegal
        exact ⟨⟨Bool.eq_false_iff.mpr hclear, by simpa using hlegal⟩, (Except.ok.inj h).symm⟩
  · rintro ⟨⟨hclear, hlegal⟩, rfl⟩
    rw [if_neg (by simp [hclear]), if_neg (by simpa using hlegal)]

/-- The variables that bindings add to an environment: those with a value that are not set yet. -/
def additions (environment : Environment) (bound : Association (Option Text)) : Environment :=
  bound.filterMap fun pair =>
    if Association.contains pair.1 environment then none else pair.2.map (pair.1, ·)

theorem additions_congr {environment other : Environment} {bound : Association (Option Text)}
    (h : ∀ pair ∈ bound,
      Association.contains pair.1 environment = Association.contains pair.1 other) :
    additions environment bound = additions other bound :=
  List.filterMap_congr fun pair hpair => by rw [h pair hpair]

theorem contains_concat {environment : Environment} {name key : Text} (value : Text)
    (hne : name ≠ key) : Association.contains name (environment ++ [(key, value)]) =
      Association.contains name environment := by
  rw [Association.contains, Association.contains, find?, find?, List.lookup_append]
  have hnone : List.lookup name [(key, value)] = none := by
    rw [← find?, Association.find?_cons, if_neg (Ne.symm hne)]
    rfl
  rw [hnone, Option.or_none]

/-- Bindings of distinct keys are taken over just if all that they add may be set. -/
theorem assignAll_eq_ok_iff {bound : Association (Option Text)}
    (distinct : (bound.map Prod.fst).Nodup) {environment after : Environment} :
    assignAll environment bound = .ok after ↔
      (∀ pair ∈ additions environment bound, Settable pair.1 pair.2) ∧
        after = environment ++ additions environment bound := by
  induction bound generalizing environment with
  | nil =>
    rw [assignAll, show additions environment [] = [] from rfl, List.append_nil]
    exact ⟨fun h => ⟨nofun, (Except.ok.inj h).symm⟩, fun h => congrArg _ h.2.symm⟩
  | cons pair bound ih =>
    obtain ⟨name, value⟩ := pair
    obtain ⟨hnew, hdistinct⟩ := List.nodup_cons.mp distinct
    cases value with
    | none =>
      have hadditions : additions environment ((name, none) :: bound) =
          additions environment bound := by
        simp [additions]
      rw [hadditions, assignAll, ih hdistinct]
    | some value =>
      rw [assignAll]
      by_cases hset : Association.contains name environment = true
      · have hadditions : additions environment ((name, some value) :: bound) =
            additions environment bound := by
          simp [additions, hset]
        rw [if_pos hset, hadditions, ih hdistinct]
      · -- A variable that is added does not keep the keys after it from being set.
        have hadditions : additions environment ((name, some value) :: bound) =
            (name, value) :: additions (environment ++ [(name, value)]) bound := by
          rw [additions, List.filterMap_cons, if_neg hset]
          refine congrArg ((name, value) :: ·) (additions_congr fun pair hpair => ?_)
          have hmem : pair.1 ∈ bound.map Prod.fst := List.mem_map_of_mem hpair
          have hne : pair.1 ≠ name := fun heq => hnew (heq ▸ hmem)
          exact (contains_concat value hne).symm
        rw [if_neg hset, hadditions, List.forall_mem_cons]
        cases hassign : assign name value environment with
        | error fault =>
          refine iff_of_false nofun fun h => ?_
          cases hassign.symm.trans (assign_eq_ok_iff.mpr ⟨h.1.1, rfl⟩)
        | ok between =>
          obtain ⟨hsettable, rfl⟩ := assign_eq_ok_iff.mp hassign
          rw [and_iff_right hsettable]
          refine (ih hdistinct).trans ?_
          rw [List.append_assoc]
          rfl

/-- The value that bindings of distinct keys add to a variable that is not set. -/
theorem find?_additions {environment : Environment} {name : Text}
    (hunset : find? name environment = none) {bound : Association (Option Text)}
    (distinct : (bound.map Prod.fst).Nodup) :
    find? name (additions environment bound) = (find? name bound).join := by
  induction bound with
  | nil => rfl
  | cons pair bound ih =>
    obtain ⟨key, value⟩ := pair
    obtain ⟨hnew, hdistinct⟩ := List.nodup_cons.mp distinct
    have hrest := ih hdistinct
    rw [Association.find?_cons]
    by_cases hkey : key = name
    · subst hkey
      have hnone : find? key bound = none := Association.find?_eq_none_iff.mpr hnew
      have hcontains : ¬Association.contains key environment = true := by
        simp [Association.contains, hunset]
      rw [hnone] at hrest
      rw [if_pos rfl, additions, List.filterMap_cons, if_neg hcontains]
      cases value with
      | none => exact hrest
      | some value => exact (Association.find?_cons _ _ _ _).trans (if_pos rfl)
    · rw [if_neg hkey, ← hrest, additions, List.filterMap_cons]
      split
      · rfl
      · rename_i added hadded
        have hfirst : added.1 = key := by
          split at hadded
          · cases hadded
          · obtain ⟨value, -, rfl⟩ := Option.map_eq_some_iff.mp hadded
            rfl
        obtain ⟨added, value⟩ := added
        subst hfirst
        exact (Association.find?_cons _ _ _ _).trans (if_neg hkey)

/-- The bindings of a text of settings. -/
def bound (text : Text) (environment : Environment) : Association (Option Text) :=
  bindAll environment []
    (Statement.bindings (Statement.readAll (Text.normaliseLines (withoutMark text))))

theorem nodup_bound (text : Text) (environment : Environment) :
    ((bound text environment).map Prod.fst).Nodup :=
  nodup_bindAll environment [] List.nodup_nil _

/-- What loading a text of settings comes to: the variables that were set stay as they are, and
those that the text gives a value come after them. It is a fault if one of these may not be set. -/
theorem loadText_eq_ok_iff {text : Text} {environment after : Environment} :
    (loadText text environment).environment = .ok after ↔
      (∀ pair ∈ additions environment (bound text environment), Settable pair.1 pair.2) ∧
        after = environment ++ additions environment (bound text environment) :=
  assignAll_eq_ok_iff (nodup_bound text environment)

/-- A variable has the value that it was set to, even to nothing, or else that of its last binding
in the text of settings, if it has a value there. -/
theorem find?_loadText {text : Text} {environment after : Environment}
    (h : (loadText text environment).environment = .ok after) (name : Text) :
    find? name after = (find? name environment).or (find? name (bound text environment)).join := by
  obtain ⟨-, rfl⟩ := loadText_eq_ok_iff.mp h
  have happend : find? name (environment ++ additions environment (bound text environment)) =
      (find? name environment).or (find? name (additions environment (bound text environment))) :=
    List.lookup_append
  rw [happend]
  cases hset : find? name environment with
  | some value => rfl
  | none => exact find?_additions hset (nodup_bound text environment)

/-- No file of settings changes a variable that is set. -/
theorem find?_load {disk : File.Disk} {environment after : Environment}
    (h : (load disk environment).environment = .ok after) {name value : Text}
    (hset : find? name environment = some value) : find? name after = some value := by
  rw [load] at h
  split at h
  · rwa [← Except.ok.inj h]
  · split at h
    · cases h
    · rw [find?_loadText h, hset, Option.some_or]

end LiveTree.Settings.EnvFile
