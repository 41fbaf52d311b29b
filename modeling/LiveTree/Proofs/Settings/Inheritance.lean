import LiveTree.Proofs.Settings.Parameters

namespace LiveTree.Settings

open Association

/-- The flags that a variable can stand in for, each with its variable. -/
def variablesOfFlags : List (Flag × Text) :=
  [(.lua, "DESCEND_LUA"), (.main, "DESCEND_MAIN"), (.root, "DESCEND_ROOT"),
    (.entry, "DESCEND_ENTRY"), (.port, "DESCEND_PORT"), (.timeout, "DESCEND_TIMEOUT")]

theorem inEnvironment?_eq_some_iff {flag : Flag} {name : Text} :
    flag.inEnvironment? = some name ↔ (flag, name) ∈ variablesOfFlags := by
  cases flag <;> simp [Flag.inEnvironment?, variablesOfFlags] <;> exact eq_comm

/-- The value that parameters give a flag: none if it is missing, or its value is, or is empty. -/
def given? (parameters : Parameters) (flag : Flag) : Option Text :=
  nonEmpty (find? flag.name parameters).join

/-- The value that a flag has from the environment, if that is not empty. -/
def inherited? (environment : Environment) (flag : Flag) : Option Text :=
  nonEmpty (flag.inEnvironment?.bind fun name => find? name environment)

/-- A parameter put in with the value of a variable, if its flag is not given a value and the
variable is not empty. -/
def Parameters.fill (environment : Environment) (parameters : Parameters)
    (variableOf : Flag × Text) : Parameters :=
  match given? parameters variableOf.1, nonEmpty (find? variableOf.2 environment) with
  | none, some value => put variableOf.1.name (some value) parameters
  | _, _ => parameters

/-- The parameters with the variables of an environment put in. -/
def Parameters.filled (parameters : Parameters) (environment : Environment) : Parameters :=
  variablesOfFlags.foldl (fill environment) parameters

theorem value?_eq (parameters : Parameters) (environment : Environment) (flag : Flag) :
    value? parameters environment flag =
      (given? parameters flag).or (inherited? environment flag) := by
  rw [value?, given?, inherited?]
  cases nonEmpty (find? flag.name parameters).join <;> rfl

theorem nonEmpty_nonEmpty (value : Option Text) : nonEmpty (nonEmpty value) = nonEmpty value := by
  rcases value with _ | _ | ⟨c, s⟩ <;> rfl

theorem name_inj {flag other : Flag} (h : flag.name = other.name) : flag = other := by
  have hdistinct : (Flag.all.map Flag.name).Nodup := by decide
  exact List.inj_on_of_nodup_map hdistinct (Flag.mem_all flag) (Flag.mem_all other) h

section Fill

variable (environment : Environment) (parameters : Parameters) (variableOf : Flag × Text)

/-- Putting in a variable gives its flag a value if it has none, and leaves all others alone. -/
theorem given?_fill (flag : Flag) :
    given? (parameters.fill environment variableOf) flag =
      (given? parameters flag).or
        (if flag = variableOf.1 then nonEmpty (find? variableOf.2 environment) else none) := by
  rw [Parameters.fill]
  split
  · rename_i value hgiven hvalue
    have hname : flag.name = variableOf.1.name ↔ flag = variableOf.1 := ⟨name_inj, congrArg _⟩
    by_cases hflag : flag = variableOf.1
    · have hfind : given? (put variableOf.1.name (some value) parameters) flag =
          nonEmpty (some value) := by
        rw [given?, find?_put, if_pos (hname.mpr hflag)]
        rfl
      rw [hfind, hflag, hgiven, if_pos rfl, ← hvalue, nonEmpty_nonEmpty]
      rfl
    · rw [given?, find?_put, if_neg (mt hname.mp hflag), if_neg hflag, Option.or_none, given?]
  · rename_i hkept
    by_cases hflag : flag = variableOf.1
    · rw [if_pos hflag, hflag]
      cases hgiven : given? parameters variableOf.1 with
      | some value => rfl
      | none =>
        have hempty : nonEmpty (find? variableOf.2 environment) = none := by
          rw [Option.eq_none_iff_forall_ne_some]
          exact fun value hvalue => hkept value hgiven hvalue
        rw [hempty]
        rfl
    · rw [if_neg hflag, Option.or_none]

theorem find?_fill {name : Text} (h : name ≠ variableOf.1.name) :
    find? name (parameters.fill environment variableOf) = find? name parameters := by
  rw [Parameters.fill]
  split
  · rw [find?_put, if_neg h]
  · rfl

theorem unknownNames_fill :
    unknownNames (parameters.fill environment variableOf) = unknownNames parameters := by
  have hknown : (!(Flag.all.map Flag.name).contains variableOf.1.name) = false := by
    simp [List.mem_map_of_mem (Flag.mem_all variableOf.1)]
  rw [Parameters.fill]
  split
  · rw [unknownNames, unknownNames]
    by_cases h : variableOf.1.name ∈ parameters.map Prod.fst
    · rw [keys_put_of_mem _ h]
    · rw [keys_put_of_notMem _ h, List.filter_append,
        List.filter_cons_of_neg (by rw [hknown]; exact Bool.false_ne_true), List.filter_nil,
        List.append_nil]
  · rfl

end Fill

theorem given?_foldl_fill (environment : Environment) (parameters : Parameters) (flag : Flag)
    {table : List (Flag × Text)} (h : ∀ v ∈ table, v.1.inEnvironment? = some v.2) :
    given? (table.foldl (Parameters.fill environment) parameters) flag =
      (given? parameters flag).or
        (if flag ∈ table.map Prod.fst then inherited? environment flag else none) := by
  induction table generalizing parameters with
  | nil => simp
  | cons v rest ih =>
    obtain ⟨hv, hrest⟩ := List.forall_mem_cons.mp h
    rw [List.foldl_cons, ih _ hrest, given?_fill, Option.or_assoc]
    by_cases hflag : flag = v.1
    · have hvariable : nonEmpty (find? v.2 environment) = inherited? environment flag := by
        rw [inherited?, hflag, hv]
        rfl
      have hmem : flag ∈ (v :: rest).map Prod.fst := hflag ▸ List.mem_cons_self
      rw [if_pos hflag, hvariable, if_pos hmem]
      split
      · rw [Option.or_self]
      · rw [Option.or_none]
    · have hmem : flag ∈ (v :: rest).map Prod.fst ↔ flag ∈ rest.map Prod.fst := by
        rw [List.map_cons, List.mem_cons, or_iff_right hflag]
      rw [if_neg hflag, Option.none_or, if_congr hmem rfl rfl]

section Filled

variable (parameters : Parameters) (environment : Environment)

theorem inherited?_nil (flag : Flag) : inherited? [] flag = none := by
  rw [inherited?]
  cases flag.inEnvironment? <;> rfl

/-- With the variables put in, every flag has its value without an environment. -/
theorem value?_filled (flag : Flag) :
    value? (parameters.filled environment) [] flag = value? parameters environment flag := by
  have htable : ∀ v ∈ variablesOfFlags, v.1.inEnvironment? = some v.2 :=
    fun v hv => inEnvironment?_eq_some_iff.mpr hv
  rw [value?_eq, value?_eq, inherited?_nil, Option.or_none, Parameters.filled,
    given?_foldl_fill environment parameters flag htable]
  split
  · rfl
  · rename_i hmem
    have hnone : flag.inEnvironment? = none := by
      rw [Option.eq_none_iff_forall_ne_some]
      exact fun name hname => hmem (List.mem_map_of_mem (inEnvironment?_eq_some_iff.mp hname))
    rw [inherited?, hnone]
    rfl

theorem filled_keeps :
    unknownNames (parameters.filled environment) = unknownNames parameters ∧
      ∀ flag : Flag, flag.inEnvironment? = none →
        find? flag.name (parameters.filled environment) = find? flag.name parameters := by
  refine List.foldlRecOn (motive := fun filled => unknownNames filled = unknownNames parameters ∧
    ∀ flag : Flag, flag.inEnvironment? = none →
      find? flag.name filled = find? flag.name parameters)
    variablesOfFlags (Parameters.fill environment) ⟨rfl, fun _ _ => rfl⟩ ?_
  intro filled hkept v hv
  refine ⟨(unknownNames_fill environment filled v).trans hkept.1, fun flag hflag => ?_⟩
  have hne : flag.name ≠ v.1.name := by
    intro hname
    rw [name_inj hname, inEnvironment?_eq_some_iff.mpr hv] at hflag
    cases hflag
  exact (find?_fill environment filled v hne).trans (hkept.2 flag hflag)

end Filled

/-- A variable of the environment means the same as its flag: options come from parameters and an
environment as they do from the parameters alone once the variables are put in, and so do faults.
No other variable counts, nor one whose flag is given a value. -/
theorem variables_as_flags (parameters : Parameters) (environment : Environment) :
    Options.ofParameters parameters environment =
        Options.ofParameters (parameters.filled environment) [] ∧
      ∀ other : Environment,
        (∀ flag name, (flag, name) ∈ variablesOfFlags → given? parameters flag = none →
          nonEmpty (find? name other) = nonEmpty (find? name environment)) →
        Options.ofParameters parameters other = Options.ofParameters parameters environment := by
  constructor
  · obtain ⟨hunknown, hkept⟩ := filled_keeps parameters environment
    exact (ofParameters_congr hunknown (value?_filled parameters environment) (hkept .print rfl)
      (hkept .log rfl)).symm
  · intro other agree
    refine ofParameters_congr rfl (fun flag => ?_) rfl rfl
    rw [value?_eq, value?_eq]
    cases hgiven : given? parameters flag with
    | some value => rfl
    | none =>
      cases hname : flag.inEnvironment? with
      | none => rw [inherited?, inherited?, hname]; rfl
      | some name =>
        have hvariable := agree flag name (inEnvironment?_eq_some_iff.mp hname) hgiven
        rw [inherited?, inherited?, hname]
        exact congrArg _ hvariable

/-- A root from the environment that its flag overrides, an entry from there in place of an empty
one, and variables that stand in for nothing. -/
theorem variables_as_flags_overridden :
    let parameters : Parameters :=
      [("lua", some "lua"), ("main", some "m.lua"), ("root", some "src"), ("entry", some "")]
    let environment : Environment := [("DESCEND_ROOT", "other"), ("DESCEND_ENTRY", "block")]
    let other : Environment :=
      [("DESCEND_ENTRY", "block"), ("DESCEND_LOG", "1"), ("DESCEND_PRINT", "a"), ("LUA", "luajit")]
    (∀ flag name, (flag, name) ∈ variablesOfFlags → given? parameters flag = none →
        nonEmpty (find? name other) = nonEmpty (find? name environment)) ∧
      Options.ofParameters parameters other = Options.ofParameters parameters environment ∧
      (Options.ofParameters parameters environment).toOption.map
          (fun options => (options.root, options.entry, options.log)) =
        some (("src" : Text), some ("block" : Text), false) := by
  intro parameters environment other
  have agree : ∀ flag name, (flag, name) ∈ variablesOfFlags → given? parameters flag = none →
      nonEmpty (find? name other) = nonEmpty (find? name environment) := by
    have hall : ∀ v ∈ variablesOfFlags, given? parameters v.1 = none →
        nonEmpty (find? v.2 other) = nonEmpty (find? v.2 environment) := by
      decide +kernel
    exact fun flag name hv => hall (flag, name) hv
  obtain ⟨hfilled, hother⟩ := variables_as_flags parameters environment
  have hparameters : parameters.filled environment =
      ([("lua", some "lua"), ("main", some "m.lua"), ("root", some "src"),
        ("entry", some "block")] : Parameters) := by
    decide +kernel
  refine ⟨agree, hother other agree, ?_⟩
  rw [hfilled, hparameters]
  decide +kernel

end LiveTree.Settings
