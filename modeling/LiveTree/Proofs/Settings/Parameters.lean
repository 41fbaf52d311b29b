import LiveTree.Proofs.Association
import LiveTree.Proofs.Text.Cut
import LiveTree.Proofs.Text.Order
import LiveTree.Settings.Options

namespace LiveTree.Settings

/-- Whether an argument sets a parameter to a value. No name has an equals sign in it. -/
def Sets (argument name : Text) (value : Option Text) : Prop :=
  CodePoint.ofChar '=' ∉ name ∧ argument = Parameters.argument (name, value)

theorem argument_none (name : Text) :
    Parameters.argument (name, none) = CodePoint.ofChar '-' :: name := rfl

theorem argument_some (name value : Text) :
    Parameters.argument (name, some value) =
      CodePoint.ofChar '-' :: (name ++ CodePoint.ofChar '=' :: value) := by
  have hdash : ("-" : Text) = [CodePoint.ofChar '-'] := by decide
  have hequals : ("=" : Text) = [CodePoint.ofChar '='] := by decide
  simp [Parameters.argument, hdash, hequals]

theorem parameter?_argument {name : Text} (hname : CodePoint.ofChar '=' ∉ name)
    (value : Option Text) :
    parameter? (Parameters.argument (name, value)) = some (name, value) := by
  cases value with
  | none => rw [argument_none, parameter?, if_pos (beq_self_eq_true _), cutOnce_of_notMem hname]
  | some value =>
    rw [argument_some, parameter?, if_pos (beq_self_eq_true _), cutOnce_append_cons hname]

/-- An argument is read as it is written. -/
theorem parameter?_eq_some_iff {argument name : Text} {value : Option Text} :
    parameter? argument = some (name, value) ↔ Sets argument name value := by
  constructor
  · intro h
    cases argument with
    | nil => cases h
    | cons c rest =>
      rw [parameter?] at h
      split at h
      · rename_i hdash
        obtain rfl := eq_of_beq hdash
        by_cases hmem : CodePoint.ofChar '=' ∈ rest
        · obtain ⟨front, back, rfl, hfront⟩ := List.eq_append_cons_of_mem hmem
          rw [cutOnce_append_cons hfront] at h
          obtain ⟨rfl, rfl⟩ := Prod.mk.inj (Option.some.inj h)
          exact ⟨hfront, (argument_some front back).symm⟩
        · rw [cutOnce_of_notMem hmem] at h
          obtain ⟨rfl, rfl⟩ := Prod.mk.inj (Option.some.inj h)
          exact ⟨hmem, (argument_none rest).symm⟩
      · cases h
  · rintro ⟨hname, rfl⟩
    exact parameter?_argument hname value

/-- Whether the last argument that sets a parameter sets it to a value. -/
def SetsLast (arguments : List Text) (name : Text) (value : Option Text) : Prop :=
  ∃ front argument back, arguments = front ++ argument :: back ∧ Sets argument name value ∧
    ∀ later ∈ back, ∀ other, ¬Sets later name other

theorem not_setsLast_nil (name : Text) (value : Option Text) : ¬SetsLast [] name value := by
  rintro ⟨front, argument, back, h, -⟩
  exact absurd h.symm (List.append_ne_nil_of_right_ne_nil _ (List.cons_ne_nil _ _))

/-- One argument more decides for its own parameter, and for no other. -/
theorem setsLast_concat {arguments : List Text} {argument name : Text} {value : Option Text} :
    SetsLast (arguments ++ [argument]) name value ↔
      Sets argument name value ∨
        (∀ other, ¬Sets argument name other) ∧ SetsLast arguments name value := by
  constructor
  · rintro ⟨front, setter, back, h, hsets, hback⟩
    rcases List.eq_nil_or_concat' back with rfl | ⟨back, last, rfl⟩
    · obtain ⟨rfl, hlast⟩ := List.append_inj' h rfl
      obtain rfl := List.singleton_inj.mp hlast
      exact .inl hsets
    · rw [← List.cons_append, ← List.append_assoc] at h
      obtain ⟨rfl, hlast⟩ := List.append_inj' h rfl
      obtain rfl := List.singleton_inj.mp hlast
      have hkept : ∀ later ∈ back, ∀ other, ¬Sets later name other :=
        fun later hlater => hback later (List.mem_append_left _ hlater)
      exact .inr ⟨hback argument (List.mem_append_right _ (List.mem_singleton_self _)),
        front, setter, back, rfl, hsets, hkept⟩
  · rintro (hsets | ⟨hnot, front, setter, back, rfl, hsets, hback⟩)
    · exact ⟨arguments, argument, [], rfl, hsets, fun _ h => absurd h List.not_mem_nil⟩
    · refine ⟨front, setter, back ++ [argument], by simp, hsets, ?_⟩
      intro later hlater
      rcases List.mem_append.mp hlater with hmem | hmem
      · exact hback later hmem
      · exact (List.mem_singleton.mp hmem) ▸ hnot

namespace Parameters

open Association

theorem ofArguments_concat_none {argument : Text} (h : parameter? argument = none)
    (arguments : List Text) : ofArguments (arguments ++ [argument]) = ofArguments arguments := by
  rw [ofArguments, List.filterMap_append, List.filterMap_cons_none h, List.filterMap_nil,
    List.append_nil]
  rfl

theorem ofArguments_concat_some {argument name : Text} {value : Option Text}
    (h : parameter? argument = some (name, value)) (arguments : List Text) :
    ofArguments (arguments ++ [argument]) = put name value (ofArguments arguments) := by
  rw [ofArguments, List.filterMap_append, List.filterMap_cons_some h, List.filterMap_nil,
    collapse_concat]
  rfl

/-- A parameter has the value that it is set to last. -/
theorem find?_ofArguments_eq_some_iff {arguments : List Text} {name : Text}
    {value : Option Text} :
    find? name (ofArguments arguments) = some value ↔ SetsLast arguments name value := by
  induction arguments using List.reverseRecOn with
  | nil => exact iff_of_false nofun (not_setsLast_nil name value)
  | append_singleton arguments argument ih =>
    rw [setsLast_concat, ← ih]
    cases hargument : parameter? argument with
    | none =>
      have hnot : ∀ other, ¬Sets argument name other := fun other hsets => by
        rw [parameter?_eq_some_iff.mpr hsets] at hargument
        cases hargument
      rw [ofArguments_concat_none hargument, or_iff_right (hnot value), and_iff_right hnot]
    | some pair =>
      obtain ⟨key, set⟩ := pair
      rw [ofArguments_concat_some hargument, find?_put]
      have hsets : ∀ other, Sets argument name other ↔ name = key ∧ set = other := by
        intro other
        rw [← parameter?_eq_some_iff, hargument, Option.some.injEq, Prod.mk.injEq, eq_comm]
      simp only [hsets]
      by_cases hkey : name = key
      · simp [hkey]
      · simp [hkey]

theorem nodup_ofArguments (arguments : List Text) :
    ((ofArguments arguments).map Prod.fst).Nodup := nodup_collapse _

/-- Parameters that are written out are read back in their order. -/
theorem ofArguments_map_argument {parameters : Parameters}
    (distinct : (parameters.map Prod.fst).Nodup)
    (free : ∀ name ∈ parameters.map Prod.fst, CodePoint.ofChar '=' ∉ name) :
    ofArguments (parameters.map argument) = parameters := by
  have hread : (parameters.map argument).filterMap parameter? = parameters := by
    rw [List.filterMap_map]
    refine (List.filterMap_congr fun pair hpair => ?_).trans List.filterMap_some
    exact parameter?_argument (free pair.1 (List.mem_map_of_mem hpair)) pair.2
  rw [ofArguments, hread, collapse_of_nodup distinct]

end Parameters

open Association

/-- Options are made of what is unknown, of the values of flags, and of two parameters that count
by themselves. -/
theorem ofParameters_congr {parameters others : Parameters} {environment other : Environment}
    (unknown : unknownNames parameters = unknownNames others)
    (values : ∀ flag, value? parameters environment flag = value? others other flag)
    (print : find? Flag.print.name parameters = find? Flag.print.name others)
    (log : find? Flag.log.name parameters = find? Flag.log.name others) :
    Options.ofParameters parameters environment = Options.ofParameters others other := by
  simp only [Options.ofParameters, readPrintFile, contains, unknown, values, print, log]

section Lookup

variable {parameters others : Parameters}
  (h : ∀ name, find? name parameters = find? name others)

include h

theorem wantsHelp_congr : parameters.wantsHelp = others.wantsHelp := by
  rw [Parameters.wantsHelp, Parameters.wantsHelp, isEmpty_congr h, contains, contains, h]

/-- The report of unknown names does not depend on their order. -/
theorem unknownNames_congr (distinct : (parameters.map Prod.fst).Nodup)
    (distinct' : (others.map Prod.fst).Nodup) :
    unknownNames parameters = unknownNames others :=
  Text.sort_congr ((perm_keys h distinct distinct').filter _)

theorem ofParameters_eq_of_find? (distinct : (parameters.map Prod.fst).Nodup)
    (distinct' : (others.map Prod.fst).Nodup) (environment : Environment) :
    Options.ofParameters parameters environment = Options.ofParameters others environment := by
  apply ofParameters_congr (unknownNames_congr h distinct distinct') _ (h _) (h _)
  intro flag
  rw [value?, value?, h]

end Lookup

/-- Of the arguments of a command line only the last setting of each parameter counts, and not
their order: command lines that agree in this ask for help alike, and come to the same options or
the same fault. Parameters that are written out as arguments are read back as they are. -/
theorem last_settings_count :
    (∀ arguments others : List Text,
      (∀ name value, SetsLast arguments name value ↔ SetsLast others name value) →
        (Parameters.ofArguments arguments).wantsHelp = (Parameters.ofArguments others).wantsHelp ∧
        ∀ environment, Options.ofParameters (.ofArguments arguments) environment =
          Options.ofParameters (.ofArguments others) environment) ∧
    ∀ parameters : Parameters, (parameters.map Prod.fst).Nodup →
      (∀ name ∈ parameters.map Prod.fst, CodePoint.ofChar '=' ∉ name) →
        .ofArguments (parameters.map Parameters.argument) = parameters := by
  refine ⟨fun arguments others agree => ?_,
    fun parameters distinct free => Parameters.ofArguments_map_argument distinct free⟩
  have hfind : ∀ name, find? name (Parameters.ofArguments arguments) =
      find? name (Parameters.ofArguments others) := by
    intro name
    ext value
    rw [Parameters.find?_ofArguments_eq_some_iff, Parameters.find?_ofArguments_eq_some_iff, agree]
  exact ⟨wantsHelp_congr hfind, ofParameters_eq_of_find? hfind (Parameters.nodup_ofArguments _)
    (Parameters.nodup_ofArguments _)⟩

/-- Settings that are overridden, a value with signs in it, an argument that is no setting, and a
name that is unknown. -/
theorem last_settings_count_overridden :
    let arguments : List Text :=
      ["-lua=old", "-bad", "-main=-a=b", "-lua", "x", "-lua=lua", "-bad="]
    let others : List Text := ["-bad=", "-main=-a=b", "-lua=lua"]
    (∀ name value, SetsLast arguments name value ↔ SetsLast others name value) ∧
      Options.ofParameters (.ofArguments arguments) [] =
        Options.ofParameters (.ofArguments others) [] ∧
      Parameters.ofArguments (["-main=-a=b", "-log", "-=="] : List Text) =
        ([("main", some "-a=b"), ("log", none), ("", some "=")] : Parameters) := by
  intro arguments others
  have hread : Parameters.ofArguments arguments =
      ([("lua", some "lua"), ("bad", some ""), ("main", some "-a=b")] : Parameters) := by
    decide +kernel
  have hread' : Parameters.ofArguments others =
      ([("bad", some ""), ("main", some "-a=b"), ("lua", some "lua")] : Parameters) := by
    decide +kernel
  have hperm : (Parameters.ofArguments arguments).Perm (Parameters.ofArguments others) := by
    rw [hread, hread']
    decide
  have agree : ∀ name value, SetsLast arguments name value ↔ SetsLast others name value := by
    intro name value
    rw [← Parameters.find?_ofArguments_eq_some_iff, ← Parameters.find?_ofArguments_eq_some_iff,
      find?_congr_perm (Parameters.nodup_ofArguments _) hperm]
  refine ⟨agree, (last_settings_count.1 arguments others agree).2 [], ?_⟩
  exact last_settings_count.2 [("main", some "-a=b"), ("log", none), ("", some "=")] (by decide)
    (by decide)

end LiveTree.Settings
