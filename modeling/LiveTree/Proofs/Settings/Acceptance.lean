import LiveTree.Proofs.Decimal.Comparison
import LiveTree.Proofs.Decimal.Numeral
import LiveTree.Settings.Options

namespace LiveTree.Settings

theorem nonEmpty_eq_some_iff {value : Option Text} {s : Text} :
    nonEmpty value = some s ↔ value = some s ∧ s ≠ [] := by
  rcases value with _ | _ | ⟨c, t⟩
  · simp [nonEmpty]
  · simp [nonEmpty]
  · simp only [nonEmpty, Option.some.injEq]
    constructor
    · rintro rfl
      exact ⟨rfl, List.cons_ne_nil c t⟩
    · exact fun h => h.1

/-- The value of a flag is never empty, wherever it comes from. -/
theorem value?_ne_nil {parameters : Parameters} {environment : Environment} {flag : Flag} {s : Text}
    (h : value? parameters environment flag = some s) : s ≠ [] := by
  rw [value?] at h
  split at h
  · rename_i value hvalue
    obtain rfl := Option.some.inj h
    exact (nonEmpty_eq_some_iff.mp hvalue).2
  · exact (nonEmpty_eq_some_iff.mp h).2

theorem readPrintFile_ne_nil {parameters : Parameters} {file : Text}
    (h : readPrintFile parameters = .ok (some file)) : file ≠ [] := by
  rw [readPrintFile] at h
  split at h
  · cases h
  · split at h
    · cases h
    · rename_i file' hfile
      obtain rfl := Option.some.inj (Except.ok.inj h)
      exact (nonEmpty_eq_some_iff.mp hfile).2

theorem readPort_le {text : Option Text} {port : Nat} (h : readPort text = .ok (some port)) :
    port ≤ maxPort := by
  cases text with
  | none => cases h
  | some s =>
    simp only [readPort] at h
    split at h
    · cases h
    · cases h
    · split at h
      · rename_i hle
        obtain rfl := Option.some.inj (Except.ok.inj h)
        exact hle
      · cases h

theorem pos_iff_of_not_le {x : Float} (h : ¬x ≤ 0) : 0 < x ↔ x.isNaN = false := by
  constructor
  · exact fun hpos => (Binary64.isNaN_of_le (Binary64.le_of_lt hpos)).2
  · intro hnumber
    have hzero : (0 : Float).isNaN = false := by decide +kernel
    exact (Binary64.lt_or_le hnumber hzero).resolve_right h

/-- The guard lets every positive number pass, and what is no number besides. -/
theorem readTimeout_pos_iff {text : Option Text} {seconds : Float}
    (h : readTimeout text = .ok seconds) :
    0 < seconds ↔ ∀ s, text = some s → ¬Numeral.NamesNan s := by
  cases text with
  | none =>
    obtain rfl := Except.ok.inj h
    exact iff_of_true (by decide +kernel) nofun
  | some s =>
    rw [readTimeout] at h
    split at h
    · cases h
    · rename_i x hread
      split at h
      · cases h
      · rename_i hguard
        obtain rfl := Except.ok.inj h
        rw [pos_iff_of_not_le hguard, ← Bool.not_eq_true, Numeral.isNaN_readFloat hread]
        simp

/-- What accepted options are made of. -/
structure Accepted (parameters : Parameters) (environment : Environment) (options : Options) :
    Prop where
  lua : value? parameters environment .lua = some options.lua
  main : value? parameters environment .main = some options.main
  root : options.root = (value? parameters environment .root).getD "."
  entry : options.entry = value? parameters environment .entry
  printFile : readPrintFile parameters = .ok options.printFile
  port : readPort (value? parameters environment .port) = .ok options.port
  timeout : readTimeout (value? parameters environment .timeout) = .ok options.timeout

variable {parameters : Parameters} {environment : Environment} {options : Options}

theorem accepted_of_ofParameters (h : Options.ofParameters parameters environment = .ok options) :
    Accepted parameters environment options := by
  rw [Options.ofParameters] at h
  split at h
  · cases h
  split at h
  · cases h
  rename_i lua hlua
  split at h
  · cases h
  rename_i main hmain
  cases hprint : readPrintFile parameters with
  | error fault =>
    rw [hprint] at h
    cases h
  | ok printFile =>
    cases hport : readPort (value? parameters environment .port) with
    | error fault =>
      rw [hprint, hport] at h
      cases h
    | ok port =>
      cases htimeout : readTimeout (value? parameters environment .timeout) with
      | error fault =>
        rw [hprint, hport, htimeout] at h
        cases h
      | ok timeout =>
        rw [hprint, hport, htimeout] at h
        obtain rfl := Except.ok.inj h
        exact ⟨hlua, hmain, rfl, rfl, hprint, hport, htimeout⟩

theorem Accepted.root_ne_nil (h : Accepted parameters environment options) : options.root ≠ [] := by
  rw [h.root]
  cases hroot : value? parameters environment .root with
  | none => decide
  | some root => exact value?_ne_nil hroot

/-- Options that were accepted name a runtime, a program and a root, and nothing in them that has a
name has an empty one. Their port is one that there is, and their timeout is positive, unless the
text that it was read from names what is no number. -/
theorem accepted_usable {arguments : List Text}
    (h : Options.ofParameters (.ofArguments arguments) environment = .ok options) :
    (options.lua ≠ [] ∧ options.main ≠ [] ∧ options.root ≠ []) ∧
      (options.entry ≠ some [] ∧ options.printFile ≠ some []) ∧
      (∀ port, options.port = some port → port ≤ 65535) ∧
      (0 < options.timeout ↔ ∀ s, value? (.ofArguments arguments) environment .timeout = some s →
        ¬Numeral.NamesNan s) := by
  have accepted := accepted_of_ofParameters h
  refine ⟨⟨value?_ne_nil accepted.lua, value?_ne_nil accepted.main, accepted.root_ne_nil⟩,
    ⟨?_, ?_⟩, ?_, readTimeout_pos_iff accepted.timeout⟩
  · intro hentry
    exact value?_ne_nil (accepted.entry.symm.trans hentry) rfl
  · intro hprint
    exact readPrintFile_ne_nil (hprint ▸ accepted.printFile) rfl
  · intro port hport
    exact readPort_le (hport ▸ accepted.port)

theorem eq_ok_of_toOption {ε α : Type} {result : Except ε α} {a : α}
    (h : result.toOption = some a) : result = .ok a := by
  cases result with
  | error e => cases h
  | ok b => exact congrArg _ (Option.some.inj h)

/-- A port with a sign and an underscore, a timeout without end, and a root from the environment. -/
theorem accepted_usable_endless :
    let arguments : List Text := ["-lua=lua", "-main=m.lua", "-port=+8_080", "-timeout= Inf"]
    let environment : Environment := [("DESCEND_ROOT", "src"), ("DESCEND_TIMEOUT", "nan")]
    ∃ options, Options.ofParameters (.ofArguments arguments) environment = .ok options ∧
      options.lua ≠ [] ∧ options.root ≠ [] ∧ options.port = some 8080 ∧ 0 < options.timeout := by
  intro arguments environment
  have hport : (Options.ofParameters (.ofArguments arguments) environment).toOption.map
      Options.port = some (some 8080) := by
    decide +kernel
  obtain ⟨options, hoption, hport⟩ := Option.map_eq_some_iff.mp hport
  have hoptions := eq_ok_of_toOption hoption
  obtain ⟨⟨hlua, -, hroot⟩, -, -, htimeout⟩ := accepted_usable hoptions
  refine ⟨options, hoptions, hlua, hroot, hport, htimeout.mpr fun s hs => ?_⟩
  have hvalue : value? (.ofArguments arguments) environment .timeout = some " Inf" := by
    decide +kernel
  obtain rfl := Option.some.inj (hvalue.symm.trans hs)
  decide +kernel

/-- A timeout that is no number is accepted. -/
theorem nan_accepted :
    ∃ options, Options.ofParameters (.ofArguments ["-lua=lua", "-main=m.lua", "-timeout=nan"]) [] =
      .ok options ∧ ¬0 < options.timeout := by
  have htimeout : (Options.ofParameters
      (.ofArguments ["-lua=lua", "-main=m.lua", "-timeout=nan"]) []).toOption.map
        (fun options => decide (0 < options.timeout)) = some false := by
    decide +kernel
  obtain ⟨options, hoption, hnot⟩ := Option.map_eq_some_iff.mp htimeout
  exact ⟨options, eq_ok_of_toOption hoption, of_decide_eq_false hnot⟩

end LiveTree.Settings
