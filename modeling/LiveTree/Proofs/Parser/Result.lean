import LiveTree.Proofs.File.Path
import LiveTree.Proofs.Parser.Run

namespace LiveTree.Parser

/-- Whether a process is started whose output ends in a line that is nested too deeply, and nothing
else is wrong with it. -/
def Launch.EndsTooDeep (timeout : Float) (launch : Launch) : Prop :=
  ∃ process, launch = .started process ∧ ¬timeout ≤ 0 ∧ process.runsOut timeout = false ∧
    0 ≤ process.exit ∧ TooDeep (lastLine process.stdout.flatten)

/-- Whether a parse fails for which nobody takes the process to blame: it cannot be told to the
process at all, or its output is too deep. -/
def Launch.Escapes (timeout : Float) (launch : Launch) : Prop :=
  launch.EndsTooDeep timeout ∨ ∃ reason, launch = .unfit reason

/-- What a process comes to that stays within its time limit. -/
theorem run_of_within {process : Process} {timeout : Float} (hpositive : ¬timeout ≤ 0)
    (hwithin : process.runsOut timeout = false) (input : Option Octets) :
    process.run timeout input =
      let concluded := conclude process.exit (lastLine process.stdout.flatten)
      { result := concluded.1
        log := concluded.2
        stdout := (Candidate.pushAll none (allLines process.stdout)).2
        stderr := allLines process.stderr
        process := some ⟨input.map process.offer, false, process.exit⟩ } := by
  have hhangs : process.hangs = false := (Bool.or_eq_false_iff.mp hwithin).1
  have hlines : process.lines = allLines process.stdout := by
    simp [Process.lines, hhangs]
  simp [Process.run, hpositive, hwithin, hlines, pushAll_allLines]

theorem result_run {process : Process} {timeout : Float} (hpositive : ¬timeout ≤ 0)
    (hwithin : process.runsOut timeout = false) (input : Option Octets) :
    (process.run timeout input).result =
      (conclude process.exit (lastLine process.stdout.flatten)).1 := by
  rw [run_of_within hpositive hwithin]

theorem result_run_cases (process : Process) (timeout : Float) (input : Option Octets) :
    (∃ exit, (process.run timeout input).result = .error (.timedOut timeout exit)) ∨
      ¬timeout ≤ 0 ∧ process.runsOut timeout = false := by
  by_cases hpositive : timeout ≤ 0
  · exact .inl ⟨process.timeOut.2, by simp [Process.run, hpositive]⟩
  · cases hwithin : process.runsOut timeout with
    | false => exact .inr ⟨hpositive, rfl⟩
    | true => exact .inl ⟨process.timeOut.2, by simp [Process.run, hpositive, hwithin]⟩

theorem conclude_error {exit : Int} {candidate : Candidate} {fault : Fault}
    (h : (conclude exit candidate).1 = .error fault) :
    fault = .killed exit ∨ fault = .tooDeep ∧ 0 ≤ exit ∧ TooDeep candidate := by
  by_cases hexit : exit < 0
  · rw [conclude, if_pos hexit] at h
    exact .inl (Except.error.inj h).symm
  · by_cases hdeep : TooDeep candidate
    · rw [conclude_of_tooDeep (Int.not_lt.mp hexit) hdeep] at h
      exact .inr ⟨(Except.error.inj h).symm, Int.not_lt.mp hexit, hdeep⟩
    · rw [conclude_of_not_tooDeep (Int.not_lt.mp hexit) hdeep] at h
      cases h

section File

variable (program : Program) (workdir : Text) (timeout : Float) (path : Text)
  (entry : Option Text) (launch : Launch)

theorem arguments_path {path : Text} (hne : path ≠ []) :
    program.arguments workdir { path := some path, entry } =
      [program.lua, Path.normalise program.main, "-mode=parse"] ++ flag "-entry=" entry ++
        ["-input=" ++ Path.absolute workdir path] := by
  obtain ⟨c, rest, rfl⟩ := List.exists_cons_of_ne_nil hne
  obtain ⟨d, more, hmore⟩ :=
    List.exists_cons_of_ne_nil (Path.absolute_ne_nil workdir (c :: rest))
  simp [Program.arguments, flag, hmore]

theorem arguments_file {path : Text} (hne : path ≠ []) (hpath : Path.absolute workdir path = path) :
    program.arguments workdir { path := some path, entry } =
      [program.lua, Path.normalise program.main, "-mode=parse"] ++ flag "-entry=" entry ++
        ["-input=" ++ path] := by
  rw [arguments_path program workdir entry hne, hpath]

theorem command_file :
    (program.parse workdir timeout { path := some path, entry } launch).command =
      some (program.arguments workdir { path := some path, entry }) := by
  cases launch <;> rfl

theorem result_file_started (process : Process) :
    (program.parse workdir timeout { path := some path, entry } (.started process)).result =
      (process.run timeout none).result := rfl

/-- A parse of a file fails on account of the process, of its command line or of nesting. -/
theorem file_error_cases {fault : Fault}
    (h : (program.parse workdir timeout { path := some path, entry } launch).result =
      .error fault) :
    fault.isOfProcess = true ∨ fault = .tooDeep ∧ launch.EndsTooDeep timeout ∨
      ∃ reason, fault = .unfit reason ∧ launch = .unfit reason := by
  cases launch with
  | refused reason =>
    obtain rfl := Except.error.inj h
    exact .inl rfl
  | unfit reason =>
    obtain rfl := Except.error.inj h
    exact .inr (.inr ⟨reason, rfl, rfl⟩)
  | started process =>
    rw [result_file_started] at h
    obtain ⟨exit, htimedOut⟩ | ⟨hpositive, hwithin⟩ := result_run_cases process timeout none
    · rw [htimedOut] at h
      obtain rfl := Except.error.inj h
      exact .inl rfl
    · rw [result_run hpositive hwithin] at h
      obtain rfl | ⟨rfl, hexit, hdeep⟩ := conclude_error h
      · exact .inl rfl
      · exact .inr (.inl ⟨rfl, process, rfl, hpositive, hwithin, hexit, hdeep⟩)

/-- A parse of a file fails for which the process is not to blame just where it escapes. -/
theorem file_escapes_iff :
    (∃ fault, (program.parse workdir timeout { path := some path, entry } launch).result =
      .error fault ∧ fault.isOfProcess = false) ↔ launch.Escapes timeout := by
  constructor
  · rintro ⟨fault, hresult, hblame⟩
    obtain hprocess | ⟨-, hends⟩ | ⟨reason, -, hunfit⟩ :=
      file_error_cases program workdir timeout path entry launch hresult
    · cases hprocess.symm.trans hblame
    · exact .inl hends
    · exact .inr ⟨reason, hunfit⟩
  · rintro (⟨process, rfl, hpositive, hwithin, hexit, hdeep⟩ | ⟨reason, rfl⟩)
    · refine ⟨.tooDeep, ?_, rfl⟩
      rw [result_file_started, result_run hpositive hwithin, conclude_of_tooDeep hexit hdeep]
    · exact ⟨.unfit reason, rfl, rfl⟩

end File

end LiveTree.Parser
