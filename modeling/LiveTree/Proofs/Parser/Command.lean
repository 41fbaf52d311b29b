import LiveTree.Proofs.Parser.Ending
import LiveTree.Proofs.Settings.Parameters

namespace LiveTree.Settings.Parameters

open Association

/-- One parameter with a value, or none at all. -/
def optional (name : Text) (value : Option Text) : Parameters :=
  value.toList.map fun set => (name, some set)

theorem keys_optional_sublist (name : Text) (value : Option Text) :
    ((optional name value).map Prod.fst).Sublist [name] := by
  cases value with
  | none => exact List.nil_sublist _
  | some value => exact List.Sublist.refl _

theorem find?_optional_append (name key : Text) (value : Option Text) (rest : Parameters) :
    find? key (optional name value ++ rest) =
      if name = key then (value.map some).or (find? key rest) else find? key rest := by
  cases value with
  | none => simp [optional]
  | some value => exact find?_cons key name (some value) rest

end LiveTree.Settings.Parameters

namespace LiveTree.Parser

open Settings

/-- What the command line of a request says. -/
def Request.parameters (request : Request) (workdir : Text) : Parameters :=
  .optional "mode" (some "parse") ++ .optional "entry" (nonEmpty request.entry) ++
    .optional "src" (if request.inline then request.source else none) ++
    .optional "input" ((nonEmpty request.path).map (Path.absolute workdir))

/-- A flag is the argument of a parameter, unless its value is empty. -/
theorem flag_eq (name : Text) (value : Option Text) :
    flag ("-" ++ name ++ "=") value =
      (Parameters.optional name (nonEmpty value)).map Parameters.argument := by
  rcases value with _ | _ | ⟨c, s⟩ <;> rfl

section Arguments

variable (program : Program) (workdir : Text) (request : Request)

/-- The runtime and the program come first, and an argument for each parameter behind them. -/
theorem arguments_eq :
    program.arguments workdir request =
      program.lua :: Path.normalise program.main ::
        (request.parameters workdir).map Parameters.argument := by
  have hentry : flag "-entry=" request.entry =
      (Parameters.optional "entry" (nonEmpty request.entry)).map Parameters.argument :=
    flag_eq "entry" request.entry
  rw [Request.parameters, List.map_append, List.map_append, List.map_append]
  refine congrArg₂ (· ++ ·) (congrArg₂ (· ++ ·) (congrArg ([_, _, _] ++ ·) hentry) ?_) ?_
  · cases request.inline <;> cases request.source <;> rfl
  · rcases request.path with _ | _ | ⟨c, s⟩
    · rfl
    · rfl
    · obtain ⟨d, t, habsolute⟩ := List.exists_cons_of_ne_nil (Path.absolute_ne_nil workdir (c :: s))
      simp only [nonEmpty, Option.map_some, habsolute]
      rfl

theorem keys_parameters_sublist :
    ((request.parameters workdir).map Prod.fst).Sublist ["mode", "entry", "src", "input"] := by
  simp only [Request.parameters, List.map_append]
  exact (((Parameters.keys_optional_sublist _ _).append (Parameters.keys_optional_sublist _ _)).append
    (Parameters.keys_optional_sublist _ _)).append (Parameters.keys_optional_sublist _ _)

/-- A command line is read as the request that it is written for. -/
theorem ofArguments_arguments :
    Parameters.ofArguments ((program.arguments workdir request).drop 2) =
      request.parameters workdir := by
  have hkeys := keys_parameters_sublist workdir request
  have hfree : ∀ key ∈ (["mode", "entry", "src", "input"] : List Text),
      CodePoint.ofChar '=' ∉ key := by decide
  rw [arguments_eq]
  exact Parameters.ofArguments_map_argument (hkeys.nodup (by decide))
    fun name hname => hfree name (hkeys.subset hname)

theorem find?_src_parameters :
    Association.find? "src" (request.parameters workdir) =
      (if request.inline then request.source else none).map some := by
  have hinput : Association.find? "src"
      (Parameters.optional "input" ((nonEmpty request.path).map (Path.absolute workdir))) = none := by
    rw [← List.append_nil (Parameters.optional _ _), Parameters.find?_optional_append,
      if_neg (by decide)]
    rfl
  rw [Request.parameters, List.append_assoc, List.append_assoc, Parameters.find?_optional_append,
    if_neg (by decide), Parameters.find?_optional_append, if_neg (by decide),
    Parameters.find?_optional_append, if_pos rfl, hinput, Option.or_none]

end Arguments

/-- How far an input has come after some moments: it waits until it is written. -/
inductive Feeding.Fed (moments : List Moment) : Option Octets → Feeding → Prop
  | absent : Fed moments none .absent
  | waiting {octets : Octets} (unwritten : .turn .write ∉ moments) :
    Fed moments (some octets) (.waiting octets)
  | written {octets : Octets} (written : .turn .write ∈ moments) :
    Fed moments (some octets) (.written octets)
  | closed {octets : Octets} (written : .turn .write ∈ moments) :
    Fed moments (some octets) (.closed octets)

section Fed

variable {process : Process} {timeout : Float} {input : Option Octets} {moments : List Moment}
  {feeding : Feeding} {c : Course}

theorem Feeding.Fed.append (h : feeding.Fed moments input) {m : Moment} (hm : m ≠ .turn .write) :
    feeding.Fed (moments ++ [m]) input := by
  have hmem : .turn .write ∈ moments ++ [m] ↔ .turn .write ∈ moments := by
    rw [List.mem_append, List.mem_singleton, or_iff_left hm.symm]
  cases h with
  | absent => exact .absent
  | waiting unwritten => exact .waiting (mt hmem.mp unwritten)
  | written written => exact .written (hmem.mpr written)
  | closed written => exact .closed (hmem.mpr written)

theorem Feeding.Fed.step (h : c.exchange.feeding.Fed moments input) {m : Moment} {next : Course}
    (hstep : c.step process timeout m = some next) :
    next.exchange.feeding.Fed (moments ++ [m]) input := by
  obtain ⟨rfl, -, rfl⟩ | ⟨t, e, rfl, -, -, hturn, rfl⟩ := Course.step_cases hstep
  · exact h.append nofun
  -- Of the four turns only a write is told by `moments`, and it finds the input waiting.
  rcases Exchange.turn_cases hturn with ⟨octets, rfl, hf, rfl⟩ | ⟨octets, rfl, hf, rfl⟩ |
    ⟨count, lines, reader, rfl, -, rfl⟩ | ⟨count, lines, reader, rfl, -, rfl⟩
  · rw [hf] at h
    cases h with
    | waiting => exact .written (List.mem_append_right _ (List.mem_singleton_self _))
  · rw [hf] at h
    cases h with
    | written written => exact .closed (List.mem_append_left _ written)
  · exact h.append nofun
  · exact h.append nofun

theorem fed_start (process : Process) (input : Option Octets) :
    (Course.start process input).exchange.feeding.Fed [] input := by
  cases input with
  | none => exact .absent
  | some octets => exact .waiting List.not_mem_nil

theorem fed_run (hrun : (Course.start process input).run process timeout moments = some c) :
    c.exchange.feeding.Fed moments input :=
  Course.run_induction (P := fun moments c => c.exchange.feeding.Fed moments input)
    (fun h hstep => h.step hstep) (fed_start process input) hrun

/-- What is written is written whole, and then the input is closed in any case. -/
theorem Feeding.Fed.seen {octets : Octets} (h : feeding.Fed moments (some octets)) :
    (.turn .write ∈ moments → feeding.seen = some ⟨octets, true⟩) ∧
      (.turn .write ∉ moments → feeding.seen = some ⟨[], false⟩) := by
  cases h with
  | waiting unwritten => exact ⟨fun written => absurd written unwritten, fun _ => rfl⟩
  | written written => exact ⟨fun _ => rfl, fun unwritten => absurd written unwritten⟩
  | closed written => exact ⟨fun _ => rfl, fun unwritten => absurd written unwritten⟩

theorem Feeding.Fed.seen_none (h : feeding.Fed moments none) : feeding.seen = none := by
  cases h with
  | absent => rfl

end Fed

namespace Report

/-- What the command line said, if a process was to be started. -/
def parameters (report : Report) : Parameters := .ofArguments ((report.command.getD []).drop 2)

/-- What became of the standard input, if a process was started with one. -/
def input (report : Report) : Option Input := report.process.bind (·.input)

end Report

theorem input_run (process : Process) (timeout : Float) (input : Option Octets) :
    (process.run timeout input).input =
      input.map fun octets => if timeout ≤ 0 then ⟨[], false⟩ else ⟨octets, true⟩ := by
  by_cases hnone : timeout ≤ 0
  · simp [Process.run, Report.input, hnone]
  · have hoffer : process.offer = fun octets => ⟨octets, true⟩ := rfl
    cases hruns : process.runsOut timeout <;>
      simp [Process.run, Report.input, hoffer, hnone, hruns]

/-- What a parse that starts a process tells it: the request on the command line, and the input. -/
theorem told_of_started {request : Request} {input : Option Octets}
    (encoded : request.input?.map Utf8.encode? = input.map some) (program : Program)
    (workdir : Text) (timeout : Float) (process : Process) :
    let report := program.parse workdir timeout request (.started process)
    report.parameters = request.parameters workdir ∧
      report.input =
        input.map fun octets => if timeout ≤ 0 then ⟨[], false⟩ else ⟨octets, true⟩ := by
  intro report
  have hreport : report = _ := parse_started encoded program workdir timeout process
  rw [hreport]
  exact ⟨ofArguments_arguments program workdir request, input_run process timeout input⟩

/-- A line feed can be encoded. -/
theorem exists_encode?_line {source : Text} (clear : ∀ c ∈ source, c.isSurrogate = false) :
    ∃ octets, Utf8.encode? (source ++ "\n") = some octets := by
  rw [← Option.isSome_iff_exists, Option.isSome_iff_ne_none, ne_eq, Utf8.encode?_eq_none_iff]
  rintro ⟨c, hc, hsurrogate⟩
  rcases List.mem_append.mp hc with hsource | hend
  · rw [clear c hsource] at hsurrogate
    cases hsurrogate
  · obtain rfl : c = CodePoint.ofChar '\n' := List.mem_singleton.mp hend
    cases hsurrogate

section Source

variable {request : Request} {source : Text} (given : request.source = some source)
  (program : Program) (workdir : Text) (timeout : Float) (process : Process)

include given

/-- An inline source is in the command line, and there is no input. -/
theorem inline_source (inline : request.inline = true) :
    let report := program.parse workdir timeout request (.started process)
    Association.find? "src" report.parameters = some (some source) ∧ report.input = none := by
  have encoded : request.input?.map Utf8.encode? = (none : Option Octets).map some := by
    rw [Request.input?, if_pos inline]
    rfl
  obtain ⟨hparameters, hinput⟩ := told_of_started encoded program workdir timeout process
  refine ⟨?_, hinput⟩
  rw [hparameters, find?_src_parameters, if_pos inline, given]
  rfl

/-- A source that is not inline and has octets is not in the command line. -/
theorem literal_source (literal : request.inline = false) {octets : Octets}
    (hoctets : Utf8.encode? (source ++ "\n") = some octets) :
    let report := program.parse workdir timeout request (.started process)
    Association.find? "src" report.parameters = none ∧
      report.input = some (if timeout ≤ 0 then ⟨[], false⟩ else ⟨octets, true⟩) := by
  have encoded : request.input?.map Utf8.encode? = (some octets).map some := by
    simp [Request.input?, literal, given, hoctets]
  obtain ⟨hparameters, hinput⟩ := told_of_started encoded program workdir timeout process
  refine ⟨?_, hinput⟩
  rw [hparameters, find?_src_parameters, literal]
  rfl

theorem garbled_source (literal : request.inline = false)
    (garbled : ∃ c ∈ source, c.isSurrogate = true) (launch : Launch) :
    program.parse workdir timeout request launch = { result := .error .unencodable } := by
  have hencode : Utf8.encode? (source ++ "\n") = none := by
    obtain ⟨c, hc, hsurrogate⟩ := garbled
    exact Utf8.encode?_eq_none_iff.mpr ⟨c, List.mem_append_left _ hc, hsurrogate⟩
  have hinput : request.input?.map Utf8.encode? = some none := by
    simp [Request.input?, literal, given, hencode]
  rw [Program.parse, hinput]

end Source

/-- The command line of a request is read as just what the request says, and the source of a
request gets to the process that is started in one way: if it is inline, as `src` in the command
line, without any input; if not, as the input with a line feed behind it, without `src`. That holds
of every course that the process may take, unless the time limit is hit before the input is written.
A limit of zero or less is hit at once. For a source with a surrogate, which has no octets to write,
no process is started. -/
theorem command_carries (program : Program) (workdir : Text) (request : Request) :
    Parameters.ofArguments ((program.arguments workdir request).drop 2) =
        request.parameters workdir ∧
      ∀ source, request.source = some source → ∀ (timeout : Float) (process : Process),
        let report := program.parse workdir timeout request (.started process)
        let src := Association.find? "src" report.parameters
        (request.inline = true → src = some (some source) ∧ report.input = none ∧
          ∀ moments c, (Course.start process none).run process timeout moments = some c →
            (c.timeUp timeout).input = none) ∧
        (request.inline = false → (∀ c ∈ source, c.isSurrogate = false) →
          ∃ octets, Utf8.encode? (source ++ "\n") = some octets ∧ src = none ∧
            report.input = some (if timeout ≤ 0 then ⟨[], false⟩ else ⟨octets, true⟩) ∧
            ∀ moments c,
              (Course.start process (some octets)).run process timeout moments = some c →
                (.turn .write ∈ moments → (c.timeUp timeout).input = some ⟨octets, true⟩) ∧
                (.turn .write ∉ moments → (c.timeUp timeout).input = some ⟨[], false⟩) ∧
                ∀ settled, c.settle? timeout = some settled →
                  settled.input = some ⟨octets, true⟩) ∧
        (request.inline = false → (∃ c ∈ source, c.isSurrogate = true) →
          report.result = .error .unencodable ∧ report.command = none ∧ report.process = none) := by
  refine ⟨ofArguments_arguments program workdir request, fun source given timeout process => ?_⟩
  intro report src
  refine ⟨fun inline => ?_, fun literal clear => ?_, fun literal garbled => ?_⟩
  · obtain ⟨hsrc, hinput⟩ := inline_source given program workdir timeout process inline
    exact ⟨hsrc, hinput, fun moments c hrun => (fed_run hrun).seen_none⟩
  · obtain ⟨octets, encoded⟩ := exists_encode?_line clear
    obtain ⟨hsrc, hinput⟩ := literal_source given program workdir timeout process literal encoded
    refine ⟨octets, encoded, hsrc, hinput, fun moments c hrun => ?_⟩
    obtain ⟨hwritten, hwaiting⟩ := (fed_run hrun).seen
    refine ⟨hwritten, hwaiting, fun settled hsettle => ?_⟩
    have hunderway := (Course.underway_start process timeout (some octets)).run hrun
    obtain ⟨⟨hpositive, -⟩, rfl⟩ := hunderway.settle hsettle
    rw [input_run, Option.map_some, if_neg hpositive]
  · have hreport : report = _ :=
      garbled_source given program workdir timeout literal garbled (.started process)
    rw [hreport]
    exact ⟨rfl, rfl, rfl⟩

/-- An inline source and an entry that look like flags, and a source that goes to the input. -/
theorem command_carries_flags :
    let program : Program := ⟨"lua", "main.lua"⟩
    let request : Request :=
      { path := some "a -b=c", source := some "-x=1 2", entry := some "e=f", inline := true }
    Parameters.ofArguments ((program.arguments "/" request).drop 2) =
        ([("mode", some "parse"), ("entry", some "e=f"), ("src", some "-x=1 2"),
          ("input", some "/a -b=c")] : Parameters) ∧
      (program.parse "/" 5 request (.started {})).input = none ∧
      ∃ octets, Utf8.encode? "é\n" = some octets ∧
        (program.parse "/" 5 { source := some "é" } (.started {})).input = some ⟨octets, true⟩ := by
  intro program request
  have hrequest : request.parameters "/" = ([("mode", some "parse"), ("entry", some "e=f"),
      ("src", some "-x=1 2"), ("input", some "/a -b=c")] : Parameters) := by
    decide +kernel
  obtain ⟨hcommand, hinline⟩ := command_carries program "/" request
  obtain ⟨-, hliteral⟩ := command_carries program "/" { source := some "é" }
  obtain ⟨-, hclosed, -⟩ := (hinline "-x=1 2" rfl 5 {}).1 rfl
  have hclear : ∀ c ∈ Text.ofString "é", c.isSurrogate = false := by
    intro c hc
    obtain rfl : c = CodePoint.ofChar 'é' := List.mem_singleton.mp hc
    decide
  obtain ⟨octets, hencoded, -, hinput, -⟩ := (hliteral "é" rfl 5 {}).2.1 rfl hclear
  rw [if_neg (by decide +kernel)] at hinput
  exact ⟨hcommand.trans hrequest, hclosed, octets, hencoded, hinput⟩

/-- At a limit of zero nothing is written, and of a surrogate nothing can be. -/
theorem source_not_carried :
    let program : Program := ⟨"lua", "main.lua"⟩
    let process : Process := { stdout := [[0x5B, 0x5D, 0x0A]] }
    let late := program.parse "/" 0 { source := some "x" } (.started process)
    let garbled := program.parse "/" 5 { source := some [.ofNat 0xD800] } (.started process)
    (Association.find? "src" late.parameters = none ∧ late.input = some ⟨[], false⟩) ∧
      Association.find? "src" garbled.parameters = none ∧ garbled.process = none := by
  intro program process late garbled
  have encoded : Utf8.encode? (Text.ofString "x" ++ "\n") = some [0x78, 0x0A] := by
    decide +kernel
  have given : ({ source := some "x" } : Request).source = some (Text.ofString "x") := rfl
  have hlate := literal_source given program "/" 0 process rfl encoded
  rw [if_pos (by decide +kernel)] at hlate
  exact ⟨hlate, rfl, rfl⟩

end LiveTree.Parser
