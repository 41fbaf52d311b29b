import LiveTree.Proofs.File.Tree
import LiveTree.Proofs.Parser.Result
import LiveTree.Web.Server

namespace LiveTree

namespace Web.Route

theorem ne_nil_of_fileAfter? {start path file : Text} (h : fileAfter? start path = some file) :
    file ≠ [] := by
  rintro rfl
  have hname := (Option.filter_eq_some_iff.mp h).2
  cases hname

/-- The file that a route names, and what is shown of its tree. -/
def shown? : Route → Option (Text × (Syntax.Node → Json))
  | .parse file => some (file, Syntax.Node.toJson)
  | .tree file => some (file, fun node => (Display.ofSyntax none node).toJson)
  | _ => none

theorem ne_nil_of_shown? {path file : Text} {toJson : Syntax.Node → Json}
    (h : (ofPath path).shown? = some (file, toJson)) : file ≠ [] := by
  simp only [ofPath] at h
  split_ifs at h
  · cases h
  · cases h
  · cases h
  · cases hparse : fileAfter? "/parse/" path with
    | some name =>
      rw [hparse] at h
      obtain ⟨rfl, -⟩ := Prod.mk.inj (Option.some.inj h)
      exact ne_nil_of_fileAfter? hparse
    | none =>
      rw [hparse] at h
      cases htree : fileAfter? "/tree/" path with
      | some name =>
        rw [htree] at h
        obtain ⟨rfl, -⟩ := Prod.mk.inj (Option.some.inj h)
        exact ne_nil_of_fileAfter? htree
      | none =>
        rw [htree] at h
        cases hasset : fileAfter? "/" path with
        | some name => rw [hasset] at h; cases h
        | none => rw [hasset] at h; cases h

end Web.Route

namespace Site

open LiveTree.Path Web

variable {site : Site}

/-- A file below the root is written as the root and a normal path, and is absolute itself. -/
theorem below_of_isFile (hworkdir : isAbsolute site.disk.workdir = true) {file location : Text}
    (hne : file ≠ []) (hbelow : below? site.root file = some location)
    (hfile : site.disk.isFile location = true) :
    Below site.root location ∧ absolute site.disk.workdir location = location := by
  have hsome : site.root ≠ [] := absolute_ne_nil _ _
  obtain ⟨names, hinner, rfl⟩ := exists_inner_of_below? hsome hne hbelow
  rw [File.Disk.isFile, Option.any_eq_true] at hfile
  obtain ⟨tree, hfind, hfile⟩ := hfile
  cases tree with
  | folder entries => cases hfile
  | file content =>
    have hnames := File.Disk.ne_nil_of_find?_append hsome hinner.names hfind
    exact ⟨below_of_names _ hinner.names hnames,
      absolute_append_names hworkdir site.options.root hinner.names hnames⟩

/-- The rule that parsing starts with: the one that is asked for, or else the configured one. -/
def entry (site : Site) (rule : Text) : Option Text :=
  if rule.isEmpty then site.options.entry else some rule

/-- What a request makes of a parse. -/
def parsedOf (site : Site) (file : Text) (report : Parser.Report) : Parsed :=
  let notes := site.notes report
  match report.result with
  | .error fault =>
    if fault.isOfProcess then
      { report := some report
        log := notes ++ [⟨.error, .web, "Parsing '" ++ file ++ "' failed: " ++ fault.message⟩] }
    else { result := .error fault, report := some report, log := notes }
  | .ok (.failure _) => { report := some report, log := notes }
  | .ok (.tree node) => { result := .ok (some node), report := some report, log := notes }

theorem parseFile_of_some (launch : Parser.Request → Parser.Launch) {file location : Text}
    (hsource : site.source? file = some location) (rule : Text) :
    site.parseFile launch file rule =
      parsedOf site file
        (site.parse launch { path := some location, entry := site.entry rule }) := by
  rw [parseFile, hsource]
  rfl

theorem report_parsedOf (file : Text) (report : Parser.Report) :
    (parsedOf site file report).report = some report := by
  unfold parsedOf
  split
  · split
    · rfl
    · rfl
  · rfl
  · rfl

/-- How the result of a parse is answered. -/
inductive AnswerTo (toJson : Syntax.Node → Json) :
    Except Parser.Fault Parser.Outcome → Answer → Prop
  | tree (node : Syntax.Node) : AnswerTo toJson (.ok (.tree node)) (.json (toJson node))
  | failure (line : Text) : AnswerTo toJson (.ok (.failure line)) (.json (.object []))
  | process {fault : Parser.Fault} (of_process : fault.isOfProcess = true) :
    AnswerTo toJson (.error fault) (.json (.object []))
  | tooDeep : AnswerTo toJson (.error .tooDeep) (.page Page.serverError)
  | unfit (reason : Text) : AnswerTo toJson (.error (.unfit reason)) (.page Page.serverError)

theorem AnswerTo.status {toJson : Syntax.Node → Json}
    {result : Except Parser.Fault Parser.Outcome} {answer : Answer}
    (h : AnswerTo toJson result answer) :
    ((∃ fault, result = .error fault ∧ fault.isOfProcess = false) → answer.status = 500) ∧
      (¬(∃ fault, result = .error fault ∧ fault.isOfProcess = false) → answer.status = 200) := by
  cases h with
  | tree node => exact ⟨by simp, fun _ => rfl⟩
  | failure line => exact ⟨by simp, fun _ => rfl⟩
  | process of_process => exact ⟨by simp [of_process], fun _ => rfl⟩
  | tooDeep => exact ⟨fun _ => rfl, fun h => absurd ⟨_, rfl, rfl⟩ h⟩
  | unfit reason => exact ⟨fun _ => rfl, fun h => absurd ⟨_, rfl, rfl⟩ h⟩

theorem report_treeReply (toJson : Syntax.Node → Json) (path : Text) (parsed : Parsed) :
    (treeReply toJson path parsed).report = parsed.report := by
  unfold treeReply
  split
  · rfl
  · rfl
  · rfl

theorem answerTo_parsedOf (toJson : Syntax.Node → Json) (path file : Text) {report : Parser.Report}
    (h : ∀ fault, report.result = .error fault →
      fault.isOfProcess = true ∨ fault = .tooDeep ∨ ∃ reason, fault = .unfit reason) :
    AnswerTo toJson report.result (treeReply toJson path (parsedOf site file report)).answer := by
  cases hresult : report.result with
  | ok outcome =>
    cases outcome with
    | tree node =>
      simp only [parsedOf, hresult]
      exact .tree node
    | failure line =>
      simp only [parsedOf, hresult]
      exact .failure line
  | error fault =>
    rcases h fault hresult with hprocess | rfl | ⟨reason, rfl⟩
    · simp only [parsedOf, hresult, hprocess, if_true]
      exact .process hprocess
    · simp only [parsedOf, hresult]
      exact .tooDeep
    · simp only [parsedOf, hresult]
      exact .unfit reason

section Reply

variable (launch : Parser.Request → Parser.Launch) {request : Request} {file : Text}
  {toJson : Syntax.Node → Json} (route : (Route.ofPath request.path).shown? = some (file, toJson))

include route

theorem reply_eq :
    site.reply launch request =
      treeReply toJson request.path (site.parseFile launch file request.query) := by
  rw [reply]
  cases hroute : Route.ofPath request.path with
  | parse name =>
    rw [hroute] at route
    obtain ⟨rfl, rfl⟩ := Prod.mk.inj (Option.some.inj route)
    rfl
  | tree name =>
    rw [hroute] at route
    obtain ⟨rfl, rfl⟩ := Prod.mk.inj (Option.some.inj route)
    rfl
  | _ =>
    rw [hroute] at route
    cases route

theorem reply_of_none (hsource : site.source? file = none) :
    (site.reply launch request).report = none ∧
      (site.reply launch request).answer = .json (.object []) ∧
      ∀ launch', site.reply launch' request = site.reply launch request := by
  have hparsed (launch : Parser.Request → Parser.Launch) :
      site.parseFile launch file request.query =
        { log := [⟨.warning, .web, "Unable to read file: " ++ file⟩] } := by
    rw [parseFile, hsource]
  refine ⟨?_, ?_, fun launch' => ?_⟩
  · rw [reply_eq launch route, hparsed]
    rfl
  · rw [reply_eq launch route, hparsed]
    rfl
  · rw [reply_eq launch route, reply_eq launch' route, hparsed, hparsed]

theorem reply_of_some {location : Text} (hsource : site.source? file = some location) :
    let asked : Parser.Request := { path := some location, entry := site.entry request.query }
    let report := site.parse launch asked
    (site.reply launch request).report = some report ∧
      AnswerTo toJson report.result (site.reply launch request).answer ∧
      ∀ launch', launch' asked = launch asked →
        site.reply launch' request = site.reply launch request := by
  intro asked report
  rw [reply_eq launch route, parseFile_of_some launch hsource]
  refine ⟨(report_treeReply _ _ _).trans (report_parsedOf file report), ?_, ?_⟩
  · refine answerTo_parsedOf toJson request.path file fun fault hfault => ?_
    exact (Parser.file_error_cases _ _ _ _ _ _ hfault).imp_right
      (Or.imp (·.1) fun ⟨reason, hunfit, _⟩ => ⟨reason, hunfit⟩)
  · intro launch' hlaunch
    have hreport : site.parse launch' asked = report := by
      change site.parse launch' asked = site.parse launch asked
      rw [parse, parse, hlaunch]
    rw [reply_eq launch' route, parseFile_of_some launch' hsource]
    exact congrArg (fun report => treeReply toJson request.path (parsedOf site file report)) hreport

end Reply

/-- A request for a tree starts a parser once, if the path that it names leads to a file from the
root without stepping out of it, and else not at all. The command line is what the program, the
rule and that file make of it, and the file is written as the root and a normal path below. The
answer is the tree that is parsed; where no parser was started, the process failed, or its output
is no tree, it is an empty object. Only an output that is nested too deeply to be read, or a command
line that no process can be given, is a fault of the server, and all else is answered in order. -/
theorem reply_confined (hworkdir : isAbsolute site.disk.workdir = true)
    (launch : Parser.Request → Parser.Launch) {request : Request} {file : Text}
    {toJson : Syntax.Node → Json}
    (route : (Route.ofPath request.path).shown? = some (file, toJson)) :
    let reply := site.reply launch request
    (∀ location, below? site.root file = some location → site.disk.isFile location = true →
      let asked : Parser.Request := { path := some location, entry := site.entry request.query }
      let report := site.parse launch asked
      Below site.root location ∧ reply.report = some report ∧
        report.command = some ([site.options.lua, normalise site.options.main, "-mode=parse"] ++
          Parser.flag "-entry=" (site.entry request.query) ++ ["-input=" ++ location]) ∧
        AnswerTo toJson report.result reply.answer ∧
        ((launch asked).Escapes site.options.timeout → reply.answer.status = 500) ∧
        (¬(launch asked).Escapes site.options.timeout → reply.answer.status = 200) ∧
        ∀ launch', launch' asked = launch asked → site.reply launch' request = reply) ∧
    ((∀ location, below? site.root file = some location → site.disk.isFile location = false) →
      reply.report = none ∧ reply.answer = .json (.object []) ∧
        ∀ launch', site.reply launch' request = reply) := by
  intro reply
  refine ⟨fun location hbelow hfile => ?_, fun hnone => ?_⟩
  · have hsource : site.source? file = some location := by
      rw [source?, hbelow, Option.filter_some, if_pos hfile]
    obtain ⟨hroot, habsolute⟩ :=
      below_of_isFile hworkdir (Route.ne_nil_of_shown? route) hbelow hfile
    have hne : location ≠ [] := by
      rintro rfl
      cases hfile
    intro asked report
    obtain ⟨hreport, hanswer, hlaunch⟩ := reply_of_some launch route hsource
    have hescapes : (∃ fault, report.result = .error fault ∧ fault.isOfProcess = false) ↔
        (launch asked).Escapes site.options.timeout :=
      Parser.file_escapes_iff _ _ _ _ _ _
    obtain ⟨hfault, hfine⟩ := hanswer.status
    refine ⟨hroot, hreport, ?_, hanswer, fun h => hfault (hescapes.mpr h),
      fun h => hfine (mt hescapes.mp h), hlaunch⟩
    have hcommand : report.command = _ := Parser.command_file _ _ _ _ _ _
    rw [hcommand, Parser.arguments_file _ _ _ hne habsolute]
    rfl
  · apply reply_of_none launch route
    rw [source?, Option.filter_eq_none_iff]
    intro location hbelow
    simpa using hnone location hbelow

/-- A site of one source file. -/
def oneFile : Site where
  options := { lua := "lua", main := "./main.lua", root := "src" }
  assets := []
  disk := { tree := .folder [("src", .folder [("a.x", .file (.ok []))])], workdir := "/" }

theorem reply_confined_oneFile :
    let launch : Parser.Request → Parser.Launch := fun _ => .started { stdout := [[0x37]] }
    let request : Request := ⟨"/parse/b/.././a.x", "r"⟩
    let command : List Text := ["lua", "main.lua", "-mode=parse", "-entry=r", "-input=/src/a.x"]
    isAbsolute oneFile.disk.workdir = true ∧
      (Route.ofPath request.path).shown? = some (Text.ofString "b/.././a.x", Syntax.Node.toJson) ∧
      (oneFile.reply launch request).report.bind (·.command) = some command ∧
      (oneFile.reply launch request).answer.status = 200 := by
  intro launch request command
  have hworkdir : isAbsolute oneFile.disk.workdir = true := by decide
  have hroute : (Route.ofPath request.path).shown? =
      some (Text.ofString "b/.././a.x", Syntax.Node.toJson) := by
    have hpath : Route.ofPath request.path = .parse "b/.././a.x" := by decide +kernel
    rw [hpath]
    rfl
  let location : Text := "/src/a.x"
  have hbelow : below? oneFile.root "b/.././a.x" = some location := by decide +kernel
  have hfile : oneFile.disk.isFile location = true := by decide +kernel
  obtain ⟨hsome, -⟩ := reply_confined hworkdir launch hroute
  obtain ⟨-, hreport, hcommand, -, -, hstatus, -⟩ := hsome location hbelow hfile
  refine ⟨hworkdir, hroute, ?_, hstatus ?_⟩
  · rw [hreport, Option.bind_some, hcommand]
    decide
  · rintro (⟨process, hstarted, -, -, -, line, fault, hlast, hread, -⟩ | ⟨reason, hunfit⟩)
    · obtain rfl := Parser.Launch.started.inj hstarted
      have hseven : Parser.lastLine [[0x37]].flatten = some ("7" : Text) := by decide +kernel
      obtain rfl := Option.some.inj (hseven.symm.trans hlast)
      cases hread
    · cases hunfit

/-- An output that is too deep to be read. -/
theorem status_of_tooDeep {output : Octets} (deep : Parser.TooDeep (Parser.lastLine output)) :
    let launch : Parser.Request → Parser.Launch := fun _ => .started { stdout := [output] }
    (oneFile.reply launch ⟨"/parse/a.x", []⟩).answer.status = 500 := by
  intro launch
  let request : Request := ⟨"/parse/a.x", []⟩
  have hroute : (Route.ofPath request.path).shown? =
      some (Text.ofString "a.x", Syntax.Node.toJson) := by
    have hpath : Route.ofPath request.path = .parse "a.x" := by decide +kernel
    rw [hpath]
    rfl
  have hsource : oneFile.source? "a.x" = some (Text.ofString "/src/a.x") := by decide +kernel
  have hpositive : ¬oneFile.options.timeout ≤ 0 := by decide +kernel
  have hnumber : oneFile.options.timeout.isNaN = false := by decide +kernel
  have hends : Parser.Launch.Escapes oneFile.options.timeout (.started { stdout := [output] }) := by
    refine .inl ⟨_, rfl, hpositive, hnumber, Int.le_refl 0, ?_⟩
    rwa [List.flatten_singleton]
  obtain ⟨-, hanswer, -⟩ := reply_of_some launch hroute hsource
  exact hanswer.status.1 ((Parser.file_escapes_iff _ _ _ _ _ _).mpr hends)

theorem reply_nested :
    let output := (Json.write (Event.nested 991)).flatMap Utf8.encodePoint
    let launch : Parser.Request → Parser.Launch := fun _ => .started { stdout := [output] }
    (oneFile.reply launch ⟨"/parse/a.x", []⟩).answer.status ≠ 200 := by
  intro output launch
  have hstatus : (oneFile.reply launch _).answer.status = 500 :=
    status_of_tooDeep (Parser.tooDeep_nested (by decide))
  rw [hstatus]
  decide

end Site

end LiveTree
