import LiveTree.Proofs.Event.Encoding
import LiveTree.Proofs.Parser.Exchange

namespace LiveTree.Parser

/-- The last line of an output that is not blank. What follows the last line feed is a line too. -/
def lastLine (octets : Octets) : Option Text :=
  ((textLines (Utf8.decodeLossy octets)).filter (!Text.isBlank ·)).getLast?

/-- What the last line of an output comes to: its tree, or the line itself if it is not JSON. -/
def outcomeOf : Option Text → Outcome
  | none => .failure []
  | some line =>
    match Json.read line with
    | .ok value => .tree (.ofJson value)
    | .error _ => .failure line

/-- A last line that is nested too deeply to tell whether it is JSON. -/
def TooDeep (line? : Option Text) : Prop :=
  ∃ line fault, line? = some line ∧ Json.read line = .error fault ∧ fault.cause = .nesting

/-- The candidate is the last line that is not blank, if there is one. -/
theorem Candidate.pushAll_fst (candidate : Candidate) (lines : List Text) :
    (candidate.pushAll lines).1 = (lines.filter (!Text.isBlank ·)).getLast?.or candidate := by
  induction lines generalizing candidate with
  | nil => rfl
  | cons line lines ih =>
    rw [pushAll_cons, ih]
    by_cases h : Text.isBlank line
    · rw [push_blank candidate h, List.filter_cons_of_neg (by simp [h])]
    · rw [push_of_not_blank candidate h, List.filter_cons_of_pos (by simp [h]), List.getLast?_cons,
        Option.some_or]
      cases (lines.filter (!Text.isBlank ·)).getLast? <;> rfl

/-- A tail that is no line of its own would be blank. -/
theorem filter_tailLine (tail : Octets) :
    (tailLine tail).filter (!Text.isBlank ·) = [decodeLine tail].filter (!Text.isBlank ·) := by
  cases tail with
  | nil => rfl
  | cons b tail => rfl

theorem filter_allLines (chunks : List Octets) :
    (allLines chunks).filter (!Text.isBlank ·) =
      (textLines (Utf8.decodeLossy chunks.flatten)).filter (!Text.isBlank ·) := by
  have hne := List.splitOn_ne_nil lineFeed chunks.flatten
  have hlast : lastPiece lineFeed chunks.flatten =
      (chunks.flatten.splitOn lineFeed).getLast hne := by
    rw [lastPiece, List.getLast?_eq_getLast_of_ne_nil hne]
    rfl
  simp only [allLines]
  rw [feed_flatten List.not_mem_nil, splitLines_eq, List.nil_append, List.filter_append,
    filter_tailLine, ← List.filter_append, hlast, ← List.map_singleton, ← List.map_append,
    List.dropLast_append_getLast hne, textLines_decodeLossy]

theorem pushAll_allLines (chunks : List Octets) :
    (Candidate.pushAll none (allLines chunks)).1 = lastLine chunks.flatten := by
  rw [Candidate.pushAll_fst, filter_allLines, Option.or_none]
  rfl

theorem conclude_of_tooDeep {exit : Int} (h : 0 ≤ exit) {candidate : Candidate}
    (deep : TooDeep candidate) : (conclude exit candidate).1 = .error .tooDeep := by
  obtain ⟨line, fault, rfl, hread, hcause⟩ := deep
  rw [conclude, if_neg (Int.not_lt.mpr h), decode, hread]
  simp only [if_pos hcause]

theorem conclude_of_not_tooDeep {exit : Int} (h : 0 ≤ exit) {candidate : Candidate}
    (shallow : ¬TooDeep candidate) : (conclude exit candidate).1 = .ok (outcomeOf candidate) := by
  rw [conclude, if_neg (Int.not_lt.mpr h)]
  cases candidate with
  | none => rfl
  | some line =>
    rw [decode, outcomeOf]
    cases hread : Json.read line with
    | ok value => rfl
    | error fault =>
      have hcause : fault.cause ≠ .nesting := fun hcause => shallow ⟨line, fault, rfl, hread, hcause⟩
      simp only [if_neg hcause]
      rfl

/-- What is concluded of a process that ended by itself depends on its last line alone. -/
theorem conclude_congr {exit exit' : Int} (h : 0 ≤ exit) (h' : 0 ≤ exit') (candidate : Candidate) :
    (conclude exit candidate).1 = (conclude exit' candidate).1 := by
  by_cases hdeep : TooDeep candidate
  · rw [conclude_of_tooDeep h hdeep, conclude_of_tooDeep h' hdeep]
  · rw [conclude_of_not_tooDeep h hdeep, conclude_of_not_tooDeep h' hdeep]

section Encoded

variable {request : Request} {input : Option Octets}
  (encoded : request.input?.map Utf8.encode? = input.map some) (program : Program)
  (workdir : Text) (timeout : Float)

include encoded

/-- A parse that starts a process comes to what the process comes to. -/
theorem parse_started (process : Process) :
    program.parse workdir timeout request (.started process) =
      { process.run timeout input with command := some (program.arguments workdir request) } := by
  unfold Program.parse
  rw [encoded]
  cases input <;> rfl

end Encoded

/-- A parse whose process was started, stayed within its time limit and was not killed, with one
of the orders in which its three activities may have taken turns. -/
structure Completed where
  program : Program
  workdir : Text
  timeout : Float
  request : Request
  process : Process
  /-- The source as octets, if it goes to standard input. -/
  input : Option Octets
  encoded : request.input?.map Utf8.encode? = input.map some
  positive : ¬timeout ≤ 0
  within : process.runsOut timeout = false
  exited : 0 ≤ process.exit
  turns : List Turn
  final : Exchange
  ran : (Exchange.start process input).run turns = some final
  ended : final.isOver = true

namespace Completed

def report (r : Completed) : Report :=
  r.program.parse r.workdir r.timeout r.request (.started r.process)

/-- The result that this order of turns leads to. -/
def result (r : Completed) : Except Fault Outcome :=
  (conclude r.process.exit r.final.candidate).1

theorem final_candidate (r : Completed) : r.final.candidate = lastLine r.process.stdout.flatten :=
  (Exchange.of_run_start r.ran r.ended).1.trans (pushAll_allLines r.process.stdout)

theorem final_passed (r : Completed) :
    r.final.passed = (Candidate.pushAll none (allLines r.process.stdout)).2 :=
  (Exchange.of_run_start r.ran r.ended).2.1

theorem result_eq (r : Completed) :
    r.result = (conclude r.process.exit (lastLine r.process.stdout.flatten)).1 := by
  rw [result, r.final_candidate]

/-- Every order of turns leads to what the parse reports. -/
theorem report_eq (r : Completed) :
    r.report.result = r.result ∧ r.report.stdout = r.final.passed ∧
      r.report.stderr = r.final.complaints := by
  obtain ⟨hcandidate, hpassed, hcomplaints, -⟩ := Exchange.of_run_start r.ran r.ended
  have hparse := parse_started r.encoded r.program r.workdir r.timeout r.process
  have hhangs : r.process.hangs = false := (Bool.or_eq_false_iff.mp r.within).1
  have hlines : r.process.lines = allLines r.process.stdout := by
    simp [Process.lines, hhangs]
  rw [report, hparse, result, hcandidate, hpassed, hcomplaints]
  simp [Process.run, if_neg r.positive, r.within, hlines]

end Completed

theorem Completed.exists_of {timeout : Float} {request : Request} {process : Process}
    {input : Option Octets} (program : Program) (workdir : Text)
    (encoded : request.input?.map Utf8.encode? = input.map some) (positive : ¬timeout ≤ 0)
    (within : process.runsOut timeout = false) (exited : 0 ≤ process.exit) :
    ∃ r : Completed, r.program = program ∧ r.workdir = workdir ∧ r.timeout = timeout ∧
      r.request = request ∧ r.process = process := by
  obtain ⟨turns, final, ran, ended⟩ := (Exchange.start process input).exists_run
  exact ⟨⟨program, workdir, timeout, request, process, input, encoded, positive, within, exited,
    turns, final, ran, ended⟩, rfl, rfl, rfl, rfl, rfl⟩

/-- What passes of an output depends on its octets alone, however they are cut. -/
theorem allLines_congr {a b : List Octets} (h : a.flatten = b.flatten) :
    allLines a = allLines b := by
  simp only [allLines, feed_flatten List.not_mem_nil, h]

/-- A text of one line is the last line of its octets. -/
theorem lastLine_encode {s : Text} (plain : s.any CodePoint.isSurrogate = false)
    (whole : CodePoint.ofChar '\n' ∉ s) (hlast : s.getLast? ≠ some (CodePoint.ofChar '\r'))
    (hblank : Text.isBlank s = false) :
    lastLine (s.flatMap Utf8.encodePoint) = some s := by
  have hdecode : Utf8.decodeLossy (s.flatMap Utf8.encodePoint) = s := by
    rw [Utf8.decodeLossy, Utf8.pieces_flatMap_encodePoint plain, List.map_map]
    exact List.map_id s
  have hstrip : trimRight (· == CodePoint.ofChar '\r') s = s := by
    rcases s.eq_nil_or_concat with rfl | ⟨front, c, rfl⟩
    · rfl
    · have hc : (c == CodePoint.ofChar '\r') = false := by simpa using hlast
      simp [trimRight, hc]
  rw [lastLine, hdecode, textLines, List.splitOn_eq_singleton whole, List.map_singleton, hstrip,
    List.filter_cons, hblank]
  rfl

theorem write_nested (n : Nat) :
    Json.write (Event.nested n) = List.replicate (n + 1) (CodePoint.ofChar '[') ++
      List.replicate (n + 1) (CodePoint.ofChar ']') := by
  induction n with
  | zero => rfl
  | succ n ih =>
    have hwrite : Json.write (Event.nested (n + 1)) =
        [CodePoint.ofChar '['] ++ Json.write (Event.nested n) ++ [CodePoint.ofChar ']'] := rfl
    have hback : List.replicate (n + 1 + 1) (CodePoint.ofChar ']') =
        List.replicate (n + 1) (CodePoint.ofChar ']') ++ [CodePoint.ofChar ']'] :=
      List.replicate_succ'
    rw [hwrite, ih, hback, List.append_assoc, List.append_assoc]
    rfl

/-- A line of nothing but brackets. -/
theorem lastLine_brackets {s : Text} (hne : s ≠ [])
    (hbrackets : ∀ c ∈ s, c = CodePoint.ofChar '[' ∨ c = CodePoint.ofChar ']') :
    lastLine (s.flatMap Utf8.encodePoint) = some s := by
  apply lastLine_encode
  · rw [List.any_eq_false]
    intro c hc
    rcases hbrackets c hc with rfl | rfl
    · decide
    · decide
  · intro hc
    rcases hbrackets _ hc with h | h
    · exact absurd h (by decide)
    · exact absurd h (by decide)
  · intro hc
    rcases hbrackets _ (List.mem_of_getLast? hc) with h | h
    · exact absurd h (by decide)
    · exact absurd h (by decide)
  · obtain ⟨c, rest, rfl⟩ := List.exists_cons_of_ne_nil hne
    have hc : c.isBlank = false := by
      rcases hbrackets c List.mem_cons_self with rfl | rfl
      · decide
      · decide
    rw [Text.isBlank, List.all_cons, hc, Bool.false_and]

theorem lastLine_nested (n : Nat) :
    lastLine ((Json.write (Event.nested n)).flatMap Utf8.encodePoint) =
      some (Json.write (Event.nested n)) := by
  rw [write_nested]
  refine lastLine_brackets ?_ fun c hc => ?_
  · rw [List.replicate_succ]
    exact List.cons_ne_nil _ _
  · exact (List.mem_append.mp hc).imp List.eq_of_mem_replicate List.eq_of_mem_replicate

/-- More lists in one another than a reader goes. -/
theorem tooDeep_nested {n : Nat} (h : Json.maxNesting ≤ n) :
    TooDeep (lastLine ((Json.write (Event.nested n)).flatMap Utf8.encodePoint)) := by
  have hdepth : Json.maxNesting < (Event.nested n).depth := by
    rw [Event.depth_nested]
    exact Nat.lt_succ_of_le h
  obtain ⟨fault, hread, hcause⟩ := Json.read_write_deep (Event.readable_nested n) hdepth
  exact ⟨_, fault, lastLine_nested n, hread, hcause⟩

/-- A parse depends on nothing but the octets of standard output: neither on how they are cut, nor
on the order of turns, the request, the errors, the exit code or the pipe. Its result is what the
last line that is not blank comes to. Only a line that is nested too deeply is a fault. -/
theorem parse_depends_on_stdout (r s : Completed)
    (same : r.process.stdout.flatten = s.process.stdout.flatten) :
    let line? := lastLine r.process.stdout.flatten
    (r.report.result = s.report.result ∧ r.report.stdout = s.report.stdout) ∧
      (r.result = r.report.result ∧ r.final.passed = r.report.stdout) ∧
      (¬TooDeep line? → r.report.result = .ok (outcomeOf line?)) ∧
      (TooDeep line? → r.report.result = .error .tooDeep) := by
  intro line?
  obtain ⟨hr, hrpassed, -⟩ := r.report_eq
  obtain ⟨hs, hspassed, -⟩ := s.report_eq
  refine ⟨⟨?_, ?_⟩, ⟨hr.symm, hrpassed.symm⟩, fun hshallow => ?_, fun hdeep => ?_⟩
  · rw [hr, hs, r.result_eq, s.result_eq, same, conclude_congr r.exited s.exited]
  · rw [hrpassed, hspassed, r.final_passed, s.final_passed, allLines_congr same]
  · rw [hr, r.result_eq, conclude_of_not_tooDeep r.exited hshallow]
  · rw [hr, r.result_eq, conclude_of_tooDeep r.exited hdeep]

/-- A file is parsed, and all of the output comes at once. -/
def wholeOutput : Completed where
  program := ⟨"lua", "main.lua"⟩
  workdir := "/"
  timeout := 5
  request := { path := some "a.x" }
  process := { stdout := [[0x61, 0x0A, 0x5B, 0x31, 0x5D, 0x0A]] }
  input := none
  encoded := rfl
  positive := by decide +kernel
  within := by decide +kernel
  exited := by decide
  turns := [.read 4096, .readErrors 1, .read 1]
  final := _
  ran := rfl
  ended := rfl

/-- A source is parsed that the process does not care to read, the same output comes in pieces
amid errors, and the process has already failed. -/
def brokenOutput : Completed where
  program := ⟨"lua", "main.lua"⟩
  workdir := "/"
  timeout := 5
  request := { source := some "x" }
  process :=
    { stdout := [[0x61], [], [0x0A, 0x5B, 0x31], [0x5D, 0x0A]]
      stderr := [[0x21, 0x0A]]
      exit := 3
      exitedEarly := true
      breaksPipe := true }
  input := some [0x78, 0x0A]
  encoded := by decide
  positive := by decide +kernel
  within := by decide +kernel
  exited := by decide
  turns := [.read 4, .write, .readErrors 2, .read 4096, .close, .read 1, .readErrors 1]
  final := _
  ran := rfl
  ended := rfl

theorem broken_output_parses_as_whole :
    wholeOutput.process.stdout.flatten = brokenOutput.process.stdout.flatten ∧
      (wholeOutput.report.result = brokenOutput.report.result ∧
        wholeOutput.report.stdout = brokenOutput.report.stdout) ∧
      wholeOutput.report.result =
        .ok (.tree (.ofJson (.list [.int 1]))) := by
  have same : wholeOutput.process.stdout.flatten = brokenOutput.process.stdout.flatten := rfl
  have hline : lastLine wholeOutput.process.stdout.flatten = some ("[1]" : Text) := by
    decide +kernel
  have hread : Json.read ("[1]" : Text) = .ok (.list [.int 1]) := rfl
  have hshallow : ¬TooDeep (some ("[1]" : Text)) := by
    rintro ⟨line, fault, hsome, hfault, -⟩
    obtain rfl := Option.some.inj hsome
    cases hread.symm.trans hfault
  obtain ⟨hsame, -, hresult, -⟩ := parse_depends_on_stdout wholeOutput brokenOutput same
  rw [hline] at hresult
  refine ⟨same, hsame, ?_⟩
  rw [hresult hshallow]
  simp only [outcomeOf, hread]

/-- Brackets that are never closed are no JSON, and yet they are not the line that a parse comes
to. -/
theorem brackets_come_to_nothing :
    let line : Text := List.replicate 1000 (CodePoint.ofChar '[')
    ∃ r : Completed, r.request = { path := some "a.x" } ∧
      r.process = { stdout := [line.flatMap Utf8.encodePoint] } ∧
      lastLine r.process.stdout.flatten = some line ∧ (∀ value, Json.read line ≠ .ok value) ∧
      ∀ outcome, r.report.result ≠ .ok outcome := by
  intro line
  obtain ⟨fault, hread, hcause⟩ : ∃ fault, Json.read line = .error fault ∧ fault.cause = .nesting :=
    Json.read_brackets (by decide)
  obtain ⟨r, -, -, -, hrequest, hprocess⟩ :=
    @Completed.exists_of 5 { path := some "a.x" } { stdout := [line.flatMap Utf8.encodePoint] } none
      ⟨"lua", "main.lua"⟩ "/" rfl (show ¬(5 : Float) ≤ 0 by decide +kernel)
      (show (5 : Float).isNaN = false by decide +kernel) (Int.le_refl 0)
  have hline : lastLine r.process.stdout.flatten = some line := by
    rw [hprocess, List.flatten_singleton]
    refine lastLine_brackets ?_ fun c hc => .inl (List.eq_of_mem_replicate hc)
    exact List.cons_ne_nil _ _
  refine ⟨r, hrequest, hprocess, hline, fun value hvalue => ?_, fun outcome => ?_⟩
  · cases hread.symm.trans hvalue
  · have hdeep : TooDeep (lastLine r.process.stdout.flatten) := ⟨line, fault, hline, hread, hcause⟩
    rw [r.report_eq.1, r.result_eq, conclude_of_tooDeep r.exited hdeep]
    exact nofun

end LiveTree.Parser
