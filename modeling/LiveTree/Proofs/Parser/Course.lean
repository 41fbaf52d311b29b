import LiveTree.Proofs.Parser.Run

namespace LiveTree.Parser

/-- A parse whose process was started: its exchange goes on, and at some time the process ends. -/
structure Course where
  exchange : Exchange
  /-- The exit code of the process, once it has ended by itself. -/
  exit? : Option Int := none

/-- What happens next in a parse. -/
inductive Moment where
  | turn (t : Turn)
  | exit

/-- Whether a turn waits for the end of an output that stays open. -/
def Turn.waits (process : Process) (e : Exchange) : Turn → Bool
  | .read _ => process.hangs && e.output.unread.isEmpty
  | _ => false

/-- What came of the input if nothing more happens to it. Once it is written it is closed in any
case. -/
def Feeding.seen : Feeding → Option Input
  | .absent => none
  | .waiting _ => some ⟨[], false⟩
  | .written octets => some ⟨octets, true⟩
  | .closed octets => some ⟨octets, true⟩

namespace Course

def start (process : Process) (input : Option Octets) : Course := ⟨.start process input, none⟩

/-- One moment, none if it cannot be now. At a limit of zero or less there is no time for turns. -/
def step (process : Process) (timeout : Float) (c : Course) : Moment → Option Course
  | .exit => if c.exit? = none then some { c with exit? := some process.exit } else none
  | .turn t =>
    if timeout ≤ 0 ∨ t.waits process c.exchange then none
    else (c.exchange.turn t).map fun e => { c with exchange := e }

def run (process : Process) (timeout : Float) (c : Course) : List Moment → Option Course
  | [] => some c
  | m :: moments => (c.step process timeout m).bind fun next => next.run process timeout moments

/-- What is reported if the time limit is hit now. The process is killed unless it has ended. -/
def timeUp (timeout : Float) (c : Course) : Report where
  result := .error (.timedOut timeout (c.exit?.getD killedExit))
  stdout := c.exchange.passed
  stderr := c.exchange.complaints
  process := some ⟨c.exchange.feeding.seen, c.exit?.isNone, c.exit?.getD killedExit⟩

/-- What is reported once the exchange is over and the process has ended. -/
def settle? (timeout : Float) (c : Course) : Option Report :=
  if c.exchange.isOver ∧ timeout.isNaN = false then
    c.exit?.map fun exit =>
      let (result, log) := conclude exit c.exchange.candidate
      { result, log
        stdout := c.exchange.passed
        stderr := c.exchange.complaints
        process := some ⟨c.exchange.feeding.seen, false, exit⟩ }
  else none

/-- What a moment can do: the process ends, or a turn is taken that need not wait. -/
theorem step_cases {process : Process} {timeout : Float} {c next : Course} {m : Moment}
    (h : c.step process timeout m = some next) :
    (m = .exit ∧ c.exit? = none ∧ next = { c with exit? := some process.exit }) ∨
      ∃ t e, m = .turn t ∧ ¬timeout ≤ 0 ∧ t.waits process c.exchange = false ∧
        c.exchange.turn t = some e ∧ next = { c with exchange := e } := by
  cases m with
  | exit =>
    simp only [step] at h
    split at h
    · rename_i hrunning
      exact .inl ⟨rfl, hrunning, (Option.some.inj h).symm⟩
    · cases h
  | turn t =>
    simp only [step] at h
    split at h
    · cases h
    · rename_i hfree
      obtain ⟨hpositive, hwaits⟩ := not_or.mp hfree
      obtain ⟨e, hturn, rfl⟩ := Option.map_eq_some_iff.mp h
      exact .inr ⟨t, e, rfl, hpositive, Bool.eq_false_iff.mpr hwaits, hturn, rfl⟩

end Course

namespace Process

/-- The lines of standard output that are still to come. If it stays open, what follows the last
line feed is none. -/
def toCome (process : Process) (r : Reader) : List Text :=
  if process.hangs then (splitLines r.pending r.unread).1 else r.remaining

theorem toCome_ofOctets (process : Process) :
    process.toCome (.ofOctets process.stdout.flatten) = process.lines := by
  rw [toCome, lines, Reader.remaining_ofOctets, feed_flatten List.not_mem_nil]
  rfl

theorem toCome_read {process : Process} {count : Nat} {r next : Reader} {lines : List Text}
    (h : r.read count = some (lines, next))
    (hwaits : (process.hangs && r.unread.isEmpty) = false) :
    process.toCome r = lines ++ process.toCome next := by
  cases hhangs : process.hangs with
  | false =>
    simp only [toCome, hhangs]
    exact Reader.remaining_read h
  | true =>
    simp only [toCome, hhangs, if_true]
    obtain ⟨-, ⟨hend, -⟩ | ⟨-, -, rfl, rfl⟩⟩ := Reader.read_cases h
    · simp [hhangs, hend] at hwaits
    · have happend := splitLines_append r.pending (r.unread.take count) (r.unread.drop count)
      rw [List.take_append_drop] at happend
      rw [happend]

/-- What an exchange comes to as far as it can be brought. -/
def yield (process : Process) (e : Exchange) : Yield :=
  let pushed := e.candidate.pushAll (process.toCome e.output)
  ⟨pushed.1, e.passed ++ pushed.2, e.complaints ++ e.errors.remaining, e.feeding.final⟩

theorem yield_start (process : Process) (input : Option Octets) :
    process.yield (.start process input) =
      ⟨(Candidate.pushAll none process.lines).1, (Candidate.pushAll none process.lines).2,
        allLines process.stderr, input.map process.offer⟩ := by
  simp only [yield, Exchange.start, toCome_ofOctets, Reader.remaining_ofOctets, List.nil_append]
  cases input <;> rfl

/-- No turn that need not wait changes what an exchange comes to. -/
theorem yield_turn {process : Process} {e next : Exchange} {t : Turn}
    (h : e.turn t = some next) (hwaits : t.waits process e = false) :
    process.yield next = process.yield e := by
  rcases Exchange.turn_cases h with ⟨octets, -, hf, rfl⟩ | ⟨octets, -, hf, rfl⟩ |
    ⟨count, lines, reader, rfl, hread, rfl⟩ | ⟨count, lines, reader, -, hread, rfl⟩
  · simp only [yield, hf, Feeding.final]
  · simp only [yield, hf, Feeding.final]
  · simp only [yield]
    rw [toCome_read hread hwaits, Candidate.pushAll_append, List.append_assoc]
  · simp only [yield]
    rw [Reader.remaining_read hread, List.append_assoc]

end Process

/-- Whether nothing is left to do in an exchange but to wait for an end that does not come. -/
def Process.isQuiet (process : Process) (e : Exchange) : Bool :=
  e.feeding.isOver && (if process.hangs then e.output.unread.isEmpty else e.output.ended) &&
    e.errors.ended

theorem Feeding.seen_of_isOver {f : Feeding} (h : f.isOver = true) : f.final = f.seen := by
  cases f with
  | absent => rfl
  | closed octets => rfl
  | waiting octets => cases h
  | written octets => cases h

section Quiet

variable {process : Process} {e : Exchange}

theorem Process.isQuiet_iff :
    process.isQuiet e = true ↔ e.feeding.isOver = true ∧
      (if process.hangs then e.output.unread.isEmpty else e.output.ended) = true ∧
        e.errors.ended = true := by
  rw [isQuiet, Bool.and_eq_true, Bool.and_eq_true, and_assoc]

theorem Process.isQuiet_of_not_hangs (h : process.hangs = false) :
    process.isQuiet e = e.isOver := by
  simp [isQuiet, Exchange.isOver, h]

theorem Process.yield_of_isQuiet (h : process.isQuiet e = true) :
    process.yield e = ⟨e.candidate, e.passed, e.complaints, e.feeding.seen⟩ := by
  obtain ⟨hfed, hout, herr⟩ := isQuiet_iff.mp h
  have houtput : process.toCome e.output = [] := by
    cases hhangs : process.hangs with
    | false =>
      simp only [hhangs] at hout
      simp only [toCome, hhangs]
      exact if_pos hout
    | true =>
      simp only [hhangs, if_true, List.isEmpty_iff] at hout
      simp only [toCome, hhangs, if_true, hout, splitLines_nil e.output.start_of_line]
  have herrors : e.errors.remaining = [] := if_pos herr
  simp [yield, houtput, herrors, Feeding.seen_of_isOver hfed]

/-- As long as an exchange is not quiet there is a turn that need not wait. -/
theorem Process.exists_turn (h : process.isQuiet e = false)
    (hopen : process.hangs = true → e.output.ended = false) :
    ∃ t next, t.waits process e = false ∧ e.turn t = some next := by
  by_cases herr : e.errors.ended = false
  · obtain ⟨lines, reader, hread⟩ := Reader.exists_read herr
    exact ⟨.readErrors readSize, _, rfl, by rw [Exchange.turn, hread]; rfl⟩
  by_cases hout : (if process.hangs then e.output.unread.isEmpty else e.output.ended) = false
  · have hended : e.output.ended = false := by
      cases hhangs : process.hangs with
      | false => simpa [hhangs] using hout
      | true => exact hopen hhangs
    have hwaits : (process.hangs && e.output.unread.isEmpty) = false := by
      cases hhangs : process.hangs with
      | false => rfl
      | true => simpa [hhangs] using hout
    obtain ⟨lines, reader, hread⟩ := Reader.exists_read hended
    exact ⟨.read readSize, _, hwaits, by rw [Exchange.turn, hread]; rfl⟩
  have hfeeding : e.feeding.isOver = false := by
    simpa [isQuiet, Bool.not_eq_false _ ▸ hout, herr] using h
  cases hf : e.feeding with
  | absent => rw [hf] at hfeeding; cases hfeeding
  | waiting octets => exact ⟨.write, _, rfl, by rw [Exchange.turn, hf]⟩
  | written octets => exact ⟨.close, _, rfl, by rw [Exchange.turn, hf]⟩
  | closed octets => rw [hf] at hfeeding; cases hfeeding

end Quiet

namespace Course

variable {process : Process} {timeout : Float} {input : Option Octets} {moments : List Moment}
  {c : Course}

/-- What every moment preserves, a whole course does. -/
theorem run_induction {P : List Moment → Course → Prop}
    (step : ∀ {moments : List Moment} {c next : Course} {m : Moment},
      P moments c → c.step process timeout m = some next → P (moments ++ [m]) next)
    {more : List Moment} {final : Course} (h : P moments c)
    (hrun : c.run process timeout more = some final) : P (moments ++ more) final := by
  induction more generalizing moments c with
  | nil =>
    obtain rfl := Option.some.inj hrun
    rw [List.append_nil]
    exact h
  | cons m more ih =>
    obtain ⟨next, hstep, hrest⟩ := Option.bind_eq_some_iff.mp hrun
    rw [List.append_cons]
    exact ih (step h hstep) hrest

/-- What holds of a course after some moments. -/
structure Underway (process : Process) (timeout : Float) (input : Option Octets)
    (moments : List Moment) (c : Course) : Prop where
  yield : process.yield c.exchange = process.yield (.start process input)
  stays_open : process.hangs = true → c.exchange.output.ended = false
  idle : timeout ≤ 0 → c.exchange = .start process input
  running : c.exit? = none ↔ Moment.exit ∉ moments
  exit : ∀ exit ∈ c.exit?, exit = process.exit

theorem underway_start (process : Process) (timeout : Float) (input : Option Octets) :
    Underway process timeout input [] (start process input) :=
  ⟨rfl, fun _ => rfl, fun _ => rfl, by simp [start], nofun⟩

theorem Underway.step (h : Underway process timeout input moments c) {m : Moment} {next : Course}
    (hstep : c.step process timeout m = some next) :
    Underway process timeout input (moments ++ [m]) next := by
  obtain ⟨rfl, -, rfl⟩ | ⟨t, e, rfl, hpositive, hwaits, hturn, rfl⟩ := step_cases hstep
  · refine ⟨h.yield, h.stays_open, h.idle, ?_, ?_⟩
    · simp
    · rintro exit ⟨⟩
      rfl
  · refine ⟨(Process.yield_turn hturn hwaits).trans h.yield, fun hhangs => ?_,
      fun hnone => absurd hnone hpositive, ?_, h.exit⟩
    · have hopen := h.stays_open hhangs
      rcases Exchange.turn_cases hturn with ⟨octets, -, hf, rfl⟩ | ⟨octets, -, hf, rfl⟩ |
        ⟨count, lines, reader, rfl, hread, rfl⟩ | ⟨count, lines, reader, -, hread, rfl⟩
      · exact hopen
      · exact hopen
      · obtain ⟨-, ⟨hend, -⟩ | ⟨-, -, -, rfl⟩⟩ := Reader.read_cases hread
        · simp [Turn.waits, hhangs, hend] at hwaits
        · rfl
      · exact hopen
    · simpa using h.running

theorem Underway.run {more : List Moment} {final : Course}
    (h : Underway process timeout input moments c)
    (hrun : c.run process timeout more = some final) :
    Underway process timeout input (moments ++ more) final :=
  run_induction (fun h hstep => h.step hstep) h hrun

theorem run_append (a b : List Moment) :
    c.run process timeout (a ++ b) =
      (c.run process timeout a).bind fun next => next.run process timeout b := by
  induction a generalizing c with
  | nil => rfl
  | cons m a ih =>
    simp only [List.cons_append, Course.run, Option.bind_assoc]
    exact congrArg _ (funext fun next => ih)

/-- There is one report only that a course can settle on. -/
theorem Underway.settle (h : Underway process timeout input moments c) {report : Report}
    (hsettle : c.settle? timeout = some report) :
    (¬timeout ≤ 0 ∧ process.runsOut timeout = false) ∧ report = process.run timeout input := by
  rw [settle?, Option.ite_none_right_eq_some] at hsettle
  obtain ⟨⟨hover, hnumber⟩, hreport⟩ := hsettle
  obtain ⟨exit, hexit, rfl⟩ := Option.map_eq_some_iff.mp hreport
  obtain rfl := h.exit exit hexit
  have hended : c.exchange.output.ended = true := by
    simp only [Exchange.isOver, Bool.and_eq_true] at hover
    exact hover.1.2
  have hpositive : ¬timeout ≤ 0 := by
    intro hnone
    rw [h.idle hnone] at hended
    cases hended
  have hhangs : process.hangs = false := by
    refine Bool.eq_false_iff.mpr fun hhangs => ?_
    rw [h.stays_open hhangs] at hended
    cases hended
  have hwithin : process.runsOut timeout = false := by
    rw [Process.runsOut, hhangs, hnumber]
    rfl
  have hquiet : process.isQuiet c.exchange = true := by
    rw [Process.isQuiet_of_not_hangs hhangs, hover]
  have hyield := (Process.yield_of_isQuiet hquiet).symm.trans
    (h.yield.trans (process.yield_start input))
  injection hyield with hcandidate hpassed hcomplaints hseen
  refine ⟨⟨hpositive, hwithin⟩, ?_⟩
  simp [Process.run, hpositive, hwithin, hcandidate, hpassed, hcomplaints, hseen]

/-- At a time limit that is hit when there is nothing left to do, this is reported. -/
theorem Underway.timeUp (h : Underway process timeout input moments c)
    (hit : timeout ≤ 0 ∨ process.isQuiet c.exchange = true ∧ process.runsOut timeout = true)
    (hexit : c.exit? = if process.exitedEarly then some process.exit else none) :
    c.timeUp timeout = process.run timeout input := by
  have hend : (c.exit?.isNone, c.exit?.getD killedExit) = process.timeOut := by
    rw [hexit, Process.timeOut]
    cases process.exitedEarly <;> rfl
  have hkilled : c.exit?.isNone = process.timeOut.1 := congrArg Prod.fst hend
  have hcode : c.exit?.getD killedExit = process.timeOut.2 := congrArg Prod.snd hend
  by_cases hnone : timeout ≤ 0
  · rw [Course.timeUp, h.idle hnone]
    cases input <;>
      simp [Process.run, hnone, hkilled, hcode, Exchange.start, Feeding.seen]
  · obtain ⟨hquiet, hruns⟩ := hit.resolve_left hnone
    have hyield := (Process.yield_of_isQuiet hquiet).symm.trans
      (h.yield.trans (process.yield_start input))
    injection hyield with hcandidate hpassed hcomplaints hseen
    simp [Course.timeUp, Process.run, hnone, hruns, hkilled, hcode, hpassed, hcomplaints, hseen]

end Course

end LiveTree.Parser
