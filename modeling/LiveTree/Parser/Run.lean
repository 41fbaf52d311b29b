import LiveTree.Log
import LiveTree.Parser.Candidate
import LiveTree.Parser.Fault
import LiveTree.Parser.Line
import LiveTree.Parser.Request
import LiveTree.Syntax.Node

namespace LiveTree.Parser

/-- The tree on the last line of an output. -/
def decode : Candidate → Except DecodeFault Syntax.Node
  | none => .error .empty
  | some line =>
    match Json.read line with
    | .ok value => .ok (.ofJson value)
    | .error fault =>
      if fault.cause = .nesting then .error (.tooDeep line) else .error (.notJson line fault)

/-- What a started parser does. One that hangs keeps its standard output open after the last chunk;
one that exited early has its exit code before its output is read. -/
structure Process where
  stdout : List Octets := []
  stderr : List Octets := []
  exit : Int := 0
  hangs : Bool := false
  exitedEarly : Bool := false
  /-- Breaks the pipe while its input is written. -/
  breaksPipe : Bool := false

/-- What comes of starting a parser: the system may refuse it, or find an argument that is unfit
for any command line. -/
inductive Launch where
  | refused (reason : Text)
  | unfit (reason : Text)
  | started (process : Process)

/-- A parse that ran to its end: a tree, or the line that holds none. -/
inductive Outcome where
  | tree (node : Syntax.Node)
  | failure (line : Text)

/-- What was written to standard input, and whether it was closed. -/
structure Input where
  octets : Octets
  closed : Bool

/-- A process as it was started and as it ended. -/
structure Trace where
  input : Option Input
  killed : Bool
  exit : Int

/-- A whole parse: its result, the command line if a parser was to be started, the lines passed on
from both outputs, what was noted after them, and the process if one was started. -/
structure Report where
  result : Except Fault Outcome
  command : Option (List Text) := none
  stdout : List Text := []
  stderr : List Text := []
  log : Log := []
  process : Option Trace := none

/-- The exit code that `kill` sets. -/
def killedExit : Int := -9

/-- The end of a process that ran into the time limit; it is killed unless it has exited. -/
def Process.timeOut (process : Process) : Bool × Int :=
  if process.exitedEarly then (false, process.exit) else (true, killedExit)

/-- What becomes of the input. A broken pipe is no fault of the request: all of it was handed over,
and the pipe is closed in any case. -/
def Process.offer (_ : Process) (octets : Octets) : Input := ⟨octets, true⟩

/-- The result of a process that ended by itself, and what is noted about it. A line that holds no
tree is a result; a line that is nested too deeply to tell is none. -/
def conclude (exit : Int) (candidate : Candidate) : Except Fault Outcome × Log :=
  if exit < 0 then (.error (.killed exit), [])
  else
    let status : Log :=
      if exit = 0 then []
      else [⟨.warning, .parser, "Parser exited with status " ++ Text.ofInt exit⟩]
    match decode candidate with
    | .ok node => (.ok (.tree node), status)
    | .error (.tooDeep _) => (.error .tooDeep, status)
    | .error fault =>
      (.ok (.failure fault.line),
        status ++ [⟨.warning, .parser, fault.message ++ "\n\t" ++ fault.line⟩])

/-- The lines of standard output that are read of a process: all of them if the output ends, else
those that end themselves. -/
def Process.lines (process : Process) : List Text :=
  if process.hangs then (feed [] process.stdout).1 else allLines process.stdout

/-- Whether the time limit is hit after all there is was read. A limit that is no number always is,
for no time is before it. -/
def Process.runsOut (process : Process) (timeout : Float) : Bool := process.hangs || timeout.isNaN

/-- A process under a time limit. At a limit of zero or less nothing is read or written. -/
def Process.run (process : Process) (timeout : Float) (input : Option Octets) : Report :=
  let (killed, exit) := process.timeOut
  if timeout ≤ 0 then
    { result := .error (.timedOut timeout exit)
      process := some ⟨input.map fun _ => ⟨[], false⟩, killed, exit⟩ }
  else
    let written := input.map process.offer
    let errors := allLines process.stderr
    let (candidate, passed) := Candidate.pushAll none process.lines
    if process.runsOut timeout then
      { result := .error (.timedOut timeout exit)
        stdout := passed
        stderr := errors
        process := some ⟨written, killed, exit⟩ }
    else
      let (result, log) := conclude process.exit candidate
      { result, stdout := passed, stderr := errors, log
        process := some ⟨written, false, process.exit⟩ }

/-- Starts the parser on a request. -/
def Program.parse (program : Program) (workdir : Text) (timeout : Float) (request : Request)
    (launch : Launch) : Report :=
  match request.input?.map Utf8.encode? with
  | some none => { result := .error .unencodable }
  | input =>
    let command := some (program.arguments workdir request)
    match launch with
    | .refused reason => { result := .error (.notStarted program.lua reason), command }
    | .unfit reason => { result := .error (.unfit reason), command }
    | .started process => { process.run timeout (input.bind id) with command }

end LiveTree.Parser
