import LiveTree.Display.Node
import LiveTree.Event.Channel
import LiveTree.Viewer.Viewport

namespace LiveTree.Viewer

/-- What a viewer is doing. -/
inductive Phase where
  | idle
  | fetching
  | displaying
  | error
  deriving DecidableEq, Repr

/-- A response: a tree, or JSON that may stand for one. -/
inductive Payload where
  | tree (node : Display.Node)
  | json (value : Json)

/-- The tree of a response, none if it is no tree. -/
def Payload.node : Payload → Except Display.Fault (Option Display.Node)
  | .tree node => .ok (some node)
  | .json value => Display.Node.ofPayload value

/-- A viewer's selection, what it displays, and how far its requests have come. -/
structure Controller (R : Type) where
  file : Text
  rule : Text
  viewport : Viewport R
  phase : Phase := .idle
  tree : Option Display.Node := none
  error : Option Fault := none
  /-- The number of the latest request. -/
  sequence : Nat := 0

/-- What comes of a fetch. It may begin newer requests of the same viewer before it returns. -/
structure Fetched where
  result : Except Fault Payload
  begun : Nat := 0
  log : Log := []

/-- How a viewer gets at trees and draws them, in a world of states `ω`. Drawing tells the size of
what is drawn, not zoomed. -/
structure Callbacks (ω R : Type) where
  fetch : (file rule : Text) → ω → Fetched × ω
  render : Display.Node → ω → Except Fault (R × R) × ω

/-- A viewer in its world. -/
structure Session (ω R : Type) where
  controller : Controller R
  world : ω
  log : Log := []

namespace Session

variable {ω R : Type} [Measure R]

/-- The result of a step, or the fault it raised, and the session after it. -/
abbrev Step (α ω R : Type) := Except Fault α × Session ω R

def beginFetch (s : Session ω R) : Session ω R :=
  { s with controller :=
    { s.controller with sequence := s.controller.sequence + 1, phase := .fetching } }

/-- Begins several requests at once; the last one counts. -/
def beginFetches : Nat → Session ω R → Session ω R
  | 0, s => s
  | n + 1, s => beginFetches n s.beginFetch

def note (record : Record) (s : Session ω R) : Session ω R := { s with log := s.log ++ [record] }

/-- Records that a request failed; what is displayed stays. -/
def fail (sequence : Int) (fault : Fault) (s : Session ω R) : Bool × Session ω R :=
  if sequence ≠ s.controller.sequence then (false, s)
  else
    (true, { s with controller := { s.controller with error := some fault, phase := .error } }
      |>.note ⟨.warning, .viewer,
        "Unable to display '" ++ s.controller.file ++ "': " ++ fault.message⟩)

/-- Displays the response to a request, unless it is stale or no tree. One that lies too deep is
neither. -/
def complete (callbacks : Callbacks ω R) (sequence : Int) (payload : Payload) (s : Session ω R) :
    Step Bool ω R :=
  if sequence ≠ s.controller.sequence then (.ok false, s)
  else
    match payload.node with
    | .error _ => (.error .tooDeep, s)
    | .ok none => (.ok false, (s.fail sequence (.noTree s.controller.file)).2)
    | .ok (some tree) =>
      match callbacks.render tree s.world with
      | (.error fault, world) => (.error fault, { s with world })
      | (.ok (width, height), world) =>
        let view := s.controller.viewport
        let viewport := view.resizeContent (width * view.zoom) (height * view.zoom)
        (.ok true, { s with
          world
          controller := { s.controller with
            viewport, tree := some tree, error := none, phase := .displaying } })

/-- Fetches and displays the tree of the selection. -/
def refresh (callbacks : Callbacks ω R) (s : Session ω R) : Step Bool ω R :=
  if s.controller.file.isEmpty then (.ok false, s)
  else
    let s := s.beginFetch
    let sequence : Int := s.controller.sequence
    let (fetched, world) := callbacks.fetch s.controller.file s.controller.rule s.world
    let s := beginFetches fetched.begun { s with world, log := s.log ++ fetched.log }
    match fetched.result with
    | .ok payload => s.complete callbacks sequence payload
    | .error fault =>
      if fault.isFetchFault then (.ok false, (s.fail sequence fault).2) else (.error fault, s)

/-- Takes a new file or rule and fetches its tree. -/
def select (callbacks : Callbacks ω R) (file rule : Option Text) (s : Session ω R) :
    Step Bool ω R :=
  { s with controller := { s.controller with
    file := file.getD s.controller.file
    rule := rule.getD s.controller.rule } }.refresh callbacks

/-- Repeats the request where an event calls for it. -/
def handleEvent (callbacks : Callbacks ω R) (event : Event) (s : Session ω R) : Step Bool ω R :=
  match event.calls? s.controller.file with
  | some true => s.refresh callbacks
  | some false => (.ok false, s)
  | none =>
    (.ok false, s.note ⟨.error, .viewer, "Unrecognized server event: " ++ event.type.asText⟩)

end Session

/-- A session as the one stream of a channel: what is written to it goes to the controller. -/
structure Listener (ω R : Type) where
  session : Session ω R
  closed : Bool := false

namespace Listener

variable {ω R : Type} [Measure R]

/-- Reads an event and lets the controller handle it. -/
def hear (callbacks : Callbacks ω R) (text : Text) (l : Listener ω R) :
    Option Fault × Listener ω R :=
  match Event.decode text with
  | .error fault => (some (.event fault), l)
  | .ok event =>
    let (result, session) := l.session.handleEvent callbacks event
    (match result with | .ok _ => none | .error fault => some fault, { l with session })

/-- The notes of a session go to the channel that wrote to it. -/
def write (callbacks : Callbacks ω R) (_ : Event.Handle) (text : Text) (l : Listener ω R) :
    Event.Written × Listener ω R :=
  let (fault, l) := l.hear callbacks text
  ({ fault, log := l.session.log }, { l with session := { l.session with log := [] } })

def asStreams (callbacks : Callbacks ω R) : Event.Streams (Listener ω R) where
  isOpen l _ := !l.closed
  write := write callbacks
  close _ l := { l with closed := true }

end Listener

end LiveTree.Viewer
