import LiveTree.Fault
import LiveTree.Log

namespace LiveTree.Event

/-- Names one connection for good. -/
abbrev Handle := Nat

/-- What a stream may do to the channel while it is written to. -/
inductive Change where
  | join (h : Handle)
  | leave (h : Handle)

/-- What comes of writing to a stream. -/
structure Written where
  fault : Option Fault := none
  changes : List Change := []
  log : Log := []

/-- The streams behind connections, in a world of states `σ`. -/
structure Streams (σ : Type) where
  isOpen : σ → Handle → Bool
  write : Handle → Text → σ → Written × σ
  close : Handle → σ → σ

/-- The connections that events go to, with the world that their streams live in. -/
structure Channel (σ : Type) where
  live : List Handle := []
  world : σ
  log : Log := []

namespace Channel

variable {σ : Type}

def subscribe (h : Handle) (c : Channel σ) : Channel σ :=
  if c.live.contains h then c else { c with live := c.live ++ [h] }

def unsubscribe (h : Handle) (c : Channel σ) : Channel σ :=
  { c with live := c.live.filter (· != h) }

@[simp] theorem live_unsubscribe (h : Handle) (c : Channel σ) :
    (c.unsubscribe h).live = c.live.filter (· != h) := rfl

@[simp] theorem world_unsubscribe (h : Handle) (c : Channel σ) :
    (c.unsubscribe h).world = c.world := rfl

def change (c : Channel σ) : Change → Channel σ
  | .join h => c.subscribe h
  | .leave h => c.unsubscribe h

def note (record : Record) (c : Channel σ) : Channel σ := { c with log := c.log ++ [record] }

/-- Writes to one connection, whether it is subscribed or not. -/
def send (streams : Streams σ) (h : Handle) (text : Text) (c : Channel σ) :
    Except Fault Unit × Channel σ :=
  let (written, world) := streams.write h text c.world
  let c := written.changes.foldl change { c with world, log := c.log ++ written.log }
  match written.fault with
  | none => (.ok (), c)
  | some fault => (.error fault.sent, c)

/-- Tries one connection. One that is closed, or whose transport fails, leaves the channel; any
other fault is raised. -/
def offer (streams : Streams σ) (text : Text) (h : Handle) (c : Channel σ) :
    Except Fault Bool × Channel σ :=
  if !streams.isOpen c.world h then (.ok false, c.unsubscribe h)
  else
    match c.send streams h text with
    | (.ok (), c) => (.ok true, c)
    | (.error fault, c) =>
      if fault.family = .transport then
        (.ok false, (c.note ⟨.info, .events, "Dropping viewer connection: " ++ fault.message⟩)
          |>.unsubscribe h)
      else (.error fault, c)

/-- Tries connections in turn and counts those that got the text. -/
def offerAll (streams : Streams σ) (text : Text) : List Handle → Channel σ →
    Except Fault Nat × Channel σ
  | [], c => (.ok 0, c)
  | h :: rest, c =>
    match c.offer streams text h with
    | (.error fault, c) => (.error fault, c)
    | (.ok got, c) =>
      match offerAll streams text rest c with
      | (.error fault, c) => (.error fault, c)
      | (.ok count, c) => (.ok (count + got.toNat), c)

/-- Sends an event to the connections of `order`. -/
def broadcastIn (streams : Streams σ) (order : List Handle) (type : Text) (data : Json)
    (c : Channel σ) : Except Fault Nat × Channel σ :=
  match encode type data with
  | .error fault => (.error (.ofEncode fault), c)
  | .ok payload => c.offerAll streams (frame payload) order

/-- Sends an event to every connection that is subscribed when it starts. -/
def broadcast (streams : Streams σ) (type : Text) (data : Json) (c : Channel σ) :
    Except Fault Nat × Channel σ :=
  c.broadcastIn streams c.live type data

section Broadcast

variable (streams : Streams σ) {type : Text} {data : Json} (c : Channel σ)

theorem broadcastIn_of_some {payload : Text} (h : encode? type data = some payload)
    (order : List Handle) :
    c.broadcastIn streams order type data = c.offerAll streams (frame payload) order := by
  rw [broadcastIn, encode?_eq_some_iff.mp h]

/-- What has no encoding is not offered to anyone. -/
theorem broadcastIn_of_error {fault : EncodeFault} (h : encode type data = .error fault)
    (order : List Handle) :
    c.broadcastIn streams order type data = (.error (.ofEncode fault), c) := by
  rw [broadcastIn, h]

theorem broadcast_of_error {fault : EncodeFault} (h : encode type data = .error fault) :
    c.broadcast streams type data = (.error (.ofEncode fault), c) :=
  broadcastIn_of_error streams c h c.live

end Broadcast

/-- Ends every connection. -/
def close (streams : Streams σ) (c : Channel σ) : Channel σ :=
  c.live.foldl (fun c h => { c with world := streams.close h c.world }.unsubscribe h) c

end Channel

end LiveTree.Event
