import LiveTree.Event.Channel
import LiveTree.Event.Queue

namespace LiveTree.Event

/-- A stream that does as it is told. Connections are meant by their names; a name that nothing
bears is passed over. -/
structure PlainStream where
  /-- A stream without this flag is open. -/
  closed : Bool := false
  /-- Whether closing it has an effect. -/
  closable : Bool := true
  /-- What every write fails with. -/
  fault : Option Fault := none
  /-- Connections that every write ends. -/
  leavers : List Text := []
  /-- Connections to new streams that the first write opens. -/
  joiners : List Text := []

/-- A stream of a pool: one whose behaviour is stated, or the queue of an open response. -/
inductive Stream where
  | plain (stream : PlainStream)
  | queue (queue : Queue)

/-- A pool of streams. -/
structure Pool where
  streams : Array Stream := #[]
  /-- The stream of each connection. -/
  wires : Array Nat := #[]
  /-- The latest connection of each name. -/
  names : Association Handle := []
  /-- Every text written to a plain stream, with the stream it was written to. -/
  written : Array (Nat × Text) := #[]

namespace Pool

def handle? (pool : Pool) (name : Text) : Option Handle := Association.find? name pool.names

def streamOf? (pool : Pool) (h : Handle) : Option (Nat × Stream) := do
  let i ← pool.wires[h]?
  return (i, ← pool.streams[i]?)

/-- Connects a stream of the pool under a name. -/
def connect (pool : Pool) (name : Text) (stream : Nat) : Handle × Pool :=
  let h := pool.wires.size
  (h, { pool with
    wires := pool.wires.push stream
    names := (name, h) :: pool.names.filter (·.1 != name) })

/-- Adds a stream and connects it. -/
def add (pool : Pool) (name : Text) (stream : Stream) : Handle × Pool :=
  { pool with streams := pool.streams.push stream }.connect name pool.streams.size

def set (pool : Pool) (i : Nat) (stream : Stream) : Pool :=
  { pool with streams := pool.streams.setIfInBounds i stream }

/-- The text that a write to a closed queue fails with. -/
def closedText : Text := "Stream is closed"

def isOpen (pool : Pool) (h : Handle) : Bool :=
  match pool.streamOf? h with
  | some (_, .plain stream) => !stream.closed
  | some (_, .queue queue) => !queue.closed
  | none => true

/-- Opens new plain streams under names. -/
def openAll (pool : Pool) : List Text → List Handle × Pool
  | [] => ([], pool)
  | name :: names =>
    let (h, pool) := pool.add name (.plain {})
    let (rest, pool) := pool.openAll names
    (h :: rest, pool)

def write (h : Handle) (text : Text) (pool : Pool) : Written × Pool :=
  match pool.streamOf? h with
  | none => ({}, pool)
  | some (i, .queue queue) =>
    match queue.write? text with
    | none => ({ fault := some (.transport closedText) }, pool)
    | some queue => ({}, pool.set i (.queue queue))
  | some (i, .plain stream) =>
    match stream.fault with
    | some fault => ({ fault := some fault }, pool)
    | none =>
      let pool := { pool with written := pool.written.push (i, text) }
      let leavers := stream.leavers.filterMap pool.handle?
      let (joiners, pool) :=
        (pool.set i (.plain { stream with joiners := [] })).openAll stream.joiners
      ({ changes := leavers.map .leave ++ joiners.map .join }, pool)

def close (h : Handle) (pool : Pool) : Pool :=
  match pool.streamOf? h with
  | some (i, .queue queue) => pool.set i (.queue queue.close)
  | some (i, .plain stream) =>
    if stream.closable then pool.set i (.plain { stream with closed := true }) else pool
  | none => pool

/-- Changes the flag of a stream directly; what waits in a queue stays as it is. -/
def setClosed (h : Handle) (closed : Bool) (pool : Pool) : Pool :=
  match pool.streamOf? h with
  | some (i, .queue queue) => pool.set i (.queue { queue with closed })
  | some (i, .plain stream) => pool.set i (.plain { stream with closed })
  | none => pool

/-- Puts another behaviour in place of that of a stream: writes fail, or do nothing but write. -/
def setFault (h : Handle) (fault : Option Fault) (pool : Pool) : Pool :=
  match pool.streamOf? h with
  | some (i, .plain stream) =>
    pool.set i (.plain { stream with fault, leavers := [], joiners := [] })
  | _ => pool

def asStreams : Streams Pool := ⟨isOpen, write, close⟩

end Pool

end LiveTree.Event
