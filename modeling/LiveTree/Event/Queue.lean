import LiveTree.Text.Basic

namespace LiveTree.Event

/-- The stream of one open response: frames that wait for a reader, and `none` for the end. -/
structure Queue where
  waiting : List (Option Text) := []
  closed : Bool := false
  deriving DecidableEq

/-- What a reader gets: a frame, a sign that the stream is still open, or the end. -/
inductive Reading where
  | frame (text : Text)
  | keepAlive
  | ended
  deriving DecidableEq

/-- A comment line, which readers skip. -/
def keepAliveText : Text := ": keep-alive\n\n"

namespace Queue

/-- None if the stream is closed. -/
def write? (queue : Queue) (text : Text) : Option Queue :=
  if queue.closed then none else some { queue with waiting := queue.waiting ++ [some text] }

def close (queue : Queue) : Queue :=
  if queue.closed then queue else ⟨queue.waiting ++ [none], true⟩

/-- One step of a reader that waits no longer than the keep-alive interval. -/
def next (queue : Queue) : Reading × Queue :=
  match queue.waiting with
  | some text :: waiting => (.frame text, { queue with waiting })
  | none :: waiting => (.ended, { queue with waiting })
  | [] => (if queue.closed then .ended else .keepAlive, queue)

@[simp] theorem close_closed (queue : Queue) : queue.close.closed = true := by
  unfold close
  split <;> simp [*]

theorem close_of_closed {queue : Queue} (h : queue.closed = true) : queue.close = queue := by
  simp [close, h]

/-- The frames up to the end that a reader gets without waiting. -/
def drain (queue : Queue) : List Text × Queue :=
  let texts := (queue.waiting.takeWhile Option.isSome).filterMap id
  (texts, { queue with waiting := (queue.waiting.dropWhile Option.isSome).drop 1 })

end Queue

/-- A queue with readers known by name. A reader that has ended stays ended. -/
structure ReadQueue where
  queue : Queue := {}
  ended : List Text := []

namespace ReadQueue

def next (q : ReadQueue) (reader : Text) : Reading × ReadQueue :=
  if q.ended.contains reader then (.ended, q)
  else
    let (reading, queue) := q.queue.next
    (reading, ⟨queue, if reading = .ended then reader :: q.ended else q.ended⟩)

end ReadQueue

end LiveTree.Event
