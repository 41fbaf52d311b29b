import LiveTree.Event.Pool

namespace LiveTree.Web

open Event (Channel Handle Queue Reading Streams Written)

/-- How far the reading of a feed has come. -/
inductive Stage where
  /-- Nothing was read yet. -/
  | fresh
  | reading
  | over
  deriving DecidableEq, Repr

/-- The answer to one request for events. -/
structure Feed where
  queue : Queue := {}
  stage : Stage := .fresh

/-- All feeds that were ever opened; a connection has the number of its feed. -/
abbrev Feeds := Array Feed

namespace Feeds

def queue (feeds : Feeds) (h : Handle) : Queue := (feeds[h]?.map Feed.queue).getD {}

def setQueue (h : Handle) (queue : Queue) (feeds : Feeds) : Feeds :=
  feeds.modify h ({ · with queue })

def setStage (h : Handle) (stage : Stage) (feeds : Feeds) : Feeds :=
  feeds.modify h ({ · with stage })

def write (h : Handle) (text : Text) (feeds : Feeds) : Written × Feeds :=
  match (feeds.queue h).write? text with
  | none => ({ fault := some (.transport Event.Pool.closedText) }, feeds)
  | some queue => ({}, feeds.setQueue h queue)

def asStreams : Streams Feeds where
  isOpen feeds h := !(feeds.queue h).closed
  write := write
  close h feeds := feeds.setQueue h (feeds.queue h).close

end Feeds

/-- What a reader of a feed gets. -/
inductive Item where
  | text (text : Text)
  | ended
  deriving DecidableEq

/-- The first text of every feed, a comment line. -/
def connectedText : Text := ": connected\n\n"

/-- A server as its feeds see it. -/
abbrev Hub := Channel Feeds

namespace Hub

def empty : Hub := { world := (#[] : Array Feed) }

/-- Opens a feed, which is subscribed from then on. -/
def openFeed (hub : Hub) : Handle × Hub :=
  let h := hub.world.size
  (h, { hub with world := hub.world.push {} }.subscribe h)

/-- Ends a feed that is being read. -/
def finish (h : Handle) (hub : Hub) : Hub :=
  { hub with world := (hub.world.setQueue h (hub.world.queue h).close).setStage h .over }
    |>.unsubscribe h

/-- Reads the next item of a feed. -/
def read (h : Handle) (hub : Hub) : Item × Hub :=
  match hub.world[h]?.map Feed.stage with
  | some .fresh => (.text connectedText, { hub with world := hub.world.setStage h .reading })
  | some .reading =>
    let (reading, queue) := (hub.world.queue h).next
    let hub : Hub := { hub with world := hub.world.setQueue h queue }
    match reading with
    | .frame text => (.text text, hub)
    | .keepAlive => (.text Event.keepAliveText, hub)
    | .ended => (.ended, hub.finish h)
  | _ => (.ended, hub)

/-- Closes the answer. A feed of which nothing was read has nothing to clean up yet. -/
def closeFeed (h : Handle) (hub : Hub) : Hub :=
  match hub.world[h]?.map Feed.stage with
  | some .fresh => { hub with world := hub.world.setStage h .over }
  | some .reading => hub.finish h
  | _ => hub

end Hub

end LiveTree.Web
