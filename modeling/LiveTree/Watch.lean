import LiveTree.Event.Channel
import LiveTree.File.Fault
import LiveTree.Site

namespace LiveTree

/-- What happened to a file or folder. -/
inductive Happening where
  | modified
  | created
  | deleted
  | moved (destination : Text)
  | closed
  | opened
  deriving DecidableEq

/-- Something that the system tells of. -/
structure Notice where
  path : Text
  happening : Happening
  ofFolder : Bool := false

/-- The file with new content. A file that is moved into place is new there: editors save that
way. -/
def Notice.changed? (notice : Notice) : Option Text :=
  if notice.ofFolder then none
  else match notice.happening with
    | .modified => some notice.path
    | .created => some notice.path
    | .moved destination => some destination
    | _ => none

/-- What the viewer watches. -/
inductive Watch where
  | assets
  | program
  | sources
  deriving DecidableEq, Repr

namespace Watch

/-- The order in which watching starts. -/
def all : List Watch := [.assets, .program, .sources]

/-- The folder that is watched with all that is below it. -/
def path (site : Site) : Watch → Text
  | .assets => site.assets
  | .program => site.options.programDirectory site.disk.workdir
  | .sources => site.root

/-- A source file as events name it. -/
def sourceName (site : Site) (path : Text) : Text :=
  Path.fromRoot site.disk.workdir site.root path

/-- What is noted of a change. -/
def record (site : Site) (path : Text) : Watch → Record
  | .assets => ⟨.info, .watch, "Viewer asset modified: " ++ path⟩
  | .program => ⟨.info, .watch, "Language program modified in file: " ++ path⟩
  | .sources => ⟨.info, .watch, "Language file modified: " ++ sourceName site path⟩

/-- The type and the data of the event that announces a change. -/
def announcement (site : Site) (path : Text) : Watch → Text × Json
  | .assets => (Event.reload, .null)
  | .program => (Event.programMod, .null)
  | .sources => (Event.fileMod, .text (sourceName site path))

/-- Broadcasts what a notice means, if it means anything. -/
def hear {σ : Type} (watch : Watch) (site : Site) (streams : Event.Streams σ) (notice : Notice)
    (channel : Event.Channel σ) : Except Fault Nat × Event.Channel σ :=
  match notice.changed? with
  | none => (.ok 0, channel)
  | some path =>
    let (type, data) := watch.announcement site path
    (channel.note (watch.record site path)).broadcast streams type data

/-- An order to watch that was given to the system. -/
structure Order where
  watch : Watch
  path : Text
  /-- Why the system would not take it. -/
  refusal : Option Text

/-- Whether a folder is watched after an order, or why not. -/
def Order.fault? (order : Order) : Option File.Fault :=
  order.refusal.map (.notWatched order.path)

def notWatching (fault : File.Fault) : Record :=
  ⟨.warning, .watch, "Not watching: " ++ fault.message⟩

/-- Starts to watch what there is. The orders are numbered, and `refusal` tells what the system
says to each. -/
def start (site : Site) (refusal : Nat → Option Text) : List Watch → List Order → Log →
    List Order × Log
  | [], orders, log => (orders, log)
  | watch :: rest, orders, log =>
    let path := watch.path site
    if site.disk.contains path then
      let order : Order := ⟨watch, path, refusal orders.length⟩
      start site refusal rest (orders ++ [order])
        (log ++ (order.fault?.map notWatching).toList)
    else start site refusal rest orders (log ++ [notWatching (.nothing path)])

/-- Starts to watch all that the viewer watches. -/
def startAll (site : Site) (refusal : Nat → Option Text) : List Order × Log :=
  start site refusal all [] []

end Watch

end LiveTree
