import LiveTree.Display.Transform
import LiveTree.Site
import LiveTree.Viewer.Controller

namespace LiveTree

open Viewer

/-- A console with all that was printed, and the parses made for it. -/
structure Console where
  printed : Text := []
  reports : List Parser.Report := []

namespace Console

/-- Prints a line, on a terminal that is taken to have every code point. -/
def print (text : Text) (console : Console) : Console :=
  { console with printed := console.printed ++ text ++ "\n" }

/-- The request for the tree of a file below the root, starting with a rule or, if that is empty,
with the configured one. -/
def request (site : Site) (file rule : Text) : Parser.Request :=
  { path := some (Path.append site.options.root file)
    entry := if rule.isEmpty then site.options.entry else some rule }

/-- The tree that a parse is displayed as. -/
def payload (file : Text) : Parser.Outcome → Payload
  | .tree node => .tree (Display.ofSyntax none node)
  | .failure _ => .tree (Display.placeholder ("No tree for " ++ file))

def fetch (site : Site) (launch : Parser.Request → Parser.Launch) (file rule : Text)
    (console : Console) : Fetched × Console :=
  let report := site.parse launch (request site file rule)
  let result := match report.result with
    | .ok outcome => .ok (payload file outcome)
    | .error fault => .error (.parser fault)
  ({ result, log := site.notes report }, { console with reports := console.reports ++ [report] })

/-- Prints a tree and tells how large its drawing is. -/
def render (node : Display.Node) (console : Console) : Except Fault (Float × Float) × Console :=
  match node.draw with
  | .error fault => (.error (.drawing fault), console)
  | .ok drawing =>
    let (width, height) := Display.drawnSize drawing
    (.ok (.ofNat width, .ofNat height), console.print drawing)

def callbacks (site : Site) (launch : Parser.Request → Parser.Launch) : Callbacks Console Float :=
  ⟨fetch site launch, render⟩

/-- A viewer that prints the tree of a file. It names the file as events do. -/
def session (site : Site) (file : Text) : Session Console Float :=
  { controller := {
      file := Path.fromRoot site.disk.workdir site.options.root
        (Path.append site.options.root file)
      rule := site.options.entry.getD []
      viewport := .initial }
    world := {} }

end Console

end LiveTree
