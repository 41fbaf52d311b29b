import LiveTree.Display.Transform
import LiveTree.File.Listing
import LiveTree.Site
import LiveTree.Web.Asset
import LiveTree.Web.Request

namespace LiveTree.Web

/-- What a request is answered with. -/
inductive Answer where
  | json (value : Json)
  | page (page : Page)
  /-- A stream of events. -/
  | feed

namespace Answer

def status : Answer → Nat
  | .page p => p.status
  | _ => 200

def type : Answer → Text
  | .json _ => "application/json"
  | .page p => p.type
  | .feed => "text/event-stream"

/-- What caches are told about the answer, if anything. -/
def caching? : Answer → Option Text
  | .feed => some "no-cache"
  | _ => none

end Answer

/-- An answer, whether pages from elsewhere may read it, and what was done for it. -/
structure Reply where
  answer : Answer
  shared : Bool
  report : Option Parser.Report := none
  log : Log := []

/-- The pages that may read the answer besides the viewer's own. -/
def Reply.allowedOrigin? (reply : Reply) : Option Text := if reply.shared then some "*" else none

/-- A parse on behalf of a request: the tree if there is one, or a fault that is not the parser's,
and the parser's report if a parser was to be started. -/
structure Parsed where
  result : Except Parser.Fault (Option Syntax.Node) := .ok none
  report : Option Parser.Report := none
  log : Log := []

end LiveTree.Web

namespace LiveTree.Site

open Web

/-- The location of a source file, none unless there is such a file below the root. -/
def source? (site : Site) (file : Text) : Option Text :=
  (Path.below? site.root file).filter site.disk.isFile

/-- Parses a source file, starting with a rule or, if that is empty, with the configured one. -/
def parseFile (site : Site) (launch : Parser.Request → Parser.Launch) (file rule : Text) : Parsed :=
  match site.source? file with
  | none => { log := [⟨.warning, .web, "Unable to read file: " ++ file⟩] }
  | some path =>
    let entry := if rule.isEmpty then site.options.entry else some rule
    let report := site.parse launch { path := some path, entry }
    let notes := site.notes report
    match report.result with
    | .error fault =>
      if fault.isOfProcess then
        { report := some report
          log := notes ++
            [⟨.error, .web, "Parsing '" ++ file ++ "' failed: " ++ fault.message⟩] }
      else { result := .error fault, report := some report, log := notes }
    | .ok (.failure _) => { report := some report, log := notes }
    | .ok (.tree node) => { result := .ok (some node), report := some report, log := notes }

/-- The paths of all source files, none if there is no root. -/
def list (site : Site) : List Text × Log :=
  match site.disk.list site.options.root with
  | .ok files => (files, [])
  | .error fault => ([], [⟨.warning, .web, "Unable to list files: " ++ fault.message⟩])

/-- What is noted of a request that nothing handles the fault of. -/
def uncaught (path : Text) : Record := ⟨.error, .web, "Exception on " ++ path ++ " [GET]"⟩

/-- The answer to a request for a tree. An empty object stands for no tree. -/
def treeReply (toJson : Syntax.Node → Json) (path : Text) (parsed : Parsed) : Reply :=
  let shared := Route.isShared path
  match parsed.result with
  | .ok none => { answer := .json (.object []), shared, report := parsed.report, log := parsed.log }
  | .ok (some node) =>
    { answer := .json (toJson node), shared, report := parsed.report, log := parsed.log }
  | .error _ =>
    { answer := .page Page.serverError, shared, report := parsed.report
      log := parsed.log ++ [uncaught path] }

/-- Answers a request. -/
def reply (site : Site) (launch : Parser.Request → Parser.Launch) (request : Request) : Reply :=
  let shared := Route.isShared request.path
  match Route.ofPath request.path with
  | .events => { answer := .feed, shared }
  | .parse file =>
    treeReply Syntax.Node.toJson request.path (site.parseFile launch file request.query)
  | .tree file =>
    treeReply (fun node => (Display.ofSyntax none node).toJson) request.path
      (site.parseFile launch file request.query)
  | .files =>
    let (files, log) := site.list
    { answer := .json (.list (files.map .text)), shared, log }
  | .asset file =>
    match Asset.send site.disk site.assets file with
    | (.ok page, log) => { answer := .page page, shared, log }
    | (.error _, log) =>
      { answer := .page Page.serverError, shared, log := log ++ [uncaught request.path] }
  | .unknown => { answer := .page Page.notFound, shared }

end LiveTree.Site
