import LiveTree.Console
import LiveTree.Settings.EnvFile
import LiveTree.Watch

namespace LiveTree

/-- What a run does outside the program, printing aside. -/
inductive Act where
  | listen (host : Text) (port : Nat)
  | openBrowser (url : Text)
  | serve
  | closeServer
  | startObserver
  | askObserver
  /-- Waits for the observer for a while. -/
  | awaitObserver
  | stopObserver
  | joinObserver
  deriving DecidableEq

/-- How the outside of a run behaves. -/
structure Outside where
  launch : Parser.Request → Parser.Launch
  /-- The port that the system chooses where it may. -/
  freePort : Nat
  /-- Whether the user stops the viewer at the first chance. -/
  interrupted : Bool
  /-- How often the observer is found alive otherwise. -/
  checks : Nat
  /-- What the system says to each order to watch. -/
  refusal : Nat → Option Text := fun _ => none

/-- A fault that nothing handles, so that a run has no status: one of the file of settings, or one
met while the tree was fetched. -/
inductive Run.Failure where
  | settings (fault : Settings.EnvFile.Fault)
  | viewer (fault : Fault)

def Run.Failure.message : Run.Failure → Text
  | .settings fault => fault.message
  | .viewer fault => fault.message

/-- What comes of a run. -/
structure Run where
  /-- The exit status, or what kept the run from having one. -/
  status : Except Run.Failure Nat := .ok 0
  printed : Text := []
  complaints : Text := []
  acts : List Act := []
  reports : List Parser.Report := []
  log : Log := []

namespace Run

def helpStatus : Nat := 0

/-- The status of a run that could not start. -/
def faultStatus : Nat := 2

def help : Run := { status := .ok helpStatus, printed := Settings.helpText ++ "\n" }

def refuse (fault : Settings.Fault) : Run :=
  { status := .ok faultStatus, complaints := "❌ " ++ fault.message ++ "\n" }

def farewell : Text := "\n👋 Stopping viewer\n"

def banner (site : Site) (url : Text) : Text :=
  "\n╔════════════════════════════════════════════════════════════════════╗\n" ++
  "║   🌳 Descend Syntax Tree Viewer                                    ║\n" ++
  "╚════════════════════════════════════════════════════════════════════╝\n    \n" ++
  ("🚀 Started viewer at " ++ url ++ "\n" ++
    "📁 Source root: " ++ site.root ++ "\n" ++
    "📜 Language program: " ++ site.disk.absolute site.options.main ++ "\n" ++
    "📌 Press Ctrl+C to stop\n\n")

/-- Serves the viewer until it is stopped. -/
def server (site : Site) (outside : Outside) : Run :=
  let asked := site.options.port.getD 0
  let port := if asked = 0 then outside.freePort else asked
  let url : Text := "http://" ++ site.options.host ++ ":" ++ Text.ofNat port
  let opening := if site.options.port.isNone then [Act.openBrowser url] else []
  { printed := banner site url ++ (if outside.interrupted then farewell else [])
    acts := [.listen site.options.host asked, .startObserver] ++ opening ++
      [.serve, .stopObserver, .joinObserver, .closeServer]
    log := (Watch.startAll site outside.refusal).2 }

/-- What waiting for changes does. -/
def waiting (outside : Outside) : List Act :=
  if outside.interrupted then [.askObserver, .awaitObserver]
  else (List.replicate outside.checks [Act.askObserver, .awaitObserver]).flatten ++ [.askObserver]

/-- Prints the tree of a file and waits for changes until it is stopped. -/
def console (site : Site) (outside : Outside) (file : Text) : Run :=
  match (Console.session site file).refresh (Console.callbacks site outside.launch) with
  | (.error fault, session) =>
    { status := .error (.viewer fault)
      printed := session.world.printed
      reports := session.world.reports
      log := session.log }
  | (.ok _, session) =>
    let console := session.world.print "👀 Watching for changes, press Ctrl+C to stop\n"
    { printed := console.printed ++ (if outside.interrupted then farewell else [])
      acts := [.startObserver] ++ waiting outside ++ [.stopObserver, .joinObserver]
      reports := console.reports
      log := session.log ++ (Watch.startAll site outside.refusal).2 }

/-- A run with options. -/
def withOptions (site : Site) (outside : Outside) : Run :=
  match site.options.printFile with
  | some file => console site outside file
  | none => server site outside

/-- What is known before a site is run: the site, or a run that is over already, and what was
complained of meanwhile. -/
structure Preparation where
  site : Except Run Site
  complaints : Text := []

/-- Reads the command line in the environment as it stands with the file of settings. Help is given
whatever became of the settings. -/
def prepare (assets : Text) (disk : File.Disk) (loaded : Settings.EnvFile.Loaded)
    (arguments : List Text) : Preparation :=
  let parameters := Settings.Parameters.ofArguments arguments
  if parameters.wantsHelp then { site := .error help }
  else
    let site := match loaded.environment with
      | .error fault => .error { status := .error (.settings fault) }
      | .ok environment =>
        match Settings.Options.ofParameters parameters environment with
        | .error fault => .error (refuse fault)
        | .ok options => .ok ⟨options, assets, disk⟩
    { site, complaints := loaded.complaints }

/-- A run of the command line, once the settings are loaded. -/
def ofLoaded (assets : Text) (disk : File.Disk) (outside : Outside)
    (loaded : Settings.EnvFile.Loaded) (arguments : List Text) : Run :=
  let preparation := prepare assets disk loaded arguments
  let run := match preparation.site with
    | .error run => run
    | .ok site => withOptions site outside
  { run with complaints := preparation.complaints ++ run.complaints }

/-- A run of the command line. -/
def ofArguments (assets : Text) (disk : File.Disk) (outside : Outside)
    (environment : Settings.Environment) (arguments : List Text) : Run :=
  ofLoaded assets disk outside (Settings.EnvFile.load disk environment) arguments

end Run

end LiveTree
