import LiveTree.Run

namespace LiveTree.CommandLine

/-- The variables that stand in for flags. -/
def readEnvironment : IO Settings.Environment := do
  let mut environment := []
  for name in Settings.Flag.all.filterMap Settings.Flag.inEnvironment? do
    if let some value ← IO.getEnv name.toString then
      environment := environment ++ [(name, Text.ofString value)]
  return environment

/-- The file system as far as settings are looked for in it. -/
def readDisk (workdir : Text) : IO File.Disk := do
  let mut tree := File.Tree.folder []
  for path in Settings.EnvFile.places (Path.normalise workdir) do
    try
      let octets ← IO.FS.readBinFile path.toString
      tree := tree.insert (Path.names path) (.file (.ok octets.toList))
    catch _ => pure ()
  return ⟨tree, workdir⟩

/-- All octets up to the end of a stream. -/
partial def readAll (stream : IO.FS.Stream) (sofar : Octets) : IO Octets := do
  let octets ← stream.read 4096
  if octets.isEmpty then return sofar
  else readAll stream (sofar ++ octets.toList)

def printLog (log : Log) : IO Unit := do
  for record in log do
    IO.eprint record.line.toString

/-- Prints a run and gives its status. -/
def finish (run : Run) : IO UInt32 := do
  IO.print run.printed.toString
  IO.eprint run.complaints.toString
  printLog run.log
  match run.status with
  | .ok status => return status.toUInt32
  | .error fault =>
    IO.eprint (fault.message ++ "\n" : Text).toString
    return 1

/-- Prints the tree of a file. The parser has run before, and its output stands on standard
input. -/
def printTree (site : Site) (file : Text) : IO UInt32 := do
  let output ← readAll (← IO.getStdin) []
  let launch (_ : Parser.Request) : Parser.Launch := .started { stdout := [output] }
  let (result, session) :=
    (Console.session site file).refresh (Console.callbacks site launch)
  IO.print session.world.printed.toString
  printLog session.log
  match result with
  | .ok _ => return 0
  | .error fault =>
    IO.eprint (fault.message ++ "\n" : Text).toString
    return 1

/-- Runs a site. There are no sockets to serve from. -/
def runSite (site : Site) : IO UInt32 :=
  match site.options.printFile with
  | some file => printTree site file
  | none => finish
    { status := .ok Run.faultStatus
      complaints := "❌ No host to serve from, use -print=<file>\n" }

end LiveTree.CommandLine

open LiveTree in
/-- Shows the help, checks the options, and prints the tree in the output of a parser. -/
def main (arguments : List String) : IO UInt32 := do
  let workdir := Text.ofString ((← IO.getEnv "PWD").getD "/")
  let disk ← CommandLine.readDisk workdir
  let environment ← CommandLine.readEnvironment
  let loaded := Settings.EnvFile.load disk environment
  let preparation := Run.prepare "static" disk loaded (arguments.map Text.ofString)
  IO.eprint preparation.complaints.toString
  match preparation.site with
  | .error run => CommandLine.finish run
  | .ok site => CommandLine.runSite site
