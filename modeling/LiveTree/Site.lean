import LiveTree.File.Disk
import LiveTree.Parser.Run
import LiveTree.Settings.Options

namespace LiveTree

/-- A viewer where it is installed: its options, the directory of its page and the file system. -/
structure Site where
  options : Settings.Options
  assets : Text
  disk : File.Disk

namespace Site

def program (site : Site) : Parser.Program := ⟨site.options.lua, site.options.main⟩

/-- The absolute path of the directory that holds the source files. -/
def root (site : Site) : Text := site.disk.absolute site.options.root

/-- Parses by starting a parser as `launch` tells. -/
def parse (site : Site) (launch : Parser.Request → Parser.Launch) (request : Parser.Request) :
    Parser.Report :=
  site.program.parse site.disk.workdir site.options.timeout request (launch request)

/-- What is noted of a parse: the output of the program if it is to be shown, then its errors. -/
def notes (site : Site) (report : Parser.Report) : Log :=
  (if site.options.log then report.stdout.map (⟨.info, .program, ·⟩) else []) ++
    report.stderr.map (fun line => ⟨.warning, .parser, "parser: " ++ line⟩) ++ report.log

end Site

end LiveTree
