import LiveTree.File.Path
import LiveTree.Text.Percent

namespace LiveTree.Web

/-- What is asked of the server: a path that begins with one slash, and what follows the first
question mark, both decoded. -/
structure Request where
  path : Text
  query : Text

/-- Tabs and line ends in a URL count for nothing, nor do blanks and control characters before
it. -/
def cleanUrl (url : Text) : Text :=
  (url.dropWhile (·.val ≤ 0x20)).filter fun (c : CodePoint) => c != '\t' && c != '\r' && c != '\n'

/-- A URL that begins with two slashes names a host before its path. -/
def withoutHost (url : Text) : Text :=
  match dropStart? (Text.ofString "//") url with
  | none => url
  | some rest => rest.dropWhile fun (c : CodePoint) => c != Path.slash && c != '?' && c != '#'

/-- The request that a URL without a scheme makes. A fragment is not sent. The client takes a host
off the URL, and the server one off what it is sent. -/
def Request.ofUrl (url : Text) : Request :=
  let target := withoutHost (withoutHost (cleanUrl url))
  let (path, query) := cutOnce (CodePoint.ofChar '?') (cutOnce (CodePoint.ofChar '#') target).1
  { path := Path.slash :: trimLeft (· == Path.slash) (Percent.decode path)
    query := Percent.decode (query.getD []) }

/-- What a request is for. -/
inductive Route where
  | events
  /-- The syntax tree of a source file. -/
  | parse (file : Text)
  /-- The drawn tree of a source file. -/
  | tree (file : Text)
  | files
  /-- A file of the viewer page. -/
  | asset (file : Text)
  | unknown
  deriving DecidableEq

namespace Route

/-- A file name has no slash in front, and no line feed but in front. -/
def isFileName : Text → Bool
  | [] => false
  | c :: s => c != Path.slash && !s.contains (CodePoint.ofChar '\n')

/-- The file name that stands after `start`. -/
def fileAfter? (start path : Text) : Option Text := (dropStart? start path).filter isFileName

def ofPath (path : Text) : Route :=
  if path == "/" then .asset []
  else if path == "/events" then .events
  else if path == "/files" then .files
  else match fileAfter? "/parse/" path with
    | some file => .parse file
    | none =>
      match fileAfter? "/tree/" path with
      | some file => .tree file
      | none =>
        match fileAfter? "/" path with
        | some file => .asset file
        | none => .unknown

/-- Whether pages from elsewhere may read the answer: all that begins like a route to data once it
is decoded again. -/
def isShared (path : Text) : Bool :=
  [Text.ofString "/events", "/parse", "/tree", "/files"].any (startsWith (Percent.decode path))

example : ofPath "/tree/a.dt" = .tree "a.dt" := by decide +kernel
example : ofPath "/tree/" = .asset "tree/" := by decide +kernel

end Route

end LiveTree.Web
