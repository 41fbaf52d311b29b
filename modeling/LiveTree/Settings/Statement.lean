import LiveTree.Text.Blank
import LiveTree.Text.Cut

namespace LiveTree.Settings

/-- A statement of a file of settings: a comment, a key with or without a value, or what makes no
sense. -/
inductive Statement where
  | comment
  | binding (key : Text) (value : Option Text)
  | faulty
  deriving DecidableEq

namespace Statement

def lineFeed : CodePoint := '\n'

/-- White space within a line. -/
def isSpace (c : CodePoint) : Bool := c.isBlank && c != lineFeed

/-- A quoted text up to its closing quote, and what follows. A backslash and what comes after it
belong to the text. -/
def quoted? (quote : CodePoint) : Text → Option (Text × Text)
  | [] => none
  | [c] => if c == quote then some ([], []) else none
  | c :: d :: s =>
    if c == quote then some ([], d :: s)
    else if c == '\\' then (quoted? quote s).map fun (text, rest) => (c :: d :: text, rest)
    else (quoted? quote (d :: s)).map fun (text, rest) => (c :: text, rest)

/-- What a code point means after a backslash between single quotes. -/
def singleEscape? (c : CodePoint) : Option CodePoint :=
  if c == '\\' || c == '\'' then some c else none

/-- What a code point means after a backslash between double quotes. -/
def doubleEscape? (c : CodePoint) : Option CodePoint :=
  if c == '\\' || c == '\'' || c == '"' then some c
  else if c == 'a' then some (.ofNat 7)
  else if c == 'b' then some (.ofNat 8)
  else if c == 'f' then some (.ofNat 12)
  else if c == 'n' then some (.ofNat 10)
  else if c == 'r' then some (.ofNat 13)
  else if c == 't' then some (.ofNat 9)
  else if c == 'v' then some (.ofNat 11)
  else none

/-- Resolves escapes; a backslash before anything else stands for itself. -/
def unescape (escape? : CodePoint → Option CodePoint) : Text → Text
  | [] => []
  | [c] => [c]
  | c :: d :: s =>
    if c == '\\' then
      match escape? d with
      | some e => e :: unescape escape? s
      | none => c :: unescape escape? (d :: s)
    else c :: unescape escape? (d :: s)

/-- Cuts off a comment, which starts at a number sign that follows white space. -/
def withoutComment : Text → Text
  | [] => []
  | c :: s =>
    if c.isBlank && (s.dropWhile CodePoint.isBlank).head? == some (CodePoint.ofChar '#') then []
    else c :: withoutComment s

/-- The value at the start of a text, and what follows it; none if a quote is not closed. The
space before a bare value counts for the comment after it. -/
def value? (s : Text) : Option (Text × Text) :=
  match s.dropWhile isSpace with
  | [] => some ([], [])
  | c :: rest =>
    if c == '\'' then
      (quoted? c rest).map fun (text, rest) => (unescape singleEscape? text, rest)
    else if c == '"' then
      (quoted? c rest).map fun (text, rest) => (unescape doubleEscape? text, rest)
    else
      let (line, rest) := s.span (· != lineFeed)
      some (Text.strip (withoutComment line), rest)

/-- The word that may stand before a key. -/
def withoutExport (s : Text) : Text :=
  match dropStart? (Text.ofString "export") s with
  | none => s
  | some rest => if rest.head?.any isSpace then rest.dropWhile isSpace else s

/-- The key at the start of a text, in single quotes or bare. -/
def key? (s : Text) : Option (Text × Text) :=
  match s with
  | [] => none
  | c :: rest =>
    if c == '\'' then
      match rest.span (· != c) with
      | ([], _) => none
      | (_, []) => none
      | (key, _ :: rest) => some (key, rest)
    else
      match s.span fun (c : CodePoint) => c != '=' && c != '#' && !c.isBlank with
      | ([], _) => none
      | (key, rest) => some (key, rest)

/-- What must be left of a line after its value: a comment or nothing. -/
def endsLine (s : Text) : Bool :=
  match s.dropWhile isSpace with
  | [] => true
  | c :: _ => c == lineFeed || c == '#'

/-- What comes after a key: a value behind an equals sign, or nothing but a comment. -/
def assignment (key s : Text) : Statement × Text :=
  match s.dropWhile isSpace with
  | [] => (.binding key none, [])
  | c :: after =>
    if c == '=' then
      match value? after with
      | none => (.faulty, after)
      | some (value, rest) => (if endsLine rest then .binding key (some value) else .faulty, rest)
    else (if endsLine (c :: after) then .binding key none else .faulty, c :: after)

/-- The statement at the start of a text, and what is left where its reading ended. -/
def read (s : Text) : Statement × Text :=
  let s := withoutExport s
  if s.head? == some (CodePoint.ofChar '#') then (.comment, s)
  else match key? s with
    | none => (.faulty, s)
    | some (key, rest) => assignment key rest

def nextLine (s : Text) : Text := (s.dropWhile (· != lineFeed)).drop 1

def lineFeeds (s : Text) : Nat := s.countP (· == lineFeed)

/-- The statements of a text with at most `fuel` lines. Each has the number of the line on which
the space before it begins. -/
def readFrom : (fuel line : Nat) → Text → List (Nat × Statement)
  | 0, _, _ => []
  | fuel + 1, line, s =>
    match s.dropWhile CodePoint.isBlank with
    | [] => []
    | c :: rest =>
      let (found, after) := read (c :: rest)
      let next := nextLine after
      (line, found) :: readFrom fuel (line + (lineFeeds s - lineFeeds next)) next

/-- The statements of a text. -/
def readAll (s : Text) : List (Nat × Statement) := readFrom (s.length + 1) 1 s

def bindings (statements : List (Nat × Statement)) : List (Text × Option Text) :=
  statements.filterMap fun
    | (_, .binding key value) => some (key, value)
    | _ => none

/-- The lines of the statements that make no sense. -/
def faultyLines (statements : List (Nat × Statement)) : List Nat :=
  statements.filterMap fun
    | (line, .faulty) => some line
    | _ => none

@[simp] theorem readAll_nil : readAll [] = [] := rfl

end Statement

end LiveTree.Settings
