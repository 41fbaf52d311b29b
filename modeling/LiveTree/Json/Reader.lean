import LiveTree.Decimal.Numeral
import LiveTree.Json.Basic

namespace LiveTree.Json

/-- What stops a reader. -/
inductive Cause where
  | byteOrderMark
  | value
  | memberName
  | colon
  | comma
  | extra
  | unterminated
  | control
  | escape
  | unicodeEscape
  | hugeInteger (digits : Nat)
  /-- A list or an object that lies too deep. -/
  | nesting
  deriving DecidableEq, Repr

/-- A cause and what is left of the text at the place it concerns. -/
structure Stop where
  cause : Cause
  rest : Text

/-- What is read and what is left. -/
abbrev Read (α : Type) := Except Stop (α × Text)

def isSpace (c : CodePoint) : Bool := c == ' ' || c == '\t' || c == '\n' || c == '\r'

def skipSpace (s : Text) : Text := s.dropWhile isSpace

/-- One element of a quoted text; an escape may be half of a surrogate pair. -/
inductive QuotedUnit where
  | raw (c : CodePoint)
  | escaped (n : Nat)

def shortEscape? (c : CodePoint) : Option CodePoint :=
  if c == '"' || c == '\\' || c == '/' then some c
  else if c == 'b' then some (.ofNat 0x08)
  else if c == 'f' then some (.ofNat 0x0C)
  else if c == 'n' then some '\n'
  else if c == 'r' then some '\r'
  else if c == 't' then some '\t'
  else none

def hex4? (a b c d : CodePoint) : Option Nat := do
  return (((← a.hexDigit?) * 16 + (← b.hexDigit?)) * 16 + (← c.hexDigit?)) * 16 + (← d.hexDigit?)

/-- The elements up to the closing quote. A numeric escape is complete only if something follows
it. `opening` is the text from the opening quote on. -/
def quotedUnits (opening : Text) : Text → Read (List QuotedUnit)
  | [] => .error ⟨.unterminated, opening⟩
  | c :: s =>
    if c == '"' then .ok ([], s)
    else if c == '\\' then
      match s with
      | [] => .error ⟨.unterminated, opening⟩
      | d :: s' =>
        if d == 'u' then
          match s' with
          | h1 :: h2 :: h3 :: h4 :: next :: rest =>
            match hex4? h1 h2 h3 h4 with
            | some n =>
              (quotedUnits opening (next :: rest)).map fun r => (.escaped n :: r.1, r.2)
            | none => .error ⟨.unicodeEscape, s⟩
          | _ => .error ⟨.unicodeEscape, s⟩
        else
          match shortEscape? d with
          | some e => (quotedUnits opening s').map fun r => (.raw e :: r.1, r.2)
          | none => .error ⟨.escape, c :: s⟩
    else if c.val < 0x20 then .error ⟨.control, c :: s⟩
    else (quotedUnits opening s).map fun r => (.raw c :: r.1, r.2)

/-- Joins an escaped high surrogate with an escaped low one right after it. -/
def joinUnits : List QuotedUnit → Text
  | [] => []
  | .raw c :: units => c :: joinUnits units
  | .escaped m :: .escaped n :: units =>
    if 0xD800 ≤ m && m < 0xDC00 && 0xDC00 ≤ n && n < 0xE000 then
      .ofNat (0x10000 + (m - 0xD800) * 0x400 + (n - 0xDC00)) :: joinUnits units
    else .ofNat m :: joinUnits (.escaped n :: units)
  | .escaped m :: units => .ofNat m :: joinUnits units

/-- A quoted text, without its opening quote. -/
def quoted (opening s : Text) : Read Text := (quotedUnits opening s).map fun r => (joinUnits r.1, r.2)

/-- The words that stand for values. -/
def words : List (Text × Json) :=
  [("null", .null), ("true", .bool true), ("false", .bool false), ("NaN", .float Binary64.nan),
    ("Infinity", .float (Binary64.infinity false)), ("-Infinity", .float (Binary64.infinity true))]

def word? (s : Text) : Option (Json × Text) :=
  words.findSome? fun (name, value) => (dropStart? name s).map fun rest => (value, rest)

/-- The digits at the start and what follows them. -/
def digitRun (s : Text) : List Nat × Text :=
  ((s.takeWhile CodePoint.isAsciiDigit).map (·.val - 0x30), s.dropWhile CodePoint.isAsciiDigit)

/-- A point with digits after it. -/
def fraction? (s : Text) : Option (List Nat × Text) :=
  match s with
  | c :: rest =>
    let (digits, rest) := digitRun rest
    if c == '.' && !digits.isEmpty then some (digits, rest) else none
  | [] => none

/-- The letter e, perhaps a sign, and digits. -/
def exponent? (s : Text) : Option (Int × Text) :=
  match s with
  | c :: rest =>
    let (negative, rest) := Numeral.sign rest
    let (digits, rest) := digitRun rest
    let n : Int := Numeral.value digits
    if (c == 'e' || c == 'E') && !digits.isEmpty then some (if negative then -n else n, rest)
    else none
  | [] => none

/-- A zero, or digits that do not begin with one. -/
def whole? (s : Text) : Option (List Nat × Text) :=
  match digitRun s with
  | ([], _) => none
  | (0 :: _, _) => some ([0], s.drop 1)
  | run => some run

def minus (s : Text) : Bool × Text :=
  match s with
  | c :: rest => if c == '-' then (true, rest) else (false, s)
  | [] => (false, [])

/-- The longest numeral at the start of `s`. A fraction or an exponent makes it a double. -/
def number (s : Text) : Read Json :=
  let (negative, s') := minus s
  match whole? s' with
  | none => .error ⟨.value, s⟩
  | some (digits, rest) =>
    let fraction := fraction? rest
    let afterFraction := (fraction.map (·.2)).getD rest
    let exponent := exponent? afterFraction
    match fraction, exponent with
    | none, none =>
      if Numeral.maxDigits < digits.length then .error ⟨.hugeInteger digits.length, s⟩
      else
        let n : Int := Numeral.value digits
        .ok (.int (if negative then -n else n), rest)
    | _, _ =>
      let decimals := (fraction.map (·.1)).getD []
      let power := (exponent.map (·.1)).getD 0
      .ok (.float (Binary64.ofDecimal negative (Numeral.value (digits ++ decimals))
          (power - decimals.length)),
        (exponent.map (·.2)).getD afterFraction)

mutual

/-- The value at the very start of `s`. Below it there is room for so many levels of lists and
objects. -/
def value : (fuel room : Nat) → (s : Text) → Read Json
  | 0, _, s => .error ⟨.value, s⟩
  | _ + 1, _, [] => .error ⟨.value, []⟩
  | fuel + 1, room, c :: s =>
    if c == '"' then (quoted (c :: s) s).map fun r => (.text r.1, r.2)
    else if c == '[' then
      match room, skipSpace s with
      | 0, _ => .error ⟨.nesting, c :: s⟩
      | room + 1, d :: rest =>
        if d == ']' then .ok (.list [], rest)
        else (items fuel room (d :: rest)).map fun r => (.list r.1, r.2)
      | _ + 1, [] => .error ⟨.value, []⟩
    else if c == '\x7b' then
      match room, skipSpace s with
      | 0, _ => .error ⟨.nesting, c :: s⟩
      | room + 1, d :: rest =>
        if d == '\x7d' then .ok (.object [], rest)
        else (members fuel room (d :: rest)).map fun r => (.object (Association.collapse r.1), r.2)
      | _ + 1, [] => .error ⟨.memberName, []⟩
    else match word? (c :: s) with
      | some r => .ok r
      | none => number (c :: s)

/-- Values between commas, up to the closing bracket. -/
def items : (fuel room : Nat) → (s : Text) → Read (List Json)
  | 0, _, s => .error ⟨.value, s⟩
  | fuel + 1, room, s =>
    match value fuel room s with
    | .error stop => .error stop
    | .ok (item, rest) =>
      match skipSpace rest with
      | [] => .error ⟨.comma, []⟩
      | c :: rest =>
        if c == ']' then .ok ([item], rest)
        else if c == ',' then (items fuel room (skipSpace rest)).map fun r => (item :: r.1, r.2)
        else .error ⟨.comma, c :: rest⟩

/-- Named values between commas, up to the closing brace. -/
def members : (fuel room : Nat) → (s : Text) → Read Members
  | 0, _, s => .error ⟨.value, s⟩
  | _ + 1, _, [] => .error ⟨.memberName, []⟩
  | fuel + 1, room, q :: s =>
    if q != '"' then .error ⟨.memberName, q :: s⟩
    else
      match quoted (q :: s) s with
      | .error stop => .error stop
      | .ok (key, rest) =>
        match skipSpace rest with
        | [] => .error ⟨.colon, []⟩
        | c :: rest =>
          if c != ':' then .error ⟨.colon, c :: rest⟩
          else
            match value fuel room (skipSpace rest) with
            | .error stop => .error stop
            | .ok (item, rest) =>
              match skipSpace rest with
              | [] => .error ⟨.comma, []⟩
              | c :: rest =>
                if c == '\x7d' then .ok ([(key, item)], rest)
                else if c == ',' then
                  (members fuel room (skipSpace rest)).map fun r => ((key, item) :: r.1, r.2)
                else .error ⟨.comma, c :: rest⟩

end

/-- A whole document: one value with nothing but space around it. -/
def document (s : Text) : Except Stop Json :=
  if s.head? == some (CodePoint.ofNat 0xFEFF) then .error ⟨.byteOrderMark, s⟩
  else match value (2 * s.length + 2) maxNesting (skipSpace s) with
    | .error stop => .error stop
    | .ok (v, rest) =>
      match skipSpace rest with
      | [] => .ok v
      | rest => .error ⟨.extra, rest⟩

/-- Why a text is no JSON document, and how many code points precede the place. -/
structure Fault where
  cause : Cause
  source : Text
  position : Nat

/-- Reads a JSON document. -/
def read (s : Text) : Except Fault Json :=
  (document s).mapError fun stop => ⟨stop.cause, s, s.length - stop.rest.length⟩

def Cause.text : Cause → Text
  | .byteOrderMark => "Unexpected UTF-8 BOM (decode using utf-8-sig)"
  | .value => "Expecting value"
  | .memberName => "Expecting property name enclosed in double quotes"
  | .colon => "Expecting ':' delimiter"
  | .comma => "Expecting ',' delimiter"
  | .extra => "Extra data"
  | .unterminated => "Unterminated string starting at"
  | .control => "Invalid control character at"
  | .escape => "Invalid \\escape"
  | .unicodeEscape => "Invalid \\uXXXX escape"
  | .hugeInteger digits => "Exceeds the limit (4300 digits) for integer string conversion: value has " ++
      Text.ofNat digits ++ " digits; use sys.set_int_max_str_digits() to increase the limit"
  | .nesting => "Nested too deeply"

/-- The line and the column of a position, both counted from one. -/
def place (source : Text) (position : Nat) : Nat × Nat :=
  let before : Text := source.take position
  let isFeed (c : CodePoint) : Bool := c == '\n'
  (before.countP isFeed + 1, (before.reverse.takeWhile (!isFeed ·)).length + 1)

def Fault.message (e : Fault) : Text :=
  match e.cause with
  | .hugeInteger _ => e.cause.text
  | cause =>
    let (line, column) := place e.source e.position
    cause.text ++ ": line " ++ Text.ofNat line ++ " column " ++ Text.ofNat column ++
      " (char " ++ Text.ofNat e.position ++ ")"

end LiveTree.Json
