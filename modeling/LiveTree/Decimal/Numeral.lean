import LiveTree.Decimal.Binary64
import LiveTree.Text.Blank
import LiveTree.Text.Digit

namespace LiveTree.Numeral

/-- White space around a numeral; unlike in other text, separators below the space do not count. -/
def isBlank (c : CodePoint) : Bool := c.isBlank && !(0x1C ≤ c.val && c.val ≤ 0x1F)

/-- Integers of more digits than this are not read. -/
def maxDigits : Nat := 4300

def value (digits : List Nat) : Nat := digits.foldl (fun n d => n * 10 + d) 0

/-- The digits of `s`, with single underscores allowed between two of them. -/
def digits? : Text → Option (List Nat)
  | [] => none
  | [c] => c.digit?.map ([·])
  | c :: d :: s =>
    match c.digit? with
    | none => none
    | some n =>
      if d == '_' then (digits? s).map (n :: ·) else (digits? (d :: s)).map (n :: ·)

/-- A sign, if there is one, and the rest; `true` is negative. -/
def sign (s : Text) : Bool × Text :=
  match s with
  | c :: rest => if c == '-' then (true, rest) else if c == '+' then (false, rest) else (false, s)
  | [] => (false, [])

def readInt? (s : Text) : Option Int :=
  let (negative, s) := sign (trim isBlank s)
  match digits? s with
  | none => none
  | some digits =>
    if maxDigits < digits.length then none
    else
      let n : Int := value digits
      some (if negative then -n else n)

/-- Digits or nothing. -/
def digitsOrNone? (s : Text) : Option (List Nat) := if s.isEmpty then some [] else digits? s

def nonFinite? (negative : Bool) (s : Text) : Option Float :=
  let name := s.map CodePoint.toAsciiLower
  if name == "inf" || name == "infinity" then some (Binary64.infinity negative)
  else if name == "nan" then some Binary64.nan
  else none

/-- Digits with perhaps a point among them, and perhaps an exponent after them. -/
def finite? (negative : Bool) (s : Text) : Option Float := do
  let (mantissa, exponent) := cutOnce (CodePoint.ofChar 'e') (s.map CodePoint.toAsciiLower)
  let (whole, fraction) := cutOnce (CodePoint.ofChar '.') mantissa
  let whole ← digitsOrNone? whole
  let fraction ← digitsOrNone? (fraction.getD [])
  if whole.isEmpty && fraction.isEmpty then none
  let power ← match exponent with
    | none => some 0
    | some s => do
      let (negative, s) := sign s
      let n : Int := value (← digits? s)
      some (if negative then -n else n)
  some (Binary64.ofDecimal negative (value (whole ++ fraction)) (power - fraction.length))

def readFloat? (s : Text) : Option Float :=
  let (negative, s) := sign (trim isBlank s)
  match nonFinite? negative s with
  | some x => some x
  | none => finite? negative s

end LiveTree.Numeral
