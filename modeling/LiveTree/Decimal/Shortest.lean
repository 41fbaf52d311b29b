import LiveTree.Decimal.Binary64

namespace LiveTree.Decimal

/-- The value `digits * 10 ^ exponent`. -/
structure Scaled where
  digits : Nat
  exponent : Int
  deriving DecidableEq, Repr

/-- Moves trailing zeros into the exponent. -/
def Scaled.reduceFrom : Nat → Scaled → Scaled
  | 0, s => s
  | fuel + 1, s =>
    if s.digits != 0 && s.digits % 10 == 0 then reduceFrom fuel ⟨s.digits / 10, s.exponent + 1⟩
    else s

def Scaled.reduce (s : Scaled) : Scaled := s.reduceFrom (s.digits.log2 + 1)

def Scaled.reads (s : Scaled) (bits : Nat) : Bool :=
  Binary64.decimalBits s.digits s.exponent == bits

/-- How many digits stand before the point in `n / d`; for `n < d`, zero or less by the zeros after
the point. -/
def pointPlace (n d : Nat) : Int :=
  if d ≤ n then ((Nat.toDigits 10 (n / d)).length : Int)
  else
    match (List.range 400).find? fun zeros => d ≤ n * Nat.pow 10 (zeros + 1) with
    | some zeros => -(zeros : Int)
    | none => 0

/-- `n / d` on the grid with `step` as the power of ten of its last digit: the grid point below,
what is left above it, and the unit in which that is measured. -/
def onGrid (n d : Nat) (step : Int) : Nat × Nat × Nat :=
  let n := n * Nat.pow 10 (-step).toNat
  let d := d * Nat.pow 10 step.toNat
  (n / d, n % d, d)

/-- Of the two neighbours of `n / d` on a grid the nearer one that reads back as `bits`, of two
equally near the even one. -/
def neighbour? (n d bits : Nat) (step : Int) : Option Scaled :=
  let (below, rest, unit) := onGrid n d step
  let lower : Scaled := ⟨below, step⟩
  let upper : Scaled := ⟨below + 1, step⟩
  let (first, second) :=
    if 2 * rest < unit || (2 * rest == unit && below % 2 == 0) then (lower, upper)
    else (upper, lower)
  [first, second].find? (·.reads bits)

/-- The value of `mantissa * 2 ^ exponent` with every digit. -/
def exact (mantissa : Nat) (exponent : Int) : Scaled :=
  if 0 ≤ exponent then ⟨mantissa * Nat.pow 2 exponent.toNat, 0⟩
  else ⟨mantissa * Nat.pow 5 (-exponent).toNat, exponent⟩

/-- The fewest digits that read back as the double `mantissa * 2 ^ exponent`, and of those the
nearest to it. Seventeen digits always suffice. -/
def shortest (mantissa : Nat) (exponent : Int) : Scaled :=
  let n := mantissa * Nat.pow 2 exponent.toNat
  let d := Nat.pow 2 (-exponent).toNat
  let bits := Binary64.nearestBits n d
  let place := pointPlace n d
  let found := (List.range 17).findSome? fun k : Nat =>
    neighbour? n d bits (place - (k + 1 : Int))
  (found.getD (exact mantissa exponent)).reduce

/-- `mantissa * 2 ^ exponent` rounded to `count` significant digits, a half to the even one. -/
def significant (count mantissa : Nat) (exponent : Int) : Scaled :=
  let n := mantissa * Nat.pow 2 exponent.toNat
  let d := Nat.pow 2 (-exponent).toNat
  let step := pointPlace n d - count
  Scaled.reduce
    ⟨Binary64.roundDiv (n * Nat.pow 10 (-step).toNat) (d * Nat.pow 10 step.toNat), step⟩

end LiveTree.Decimal
