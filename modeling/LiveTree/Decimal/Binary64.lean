import LiveTree.Text.Basic

namespace LiveTree.Binary64

/-- A double taken apart: a number is `mantissa * 2 ^ exponent` under its sign. -/
inductive Parts where
  | nan
  | infinite (negative : Bool)
  | number (negative : Bool) (mantissa : Nat) (exponent : Int)
  deriving DecidableEq, Repr

/-- The weight of the bit that holds the sign. -/
def signBit : Nat := 0x8000000000000000

/-- The number of fractions that share a sign and an exponent. -/
def fractions : Nat := 0x10000000000000

def parts (x : Float) : Parts :=
  let bits := x.toBits.toNat
  let negative := bits / signBit == 1
  let biased : Nat := bits / fractions % 2048
  let fraction := bits % fractions
  if biased == 2047 then (if fraction == 0 then .infinite negative else .nan)
  else if biased == 0 then .number negative fraction (-1074)
  else .number negative (fractions + fraction) ((biased : Int) - 1075)

/-- The bits of infinity, one above those of the largest finite double. -/
def infinityBits : Nat := 2047 * fractions

/-- `n / d` to the nearest integer, a half to the even one. -/
def roundDiv (n d : Nat) : Nat :=
  let q := n / d
  let r := n % d
  if 2 * r < d then q
  else if d < 2 * r then q + 1
  else if q % 2 == 0 then q
  else q + 1

theorem roundDiv_mul (n d : Nat) (h : 0 < d) : roundDiv (n * d) d = n := by
  simp [roundDiv, Nat.mul_div_cancel _ h, h]

/-- The greatest `k` with `2 ^ k ≤ n / d`, for positive `n` and `d`. -/
def logRatio (n d : Nat) : Int :=
  let k : Int := (n.log2 : Int) - d.log2
  if d * Nat.pow 2 k.toNat ≤ n * Nat.pow 2 (-k).toNat then k else k - 1

/-- The bits of the double nearest to `n / d`, from zero up to infinity. -/
def nearestBits (n d : Nat) : Nat :=
  if n == 0 then 0
  else
    let exponent := max (logRatio n d - 52) (-1074)
    let mantissa := roundDiv (n * Nat.pow 2 (-exponent).toNat) (d * Nat.pow 2 exponent.toNat)
    min ((exponent + 1074).toNat * fractions + mantissa) infinityBits

/-- The bits of the double nearest to `digits * 10 ^ exponent`. Values out of the reach of every
double are decided first: ten is more than the third power of two, so a negative exponent takes
away at least three bits for each of its units. -/
def decimalBits (digits : Nat) (exponent : Int) : Nat :=
  let size : Int := digits.log2
  if digits == 0 then 0
  else if 400 ≤ exponent then infinityBits
  else if size + 3 * exponent < -1100 then 0
  else nearestBits (digits * Nat.pow 10 exponent.toNat) (Nat.pow 10 (-exponent).toNat)

def ofMagnitude (negative : Bool) (bits : Nat) : Float :=
  .ofBits (.ofNat (if negative then signBit + bits else bits))

def ofDecimal (negative : Bool) (digits : Nat) (exponent : Int) : Float :=
  ofMagnitude negative (decimalBits digits exponent)

def infinity (negative : Bool) : Float := ofMagnitude negative infinityBits

def nan : Float := .ofBits 0x7FF8000000000000

end LiveTree.Binary64
