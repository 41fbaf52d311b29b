import LiveTree.Decimal.Shortest
import LiveTree.Text.Digit

namespace LiveTree.Decimal

/-- How the digits of a double are laid out. -/
structure Layout where
  /-- Significant digits; none for the fewest that read back. -/
  count : Option Nat
  /-- The first power of ten that is written with an exponent. -/
  exponentFrom : Int
  /-- Whether an integral value shows that it is not an integer. -/
  pointZero : Bool
  infinity : Text
  nan : Text

/-- Shortest digits, positional from 0.0001 up to 10 ^ 16. -/
def Layout.plain : Layout := ⟨none, 16, true, "inf", "nan"⟩

/-- As `plain`, with the names of the non-finite values that JSON readers know. -/
def Layout.json : Layout := { plain with infinity := "Infinity", nan := "NaN" }

/-- At most six digits, positional from 0.0001 up to 10 ^ 6. -/
def Layout.brief : Layout := ⟨some 6, 6, false, "inf", "nan"⟩

def zeros (n : Nat) : Text := List.replicate n '0'

/-- The exponent with its sign and at least two digits. -/
def exponentText (e : Int) : Text :=
  let digits := Text.ofNat e.natAbs
  let sign : CodePoint := if e < 0 then '-' else '+'
  "e" ++ [sign] ++ zeros (2 - digits.length) ++ digits

def Layout.digits (layout : Layout) (value : Scaled) : Text :=
  let digits := Text.ofNat value.digits
  let place : Int := digits.length + value.exponent
  let power := place - 1
  let pointZero : Text := if layout.pointZero then ".0" else []
  if value.digits == 0 then '0' :: pointZero
  else if power < -4 || layout.exponentFrom ≤ power then
    let fraction : Text := digits.drop 1
    digits.take 1 ++ (if fraction.isEmpty then [] else ("." ++ fraction : Text)) ++ exponentText power
  else if place ≤ 0 then "0." ++ zeros (-place).toNat ++ digits
  else if digits.length ≤ place.toNat then
    digits ++ zeros (place.toNat - digits.length) ++ pointZero
  else digits.take place.toNat ++ "." ++ digits.drop place.toNat

def Layout.write (layout : Layout) (x : Float) : Text :=
  let signed (negative : Bool) (s : Text) : Text := if negative then '-' :: s else s
  match Binary64.parts x with
  | .nan => layout.nan
  | .infinite negative => signed negative layout.infinity
  | .number negative 0 _ => signed negative (layout.digits ⟨0, 0⟩)
  | .number negative mantissa exponent =>
    signed negative <| layout.digits <| match layout.count with
      | none => shortest mantissa exponent
      | some count => significant count mantissa exponent

end LiveTree.Decimal
