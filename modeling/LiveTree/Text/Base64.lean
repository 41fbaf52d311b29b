import LiveTree.Text.Digit

namespace LiveTree.Base64

/-- The digit of a value below 64. -/
def digit (n : Nat) : CodePoint :=
  if n < 26 then .ofNat (0x41 + n)
  else if n < 52 then .ofNat (0x61 + (n - 26))
  else if n < 62 then .ofNat (0x30 + (n - 52))
  else if n == 62 then '+'
  else '/'

def value? (c : CodePoint) : Option Nat :=
  let n := c.val
  if 0x41 ≤ n && n ≤ 0x5A then some (n - 0x41)
  else if 0x61 ≤ n && n ≤ 0x7A then some (n - 0x61 + 26)
  else if 0x30 ≤ n && n ≤ 0x39 then some (n - 0x30 + 52)
  else if c == '+' then some 62
  else if c == '/' then some 63
  else none

theorem value?_digit {n : Nat} (h : n < 64) : value? (digit n) = some n := by
  have all : ∀ m ∈ List.range 64, value? (digit m) = some m := by decide
  exact all n (List.mem_range.mpr h)

def encode : Octets → Text
  | [] => []
  | [a] =>
    let n := a.toNat * 16
    [digit (n / 64), digit (n % 64), '=', '=']
  | [a, b] =>
    let n := (a.toNat * 256 + b.toNat) * 4
    [digit (n / 0x1000), digit (n / 64 % 64), digit (n % 64), '=']
  | a :: b :: c :: rest =>
    let n := (a.toNat * 256 + b.toNat) * 256 + c.toNat
    digit (n / 0x40000) :: digit (n / 0x1000 % 64) :: digit (n / 64 % 64) :: digit (n % 64) ::
      encode rest

inductive Fault where
  | nonAscii
  | lonelyDigit (digits : Nat)
  | padding
  deriving DecidableEq, Repr

def Fault.message : Fault → Text
  | .nonAscii => "string argument should contain only ASCII characters"
  | .lonelyDigit digits => "Invalid base64-encoded string: number of data characters (" ++
      Text.ofNat digits ++ ") cannot be 1 more than a multiple of 4"
  | .padding => "Incorrect padding"

/-- Where a decoder stands: how many digits it has read, the bits that are not yet an octet, and
the pads since the last digit. -/
structure Place where
  digits : Nat
  bits : Nat
  pads : Nat

/-- Reads on from a place. Anything outside the alphabet is passed over, and enough padding after
two digits of a group ends the data whatever follows. -/
def decodeFrom (p : Place) : Text → Except Fault Octets
  | [] => match p.digits % 4 with
    | 0 => .ok []
    | 1 => .error (.lonelyDigit p.digits)
    | _ => .error .padding
  | c :: s =>
    if c == '=' then
      if p.digits % 4 < 2 then decodeFrom p s
      else if p.digits % 4 + (p.pads + 1) ≥ 4 then .ok []
      else decodeFrom { p with pads := p.pads + 1 } s
    else match value? c with
      | none => decodeFrom p s
      | some v => match p.digits % 4 with
        | 0 => decodeFrom ⟨p.digits + 1, v, 0⟩ s
        | 1 => (decodeFrom ⟨p.digits + 1, v % 16, 0⟩ s).map (.ofNat (p.bits * 4 + v / 16) :: ·)
        | 2 => (decodeFrom ⟨p.digits + 1, v % 4, 0⟩ s).map (.ofNat (p.bits * 16 + v / 4) :: ·)
        | _ => (decodeFrom ⟨p.digits + 1, 0, 0⟩ s).map (.ofNat (p.bits * 64 + v) :: ·)

def decode (s : Text) : Except Fault Octets :=
  if s.any (0x80 ≤ ·.val) then .error .nonAscii else decodeFrom ⟨0, 0, 0⟩ s

end LiveTree.Base64
