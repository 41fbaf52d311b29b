import LiveTree.Text.Digit

namespace LiveTree.Utf8

/-- Why a run of octets is no code point. -/
inductive Reason where
  | invalidStart
  | invalidContinuation
  | unexpectedEnd
  deriving DecidableEq, Repr

def Reason.text : Reason → Text
  | .invalidStart => "invalid start byte"
  | .invalidContinuation => "invalid continuation byte"
  | .unexpectedEnd => "unexpected end of data"

/-- A sequence under way: its octets and bits so far, how many octets it wants still and the
bounds of the next one. -/
structure Partial where
  octets : Octets
  bits : Nat
  wanted : Nat
  low : UInt8
  high : UInt8

/-- What a run of octets stands for. A bad run is as long as some valid sequence agrees with it. -/
inductive Piece where
  | point (c : CodePoint)
  | bad (octets : Octets) (reason : Reason)

/-- The sequence that an octet begins. The bounds shut out overlong forms, surrogates and
everything above the last code point. -/
def lead? (b : UInt8) : Option Partial :=
  if 0xC2 ≤ b && b ≤ 0xDF then some ⟨[b], b.toNat - 0xC0, 1, 0x80, 0xBF⟩
  else if b == 0xE0 then some ⟨[b], 0, 2, 0xA0, 0xBF⟩
  else if b == 0xED then some ⟨[b], 0xD, 2, 0x80, 0x9F⟩
  else if 0xE1 ≤ b && b ≤ 0xEF then some ⟨[b], b.toNat - 0xE0, 2, 0x80, 0xBF⟩
  else if b == 0xF0 then some ⟨[b], 0, 3, 0x90, 0xBF⟩
  else if 0xF1 ≤ b && b ≤ 0xF3 then some ⟨[b], b.toNat - 0xF0, 3, 0x80, 0xBF⟩
  else if b == 0xF4 then some ⟨[b], 4, 3, 0x80, 0x8F⟩
  else none

def start (b : UInt8) : List Piece × Option Partial :=
  if b < 0x80 then ([.point (.ofNat b.toNat)], none)
  else match lead? b with
    | some p => ([], some p)
    | none => ([.bad [b] .invalidStart], none)

def step : Option Partial → UInt8 → List Piece × Option Partial
  | none, b => start b
  | some p, b =>
    if p.low ≤ b && b ≤ p.high then
      let bits := p.bits * 64 + b.toNat % 64
      if p.wanted ≤ 1 then ([.point (.ofNat bits)], none)
      else ([], some ⟨p.octets ++ [b], bits, p.wanted - 1, 0x80, 0xBF⟩)
    else (.bad p.octets .invalidContinuation :: (start b).1, (start b).2)

/-- Cuts the octets into code points and maximal bad runs. -/
def pieces : Option Partial → Octets → List Piece
  | none, [] => []
  | some p, [] => [.bad p.octets .unexpectedEnd]
  | s, b :: bs => (step s b).1 ++ pieces (step s b).2 bs

/-- A code point as one to four octets. -/
def encodePoint (c : CodePoint) : Octets :=
  let n := c.val
  let tail (n : Nat) : UInt8 := .ofNat (0x80 + n % 64)
  if n < 0x80 then [.ofNat n]
  else if n < 0x800 then [.ofNat (0xC0 + n / 64), tail n]
  else if n < 0x10000 then [.ofNat (0xE0 + n / 0x1000), tail (n / 64), tail n]
  else [.ofNat (0xF0 + n / 0x40000), tail (n / 0x1000), tail (n / 64), tail n]

/-- None if the text holds a surrogate. -/
def encode? (s : Text) : Option Octets :=
  if s.any CodePoint.isSurrogate then none else some (s.flatMap encodePoint)

@[simp] theorem encode?_nil : encode? [] = some [] := rfl

/-- Every bad run becomes one replacement character. -/
def Piece.shown : Piece → CodePoint
  | .point c => c
  | .bad _ _ => .ofNat 0xFFFD

def decodeLossy (octets : Octets) : Text := (pieces none octets).map Piece.shown

/-- The first bad run of octets. -/
structure Fault where
  octets : Octets
  position : Nat
  reason : Reason
  deriving DecidableEq, Repr

def Fault.message (e : Fault) : Text :=
  let place : Text := match e.octets with
    | [b] => "byte 0x" ++ Text.hex 2 b.toNat ++ " in position " ++ Text.ofNat e.position
    | octets => "bytes in position " ++ Text.ofNat e.position ++ "-" ++
        Text.ofNat (e.position + octets.length - 1)
  "'utf-8' codec can't decode " ++ place ++ ": " ++ e.reason.text

def collect (position : Nat) : List Piece → Except Fault Text
  | [] => .ok []
  | .point c :: rest => (collect (position + (encodePoint c).length) rest).map (c :: ·)
  | .bad octets reason :: _ => .error ⟨octets, position, reason⟩

def decode (octets : Octets) : Except Fault Text := collect 0 (pieces none octets)

@[simp] theorem decode_nil : decode [] = .ok [] := rfl

theorem pieces_cons (s : Option Partial) (b : UInt8) (bs : Octets) :
    pieces s (b :: bs) = (step s b).1 ++ pieces (step s b).2 bs := by
  cases s <;> rfl

theorem pieces_append_of_idle {s : Option Partial} {b : UInt8} (h : (step s b).2 = none)
    (bs : Octets) : pieces s (b :: bs) = (step s b).1 ++ pieces none bs := by
  rw [pieces_cons, h]

/-- A line feed always ends the sequence under way. -/
theorem step_lineFeed (s : Option Partial) (h : ∀ p ∈ s, 0x80 ≤ p.low) :
    (step s 0x0A).2 = none := by
  cases s with
  | none => rfl
  | some p =>
    have hp : ¬p.low ≤ 0x0A := by
      have := h p rfl
      simp only [UInt8.le_iff_toNat_le] at this ⊢
      have h80 : (0x80 : UInt8).toNat = 128 := rfl
      have h0a : (0x0A : UInt8).toNat = 10 := rfl
      omega
    simp [step, hp, start]

end LiveTree.Utf8
