namespace LiveTree

/-- A Unicode code point. Surrogates count: an escape in JSON text can name one alone. -/
abbrev CodePoint := Fin 0x110000

namespace CodePoint

def ofChar (c : Char) : CodePoint :=
  ⟨c.toNat, by
    have h := c.valid
    unfold Char.toNat
    rcases h with h | h <;> omega⟩

instance : Coe Char CodePoint := ⟨ofChar⟩

/-- Code point `n`, for `n` in range. -/
def ofNat (n : Nat) : CodePoint := Fin.ofNat 0x110000 n

@[simp] theorem val_ofChar (c : Char) : (ofChar c).val = c.toNat := rfl

def isSurrogate (c : CodePoint) : Bool := 0xD800 ≤ c.val && c.val ≤ 0xDFFF

/-- The character of a code point, none for a surrogate. -/
def toChar? (c : CodePoint) : Option Char :=
  if h : c.val.isValidChar then some (Char.ofNatAux c.val h) else none

def isAsciiDigit (c : CodePoint) : Bool := 0x30 ≤ c.val && c.val ≤ 0x39

def toAsciiLower (c : CodePoint) : CodePoint :=
  if h : 0x41 ≤ c.val ∧ c.val ≤ 0x5A then ⟨c.val + 0x20, by omega⟩ else c

def toAsciiUpper (c : CodePoint) : CodePoint :=
  if h : 0x61 ≤ c.val ∧ c.val ≤ 0x7A then ⟨c.val - 0x20, by omega⟩ else c

end CodePoint

/-- A sequence of code points. -/
abbrev Text := List CodePoint

namespace Text

def ofString (s : String) : Text := s.toList.map CodePoint.ofChar

instance : Coe String Text := ⟨ofString⟩

/-- The characters of a text; a surrogate, which is none, becomes the replacement character. -/
def toString (s : Text) : String := String.ofList (s.map fun c => c.toChar?.getD '\uFFFD')

@[simp] theorem ofString_empty : ofString "" = [] := by simp [ofString]

@[simp] theorem length_ofString (s : String) : (ofString s).length = s.toList.length := by
  simp [ofString]

/-- Code point order, a proper beginning first. -/
def le : Text → Text → Bool
  | [], _ => true
  | _ :: _, [] => false
  | a :: s, b :: t => a < b || a == b && le s t

@[simp] theorem le_refl (s : Text) : le s s = true := by
  induction s with
  | nil => rfl
  | cons a s ih => simp [le, ih]

def sort (texts : List Text) : List Text := texts.mergeSort le

end Text

/-- Raw bytes. -/
abbrev Octets := List UInt8

end LiveTree
