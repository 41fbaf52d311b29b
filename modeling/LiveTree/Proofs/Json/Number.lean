import LiveTree.Decimal.Layout
import LiveTree.Json.Reader
import LiveTree.Proofs.Decimal.Double
import LiveTree.Proofs.Decimal.Shortest
import LiveTree.Proofs.Text.Digit

namespace LiveTree.Json

/-- What stands behind a value inside a document; no numeral goes on there. -/
def Ends (rest : Text) : Prop := ∀ c ∈ rest.head?, c = ',' ∨ c = ']' ∨ c = '\x7d'

theorem ends_nil : Ends [] := by
  intro c hc
  simp at hc

theorem ends_cons {c : CodePoint} (h : c = ',' ∨ c = ']' ∨ c = '\x7d') (rest : Text) :
    Ends (c :: rest) := by
  intro d hd
  obtain rfl : c = d := by simpa using hd
  exact h

theorem digitRun_append {w rest : Text} (hw : ∀ c ∈ w, c.isAsciiDigit = true)
    (hrest : ∀ c ∈ rest.head?, c.isAsciiDigit = false) :
    digitRun (w ++ rest) = (digitsOf w, rest) := by
  have htake : rest.takeWhile CodePoint.isAsciiDigit = [] := by
    cases rest with
    | nil => rfl
    | cons c rest => exact List.takeWhile_cons_of_neg (by simp [hrest c rfl])
  have hdrop : rest.dropWhile CodePoint.isAsciiDigit = rest := by
    cases rest with
    | nil => rfl
    | cons c rest => exact List.dropWhile_cons_of_neg (by simp [hrest c rfl])
  rw [digitRun, List.takeWhile_append_of_pos hw, List.dropWhile_append_of_pos hw, htake, hdrop,
    List.append_nil]
  rfl

/-- The digits before a point: a zero alone, or digits that do not begin with one. -/
structure IsWhole (w : Text) : Prop where
  digits : ∀ c ∈ w, c.isAsciiDigit = true
  leading : w = [CodePoint.ofChar '0'] ∨ ∃ c s, w = c :: s ∧ c ≠ CodePoint.ofChar '0'

theorem IsWhole.of_head {w : Text} (digits : ∀ c ∈ w, c.isAsciiDigit = true) (hne : w ≠ [])
    (hhead : ∀ c ∈ w.head?, c ≠ CodePoint.ofChar '0') : IsWhole w := by
  cases w with
  | nil => exact absurd rfl hne
  | cons c s => exact ⟨digits, Or.inr ⟨c, s, rfl, hhead c rfl⟩⟩

theorem IsWhole.ofNat (n : Nat) : IsWhole (Text.ofNat n) := by
  by_cases hn : n = 0
  · refine ⟨fun c => Text.isAsciiDigit_of_mem_ofNat, Or.inl ?_⟩
    rw [hn]
    decide
  · exact .of_head (fun c => Text.isAsciiDigit_of_mem_ofNat) (Text.ofNat_ne_nil n)
      (Text.head_ofNat_ne_zero hn)

theorem IsWhole.head {w : Text} (hw : IsWhole w) :
    ∃ c s, w = c :: s ∧ c.isAsciiDigit = true := by
  rcases hw.leading with h | ⟨c, s, h, -⟩
  · exact ⟨_, [], h, by decide⟩
  · exact ⟨c, s, h, hw.digits c (by simp [h])⟩

theorem whole?_append {w rest : Text} (hw : IsWhole w)
    (hrest : ∀ c ∈ rest.head?, c.isAsciiDigit = false) :
    whole? (w ++ rest) = some (digitsOf w, rest) := by
  rw [whole?, digitRun_append hw.digits hrest]
  rcases hw.leading with rfl | ⟨c, s, rfl, hc⟩
  · rfl
  · have hdigit : c.isAsciiDigit = true := hw.digits c List.mem_cons_self
    simp only [CodePoint.isAsciiDigit, Bool.and_eq_true, decide_eq_true_eq] at hdigit
    have hval : c.val - 0x30 ≠ 0 := by
      intro h
      exact hc (Fin.ext (show c.val = 0x30 by omega))
    obtain ⟨k, hk⟩ := Nat.exists_eq_succ_of_ne_zero hval
    simp only [digitsOf, List.map_cons, hk]

theorem ne_of_digit {c d : CodePoint} (h : c.isAsciiDigit = true) (hd : d.isAsciiDigit = false) :
    c ≠ d := by
  rintro rfl
  rw [hd] at h
  cases h

theorem minus_of_digit {c : CodePoint} (h : c.isAsciiDigit = true) (s : Text) :
    minus (c :: s) = (false, c :: s) := by
  have hne : (c == CodePoint.ofChar '-') = false :=
    beq_false_of_ne (ne_of_digit h (by decide))
  rw [minus, hne]
  rfl

theorem fraction?_cons {f rest : Text} (hne : f ≠ []) (hf : ∀ c ∈ f, c.isAsciiDigit = true)
    (hrest : ∀ c ∈ rest.head?, c.isAsciiDigit = false) :
    fraction? (CodePoint.ofChar '.' :: (f ++ rest)) = some (digitsOf f, rest) := by
  have hdigits : (digitsOf f).isEmpty = false := by
    cases f with
    | nil => exact absurd rfl hne
    | cons c f => rfl
  rw [fraction?, digitRun_append hf hrest]
  simp [hdigits]

theorem fraction?_none {s : Text} (h : ∀ c ∈ s.head?, c ≠ CodePoint.ofChar '.') :
    fraction? s = none := by
  cases s with
  | nil => rfl
  | cons c rest =>
    have hne : (c == CodePoint.ofChar '.') = false := beq_false_of_ne (h c rfl)
    simp [fraction?, hne]

theorem exponent?_none {s : Text}
    (h : ∀ c ∈ s.head?, c ≠ CodePoint.ofChar 'e' ∧ c ≠ CodePoint.ofChar 'E') :
    exponent? s = none := by
  cases s with
  | nil => rfl
  | cons c rest =>
    have he : (c == CodePoint.ofChar 'e') = false := beq_false_of_ne (h c rfl).1
    have hE : (c == CodePoint.ofChar 'E') = false := beq_false_of_ne (h c rfl).2
    simp [exponent?, he, hE]

open Decimal

theorem exponentText_eq (e : Int) :
    exponentText e = CodePoint.ofChar 'e' :: CodePoint.ofChar (if e < 0 then '-' else '+') ::
      (zeros (2 - (Text.ofNat e.natAbs).length) ++ Text.ofNat e.natAbs) := by
  have he : ("e" : Text) = [CodePoint.ofChar 'e'] := by decide
  rw [exponentText, he]
  split <;> simp

theorem isAsciiDigit_of_mem_zeros {n : Nat} {c : CodePoint} (h : c ∈ zeros n) :
    c.isAsciiDigit = true := by
  rw [List.eq_of_mem_replicate h]
  decide

theorem isAsciiDigit_of_mem_zeros_append {n k : Nat} {c : CodePoint}
    (h : c ∈ zeros k ++ Text.ofNat n) : c.isAsciiDigit = true := by
  rcases List.mem_append.mp h with h | h
  · exact isAsciiDigit_of_mem_zeros h
  · exact Text.isAsciiDigit_of_mem_ofNat h

theorem digitsOf_zeros (n : Nat) : digitsOf (zeros n) = List.replicate n 0 := List.map_replicate

theorem value_zeros_append (n : Nat) (s : Text) :
    Numeral.value (digitsOf (zeros n ++ s)) = Numeral.value (digitsOf s) := by
  rw [digitsOf_append, Numeral.value_append, digitsOf_zeros, Numeral.value_replicate_zero,
    Nat.zero_mul, Nat.zero_add]

theorem value_append_zeros (s : Text) (k : Nat) :
    Numeral.value (digitsOf (s ++ zeros k)) = Numeral.value (digitsOf s) * 10 ^ k := by
  rw [digitsOf_append, Numeral.value_append, digitsOf_zeros, Numeral.value_replicate_zero,
    List.length_replicate, Nat.add_zero]

theorem sign_natAbs (n : Int) :
    (if decide (n < 0) = true then -(n.natAbs : Int) else (n.natAbs : Int)) = n := by
  simp only [decide_eq_true_eq]
  split <;> omega

theorem exponent?_exponentText (e : Int) {rest : Text}
    (hrest : ∀ c ∈ rest.head?, c.isAsciiDigit = false) :
    exponent? (exponentText e ++ rest) = some (e, rest) := by
  have hdigits : ∀ c ∈ zeros (2 - (Text.ofNat e.natAbs).length) ++ Text.ofNat e.natAbs,
      c.isAsciiDigit = true := fun c => isAsciiDigit_of_mem_zeros_append
  have hvalue : Numeral.value
      (digitsOf (zeros (2 - (Text.ofNat e.natAbs).length) ++ Text.ofNat e.natAbs)) = e.natAbs := by
    rw [value_zeros_append, Text.value_ofNat]
  have hne : (digitsOf (zeros (2 - (Text.ofNat e.natAbs).length) ++ Text.ofNat e.natAbs)).isEmpty =
      false := by
    simp [digitsOf, Text.ofNat_ne_nil]
  have hsign : ∀ s : Text, Numeral.sign (CodePoint.ofChar (if e < 0 then '-' else '+') :: s) =
      (decide (e < 0), s) := by
    intro s
    by_cases h : e < 0
    · simp [h, Numeral.sign]
    · have hplus : (CodePoint.ofChar '+' == CodePoint.ofChar '-') = false := by decide
      simp [h, Numeral.sign, hplus]
  rw [exponentText_eq, List.cons_append, List.cons_append]
  simp only [exponent?, hsign, digitRun_append hdigits hrest, hvalue, hne, sign_natAbs,
    beq_self_eq_true, Bool.true_or, Bool.not_false, Bool.and_true, if_true]

/-- The text of a double, taken apart. A point or a power shows that it is no integer. -/
structure DoubleText where
  whole : Text
  fraction : Text
  power : Option Int
  isWhole : IsWhole whole
  digits : ∀ c ∈ fraction, c.isAsciiDigit = true
  isDouble : fraction ≠ [] ∨ power ≠ none

namespace DoubleText

variable (t : DoubleText)

def ending : Text := (t.power.map exponentText).getD []

def text : Text :=
  t.whole ++ ((if t.fraction.isEmpty then [] else ("." ++ t.fraction : Text)) ++ t.ending)

/-- The number it stands for. -/
def scaled : Scaled :=
  ⟨Numeral.value (digitsOf (t.whole ++ t.fraction)), t.power.getD 0 - t.fraction.length⟩

end DoubleText

/-- A minus before a negative number. -/
def signed (negative : Bool) (s : Text) : Text := if negative then '-' :: s else s

theorem signed_append (negative : Bool) (s t : Text) :
    signed negative s ++ t = signed negative (s ++ t) := by
  cases negative <;> rfl

theorem minus_signed (negative : Bool) {c : CodePoint} (h : c.isAsciiDigit = true) (s : Text) :
    minus (signed negative (c :: s)) = (negative, c :: s) := by
  cases negative with
  | true => rfl
  | false => exact minus_of_digit h s

theorem DoubleText.head_ending (t : DoubleText) {rest : Text} (hrest : Ends rest) :
    ∀ c ∈ (t.ending ++ rest).head?, c.isAsciiDigit = false ∧ c ≠ CodePoint.ofChar '.' := by
  intro c hc
  cases hp : t.power with
  | none =>
    simp only [DoubleText.ending, hp, Option.map_none, Option.getD_none, List.nil_append] at hc
    rcases hrest c hc with rfl | rfl | rfl <;> decide
  | some e =>
    simp only [DoubleText.ending, hp, Option.map_some, Option.getD_some, exponentText_eq,
      List.cons_append, List.head?_cons, Option.mem_def, Option.some.injEq] at hc
    rw [← hc]
    decide

theorem DoubleText.exponent?_ending (t : DoubleText) {rest : Text} (hrest : Ends rest) :
    exponent? (t.ending ++ rest) = t.power.map (·, rest) := by
  cases hp : t.power with
  | none =>
    simp only [DoubleText.ending, hp, Option.map_none, Option.getD_none, List.nil_append]
    apply exponent?_none
    intro c hc
    rcases hrest c hc with rfl | rfl | rfl <;> decide
  | some e =>
    simp only [DoubleText.ending, hp, Option.map_some, Option.getD_some]
    apply exponent?_exponentText
    intro c hc
    rcases hrest c hc with rfl | rfl | rfl <;> decide

/-- A fraction or an exponent makes a numeral a double. -/
theorem number_double {s s' rest : Text} {negative : Bool} {digits : List Nat}
    {fraction : Option (List Nat × Text)} {exponent : Option (Int × Text)}
    (hminus : minus s = (negative, s')) (hwhole : whole? s' = some (digits, rest))
    (hfraction : fraction? rest = fraction)
    (hexponent : exponent? ((fraction.map (·.2)).getD rest) = exponent)
    (h : fraction ≠ none ∨ exponent ≠ none) :
    number s = .ok (.float (Binary64.ofDecimal negative
        (Numeral.value (digits ++ (fraction.map (·.1)).getD []))
        ((exponent.map (·.1)).getD 0 - ((fraction.map (·.1)).getD []).length)),
      (exponent.map (·.2)).getD ((fraction.map (·.2)).getD rest)) := by
  simp only [number, hminus, hwhole, hfraction, hexponent]
  cases fraction with
  | none =>
    cases exponent with
    | none => exact absurd rfl (h.resolve_left (· rfl))
    | some e => rfl
  | some f => cases exponent <;> rfl

theorem number_int {s s' rest : Text} {negative : Bool} {digits : List Nat}
    (hminus : minus s = (negative, s')) (hwhole : whole? s' = some (digits, rest))
    (hfraction : fraction? rest = none) (hexponent : exponent? rest = none)
    (hlen : digits.length ≤ Numeral.maxDigits) :
    number s = .ok (.int (if negative then -(Numeral.value digits : Int) else Numeral.value digits),
      rest) := by
  simp only [number, hminus, hwhole, hfraction, hexponent, Option.map_none, Option.getD_none,
    if_neg (Nat.not_lt.mpr hlen)]

/-- The text of a double is read as the double nearest to its number. -/
theorem number_text (t : DoubleText) (negative : Bool) {rest : Text} (hrest : Ends rest) :
    number (signed negative t.text ++ rest) =
      .ok (.float (Binary64.ofMagnitude negative t.scaled.bits), rest) := by
  obtain ⟨c, s, hw, hc⟩ := t.isWhole.head
  have hminus : ∀ X : Text, minus (signed negative (t.whole ++ X)) = (negative, t.whole ++ X) := by
    intro X
    rw [hw]
    exact minus_signed negative hc _
  have hdot : ("." : Text) = [CodePoint.ofChar '.'] := by decide
  have hexponent := t.exponent?_ending hrest
  rw [DoubleText.text, signed_append, List.append_assoc]
  by_cases hf : t.fraction = []
  · have hpower : t.power ≠ none := t.isDouble.resolve_left (fun h => h hf)
    have hwhole := whole?_append t.isWhole fun c hc => (t.head_ending hrest c hc).1
    have hfraction : fraction? (t.ending ++ rest) = none :=
      fraction?_none fun c hc => (t.head_ending hrest c hc).2
    rw [hf, List.isEmpty_nil, if_pos rfl, List.nil_append,
      number_double (hminus _) hwhole hfraction hexponent (Or.inr (by simpa using hpower))]
    obtain ⟨e, he⟩ := Option.ne_none_iff_exists'.mp hpower
    simp [Binary64.ofDecimal, DoubleText.scaled, Scaled.bits, he, hf]
  · have hempty : t.fraction.isEmpty = false := by simpa using hf
    have hpoint : ∀ X : Text, whole? (t.whole ++ CodePoint.ofChar '.' :: X) =
        some (digitsOf t.whole, CodePoint.ofChar '.' :: X) := by
      intro X
      apply whole?_append t.isWhole
      intro c hc
      obtain rfl : CodePoint.ofChar '.' = c := by simpa using hc
      decide
    have hfraction := fraction?_cons hf t.digits fun c hc => (t.head_ending hrest c hc).1
    rw [hempty, if_neg Bool.false_ne_true, hdot, List.append_assoc, List.append_assoc,
      List.singleton_append,
      number_double (hminus _) (hpoint _) hfraction hexponent (Or.inl (by simp))]
    cases hp : t.power with
    | none => simp [Binary64.ofDecimal, DoubleText.scaled, Scaled.bits, DoubleText.ending, hp]
    | some e => simp [Binary64.ofDecimal, DoubleText.scaled, Scaled.bits, hp]

end LiveTree.Json
