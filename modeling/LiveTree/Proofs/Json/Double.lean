import LiveTree.Proofs.Json.Number

namespace LiveTree.Json

open Decimal

/-- The digits of a number other than zero, cut somewhere after the first. -/
theorem IsWhole.take {n k : Nat} (hn : n ≠ 0) (hk : k ≠ 0) : IsWhole ((Text.ofNat n).take k) := by
  cases hs : Text.ofNat n with
  | nil => exact absurd hs (Text.ofNat_ne_nil n)
  | cons c s =>
    obtain ⟨j, rfl⟩ := Nat.exists_eq_succ_of_ne_zero hk
    rw [List.take_succ_cons]
    refine ⟨?_, Or.inr ⟨c, s.take j, rfl, Text.head_ofNat_ne_zero hn c (by simp [hs])⟩⟩
    intro d hd
    apply Text.isAsciiDigit_of_mem_ofNat (n := n)
    rw [hs]
    rcases List.mem_cons.mp hd with rfl | hd
    · exact List.mem_cons_self
    · exact List.mem_cons_of_mem _ (List.mem_of_mem_take hd)

theorem value_take_drop (n k : Nat) :
    Numeral.value (digitsOf ((Text.ofNat n).take k ++ (Text.ofNat n).drop k)) = n := by
  rw [List.take_append_drop, Text.value_ofNat]

theorem isAsciiDigit_of_mem_drop {n k : Nat} {c : CodePoint} (h : c ∈ (Text.ofNat n).drop k) :
    c.isAsciiDigit = true := Text.isAsciiDigit_of_mem_ofNat (List.mem_of_mem_drop h)

theorem isWhole_zero : IsWhole [CodePoint.ofChar '0'] := by
  refine ⟨?_, Or.inl rfl⟩
  intro c hc
  rw [List.mem_singleton.mp hc]
  decide

section Layouts

variable {v : Scaled}

/-- Zeros between the point and the digits. -/
theorem exists_leadingZeros {k : Nat}
    (hk : ((Text.ofNat v.digits).length : Int) + v.exponent = -k) :
    ∃ t : DoubleText, t.scaled.toRat = v.toRat ∧
      t.text = "0." ++ zeros k ++ Text.ofNat v.digits := by
  have hdot : ("." : Text) = [CodePoint.ofChar '.'] := by decide
  have hnought : ("0." : Text) = [CodePoint.ofChar '0', CodePoint.ofChar '.'] := by decide
  have hzero : [CodePoint.ofChar '0'] = zeros 1 := rfl
  refine ⟨⟨[CodePoint.ofChar '0'], zeros k ++ Text.ofNat v.digits, none, isWhole_zero,
    fun c => isAsciiDigit_of_mem_zeros_append, Or.inl (by simp [Text.ofNat_ne_nil])⟩, ?_, ?_⟩
  · have hvalue : Numeral.value (digitsOf ([CodePoint.ofChar '0'] ++
        (zeros k ++ Text.ofNat v.digits))) = v.digits := by
      rw [hzero, value_zeros_append, value_zeros_append, Text.value_ofNat]
    have hexponent : (0 : Int) - ((zeros k ++ Text.ofNat v.digits).length : Nat) = v.exponent := by
      rw [List.length_append, zeros, List.length_replicate]
      omega
    simp only [DoubleText.scaled, hvalue, Option.getD_none, hexponent]
  · simp [DoubleText.text, DoubleText.ending, hdot, hnought, Text.ofNat_ne_nil]

variable (hv : v.digits ≠ 0)
include hv

/-- One digit before the point, and a power. -/
theorem exists_powered {power : Int}
    (hpower : ((Text.ofNat v.digits).length : Int) + v.exponent - 1 = power) :
    ∃ t : DoubleText, t.scaled.toRat = v.toRat ∧ t.text = (Text.ofNat v.digits).take 1 ++
      (if ((Text.ofNat v.digits).drop 1).isEmpty then []
        else ("." ++ (Text.ofNat v.digits).drop 1 : Text)) ++ exponentText power := by
  have hlen : 0 < (Text.ofNat v.digits).length := List.length_pos_of_ne_nil (Text.ofNat_ne_nil _)
  refine ⟨⟨(Text.ofNat v.digits).take 1, (Text.ofNat v.digits).drop 1, some power,
    IsWhole.take hv (by decide), fun c => isAsciiDigit_of_mem_drop, Or.inr (by simp)⟩, ?_, ?_⟩
  · have hexponent : power - ((Text.ofNat v.digits).length - 1 : Nat) = v.exponent := by omega
    simp only [DoubleText.scaled, value_take_drop, Option.getD_some, List.length_drop, hexponent]
  · simp only [DoubleText.text, DoubleText.ending, Option.map_some, Option.getD_some,
      List.append_assoc]

/-- Zeros between the digits and the point. -/
theorem exists_trailingZeros {k : Nat} (hk : v.exponent = k) :
    ∃ t : DoubleText, t.scaled.toRat = v.toRat ∧
      t.text = Text.ofNat v.digits ++ zeros k ++ ".0" := by
  have hdot : ("." : Text) = [CodePoint.ofChar '.'] := by decide
  have hpoint : (".0" : Text) = [CodePoint.ofChar '.', CodePoint.ofChar '0'] := by decide
  have hzero : [CodePoint.ofChar '0'] = zeros 1 := rfl
  have hdigits : ∀ c ∈ Text.ofNat v.digits ++ zeros k, c.isAsciiDigit = true := by
    intro c hc
    rcases List.mem_append.mp hc with hc | hc
    · exact Text.isAsciiDigit_of_mem_ofNat hc
    · exact isAsciiDigit_of_mem_zeros hc
  have hhead : ∀ c ∈ (Text.ofNat v.digits ++ zeros k).head?, c ≠ CodePoint.ofChar '0' := by
    rw [List.head?_append_of_ne_nil _ (Text.ofNat_ne_nil _)]
    exact Text.head_ofNat_ne_zero hv
  refine ⟨⟨Text.ofNat v.digits ++ zeros k, [CodePoint.ofChar '0'], none,
    .of_head hdigits (by simp [Text.ofNat_ne_nil]) hhead, isWhole_zero.digits,
    Or.inl (by simp)⟩, ?_, ?_⟩
  · have hten : (10 : ℚ) ≠ 0 := by norm_num
    simp only [DoubleText.scaled, hzero, value_append_zeros, Text.value_ofNat, Scaled.toRat,
      Option.getD_none, hk, zpow_natCast]
    push_cast
    simp [zeros]
  · simp [DoubleText.text, DoubleText.ending, hdot, hpoint]

/-- The point among the digits. -/
theorem exists_pointed {k : Nat} (hpos : k ≠ 0) (hlt : k < (Text.ofNat v.digits).length)
    (hk : ((Text.ofNat v.digits).length : Int) + v.exponent = k) :
    ∃ t : DoubleText, t.scaled.toRat = v.toRat ∧
      t.text = (Text.ofNat v.digits).take k ++ "." ++ (Text.ofNat v.digits).drop k := by
  have hdot : ("." : Text) = [CodePoint.ofChar '.'] := by decide
  have hdrop : (Text.ofNat v.digits).drop k ≠ [] := mt List.drop_eq_nil_iff.mp (by omega)
  refine ⟨⟨(Text.ofNat v.digits).take k, (Text.ofNat v.digits).drop k, none,
    IsWhole.take hv hpos, fun c => isAsciiDigit_of_mem_drop, Or.inl hdrop⟩, ?_, ?_⟩
  · have hexponent : (0 : Int) - ((Text.ofNat v.digits).length - k : Nat) = v.exponent := by omega
    simp only [DoubleText.scaled, value_take_drop, Option.getD_none, List.length_drop, hexponent]
  · simp [DoubleText.text, DoubleText.ending, hdot, hlt]

end Layouts

/-- The layout of digits is the text of a double, with the same value. -/
theorem exists_doubleText (v : Scaled) :
    ∃ t : DoubleText, t.scaled.toRat = v.toRat ∧ t.text = Layout.json.digits v := by
  have hfrom : Layout.json.exponentFrom = 16 := rfl
  have hpoint : Layout.json.pointZero = true := rfl
  by_cases hv : v.digits = 0
  · have hdot : ("." : Text) = [CodePoint.ofChar '.'] := by decide
    have htext : (".0" : Text) = [CodePoint.ofChar '.', CodePoint.ofChar '0'] := by decide
    refine ⟨⟨[CodePoint.ofChar '0'], [CodePoint.ofChar '0'], none, isWhole_zero,
      isWhole_zero.digits, Or.inl (by simp)⟩, ?_, ?_⟩
    · simp [Scaled.toRat, hv, DoubleText.scaled, digitsOf, Numeral.value]
    · simp [Layout.digits, hv, hpoint, htext, DoubleText.text, DoubleText.ending, hdot]
  · have hfirst : (v.digits == 0) = false := beq_false_of_ne hv
    simp only [Layout.digits, hfirst, hfrom, hpoint, Bool.false_eq_true, if_false, if_true]
    split
    · exact exists_powered hv rfl
    · split
      · exact exists_leadingZeros (by omega)
      · split
        · exact exists_trailingZeros hv (by omega)
        · exact exists_pointed hv (by omega) (by omega) (by omega)

/-- The text of a number is laid out from digits that are read as it. -/
theorem write_number {x : Float} {negative : Bool} {mantissa : Nat} {exponent : Int}
    (hx : Binary64.parts x = .number negative mantissa exponent) :
    ∃ v : Scaled, Layout.json.write x = signed negative (Layout.json.digits v) ∧
      x = Binary64.ofMagnitude negative v.bits := by
  have hbits := Binary64.of_parts x
  rw [hx] at hbits
  cases mantissa with
  | zero =>
    refine ⟨⟨0, 0⟩, by simp only [Layout.write, hx, signed], ?_⟩
    have hread : (⟨0, 0⟩ : Scaled).bits = 0 := by simp [Scaled.bits, Binary64.decimalBits]
    have hnearest : ∀ d, Binary64.nearestBits 0 d = 0 := fun d => by simp [Binary64.nearestBits]
    simp only [Nat.zero_mul, hnearest] at hbits
    rw [hread]
    exact hbits
  | succ m =>
    refine ⟨shortest (m + 1) exponent, ?_, ?_⟩
    · simp only [Layout.write, hx, signed]
      rfl
    · rw [bits_shortest]
      exact hbits

theorem number_write_float {x : Float} {negative : Bool} {mantissa : Nat} {exponent : Int}
    (hx : Binary64.parts x = .number negative mantissa exponent) {rest : Text} (hrest : Ends rest) :
    number (Layout.json.write x ++ rest) = .ok (.float x, rest) := by
  obtain ⟨v, hwrite, hbits⟩ := write_number hx
  obtain ⟨t, hvalue, ht⟩ := exists_doubleText v
  rw [hwrite, ← ht, number_text t negative hrest, Scaled.bits_congr hvalue, ← hbits]

theorem ofInt_eq_signed (n : Int) :
    Text.ofInt n = signed (decide (n < 0)) (Text.ofNat n.natAbs) := by
  cases n with
  | ofNat n => rfl
  | negSucc n =>
    have hneg : decide (Int.negSucc n < 0) = true := decide_eq_true (Int.negSucc_lt_zero n)
    rw [hneg]
    rfl

theorem number_ofInt {n : Int} (hn : (Nat.toDigits 10 n.natAbs).length ≤ Numeral.maxDigits)
    {rest : Text} (hrest : Ends rest) : number (Text.ofInt n ++ rest) = .ok (.int n, rest) := by
  have hwhole := IsWhole.ofNat n.natAbs
  obtain ⟨c, s, hw, hc⟩ := hwhole.head
  have hminus : minus (Text.ofInt n ++ rest) = (decide (n < 0), Text.ofNat n.natAbs ++ rest) := by
    rw [ofInt_eq_signed, signed_append, hw]
    exact minus_signed _ hc _
  have hlen : (digitsOf (Text.ofNat n.natAbs)).length ≤ Numeral.maxDigits := by
    rw [length_digitsOf, Text.ofNat, List.length_map]
    exact hn
  have hstop : ∀ c ∈ rest.head?, c.isAsciiDigit = false ∧ c ≠ CodePoint.ofChar '.' ∧
      c ≠ CodePoint.ofChar 'e' ∧ c ≠ CodePoint.ofChar 'E' := by
    intro c hc
    rcases hrest c hc with rfl | rfl | rfl <;> decide
  rw [number_int hminus (whole?_append hwhole fun c hc => (hstop c hc).1)
    (fraction?_none fun c hc => (hstop c hc).2.1)
    (exponent?_none fun c hc => (hstop c hc).2.2) hlen, Text.value_ofNat, sign_natAbs]

end LiveTree.Json
