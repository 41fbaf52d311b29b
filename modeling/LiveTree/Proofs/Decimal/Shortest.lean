import LiveTree.Decimal.Shortest
import LiveTree.Proofs.Decimal.Rounding

namespace LiveTree.Decimal

open Binary64

/-- The number that digits and an exponent stand for. -/
def Scaled.toRat (s : Scaled) : ℚ := s.digits * 10 ^ s.exponent

/-- The bits of the double that is read for it. -/
def Scaled.bits (s : Scaled) : Nat := decimalBits s.digits s.exponent

theorem Scaled.bits_congr {s t : Scaled} (h : s.toRat = t.toRat) : s.bits = t.bits :=
  decimalBits_congr h

theorem Scaled.bits_of_reads {s : Scaled} {bits : Nat} (h : s.reads bits = true) :
    s.bits = bits := eq_of_beq h

theorem Scaled.toRat_reduceFrom (fuel : Nat) (s : Scaled) :
    (s.reduceFrom fuel).toRat = s.toRat := by
  induction fuel generalizing s with
  | zero => rfl
  | succ fuel ih =>
    rw [Scaled.reduceFrom]
    split
    · rename_i h
      simp only [Bool.and_eq_true, bne_iff_ne, ne_eq, beq_iff_eq] at h
      have hdigits : s.digits / 10 * 10 = s.digits :=
        Nat.div_mul_cancel (Nat.dvd_of_mod_eq_zero h.2)
      have hten : (10 : ℚ) ≠ 0 := by norm_num
      rw [ih]
      calc ((s.digits / 10 : Nat) : ℚ) * 10 ^ (s.exponent + 1)
          = ((s.digits / 10 * 10 : Nat) : ℚ) * 10 ^ s.exponent := by
            rw [zpow_add_one₀ hten, Nat.cast_mul]
            push_cast
            ring
        _ = s.toRat := by rw [hdigits, Scaled.toRat]
    · rfl

/-- Trailing zeros carry no value. -/
theorem Scaled.toRat_reduce (s : Scaled) : s.reduce.toRat = s.toRat := s.toRat_reduceFrom _

theorem toRat_exact (mantissa : Nat) (exponent : Int) :
    (exact mantissa exponent).toRat =
      ((mantissa * Nat.pow 2 exponent.toNat : Nat) : ℚ) / (Nat.pow 2 (-exponent).toNat : Nat) := by
  have htwo : (2 : ℚ) ^ exponent = _ := zpow_eq_div (b := 2) (by decide) exponent
  rw [Nat.cast_mul, mul_div_assoc, ← htwo, exact]
  split
  · rename_i h
    rw [Scaled.toRat, zpow_zero, mul_one, Nat.cast_mul]
    congr 1
    have hcast : ((Nat.pow 2 exponent.toNat : Nat) : ℚ) = 2 ^ exponent.toNat := Nat.cast_pow 2 _
    rw [hcast, ← zpow_natCast, Int.toNat_of_nonneg h]
  · rename_i h
    have hcast : ((Nat.pow 5 (-exponent).toNat : Nat) : ℚ) = 5 ^ (-exponent) := by
      have hpow : ((Nat.pow 5 (-exponent).toNat : Nat) : ℚ) = 5 ^ (-exponent).toNat :=
        Nat.cast_pow 5 _
      rw [hpow, ← zpow_natCast, Int.toNat_of_nonneg (by omega)]
    have hsplit : (10 : ℚ) ^ exponent = 2 ^ exponent * 5 ^ exponent := by
      rw [← mul_zpow]
      norm_num
    have hfive : (5 : ℚ) ^ exponent ≠ 0 := zpow_ne_zero _ (by norm_num)
    rw [Scaled.toRat, Nat.cast_mul, hcast, hsplit, zpow_neg]
    field_simp

theorem bits_of_neighbour? {n d bits : Nat} {step : Int} {s : Scaled}
    (h : neighbour? n d bits step = some s) : s.bits = bits := by
  simp only [neighbour?] at h
  have hreads := List.find?_some h
  exact Scaled.bits_of_reads hreads

/-- The digits chosen for a double are read as that double. -/
theorem bits_shortest (mantissa : Nat) (exponent : Int) :
    (shortest mantissa exponent).bits =
      nearestBits (mantissa * Nat.pow 2 exponent.toNat) (Nat.pow 2 (-exponent).toNat) := by
  have hpow : ∀ j, Nat.pow 2 j ≠ 0 := fun j => Nat.ne_of_gt (Nat.pow_pos (by decide))
  rw [shortest, Scaled.bits_congr (Scaled.toRat_reduce _)]
  -- What the search finds was read back there; without a find the digits are the exact value.
  generalize hfound : List.findSome? _ _ = found
  cases found with
  | none =>
    exact decimalBits_of_value (hpow _) (toRat_exact mantissa exponent)
  | some s =>
    obtain ⟨k, -, hk⟩ := List.exists_of_findSome?_eq_some hfound
    exact bits_of_neighbour? hk

end LiveTree.Decimal
