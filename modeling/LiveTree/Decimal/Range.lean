import LiveTree.Decimal.Binary64

namespace LiveTree.Binary64

theorem le_log2_of_pow_le {k n : Nat} (h : Nat.pow 2 k ≤ n) : k ≤ n.log2 := by
  have hn : n ≠ 0 := Nat.ne_of_gt (Nat.lt_of_lt_of_le (Nat.pow_pos (by decide)) h)
  exact (Nat.le_log2 hn).mpr h

theorem lt_pow_log2 (n : Nat) : n < Nat.pow 2 (n.log2 + 1) := Nat.lt_log2_self

/-- A power of ten has at least three bits for each unit of its exponent. -/
theorem pow_two_le_pow_ten (k : Nat) : Nat.pow 2 (3 * k) ≤ Nat.pow 10 k := by
  have h : Nat.pow 2 (3 * k) = Nat.pow 8 k := Nat.pow_mul 2 3 k
  rw [h]
  exact Nat.pow_le_pow_left (by decide) k

theorem logRatio_le (n d : Nat) : logRatio n d ≤ (n.log2 : Int) - d.log2 := by
  simp only [logRatio]
  split <;> omega

theorem le_logRatio (n d : Nat) : (n.log2 : Int) - d.log2 - 1 ≤ logRatio n d := by
  simp only [logRatio]
  split <;> omega

theorem roundDiv_of_lt {n d : Nat} (h : 2 * n < d) : roundDiv n d = 0 := by
  have hn : n < d := by omega
  simp [roundDiv, Nat.div_eq_of_lt hn, Nat.mod_eq_of_lt hn, h]

/-- Above the range of the doubles there is infinity. -/
theorem nearestBits_of_large {n d : Nat} (h : 1076 ≤ (n.log2 : Int) - d.log2) (hn : n ≠ 0) :
    nearestBits n d = infinityBits := by
  have hlog := le_logRatio n d
  have hk : 1023 ≤ logRatio n d - 52 := by omega
  have hmax : max (logRatio n d - 52) (-1074) = logRatio n d - 52 := by omega
  have hbits : infinityBits ≤ (logRatio n d - 52 + 1074).toNat * fractions :=
    Nat.mul_le_mul_right _ (by omega)
  simp only [nearestBits, beq_iff_eq, hn, if_false, hmax]
  omega

theorem two_mul_shift_lt {n d k : Nat} (h : n.log2 + k + 2 ≤ d.log2) :
    2 * (n * Nat.pow 2 k) < d := by
  have hd : d ≠ 0 := by
    intro hd
    simp [hd] at h
  have hn : n * Nat.pow 2 (k + 1) < Nat.pow 2 (n.log2 + 1) * Nat.pow 2 (k + 1) :=
    Nat.mul_lt_mul_of_pos_right (lt_pow_log2 n) (Nat.pow_pos (by decide))
  have hsum : Nat.pow 2 (n.log2 + 1) * Nat.pow 2 (k + 1) = Nat.pow 2 (n.log2 + 1 + (k + 1)) :=
    (Nat.pow_add 2 (n.log2 + 1) (k + 1)).symm
  have hle : Nat.pow 2 (n.log2 + 1 + (k + 1)) ≤ d :=
    Nat.le_trans (Nat.pow_le_pow_right (by decide) (by omega)) (Nat.log2_self_le hd)
  have htwo : n * (Nat.pow 2 k * 2) = 2 * (n * Nat.pow 2 k) := by
    rw [← Nat.mul_assoc, Nat.mul_comm]
  have hn' : n * (Nat.pow 2 k * 2) < Nat.pow 2 (n.log2 + 1) * Nat.pow 2 (k + 1) := hn
  omega

/-- Below half of the least double there is zero. -/
theorem nearestBits_of_small {n d : Nat} (h : (n.log2 : Int) + 1076 ≤ d.log2) :
    nearestBits n d = 0 := by
  have hlog := logRatio_le n d
  have hmax : max (logRatio n d - 52) (-1074) = -1074 := by omega
  by_cases hn : n = 0
  · simp [nearestBits, hn]
  · simp only [nearestBits, beq_iff_eq, hn, if_false, hmax]
    have hunit : d * Nat.pow 2 (-1074 : Int).toNat = d := Nat.mul_one d
    rw [hunit, roundDiv_of_lt (two_mul_shift_lt (by omega))]
    simp

/-- What is decided first agrees with the rounding of the exact value. -/
theorem decimalBits_eq (digits : Nat) (exponent : Int) :
    decimalBits digits exponent =
      nearestBits (digits * Nat.pow 10 exponent.toNat) (Nat.pow 10 (-exponent).toNat) := by
  by_cases h0 : digits = 0
  · simp [decimalBits, nearestBits, h0]
  simp only [decimalBits, beq_iff_eq, h0, if_false]
  split
  · rename_i hbig
    have hexp : (-exponent).toNat = 0 := by omega
    have hten : Nat.pow 10 exponent.toNat ≤ digits * Nat.pow 10 exponent.toNat :=
      Nat.le_mul_of_pos_left _ (Nat.pos_of_ne_zero h0)
    have hlog : 3 * exponent.toNat ≤ (digits * Nat.pow 10 exponent.toNat).log2 :=
      le_log2_of_pow_le (Nat.le_trans (pow_two_le_pow_ten _) hten)
    have hone : (Nat.pow 10 0).log2 = 0 := by decide
    refine (nearestBits_of_large ?_ (Nat.mul_ne_zero h0 ?_)).symm
    · rw [hexp, hone]
      omega
    · exact Nat.ne_of_gt (Nat.pow_pos (by decide))
  · split
    · rename_i hsmall
      have hexp : exponent.toNat = 0 := by omega
      have hlog : 3 * (-exponent).toNat ≤ (Nat.pow 10 (-exponent).toNat).log2 :=
        le_log2_of_pow_le (pow_two_le_pow_ten _)
      have hone : digits * Nat.pow 10 0 = digits := Nat.mul_one digits
      rw [hexp, hone]
      refine (nearestBits_of_small ?_).symm
      omega
    · rfl

end LiveTree.Binary64
