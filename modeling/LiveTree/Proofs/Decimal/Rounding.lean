import LiveTree.Decimal.Range
import Mathlib.Algebra.Order.Field.Power
import Mathlib.Data.Rat.Cast.Order
import Mathlib.Tactic.FieldSimp
import Mathlib.Tactic.Linarith
import Mathlib.Tactic.Positivity
import Mathlib.Tactic.Ring

namespace LiveTree.Binary64

/-- A power of a natural number with any integer as its exponent, as a fraction of two naturals. -/
theorem zpow_eq_div {b : Nat} (hb : b ≠ 0) (k : Int) :
    (b : ℚ) ^ k = (Nat.pow b k.toNat : Nat) / (Nat.pow b (-k).toNat : Nat) := by
  have hpow : ∀ m : Nat, ((Nat.pow b m : Nat) : ℚ) = (b : ℚ) ^ m := fun m => Nat.cast_pow b m
  have hb' : (b : ℚ) ≠ 0 := Nat.cast_ne_zero.mpr hb
  rw [hpow, hpow, ← zpow_natCast, ← zpow_natCast, ← zpow_sub₀ hb']
  congr 1
  omega

theorem pow_cast_pos (k : Nat) : (0 : ℚ) < (Nat.pow 2 k : Nat) :=
  Nat.cast_pos.mpr (Nat.pow_pos (by decide))

theorem mul_pow_le_iff {n d : Nat} (hd : d ≠ 0) (k : Int) :
    d * Nat.pow 2 k.toNat ≤ n * Nat.pow 2 (-k).toNat ↔ (2 : ℚ) ^ k ≤ n / d := by
  have hpos : (0 : ℚ) < d := Nat.cast_pos.mpr (Nat.pos_of_ne_zero hd)
  have htwo : (2 : ℚ) ^ k = _ := zpow_eq_div (b := 2) (by decide) k
  rw [htwo, div_le_div_iff₀ (pow_cast_pos _) hpos, ← Nat.cast_mul, ← Nat.cast_mul, Nat.cast_le,
    Nat.mul_comm d]

theorem zpow_log2_le {n : Nat} (h : n ≠ 0) : (2 : ℚ) ^ (n.log2 : Int) ≤ n := by
  rw [zpow_natCast]
  exact_mod_cast Nat.log2_self_le h

theorem lt_zpow_log2 (n : Nat) : (n : ℚ) < (2 : ℚ) ^ ((n.log2 : Int) + 1) := by
  have h : (n : ℚ) < ((2 ^ (n.log2 + 1) : Nat) : ℚ) := Nat.cast_lt.mpr Nat.lt_log2_self
  rw [Nat.cast_pow] at h
  exact_mod_cast h

theorem le_logRatio_iff {n d : Nat} (hn : n ≠ 0) (hd : d ≠ 0) (k : Int) :
    k ≤ logRatio n d ↔ (2 : ℚ) ^ k ≤ n / d := by
  have hpos : (0 : ℚ) < d := Nat.cast_pos.mpr (Nat.pos_of_ne_zero hd)
  have htwo : (2 : ℚ) ≠ 0 := two_ne_zero
  have mono : ∀ {i j : Int}, i ≤ j → (2 : ℚ) ^ i ≤ 2 ^ j := fun h =>
    zpow_le_zpow_right₀ one_le_two h
  have above : (n : ℚ) / d < 2 ^ ((n.log2 : Int) - d.log2 + 1) := by
    rw [div_lt_iff₀ hpos]
    calc (n : ℚ) < 2 ^ ((n.log2 : Int) + 1) := lt_zpow_log2 n
      _ = 2 ^ ((n.log2 : Int) - d.log2 + 1) * 2 ^ (d.log2 : Int) := by
        rw [← zpow_add₀ htwo]
        congr 1
        omega
      _ ≤ 2 ^ ((n.log2 : Int) - d.log2 + 1) * d :=
        mul_le_mul_of_nonneg_left (zpow_log2_le hd) (by positivity)
  have below : (2 : ℚ) ^ ((n.log2 : Int) - d.log2 - 1) ≤ n / d := by
    rw [le_div_iff₀ hpos]
    calc (2 : ℚ) ^ ((n.log2 : Int) - d.log2 - 1) * d
        ≤ 2 ^ ((n.log2 : Int) - d.log2 - 1) * 2 ^ ((d.log2 : Int) + 1) :=
        mul_le_mul_of_nonneg_left (lt_zpow_log2 d).le (by positivity)
      _ = 2 ^ (n.log2 : Int) := by
        rw [← zpow_add₀ htwo]
        congr 1
        omega
      _ ≤ n := zpow_log2_le hn
  -- The two bounds leave two candidates, and the comparison in `logRatio` decides between them.
  simp only [logRatio]
  split
  · rename_i hk
    rw [mul_pow_le_iff hd] at hk
    constructor
    · intro h
      exact le_trans (mono h) hk
    · intro h
      by_contra hlt
      exact absurd (le_trans (mono (show _ ≤ k by omega)) h) (not_le.mpr above)
  · rename_i hk
    rw [mul_pow_le_iff hd] at hk
    constructor
    · intro h
      exact le_trans (mono h) below
    · intro h
      by_contra hlt
      exact hk (le_trans (mono (show _ ≤ k by omega)) h)

theorem logRatio_congr {n d n' d' : Nat} (hn : n ≠ 0) (hd : d ≠ 0) (hn' : n' ≠ 0) (hd' : d' ≠ 0)
    (h : (n : ℚ) / d = n' / d') : logRatio n d = logRatio n' d' := by
  apply eq_of_forall_le_iff
  intro k
  rw [le_logRatio_iff hn hd, le_logRatio_iff hn' hd', h]

theorem roundDiv_mul_left {k n d : Nat} (hk : 0 < k) : roundDiv (k * n) (k * d) = roundDiv n d := by
  have hlow : 2 * (k * (n % d)) < k * d ↔ 2 * (n % d) < d := by
    rw [show 2 * (k * (n % d)) = k * (2 * (n % d)) by ring]
    exact Nat.mul_lt_mul_left hk
  have hhigh : k * d < 2 * (k * (n % d)) ↔ d < 2 * (n % d) := by
    rw [show 2 * (k * (n % d)) = k * (2 * (n % d)) by ring]
    exact Nat.mul_lt_mul_left hk
  simp only [roundDiv, Nat.mul_div_mul_left n d hk, Nat.mul_mod_mul_left, hlow, hhigh]

theorem roundDiv_congr {n d n' d' : Nat} (hd : 0 < d) (hd' : 0 < d') (h : n * d' = n' * d) :
    roundDiv n d = roundDiv n' d' := by
  rw [← roundDiv_mul_left hd', ← roundDiv_mul_left (n := n') hd, Nat.mul_comm d' n, h,
    Nat.mul_comm n' d, Nat.mul_comm d' d]

/-- The nearest double depends on the value alone. -/
theorem nearestBits_congr {n d n' d' : Nat} (hd : d ≠ 0) (hd' : d' ≠ 0)
    (h : (n : ℚ) / d = n' / d') : nearestBits n d = nearestBits n' d' := by
  have hdq : (d : ℚ) ≠ 0 := Nat.cast_ne_zero.mpr hd
  have hdq' : (d' : ℚ) ≠ 0 := Nat.cast_ne_zero.mpr hd'
  have hcross : n * d' = n' * d := by
    rw [div_eq_div_iff hdq hdq'] at h
    exact_mod_cast h
  by_cases hn : n = 0
  · have hn' : n' = 0 := by
      rw [hn, Nat.zero_mul] at hcross
      exact (Nat.mul_eq_zero.mp hcross.symm).resolve_right hd
    simp only [nearestBits, hn, hn', beq_self_eq_true, if_true]
  · have hn' : n' ≠ 0 := by
      intro hn'
      rw [hn', Nat.zero_mul] at hcross
      exact (Nat.mul_ne_zero hn hd') hcross
    simp only [nearestBits, beq_iff_eq, hn, hn', if_false, logRatio_congr hn hd hn' hd' h]
    generalize max (logRatio n' d' - 52) (-1074) = e
    have hpow : ∀ k, 0 < Nat.pow 2 k := fun k => Nat.pow_pos (by decide)
    rw [roundDiv_congr (Nat.mul_pos (Nat.pos_of_ne_zero hd) (hpow _))
      (Nat.mul_pos (Nat.pos_of_ne_zero hd') (hpow _))
      (show n * Nat.pow 2 (-e).toNat * (d' * Nat.pow 2 e.toNat) =
          n' * Nat.pow 2 (-e).toNat * (d * Nat.pow 2 e.toNat) by
        calc n * Nat.pow 2 (-e).toNat * (d' * Nat.pow 2 e.toNat)
            = n * d' * (Nat.pow 2 (-e).toNat * Nat.pow 2 e.toNat) := by ring
          _ = n' * d * (Nat.pow 2 (-e).toNat * Nat.pow 2 e.toNat) := by rw [hcross]
          _ = n' * Nat.pow 2 (-e).toNat * (d * Nat.pow 2 e.toNat) := by ring)]

theorem decimal_eq_div (a : Nat) (e : Int) :
    (a : ℚ) * 10 ^ e =
      ((a * Nat.pow 10 e.toNat : Nat) : ℚ) / (Nat.pow 10 (-e).toNat : Nat) := by
  have hten : (10 : ℚ) ^ e = _ := zpow_eq_div (b := 10) (by decide) e
  rw [hten, Nat.cast_mul, mul_div_assoc]

theorem pow_ten_ne_zero (k : Nat) : Nat.pow 10 k ≠ 0 := Nat.ne_of_gt (Nat.pow_pos (by decide))

/-- A decimal is read as the double nearest to its value. -/
theorem decimalBits_of_value {a n d : Nat} {e : Int} (hd : d ≠ 0) (h : (a : ℚ) * 10 ^ e = n / d) :
    decimalBits a e = nearestBits n d := by
  rw [decimalBits_eq]
  exact nearestBits_congr (pow_ten_ne_zero _) hd ((decimal_eq_div a e).symm.trans h)

theorem decimalBits_congr {a a' : Nat} {e e' : Int} (h : (a : ℚ) * 10 ^ e = a' * 10 ^ e') :
    decimalBits a e = decimalBits a' e' := by
  rw [decimalBits_eq a' e']
  exact decimalBits_of_value (pow_ten_ne_zero _) (h.trans (decimal_eq_div a' e'))

end LiveTree.Binary64
