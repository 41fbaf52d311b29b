import LiveTree.Proofs.Decimal.Rounding
import Mathlib

-- All of Mathlib is imported for `Float.ofBits_toBits`.

namespace LiveTree.Binary64

open Float.Model Float.Model.UnpackedFloat

abbrev Packed := BitVec Format.binary64.numBits

theorem toNat_unpackMantissa (b : Packed) : (unpackMantissa b).toNat = b.toNat % fractions := by
  simp [unpackMantissa, BitVec.extractLsb, fractions]

theorem toNat_unpackExponent (b : Packed) :
    (unpackExponent b).toNat = b.toNat / fractions % 2048 := by
  simp [unpackExponent, BitVec.extractLsb, fractions, Nat.shiftRight_eq_div_pow]

theorem le_logRatio_exact {m : Nat} (hm : m ≠ 0) (e : Int) (k : Nat) :
    k + e ≤ logRatio (m * Nat.pow 2 e.toNat) (Nat.pow 2 (-e).toNat) ↔ 2 ^ k ≤ m := by
  have hpow : ∀ j, Nat.pow 2 j ≠ 0 := fun j => Nat.ne_of_gt (Nat.pow_pos (by decide))
  have hvalue : ((m * Nat.pow 2 e.toNat : Nat) : ℚ) / (Nat.pow 2 (-e).toNat : Nat) = m * 2 ^ e := by
    have htwo : (2 : ℚ) ^ e = _ := zpow_eq_div (b := 2) (by decide) e
    rw [htwo, Nat.cast_mul, mul_div_assoc]
  have hpos : (0 : ℚ) < 2 ^ e := zpow_pos two_pos e
  rw [le_logRatio_iff (Nat.mul_ne_zero hm (hpow _)) (hpow _), hvalue, zpow_add₀ two_ne_zero,
    mul_le_mul_iff_left₀ hpos, zpow_natCast]
  exact_mod_cast Iff.rfl

/-- A value on the grid of the doubles is not rounded. -/
theorem nearestBits_exact {m : Nat} (hm : m ≠ 0) {e : Int}
    (grid : max (logRatio (m * Nat.pow 2 e.toNat) (Nat.pow 2 (-e).toNat) - 52) (-1074) = e) :
    nearestBits (m * Nat.pow 2 e.toNat) (Nat.pow 2 (-e).toNat) =
      min ((e + 1074).toNat * fractions + m) infinityBits := by
  have hpow : ∀ j, 0 < Nat.pow 2 j := fun j => Nat.pow_pos (by decide)
  have hn : m * Nat.pow 2 e.toNat ≠ 0 := Nat.mul_ne_zero hm (Nat.ne_of_gt (hpow _))
  have hround : roundDiv (m * Nat.pow 2 e.toNat * Nat.pow 2 (-e).toNat)
      (Nat.pow 2 (-e).toNat * Nat.pow 2 e.toNat) = m := by
    rw [Nat.mul_assoc, Nat.mul_comm (Nat.pow 2 e.toNat)]
    exact roundDiv_mul _ _ (Nat.mul_pos (hpow _) (hpow _))
  simp only [nearestBits, beq_iff_eq, hn, if_false, grid, hround]

theorem nearestBits_subnormal {m : Nat} (hlt : m < fractions) :
    nearestBits (m * Nat.pow 2 (-1074 : Int).toNat) (Nat.pow 2 (-(-1074 : Int)).toNat) = m := by
  by_cases hm : m = 0
  · rw [hm, Nat.zero_mul, nearestBits]
    rfl
  · have hlog := le_logRatio_exact hm (-1074) 52
    have hnot : ¬ 2 ^ 52 ≤ m := Nat.not_le.mpr hlt
    rw [nearestBits_exact hm (by omega)]
    have hinf : infinityBits = 2047 * fractions := rfl
    have hplace : ((-1074 : Int) + 1074).toNat = 0 := rfl
    rw [hplace, hinf]
    omega

theorem nearestBits_normal {b f : Nat} (hb : 0 < b) (hb' : b < 2047) (hf : f < fractions) :
    nearestBits ((fractions + f) * Nat.pow 2 ((b : Int) - 1075).toNat)
      (Nat.pow 2 (-((b : Int) - 1075)).toNat) = b * fractions + f := by
  have hm : fractions + f ≠ 0 := Nat.ne_of_gt (Nat.add_pos_left (by decide) f)
  have hlow := le_logRatio_exact hm ((b : Int) - 1075) 52
  have hhigh := le_logRatio_exact hm ((b : Int) - 1075) 53
  have hbelow : 2 ^ 52 ≤ fractions + f := Nat.le_add_right _ _
  have habove : ¬ 2 ^ 53 ≤ fractions + f :=
    Nat.not_le.mpr (show fractions + f < fractions + fractions by omega)
  rw [nearestBits_exact hm (by omega)]
  have hinf : infinityBits = 2047 * fractions := rfl
  have hplace : ((b : Int) - 1075 + 1074).toNat = b - 1 := by omega
  have hrow : (b - 1) * fractions + fractions = b * fractions := by
    rw [← Nat.succ_mul, Nat.succ_eq_add_one, Nat.sub_add_cancel hb]
  have htop : (b + 1) * fractions ≤ 2047 * fractions := Nat.mul_le_mul_right _ hb'
  rw [Nat.succ_mul] at htop
  rw [hplace, hinf]
  omega

/-- A double is its sign and its other bits. -/
theorem ofMagnitude_toBits (x : Float) :
    ofMagnitude (x.toBits.toNat / signBit == 1) (x.toBits.toNat % signBit) = x := by
  have hlt : x.toBits.toNat < 0x10000000000000000 := x.toBits.toNat_lt
  have hsplit : (if (x.toBits.toNat / signBit == 1) = true then signBit + x.toBits.toNat % signBit
      else x.toBits.toNat % signBit) = x.toBits.toNat := by
    simp only [beq_iff_eq, signBit]
    split <;> omega
  rw [ofMagnitude, hsplit, UInt64.ofNat_toNat, Float.ofBits_toBits]

theorem eq_nan {x : Float} (top : x.toBits.toNat / fractions % 2048 = 2047)
    (hman : x.toBits.toNat % fractions ≠ 0) : x = nan := by
  have hexp : @unpackExponent Format.binary64 x.toBits.toBitVec = (-1#_) :=
    BitVec.eq_of_toNat_eq ((toNat_unpackExponent _).trans top)
  have hne : @unpackMantissa Format.binary64 x.toBits.toBitVec ≠ 0#_ := fun h =>
    hman ((toNat_unpackMantissa _).symm.trans (congrArg BitVec.toNat h))
  have hbits : x.toBits.toBitVec = packedNaN Format.binary64 :=
    x.toModel.valid.eq_packedNaN hexp hne
  have hword : x.toBits = 0x7FF8000000000000 := UInt64.toBitVec_inj.mp hbits
  rw [← Float.ofBits_toBits x, hword, nan]

/-- What the parts of a double say of it; the bits of a number are those of the double nearest to
its value. -/
theorem of_parts (x : Float) :
    match parts x with
    | .nan => x = nan
    | .infinite negative => x = infinity negative
    | .number negative mantissa exponent =>
      x = ofMagnitude negative
        (nearestBits (mantissa * Nat.pow 2 exponent.toNat) (Nat.pow 2 (-exponent).toNat)) := by
  have hx := ofMagnitude_toBits x
  have hfields : x.toBits.toNat % signBit =
      x.toBits.toNat / fractions % 2048 * fractions + x.toBits.toNat % fractions := by
    simp only [signBit, fractions]
    omega
  have hf : x.toBits.toNat % fractions < fractions := Nat.mod_lt _ (by decide)
  have hb : x.toBits.toNat / fractions % 2048 < 2048 := Nat.mod_lt _ (by decide)
  rw [hfields] at hx
  simp only [parts, beq_iff_eq]
  by_cases htop : x.toBits.toNat / fractions % 2048 = 2047
  · rw [if_pos htop]
    by_cases hzero : x.toBits.toNat % fractions = 0
    · rw [if_pos hzero]
      rw [htop, hzero, Nat.add_zero] at hx
      exact hx.symm
    · rw [if_neg hzero]
      exact eq_nan htop hzero
  · rw [if_neg htop]
    by_cases hlow : x.toBits.toNat / fractions % 2048 = 0
    · rw [if_pos hlow]
      rw [hlow, Nat.zero_mul, Nat.zero_add] at hx
      simp only [nearestBits_subnormal hf]
      exact hx.symm
    · rw [if_neg hlow]
      simp only [nearestBits_normal (Nat.pos_of_ne_zero hlow) (by omega) hf]
      exact hx.symm

end LiveTree.Binary64
