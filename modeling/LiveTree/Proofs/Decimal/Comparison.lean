import LiveTree.Proofs.Decimal.Double

namespace LiveTree.Binary64

open Float.Model Float.Model.UnpackedFloat

theorem compare_swap (a b : UnpackedFloat) : b.compare a = (a.compare b).map Ordering.swap := by
  cases a with
  | notANumber => cases b <;> rfl
  | infinity s =>
    cases b with
    | infinity t => cases s <;> cases t <;> rfl
    | _ => cases s <;> rfl
  | zero s =>
    cases b with
    | infinity t => cases t <;> rfl
    | finite t n f hn => cases t <;> rfl
    | _ => rfl
  | finite s m e hm =>
    cases b with
    | infinity t => cases s <;> cases t <;> rfl
    | notANumber => cases s <;> rfl
    | zero t => cases s <;> rfl
    | finite t n f hn =>
      have hswap : (compare f e).then (compare n m) =
          ((compare e f).then (compare m n)).swap := by
        rw [Ordering.swap_then, ← Std.OrientedCmp.eq_swap, ← Std.OrientedCmp.eq_swap]
      cases s with
      | positive =>
        cases t with
        | positive => exact congrArg some hswap
        | negative => rfl
      | negative =>
        cases t with
        | positive => rfl
        | negative => exact congrArg (fun o => some o.swap) hswap

theorem compare_self {a : UnpackedFloat} (ha : a.isNaN = false) : a.compare a = some .eq := by
  cases a with
  | notANumber => cases ha
  | infinity s => cases s <;> rfl
  | zero s => rfl
  | finite s m e hm => cases s <;> simp [UnpackedFloat.compare]

theorem exists_compare {a b : UnpackedFloat} (ha : a.isNaN = false) (hb : b.isNaN = false) :
    ∃ o, a.compare b = some o := by
  cases a with
  | notANumber => cases ha
  | infinity s =>
    cases b with
    | notANumber => cases hb
    | _ => cases s <;> exact ⟨_, rfl⟩
  | zero s =>
    cases b with
    | notANumber => cases hb
    | infinity t => cases t <;> exact ⟨_, rfl⟩
    | zero t => exact ⟨_, rfl⟩
    | finite t n f hn => cases t <;> exact ⟨_, rfl⟩
  | finite s m e hm =>
    cases b with
    | notANumber => cases hb
    | zero t => cases s <;> exact ⟨_, rfl⟩
    | infinity t => cases s <;> cases t <;> exact ⟨_, rfl⟩
    | finite t n f hn => cases s <;> cases t <;> exact ⟨_, rfl⟩

theorem isNaN_of_compare {a b : UnpackedFloat} {o : Ordering} (h : a.compare b = some o) :
    a.isNaN = false ∧ b.isNaN = false := by
  have hleft : a.isNaN = false := by
    cases a with
    | notANumber => cases h
    | _ => rfl
  refine ⟨hleft, ?_⟩
  have hback := compare_swap a b
  rw [h] at hback
  cases b with
  | notANumber => cases hback
  | _ => rfl

variable {x y : Float}

/-- How two doubles compare. -/
def order? (x y : Float) : Option Ordering := x.toModel.unpack.compare y.toModel.unpack

theorem lt_iff_order : x < y ↔ order? x y = some .lt := by
  change decide (x.toModel < y.toModel) = true ↔ _
  rw [decide_eq_true_iff]
  exact beq_iff_eq

theorem le_iff_order : x ≤ y ↔ ∃ o, order? x y = some o ∧ o.isLE = true := by
  change decide (x.toModel ≤ y.toModel) = true ↔ _
  rw [decide_eq_true_iff]
  exact Option.any_eq_true _ _

theorem beq_iff_order : (x == y) = true ↔ order? x y = some .eq := by
  change (order? x y == some .eq) = true ↔ _
  exact beq_iff_eq

theorem order_swap (x y : Float) : order? y x = (order? x y).map Ordering.swap :=
  compare_swap _ _

theorem le_of_lt (h : x < y) : x ≤ y :=
  le_iff_order.mpr ⟨.lt, lt_iff_order.mp h, rfl⟩

theorem isNaN_of_le (h : x ≤ y) : x.isNaN = false ∧ y.isNaN = false := by
  obtain ⟨o, ho, -⟩ := le_iff_order.mp h
  exact isNaN_of_compare ho

theorem le_self (h : x.isNaN = false) : x ≤ x :=
  le_iff_order.mpr ⟨.eq, compare_self h, rfl⟩

theorem lt_or_le (hx : x.isNaN = false) (hy : y.isNaN = false) : y < x ∨ x ≤ y := by
  obtain ⟨o, ho⟩ := exists_compare hx hy
  have ho : order? x y = some o := ho
  cases o with
  | gt =>
    apply Or.inl
    rw [lt_iff_order, order_swap, ho]
    rfl
  | lt => exact .inr (le_iff_order.mpr ⟨.lt, ho, rfl⟩)
  | eq => exact .inr (le_iff_order.mpr ⟨.eq, ho, rfl⟩)

/-- A double that is zero has no bits but for its sign. -/
theorem toNat_of_unpack_zero {s : Sign} (h : x.toModel.unpack = .zero s) :
    x.toBits.toNat % signBit = 0 := by
  have hexponent : (@unpackExponent Format.binary64 x.toBits.toBitVec).toNat = 0 ∧
      (@unpackMantissa Format.binary64 x.toBits.toBitVec).toNat = 0 := by
    simp only [Float.Model.unpack, UnpackedFloat.unpack] at h
    split_ifs at h with htop hinfinite hlow hzero
    exact ⟨congrArg BitVec.toNat hlow, congrArg BitVec.toNat hzero⟩
  rw [toNat_unpackExponent, toNat_unpackMantissa] at hexponent
  have hlow : x.toBits.toNat / fractions % 2048 = 0 := hexponent.1
  have hfraction : x.toBits.toNat % fractions = 0 := hexponent.2
  simp only [fractions, signBit] at hlow hfraction ⊢
  omega

/-- Both zeros equal zero, and nothing else does. -/
theorem beq_zero_iff : (x == 0.0) = true ↔ x = 0.0 ∨ x = -0.0 := by
  constructor
  · intro h
    have horder : x.toModel.unpack.compare (.zero .positive) = some .eq := beq_iff_order.mp h
    have hunpack : ∃ s, x.toModel.unpack = .zero s := by
      cases hx : x.toModel.unpack with
      | zero s => exact ⟨s, rfl⟩
      | notANumber => rw [hx] at horder; cases horder
      | infinity s => rw [hx] at horder; cases s <;> cases horder
      | finite s m e hm => rw [hx] at horder; cases s <;> cases horder
    obtain ⟨s, hs⟩ := hunpack
    have hbits := ofMagnitude_toBits x
    rw [toNat_of_unpack_zero hs] at hbits
    cases hsign : x.toBits.toNat / signBit == 1 with
    | false =>
      rw [hsign] at hbits
      exact .inl (hbits.symm.trans (by decide +kernel))
    | true =>
      rw [hsign] at hbits
      exact .inr (hbits.symm.trans (by decide +kernel))
  · rintro (rfl | rfl)
    · decide +kernel
    · decide +kernel

end LiveTree.Binary64
