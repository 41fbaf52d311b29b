import LiveTree.Decimal.Numeral
import LiveTree.Proofs.Decimal.Double
import LiveTree.Proofs.Text.Blank

namespace LiveTree

namespace Binary64

open Float.Model Float.Model.UnpackedFloat

/-- Up to the bits of infinity every double is a number or infinite. -/
theorem isNaN_ofMagnitude (negative : Bool) {bits : Nat} (h : bits ≤ infinityBits) :
    (ofMagnitude negative bits).isNaN = false := by
  let word : UInt64 := .ofNat (if negative then signBit + bits else bits)
  have hinfinity : infinityBits = 2047 * fractions := rfl
  have hsign : signBit = 2048 * fractions := rfl
  have hword : word.toNat = if negative then signBit + bits else bits := by
    refine UInt64.toNat_ofNat_of_lt' ?_
    have hsize : UInt64.size = 4096 * fractions := rfl
    have hpos : 0 < fractions := by decide
    split <;> omega
  -- All exponent bits are set in infinity only, where no other is.
  have hfraction : word.toNat / fractions % 2048 = 2047 → word.toNat % fractions = 0 := by
    rw [hword]
    simp only [infinityBits, fractions, signBit] at *
    split <;> omega
  have hnot : @unpackExponent Format.binary64 word.toBitVec = -1#_ →
      @unpackMantissa Format.binary64 word.toBitVec = 0#_ := by
    intro hexponent
    have htop := congrArg BitVec.toNat hexponent
    rw [toNat_unpackExponent] at htop
    apply BitVec.eq_of_toNat_eq
    rw [toNat_unpackMantissa]
    exact hfraction htop
  have hvalid : Format.binary64.Valid word.toBitVec :=
    ⟨fun hexponent hmantissa => absurd (hnot hexponent) hmantissa⟩
  let x : Float := ⟨⟨word, hvalid⟩⟩
  have hx : ofMagnitude negative bits = x := Float.ofBits_toBits x
  rw [hx, ← Bool.not_eq_true]
  intro hnan
  have hpacked := (isNaN_unpack_iff_of_valid hvalid).mp hnan
  rw [hpacked] at hnot
  exact absurd (hnot (by decide)) (by decide)

theorem nearestBits_le (n d : Nat) : nearestBits n d ≤ infinityBits := by
  rw [nearestBits]
  split
  · exact Nat.zero_le _
  · exact Nat.min_le_right _ _

theorem isNaN_ofDecimal (negative : Bool) (digits : Nat) (exponent : Int) :
    (ofDecimal negative digits exponent).isNaN = false := by
  apply isNaN_ofMagnitude
  rw [decimalBits_eq]
  exact nearestBits_le _ _

theorem isNaN_infinity (negative : Bool) : (infinity negative).isNaN = false :=
  isNaN_ofMagnitude negative le_rfl

theorem isNaN_nan : nan.isNaN = true := by decide +kernel

end Binary64

namespace Numeral

open Binary64

/-- A name that is written in letters of any case. -/
def Spells (name : String) (s : Text) : Prop := s.map CodePoint.toAsciiLower = name

theorem isBlank_toAsciiLower (c : CodePoint) : isBlank c.toAsciiLower = isBlank c := by
  rw [CodePoint.toAsciiLower]
  split
  · rw [Bool.eq_iff_iff]
    simp [isBlank, CodePoint.isBlank]
    omega
  · rfl

theorem nonFinite?_of_spells {s : Text} (h : Spells "nan" s) (negative : Bool) :
    nonFinite? negative s = some nan := by
  rw [Spells] at h
  simp only [nonFinite?, h]
  rfl

theorem isNaN_nonFinite {negative : Bool} {s : Text} {x : Float}
    (h : nonFinite? negative s = some x) : x.isNaN = true ↔ Spells "nan" s := by
  constructor
  · intro hnan
    simp only [nonFinite?] at h
    split_ifs at h with hinfinite hname
    · obtain rfl := Option.some.inj h
      rw [isNaN_infinity] at hnan
      cases hnan
    · exact eq_of_beq hname
  · intro hname
    rw [nonFinite?_of_spells hname] at h
    obtain rfl := Option.some.inj h
    exact isNaN_nan

theorem isNaN_finite {negative : Bool} {s : Text} {x : Float} (h : finite? negative s = some x) :
    x.isNaN = false := by
  simp only [finite?, Option.bind_eq_bind, Option.bind_eq_some_iff] at h
  obtain ⟨whole, -, fraction, -, h⟩ := h
  split_ifs at h
  · cases h
  · split at h
    · obtain rfl := Option.some.inj h
      exact isNaN_ofDecimal _ _ _
    · obtain ⟨digits, -, h⟩ := Option.bind_eq_some_iff.mp h
      obtain rfl := Option.some.inj h
      exact isNaN_ofDecimal _ _ _

theorem sign_cases (s : Text) : ∃ mark ∈ ([[], "+", "-"] : List Text), s = mark ++ (sign s).2 := by
  cases s with
  | nil => exact ⟨[], by simp, rfl⟩
  | cons c rest =>
    rw [sign]
    split_ifs with hminus hplus
    · exact ⟨"-", by simp, congrArg (· :: rest) (eq_of_beq hminus)⟩
    · exact ⟨"+", by simp, congrArg (· :: rest) (eq_of_beq hplus)⟩
    · exact ⟨[], by simp, rfl⟩

theorem sign_append {mark : Text} (hmark : mark ∈ ([[], "+", "-"] : List Text)) {s : Text}
    (hs : ∀ c ∈ s.head?, c ≠ CodePoint.ofChar '+' ∧ c ≠ CodePoint.ofChar '-') :
    (sign (mark ++ s)).2 = s := by
  simp only [List.mem_cons, List.not_mem_nil, or_false] at hmark
  rcases hmark with rfl | rfl | rfl
  · cases s with
    | nil => rfl
    | cons c s =>
      obtain ⟨hplus, hminus⟩ := hs c rfl
      simp [sign, hplus, hminus]
  · rfl
  · rfl

/-- What names no number: with a sign or without, in letters of any case and with white space
around it or without. -/
def NamesNan (s : Text) : Prop :=
  ∃ left mark name right : Text, s = left ++ (mark ++ name ++ right) ∧
    (∀ c ∈ left, isBlank c = true) ∧ (∀ c ∈ right, isBlank c = true) ∧
    mark ∈ ([[], "+", "-"] : List Text) ∧ Spells "nan" name

/-- The letters of a name are no white space and no signs. -/
theorem of_spells {name : Text} (h : Spells "nan" name) {c : CodePoint} (hc : c ∈ name) :
    isBlank c = false ∧ c ≠ CodePoint.ofChar '+' ∧ c ≠ CodePoint.ofChar '-' := by
  have hletter : c.toAsciiLower = CodePoint.ofChar 'n' ∨ c.toAsciiLower = CodePoint.ofChar 'a' := by
    have hletters : name.map CodePoint.toAsciiLower =
        [CodePoint.ofChar 'n', CodePoint.ofChar 'a', CodePoint.ofChar 'n'] := h
    have hmem := List.mem_map_of_mem (f := CodePoint.toAsciiLower) hc
    rw [hletters] at hmem
    simp only [List.mem_cons, List.not_mem_nil, or_false] at hmem
    tauto
  rw [← isBlank_toAsciiLower]
  refine ⟨?_, ?_, ?_⟩
  · rcases hletter with hc | hc <;> rw [hc] <;> decide
  · rintro rfl
    exact absurd hletter (by decide)
  · rintro rfl
    exact absurd hletter (by decide)

theorem trim_spells {left mark name right : Text} (hleft : ∀ c ∈ left, isBlank c = true)
    (hright : ∀ c ∈ right, isBlank c = true) (hmark : mark ∈ ([[], "+", "-"] : List Text))
    (hname : Spells "nan" name) : trim isBlank (left ++ (mark ++ name ++ right)) = mark ++ name := by
  have hmarks : ∀ c ∈ mark, isBlank c = false := by
    simp only [List.mem_cons, List.not_mem_nil, or_false] at hmark
    rcases hmark with rfl | rfl | rfl
    · exact fun _ hc => absurd hc List.not_mem_nil
    · exact fun c hc => (List.mem_singleton.mp hc) ▸ (by decide)
    · exact fun c hc => (List.mem_singleton.mp hc) ▸ (by decide)
  have hall : ∀ c ∈ mark ++ name, isBlank c = false := fun c hc =>
    (List.mem_append.mp hc).elim (hmarks c) fun hc => (of_spells hname hc).1
  exact trim_padding hleft hright (fun c hc => hall c (List.mem_of_mem_head? hc))
    fun c hc => hall c (List.mem_of_getLast? hc)

theorem namesNan_iff (s : Text) : NamesNan s ↔ Spells "nan" (sign (trim isBlank s)).2 := by
  constructor
  · rintro ⟨left, mark, name, right, rfl, hleft, hright, hmark, hname⟩
    have hhead : ∀ c ∈ name.head?, c ≠ CodePoint.ofChar '+' ∧ c ≠ CodePoint.ofChar '-' :=
      fun c hc => (of_spells hname (List.mem_of_mem_head? hc)).2
    rwa [trim_spells hleft hright hmark hname, sign_append hmark hhead]
  · intro hname
    obtain ⟨left, right, hs, hleft, hright⟩ := exists_padding isBlank s
    obtain ⟨mark, hmark, htrim⟩ := sign_cases (trim isBlank s)
    refine ⟨left, mark, _, right, ?_, hleft, hright, hmark, hname⟩
    rw [← htrim]
    exact hs

instance : DecidablePred NamesNan := fun s =>
  letI : Decidable (Spells "nan" (sign (trim isBlank s)).2) := inferInstanceAs (Decidable (_ = _))
  decidable_of_iff _ (namesNan_iff s).symm

/-- A numeral is read as what is no number if it names that, and only then. -/
theorem isNaN_readFloat {s : Text} {x : Float} (h : readFloat? s = some x) :
    x.isNaN = true ↔ NamesNan s := by
  rw [namesNan_iff]
  simp only [readFloat?] at h
  cases hname : nonFinite? (sign (trim isBlank s)).1 (sign (trim isBlank s)).2 with
  | some y =>
    rw [hname] at h
    obtain rfl := Option.some.inj h
    exact isNaN_nonFinite hname
  | none =>
    rw [hname] at h
    rw [isNaN_finite h]
    refine iff_of_false Bool.false_ne_true fun hspells => ?_
    rw [nonFinite?_of_spells hspells] at hname
    cases hname

end Numeral

end LiveTree
