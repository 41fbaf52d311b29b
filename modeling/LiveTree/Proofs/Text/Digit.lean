import LiveTree.Decimal.Numeral
import Mathlib.Data.List.Basic
import Mathlib.Tactic.Ring

namespace LiveTree

/-- The values of ASCII digits. -/
def digitsOf (s : Text) : List Nat := s.map (·.val - 0x30)

@[simp] theorem length_digitsOf (s : Text) : (digitsOf s).length = s.length := List.length_map _

@[simp] theorem digitsOf_append (s t : Text) : digitsOf (s ++ t) = digitsOf s ++ digitsOf t :=
  List.map_append

namespace Numeral

theorem foldl_value (n : Nat) (digits : List Nat) :
    digits.foldl (fun n d => n * 10 + d) n = n * 10 ^ digits.length + value digits := by
  induction digits generalizing n with
  | nil => simp [value]
  | cons d digits ih =>
    have hcons : value (d :: digits) = (0 * 10 + d) * 10 ^ digits.length + value digits :=
      ih (0 * 10 + d)
    rw [List.foldl_cons, ih, hcons, List.length_cons]
    ring

theorem value_append (a b : List Nat) : value (a ++ b) = value a * 10 ^ b.length + value b := by
  rw [value, List.foldl_append, foldl_value]
  rfl

theorem value_replicate_zero (k : Nat) : value (List.replicate k 0) = 0 := by
  induction k with
  | zero => rfl
  | succ k ih => rw [List.replicate_succ, ← List.singleton_append, value_append, ih]; simp [value]

end Numeral

namespace Text

theorem ofNat_ne_nil (n : Nat) : ofNat n ≠ [] := by
  simp [ofNat]

theorem isAsciiDigit_of_mem_ofNat {n : Nat} {c : CodePoint} (h : c ∈ ofNat n) :
    c.isAsciiDigit = true := by
  obtain ⟨d, hd, rfl⟩ := List.mem_map.mp h
  have hdigit := Nat.isDigit_of_mem_toDigits (by decide) (by decide) hd
  simp only [Char.isDigit, Bool.and_eq_true, decide_eq_true_eq, UInt32.le_iff_toNat_le] at hdigit
  simp only [CodePoint.isAsciiDigit, Bool.and_eq_true, decide_eq_true_eq]
  exact hdigit

theorem value_ofNat (n : Nat) : Numeral.value (digitsOf (ofNat n)) = n := by
  have hfold : ∀ (s : List Char) (k : Nat),
      (digitsOf (s.map CodePoint.ofChar)).foldl (fun n d => n * 10 + d) k =
        Nat.ofDigitChars 10 s k := by
    intro s
    induction s with
    | nil => intro k; rfl
    | cons c s ih =>
      intro k
      rw [Nat.ofDigitChars_cons, ← ih, Nat.mul_comm 10 k]
      rfl
  rw [Numeral.value, ofNat, hfold, Nat.ofDigitChars_ten_toDigits]

theorem ofNat_of_le {n : Nat} (h : 10 ≤ n) :
    ofNat n = ofNat (n / 10) ++ [CodePoint.ofChar (n % 10).digitChar] := by
  rw [ofNat, Nat.toDigits_of_base_le (by decide) h, List.map_append]
  rfl

/-- A number has no leading zero, zero itself apart. -/
theorem head_ofNat_ne_zero {n : Nat} (hn : n ≠ 0) :
    ∀ c ∈ (ofNat n).head?, c ≠ CodePoint.ofChar '0' := by
  induction n using Nat.strongRecOn with
  | _ n ih =>
    intro c hc
    by_cases hlt : n < 10
    · have hzero : ∀ k ∈ List.range 10, k ≠ 0 →
          CodePoint.ofChar k.digitChar ≠ CodePoint.ofChar '0' := by
        decide
      rw [ofNat, Nat.toDigits_of_lt_base hlt] at hc
      obtain rfl : CodePoint.ofChar n.digitChar = c := by simpa using hc
      exact hzero n (List.mem_range.mpr hlt) hn
    · rw [ofNat_of_le (Nat.not_lt.mp hlt), List.head?_append_of_ne_nil _ (ofNat_ne_nil _)] at hc
      exact ih (n / 10) (by omega) (by omega) c hc

end Text

end LiveTree
