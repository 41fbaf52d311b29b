import LiveTree.Text.Basic
import Mathlib.Order.Fin.Basic

namespace LiveTree.Text

theorem le_total (s t : Text) : le s t = true ∨ le t s = true := by
  induction s generalizing t with
  | nil => exact .inl rfl
  | cons a s ih =>
    cases t with
    | nil => exact .inr rfl
    | cons b t =>
      rcases lt_trichotomy a b with h | rfl | h
      · exact .inl (by simp [le, h])
      · simpa [le] using ih t
      · exact .inr (by simp [le, h])

theorem le_trans {s t u : Text} (hst : le s t = true) (htu : le t u = true) : le s u = true := by
  induction s generalizing t u with
  | nil => rfl
  | cons a s ih =>
    cases t with
    | nil => cases hst
    | cons b t =>
      cases u with
      | nil => cases htu
      | cons c u =>
        simp only [le, Bool.or_eq_true, Bool.and_eq_true, decide_eq_true_eq, beq_iff_eq]
          at hst htu ⊢
        rcases hst with hab | ⟨rfl, hst⟩
        · rcases htu with hbc | ⟨rfl, -⟩
          · exact .inl (lt_trans hab hbc)
          · exact .inl hab
        · rcases htu with hbc | ⟨rfl, htu⟩
          · exact .inl hbc
          · exact .inr ⟨rfl, ih hst htu⟩

theorem le_antisymm {s t : Text} (hst : le s t = true) (hts : le t s = true) : s = t := by
  induction s generalizing t with
  | nil =>
    cases t with
    | nil => rfl
    | cons b t => cases hts
  | cons a s ih =>
    cases t with
    | nil => cases hst
    | cons b t =>
      simp only [le, Bool.or_eq_true, Bool.and_eq_true, decide_eq_true_eq, beq_iff_eq] at hst hts
      rcases hst with hab | ⟨rfl, hst⟩
      · rcases hts with hba | ⟨rfl, -⟩
        · exact absurd hab (lt_asymm hba)
        · exact absurd hab (lt_irrefl b)
      · rcases hts with haa | ⟨-, hts⟩
        · exact absurd haa (lt_irrefl a)
        · rw [ih hst hts]

theorem mem_sort {texts : List Text} {s : Text} : s ∈ sort texts ↔ s ∈ texts :=
  List.mem_mergeSort

theorem pairwise_sort (texts : List Text) : (sort texts).Pairwise fun s t => le s t = true := by
  apply List.pairwise_mergeSort
  · exact fun s t u => le_trans
  · exact fun s t => by simpa using le_total s t

/-- In whatever order texts are given, they are sorted into the same. -/
theorem sort_congr {texts others : List Text} (h : texts.Perm others) : sort texts = sort others := by
  have hperm : (sort texts).Perm (sort others) :=
    (List.mergeSort_perm texts le).trans (h.trans (List.mergeSort_perm others le).symm)
  exact hperm.eq_of_pairwise (fun s t _ _ => le_antisymm) (pairwise_sort texts)
    (pairwise_sort others)

/-- Distinct texts are strictly increasing once they are sorted. -/
theorem sort_increasing {texts : List Text} (distinct : texts.Nodup) :
    (sort texts).Pairwise fun s t => le s t = true ∧ s ≠ t := by
  have hdistinct : (sort texts).Nodup := (List.mergeSort_perm texts le).nodup_iff.mpr distinct
  exact (pairwise_sort texts).and hdistinct

end LiveTree.Text
