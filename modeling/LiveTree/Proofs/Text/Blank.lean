import LiveTree.Text.Blank
import Mathlib.Data.List.Basic
import Mathlib.Data.List.TakeWhile

namespace LiveTree

variable {α : Type} {p : α → Bool}

theorem dropWhile_append_of_head {left s : List α} (hleft : ∀ a ∈ left, p a = true)
    (hhead : ∀ a ∈ s.head?, p a = false) : (left ++ s).dropWhile p = s := by
  rw [List.dropWhile_append_of_pos hleft]
  cases s with
  | nil => rfl
  | cons a s => exact List.dropWhile_cons_of_neg (by simp [hhead a rfl])

/-- Trimming takes away the padding, and no more. -/
theorem trim_padding {left s right : List α} (hleft : ∀ a ∈ left, p a = true)
    (hright : ∀ a ∈ right, p a = true) (hhead : ∀ a ∈ s.head?, p a = false)
    (hlast : ∀ a ∈ s.getLast?, p a = false) : trim p (left ++ (s ++ right)) = s := by
  have hback : ∀ a ∈ right.reverse, p a = true := fun a ha => hright a (List.mem_reverse.mp ha)
  rw [trim, trimLeft, trimRight]
  cases s with
  | nil =>
    have hall : ∀ a ∈ left ++ right, p a = true := fun a ha =>
      (List.mem_append.mp ha).elim (hleft a) (hright a)
    have hnone : (left ++ right).dropWhile p = [] := by
      rw [← List.append_nil (left ++ right)]
      exact dropWhile_append_of_head hall (by simp)
    rw [List.nil_append, hnone]
    rfl
  | cons a s =>
    rw [dropWhile_append_of_head hleft (by simpa using hhead), List.reverse_append,
      dropWhile_append_of_head hback (by rwa [List.head?_reverse]), List.reverse_reverse]

/-- What is trimmed away is padding. -/
theorem exists_padding (p : α → Bool) (s : List α) :
    ∃ left right, s = left ++ (trim p s ++ right) ∧ (∀ a ∈ left, p a = true) ∧
      ∀ a ∈ right, p a = true := by
  have hleft := List.takeWhile_append_dropWhile (p := p) (l := s)
  have hright := List.takeWhile_append_dropWhile (p := p) (l := (trimLeft p s).reverse)
  refine ⟨s.takeWhile p, ((trimLeft p s).reverse.takeWhile p).reverse, ?_,
    fun _ => List.mem_takeWhile_imp, fun _ h => List.mem_takeWhile_imp (List.mem_reverse.mp h)⟩
  rw [trim, trimRight, ← List.reverse_append, hright, List.reverse_reverse, trimLeft, hleft]

/-- What is trimmed away makes no difference. -/
theorem trim_append {left right : List α}
    (hleft : ∀ a ∈ left, p a = true) (hright : ∀ a ∈ right, p a = true) (s : List α) :
    trim p (left ++ s ++ right) = trim p s := by
  have hback : ∀ a ∈ right.reverse, p a = true := fun a ha => hright a (List.mem_reverse.mp ha)
  rw [trim, trimLeft, List.append_assoc, List.dropWhile_append_of_pos hleft, List.dropWhile_append]
  split
  · rename_i hnone
    have hright' : right.dropWhile p = [] := List.dropWhile_eq_nil_iff.mpr hright
    rw [hright', trim, trimLeft, List.isEmpty_iff.mp hnone]
  · rw [trimRight, List.reverse_append, List.dropWhile_append_of_pos hback]
    rfl

theorem dropStart?_append [BEq α] [LawfulBEq α] (start s : List α) :
    dropStart? start (start ++ s) = some s :=
  List.isPrefixOf?_eq_some_iff_append_eq.mpr rfl

end LiveTree
