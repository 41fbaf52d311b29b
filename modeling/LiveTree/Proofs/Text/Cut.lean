import LiveTree.Text.Cut
import Mathlib.Data.List.TakeWhile

namespace LiveTree

variable {α : Type} [BEq α] [LawfulBEq α]

theorem cutOnce_of_notMem {a : α} {s : List α} (h : a ∉ s) : cutOnce a s = (s, none) := by
  induction s with
  | nil => rfl
  | cons b s ih =>
    obtain ⟨hab, hs⟩ := not_or.mp (mt List.mem_cons.mpr h)
    have hb : (b == a) = false := beq_false_of_ne (Ne.symm hab)
    simp [cutOnce, hb, ih hs]

theorem cutOnce_append_cons {a : α} {s : List α} (h : a ∉ s) (t : List α) :
    cutOnce a (s ++ a :: t) = (s, some t) := by
  induction s with
  | nil => simp [cutOnce]
  | cons b s ih =>
    obtain ⟨hab, hs⟩ := not_or.mp (mt List.mem_cons.mpr h)
    have hb : (b == a) = false := beq_false_of_ne (Ne.symm hab)
    simp [cutOnce, hb, ih hs]

/-- Replacing neither adds nor takes what is neither old nor new. -/
theorem count_replace {a old : α} {new : List α} (hold : a ≠ old) (hnew : a ∉ new) (s : List α) :
    (replace old new s).count a = s.count a := by
  induction s with
  | nil => rfl
  | cons b s ih =>
    have hcons : replace old new (b :: s) =
        (if b == old then new else [b]) ++ replace old new s := rfl
    rw [hcons, List.count_append, ih, List.count_cons]
    by_cases hb : b = old
    · subst hb
      have hne : (b == a) = false := beq_false_of_ne (Ne.symm hold)
      simp [hne, List.count_eq_zero_of_not_mem hnew]
    · have hb' : (b == old) = false := beq_false_of_ne hb
      simp [hb', List.count_singleton, Nat.add_comm]

/-- Lists piece by piece: one without the separator, or a piece, the separator and a list. -/
theorem piecewise_induction (a : α) {motive : List α → Prop} (last : ∀ s, a ∉ s → motive s)
    (piece : ∀ s t, a ∉ s → motive t → motive (s ++ a :: t)) (s : List α) : motive s := by
  induction hn : s.length using Nat.strongRecOn generalizing s with
  | _ n ih =>
    by_cases h : a ∈ s
    · obtain ⟨front, back, rfl, hfront⟩ := List.eq_append_cons_of_mem h
      refine piece front back hfront (ih back.length ?_ back rfl)
      rw [← hn, List.length_append, List.length_cons]
      omega
    · exact last s h

/-- The piece after the last separator. -/
def lastPiece (a : α) (s : List α) : List α := (s.splitOn a).getLast?.getD []

theorem lastPiece_of_notMem {a : α} {s : List α} (h : a ∉ s) : lastPiece a s = s := by
  rw [lastPiece, List.splitOn_eq_singleton h]
  rfl

theorem lastPiece_append_cons {a : α} {s : List α} (h : a ∉ s) (t : List α) :
    lastPiece a (s ++ a :: t) = lastPiece a t := by
  rw [lastPiece, List.splitOn_append_cons_self_of_not_mem h]
  cases hc : t.splitOn a with
  | nil => exact absurd hc (List.splitOn_ne_nil a t)
  | cons piece pieces =>
    rw [List.getLast?_cons_cons, ← hc]
    rfl

theorem notMem_lastPiece (a : α) (s : List α) : a ∉ lastPiece a s := by
  induction s using piecewise_induction a with
  | last s h => rwa [lastPiece_of_notMem h]
  | piece s t h ih => rwa [lastPiece_append_cons h]

/-- What follows a list cannot change its pieces but the last. -/
theorem splitOn_append (a : α) (s t : List α) :
    (s ++ t).splitOn a = (s.splitOn a).dropLast ++ (lastPiece a s ++ t).splitOn a := by
  induction s using piecewise_induction a with
  | last s h =>
    rw [lastPiece_of_notMem h, List.splitOn_eq_singleton h]
    rfl
  | piece s u h ih =>
    rw [lastPiece_append_cons h, List.append_assoc, List.cons_append,
      List.splitOn_append_cons_self_of_not_mem h, List.splitOn_append_cons_self_of_not_mem h, ih,
      List.dropLast_cons_of_ne_nil (List.splitOn_ne_nil a u)]
    rfl

theorem lastPiece_append (a : α) (s t : List α) :
    lastPiece a (s ++ t) = lastPiece a (lastPiece a s ++ t) := by
  have hne : ((lastPiece a s ++ t).splitOn a).getLast? ≠ none :=
    mt List.getLast?_eq_none_iff.mp (List.splitOn_ne_nil a _)
  obtain ⟨piece, hpiece⟩ := Option.ne_none_iff_exists'.mp hne
  change ((s ++ t).splitOn a).getLast?.getD [] =
    ((lastPiece a s ++ t).splitOn a).getLast?.getD []
  rw [splitOn_append, List.getLast?_append, hpiece, Option.some_or]

omit [BEq α] [LawfulBEq α] in
theorem takeWhile_append_cons {p : α → Bool} {a : α} (h : p a = false) (s t : List α) :
    (s ++ a :: t).takeWhile p = s.takeWhile p := by
  induction s with
  | nil => simp [h]
  | cons b s ih => simp only [List.cons_append, List.takeWhile_cons, ih]

omit [BEq α] [LawfulBEq α] in
theorem of_mem_cutLast {p : α → Bool} {s : List α} {a : α} (h : a ∈ (cutLast p s).2) :
    a ∈ s ∧ p a = false := by
  rw [cutLast, List.mem_reverse] at h
  refine ⟨List.mem_reverse.mp (List.takeWhile_subset _ h), ?_⟩
  simpa using List.mem_takeWhile_imp h

/-- The last piece is what follows the last separator, all of the list if there is none. -/
theorem lastPiece_eq_cutLast (a : α) (s : List α) : lastPiece a s = (cutLast (· == a) s).2 := by
  simp only [cutLast]
  induction s using piecewise_induction a with
  | last s h =>
    have hall : ∀ b ∈ s.reverse, (!b == a) = true := by
      intro b hb
      have hne : b ≠ a := fun heq => h (heq ▸ List.mem_reverse.mp hb)
      simp [hne]
    have hwhole : s.reverse.takeWhile (fun b => !b == a) = s.reverse :=
      List.takeWhile_eq_self_iff.mpr hall
    rw [lastPiece_of_notMem h, hwhole, List.reverse_reverse]
  | piece s t h ih =>
    rw [lastPiece_append_cons h, ih, List.reverse_append, List.reverse_cons, List.append_assoc,
      List.singleton_append, takeWhile_append_cons (by simp)]

end LiveTree
