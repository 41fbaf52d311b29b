import LiveTree.Text.Basic

namespace LiveTree

/-- Values under keys, in the order in which the keys first came. -/
abbrev Association (α : Type) := List (Text × α)

namespace Association

variable {α : Type}

/-- Sets a value: a new key goes last, a known key keeps its place and takes the new value. -/
def put (key : Text) (value : α) : Association α → Association α
  | [] => [(key, value)]
  | (k, v) :: rest => if k == key then (k, value) :: rest else (k, v) :: put key value rest

/-- What results from setting each value in turn. -/
def collapse (pairs : Association α) : Association α :=
  pairs.foldl (fun sofar pair => put pair.1 pair.2 sofar) []

/-- The value under a key, the first one if there are several. -/
abbrev find? (key : Text) (pairs : Association α) : Option α := pairs.lookup key

def contains (key : Text) (pairs : Association α) : Bool := (find? key pairs).isSome

@[simp] theorem put_nil (key : Text) (value : α) : put key value [] = [(key, value)] := rfl

@[simp] theorem collapse_nil : collapse ([] : Association α) = [] := rfl

theorem find?_cons (key k : Text) (value : α) (pairs : Association α) :
    find? key ((k, value) :: pairs) = if k = key then some value else find? key pairs := by
  rw [find?, List.lookup_cons]
  by_cases h : k = key
  · simp [h]
  · have hk : (key == k) = false := beq_false_of_ne (Ne.symm h)
    simp [h, hk]

theorem put_of_notMem {key : Text} {value : α} {pairs : Association α}
    (h : key ∉ pairs.map Prod.fst) : put key value pairs = pairs ++ [(key, value)] := by
  induction pairs with
  | nil => rfl
  | cons m rest ih =>
    obtain ⟨k, v⟩ := m
    simp only [List.map_cons, List.mem_cons, not_or] at h
    have hk : (k == key) = false := beq_false_of_ne (Ne.symm h.1)
    simp [put, hk, ih h.2]

theorem find?_put (key other : Text) (value : α) (pairs : Association α) :
    find? other (put key value pairs) = if other = key then some value else find? other pairs := by
  simp only [eq_comm (a := other)]
  induction pairs with
  | nil => rw [put_nil, find?_cons]
  | cons m rest ih =>
    obtain ⟨k, v⟩ := m
    by_cases hk : k = key
    · simp only [put, hk, beq_self_eq_true, if_true, find?_cons]
      split <;> rfl
    · have hk' : (k == key) = false := beq_false_of_ne hk
      simp only [put, hk', Bool.false_eq_true, if_false, find?_cons, ih]
      split
      · rename_i h
        rw [if_neg (h ▸ Ne.symm hk)]
      · rfl

theorem find?_eq_none_iff {key : Text} {pairs : Association α} :
    find? key pairs = none ↔ key ∉ pairs.map Prod.fst := by
  rw [List.lookup_eq_none_iff, List.mem_map]
  simp only [bne_iff_ne, ne_eq, not_exists, not_and]
  exact forall₂_congr fun _ _ => not_congr eq_comm

theorem mem_of_find? {key : Text} {value : α} {pairs : Association α}
    (h : find? key pairs = some value) : (key, value) ∈ pairs := by
  obtain ⟨before, after, rfl, -⟩ := List.lookup_eq_some_iff.mp h
  simp

theorem find?_of_mem {key : Text} {value : α} {pairs : Association α}
    (distinct : (pairs.map Prod.fst).Nodup) (h : (key, value) ∈ pairs) :
    find? key pairs = some value := by
  obtain ⟨before, after, rfl⟩ := List.append_of_mem h
  rw [List.map_append, List.nodup_append] at distinct
  refine List.lookup_eq_some_iff.mpr ⟨before, after, rfl, fun pair hpair => ?_⟩
  exact bne_iff_ne.mpr
    (Ne.symm (distinct.2.2 _ (List.mem_map_of_mem hpair) _ (by simp)))

/-- Of two values under two keys the order does not matter. -/
theorem find?_of_perm_pair {k l : Text} {a b : α} {pairs : Association α} (hne : k ≠ l)
    (h : pairs.Perm [(k, a), (l, b)]) :
    find? k pairs = some a ∧ find? l pairs = some b ∧
      ∀ key, key ≠ k → key ≠ l → find? key pairs = none := by
  have hkeys : (pairs.map Prod.fst).Perm [k, l] := h.map Prod.fst
  have distinct : (pairs.map Prod.fst).Nodup := hkeys.nodup_iff.mpr (by simp [hne])
  refine ⟨find?_of_mem distinct (h.mem_iff.mpr (by simp)),
    find?_of_mem distinct (h.mem_iff.mpr (by simp)), fun key hk hl => ?_⟩
  rw [find?_eq_none_iff, hkeys.mem_iff]
  simp [hk, hl]

end Association

end LiveTree
