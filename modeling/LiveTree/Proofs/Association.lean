import LiveTree.Association
import Mathlib.Data.List.Induction
import Mathlib.Data.List.Nodup

namespace LiveTree.Association

variable {α : Type}

theorem keys_put_of_mem {key : Text} (value : α) {pairs : Association α}
    (h : key ∈ pairs.map Prod.fst) : (put key value pairs).map Prod.fst = pairs.map Prod.fst := by
  induction pairs with
  | nil => exact absurd h List.not_mem_nil
  | cons pair rest ih =>
    obtain ⟨k, v⟩ := pair
    by_cases hk : k = key
    · simp [put, hk]
    · have hrest : key ∈ rest.map Prod.fst := by
        rw [List.map_cons, List.mem_cons] at h
        exact h.resolve_left (Ne.symm hk)
      simp [put, beq_false_of_ne hk, ih hrest]

theorem keys_put_of_notMem {key : Text} (value : α) {pairs : Association α}
    (h : key ∉ pairs.map Prod.fst) :
    (put key value pairs).map Prod.fst = pairs.map Prod.fst ++ [key] := by
  rw [put_of_notMem h, List.map_append]
  rfl

theorem nodup_put {pairs : Association α} (distinct : (pairs.map Prod.fst).Nodup) (key : Text)
    (value : α) : ((put key value pairs).map Prod.fst).Nodup := by
  by_cases h : key ∈ pairs.map Prod.fst
  · rw [keys_put_of_mem value h]
    exact distinct
  · rw [keys_put_of_notMem value h]
    refine List.nodup_append.mpr ⟨distinct, List.nodup_singleton key, ?_⟩
    intro k hk l hl heq
    rw [List.mem_singleton.mp hl] at heq
    exact h (heq ▸ hk)

/-- Setting values in turn, the last of them apart. -/
theorem collapse_concat (pairs : Association α) (key : Text) (value : α) :
    collapse (pairs ++ [(key, value)]) = put key value (collapse pairs) := by
  rw [collapse, List.foldl_append]
  rfl

theorem nodup_collapse (pairs : Association α) : ((collapse pairs).map Prod.fst).Nodup := by
  induction pairs using List.reverseRecOn with
  | nil => exact List.nodup_nil
  | append_singleton pairs pair ih =>
    rw [collapse_concat]
    exact nodup_put ih _ _

theorem collapse_of_nodup {pairs : Association α} (h : (pairs.map Prod.fst).Nodup) :
    collapse pairs = pairs := by
  induction pairs using List.reverseRecOn with
  | nil => rfl
  | append_singleton pairs pair ih =>
    rw [List.map_append] at h
    obtain ⟨hpairs, -, hnew⟩ := List.nodup_append.mp h
    have hkey : pair.1 ∉ pairs.map Prod.fst := fun hmem =>
      hnew _ hmem _ List.mem_cons_self rfl
    rw [collapse_concat, ih hpairs, put_of_notMem hkey]

/-- Where no key is there twice the order does not matter. -/
theorem find?_congr_perm {pairs others : Association α} (distinct : (pairs.map Prod.fst).Nodup)
    (h : pairs.Perm others) (key : Text) : find? key pairs = find? key others := by
  have distinct' : (others.map Prod.fst).Nodup := (h.map Prod.fst).nodup_iff.mp distinct
  ext value
  constructor
  · exact fun hfind => find?_of_mem distinct' (h.mem_iff.mp (mem_of_find? hfind))
  · exact fun hfind => find?_of_mem distinct (h.mem_iff.mpr (mem_of_find? hfind))

section Lookup

variable {pairs others : Association α} (h : ∀ key, find? key pairs = find? key others)

include h

theorem mem_keys_congr (key : Text) : key ∈ pairs.map Prod.fst ↔ key ∈ others.map Prod.fst := by
  rw [← not_iff_not, ← find?_eq_none_iff, ← find?_eq_none_iff, h]

theorem isEmpty_congr : pairs.isEmpty = others.isEmpty := by
  have hkeys : pairs.map Prod.fst = [] ↔ others.map Prod.fst = [] := by
    simp only [List.eq_nil_iff_forall_not_mem, mem_keys_congr h]
  rw [Bool.eq_iff_iff, List.isEmpty_iff, List.isEmpty_iff]
  simpa only [List.map_eq_nil_iff] using hkeys

/-- What gives the same under every key has the same keys, but for their order. -/
theorem perm_keys (distinct : (pairs.map Prod.fst).Nodup) (distinct' : (others.map Prod.fst).Nodup) :
    (pairs.map Prod.fst).Perm (others.map Prod.fst) :=
  (List.perm_ext_iff_of_nodup distinct distinct').mpr (mem_keys_congr h)

end Lookup

end LiveTree.Association
