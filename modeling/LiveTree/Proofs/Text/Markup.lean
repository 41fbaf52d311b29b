import LiveTree.Proofs.Text.Blank
import LiveTree.Text.Markup
import Mathlib.Data.List.Basic

namespace LiveTree.Markup

def ampersand : CodePoint := '&'

/-- The code points that markup gives a meaning to, and what is written for them. -/
def entities : List (CodePoint × Text) :=
  [('&', "&amp;"), ('<', "&lt;"), ('>', "&gt;"), ('"', "&quot;"), ('\'', "&#x27;")]

/-- What an entity at the start of a text stands for, and what follows it. -/
def entity? (s : Text) : Option (CodePoint × Text) :=
  entities.findSome? fun (c, written) => (dropStart? written s).map (c, ·)

theorem of_entity? {c : CodePoint} {s rest : Text} (h : entity? s = some (c, rest)) :
    ∃ written, (c, written) ∈ entities ∧ s = written ++ rest := by
  obtain ⟨⟨d, written⟩, hmem, hdrop⟩ := List.exists_of_findSome?_eq_some h
  obtain ⟨more, hmore, heq⟩ := Option.map_eq_some_iff.mp hdrop
  obtain ⟨rfl, rfl⟩ := Prod.mk.inj heq
  exact ⟨written, hmem, (List.isPrefixOf?_eq_some_iff_append_eq.mp hmore).symm⟩

theorem length_of_entity? {c : CodePoint} {s rest : Text} (h : entity? s = some (c, rest)) :
    rest.length < s.length := by
  obtain ⟨written, hmem, rfl⟩ := of_entity? h
  have hne : ∀ e ∈ entities, e.2 ≠ [] := by decide
  have hpos : 0 < written.length := List.length_pos_of_ne_nil (hne _ hmem)
  rw [List.length_append]
  omega

/-- Reads every entity as what it stands for, and all else as itself. -/
def unescape : Text → Text
  | [] => []
  | c :: s =>
    match _h : entity? (c :: s) with
    | some (d, rest) => d :: unescape rest
    | none => c :: unescape s
termination_by s => s.length
decreasing_by
  · exact length_of_entity? _h
  · exact Nat.lt_succ_self _

theorem unescape_of_some {c : CodePoint} {s rest : Text} (h : entity? s = some (c, rest)) :
    unescape s = c :: unescape rest := by
  cases s with
  | nil => cases h
  | cons d s =>
    rw [unescape]
    split
    · rename_i heq
      obtain ⟨rfl, rfl⟩ := Prod.mk.inj (Option.some.inj (heq.symm.trans h))
      rfl
    · rename_i heq
      cases heq.symm.trans h

theorem unescape_of_none {c : CodePoint} {s : Text} (h : entity? (c :: s) = none) :
    unescape (c :: s) = c :: unescape s := by
  rw [unescape]
  split
  · rename_i heq
    cases heq.symm.trans h
  · rfl

theorem entity?_append {c : CodePoint} {written : Text} (h : (c, written) ∈ entities) (s : Text) :
    entity? (written ++ s) = some (c, s) := by
  simp only [entities, List.mem_cons, Prod.mk.injEq, List.not_mem_nil, or_false] at h
  rcases h with ⟨rfl, rfl⟩ | ⟨rfl, rfl⟩ | ⟨rfl, rfl⟩ | ⟨rfl, rfl⟩ | ⟨rfl, rfl⟩ <;> rfl

/-- Every entity begins with the only ampersand in it, and holds nothing else that has a meaning. -/
theorem of_mem_entities {c : CodePoint} {written : Text} (h : (c, written) ∈ entities) :
    ∃ name : Text, written = ampersand :: name ∧ ∀ e ∈ entities, e.1 ∉ name := by
  simp only [entities, List.mem_cons, Prod.mk.injEq, List.not_mem_nil, or_false] at h
  rcases h with ⟨rfl, rfl⟩ | ⟨rfl, rfl⟩ | ⟨rfl, rfl⟩ | ⟨rfl, rfl⟩ | ⟨rfl, rfl⟩ <;>
    exact ⟨_, rfl, by decide⟩

theorem ampersand_mem_entities : (ampersand, Text.ofString "&amp;") ∈ entities := List.mem_cons_self

theorem entity?_of_ne {c : CodePoint} (h : c ≠ ampersand) (s : Text) : entity? (c :: s) = none := by
  cases hentity : entity? (c :: s) with
  | none => rfl
  | some found =>
    obtain ⟨written, hmem, heq⟩ := of_entity? hentity
    obtain ⟨name, rfl, -⟩ := of_mem_entities hmem
    exact absurd (List.cons.inj heq).1 h

/-- What has a meaning is written as its entity, and all else as itself. -/
theorem escapePoint_cases (c : CodePoint) :
    (c, escapePoint c) ∈ entities ∨ (∀ e ∈ entities, e.1 ≠ c) ∧ escapePoint c = [c] := by
  unfold escapePoint
  split_ifs with hampersand hless hgreater hquote hapostrophe
  · rw [eq_of_beq hampersand]
    decide
  · rw [eq_of_beq hless]
    decide
  · rw [eq_of_beq hgreater]
    decide
  · rw [eq_of_beq hquote]
    decide
  · rw [eq_of_beq hapostrophe]
    decide
  · refine .inr ⟨?_, rfl⟩
    simp only [beq_iff_eq] at hampersand hless hgreater hquote hapostrophe
    simp only [entities, List.forall_mem_cons]
    exact ⟨Ne.symm hampersand, Ne.symm hless, Ne.symm hgreater, Ne.symm hquote,
      Ne.symm hapostrophe, nofun⟩

/-- Nothing is lost in a text that was escaped. -/
theorem unescape_escape (s : Text) : unescape (escape s) = s := by
  induction s with
  | nil => rw [escape_nil, unescape]
  | cons c s ih =>
    rw [escape_cons]
    obtain hmem | ⟨hplain, hself⟩ := escapePoint_cases c
    · rw [unescape_of_some (entity?_append hmem _), ih]
    · have hc : c ≠ ampersand := (hplain _ ampersand_mem_entities).symm
      rw [hself, List.singleton_append, unescape_of_none (entity?_of_ne hc _), ih]

/-- The code points that open and close tags and attributes. -/
def marks : Text := "<>\"'"

theorem exists_of_mem_marks {c : CodePoint} (h : c ∈ marks) : ∃ e ∈ entities, e.1 = c := by
  have hmarks : marks ⊆ entities.map Prod.fst := by decide
  exact List.mem_map.mp (hmarks h)

/-- A text that is no markup wherever it stands in an element: nothing in it opens or closes a tag
or an attribute, and every ampersand begins an entity. -/
structure Harmless (s : Text) : Prop where
  notMem_marks : ∀ c ∈ s, c ∉ marks
  entity : ∀ front back, s = front ++ ampersand :: back →
    ∃ e ∈ entities, e.2 <+: ampersand :: back

theorem notMem_marks_escape {s : Text} {c : CodePoint} (h : c ∈ escape s) : c ∉ marks := by
  obtain ⟨d, -, hc⟩ := List.mem_flatMap.mp h
  intro hmark
  obtain ⟨e, he, rfl⟩ := exists_of_mem_marks hmark
  obtain hmem | ⟨hplain, hself⟩ := escapePoint_cases d
  · obtain ⟨name, hwritten, hname⟩ := of_mem_entities hmem
    rw [hwritten, List.mem_cons] at hc
    rcases hc with hampersand | hc
    · rw [hampersand] at hmark
      exact absurd hmark (by decide)
    · exact hname e he hc
  · rw [hself, List.mem_singleton] at hc
    exact hplain e he hc

theorem exists_entity_escape {s front back : Text} (h : escape s = front ++ ampersand :: back) :
    ∃ e ∈ entities, e.2 <+: ampersand :: back := by
  induction s generalizing front with
  | nil => exact absurd h.symm (List.append_ne_nil_of_right_ne_nil _ (List.cons_ne_nil _ _))
  | cons c s ih =>
    rw [escape_cons] at h
    -- The ampersand is in what is written for the rest, or in what is written for the first.
    obtain ⟨more, -, hrest⟩ | ⟨more, hfirst, hback⟩ := List.append_eq_append_iff.mp h
    · exact ih hrest
    cases more with
    | nil =>
      have hnone : escape s = [] ++ ampersand :: back := hback.symm
      exact ih hnone
    | cons d more =>
      obtain ⟨rfl, hmore⟩ := List.cons.inj hback
      obtain hmem | ⟨hplain, hself⟩ := escapePoint_cases c
      · obtain ⟨name, hwritten, hname⟩ := of_mem_entities hmem
        refine ⟨_, hmem, ?_⟩
        cases front with
        | nil =>
          rw [hfirst, List.nil_append, hmore]
          exact ⟨escape s, rfl⟩
        | cons d front =>
          rw [hwritten, List.cons_append, List.cons.injEq] at hfirst
          refine absurd ?_ (hname _ ampersand_mem_entities)
          rw [hfirst.2]
          exact List.mem_append_right _ List.mem_cons_self
      · rw [hself] at hfirst
        have hc : ampersand ∈ [c] := by
          rw [hfirst]
          exact List.mem_append_right _ List.mem_cons_self
        exact absurd (List.mem_singleton.mp hc) (hplain _ ampersand_mem_entities)

theorem harmless_escape (s : Text) : Harmless (escape s) :=
  ⟨fun _ => notMem_marks_escape, fun _ _ => exists_entity_escape⟩

theorem any_isSurrogate_escape (s : Text) :
    (escape s).any CodePoint.isSurrogate = s.any CodePoint.isSurrogate := by
  have hpoint (c : CodePoint) :
      (escapePoint c).any CodePoint.isSurrogate = c.isSurrogate := by
    obtain hmem | ⟨-, hself⟩ := escapePoint_cases c
    · have hall : ∀ e ∈ entities, e.2.any CodePoint.isSurrogate = e.1.isSurrogate := by decide
      exact hall _ hmem
    · rw [hself, List.any_cons, List.any_nil, Bool.or_false]
  rw [escape, List.any_flatMap]
  simp only [hpoint]

end LiveTree.Markup
