import LiveTree.Text.Cut
import LiveTree.Text.Basic

namespace LiveTree.Settings

/-- A variable that a value refers to, and the text for a variable that is not known. -/
structure Reference where
  name : Text
  fallback : Text := []
  deriving DecidableEq

namespace Reference

def opening : Text := "$\x7b"

def closing : CodePoint := '\x7d'

/-- The mark between a name and a fallback. -/
def separator : CodePoint := ':'

def isNamePoint (c : CodePoint) : Bool := c != closing && c != separator

/-- What is left of a text whose first part is a fallback: the fallback and what follows the
closing brace. -/
def fallback? (s : Text) : Option (Text × Text) :=
  match s.dropWhile (· != closing) with
  | [] => none
  | _ :: rest => some (s.takeWhile (· != closing), rest)

/-- The reference whose name begins a text, and what follows its closing brace. After the name
there may be a colon and a dash, and then the fallback. -/
def read? (s : Text) : Option (Reference × Text) :=
  match s.dropWhile isNamePoint with
  | [] => none
  | c :: rest =>
    if c == closing then some (⟨s.takeWhile isNamePoint, []⟩, rest)
    else match rest with
      | [] => none
      | d :: rest =>
        if d == '-' then
          (fallback? rest).map fun (fallback, rest) => (⟨s.takeWhile isNamePoint, fallback⟩, rest)
        else none

theorem length_fallback? {s text rest : Text} (h : fallback? s = some (text, rest)) :
    rest.length < s.length := by
  have hle := (List.dropWhile_sublist (l := s) (· != closing)).length_le
  unfold fallback? at h
  split at h
  · simp at h
  · rename_i hs
    simp only [Option.some.injEq, Prod.mk.injEq] at h
    rw [hs, List.length_cons] at hle
    rw [← h.2]
    omega

/-- A reference takes up at least its closing brace. -/
theorem length_read? {s rest : Text} {reference : Reference}
    (h : read? s = some (reference, rest)) : rest.length < s.length := by
  have hle := (List.dropWhile_sublist (l := s) isNamePoint).length_le
  unfold read? at h
  split at h
  · simp at h
  · rename_i c after hs
    rw [hs, List.length_cons] at hle
    split at h
    · simp only [Option.some.injEq, Prod.mk.injEq] at h
      rw [← h.2]
      omega
    · split at h
      · simp at h
      · split at h
        · obtain ⟨⟨text, tail⟩, hf, hr⟩ := Option.map_eq_some_iff.mp h
          cases hr
          have hlt := length_fallback? hf
          simp only [List.length_cons] at hle
          omega
        · simp at h

end Reference

/-- A text with its references replaced. What only begins like a reference stays. -/
def expand (value : Reference → Text) : Text → Text
  | [] => []
  | c :: s =>
    match _hs : dropStart? Reference.opening (c :: s) with
    | none => c :: expand value s
    | some inner =>
      match _hr : Reference.read? inner with
      | none => c :: expand value s
      | some (reference, rest) => value reference ++ expand value rest
termination_by s => s.length
decreasing_by
  · simp
  · simp
  · have hinner : inner.length ≤ (c :: s).length := length_of_dropStart? _hs
    have := Reference.length_read? _hr
    omega

@[simp] theorem expand_nil (value : Reference → Text) : expand value [] = [] := by simp [expand]

end LiveTree.Settings
