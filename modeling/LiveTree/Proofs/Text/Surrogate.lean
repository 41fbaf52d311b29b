import LiveTree.Proofs.Text.LineFeed
import LiveTree.Text.Line

namespace LiveTree

namespace Utf8

/-- All that a sequence under way can still become lies on one side of the surrogates. -/
def Partial.Clear (p : Partial) : Prop := p.greatest < 0xD800 ∨ 0xDFFF < p.least

theorem clear_of_lead? {b : UInt8} {p : Partial} (h : lead? b = some p) : p.Clear := by
  rw [lead?_eq] at h
  split_ifs at h with h2 hE0 hED h3 hF0 h4 hF4 <;> obtain rfl := Option.some.inj h <;>
    simp only [Partial.Clear, Partial.least, Partial.greatest, UInt8.reduceToNat, Nat.reduceMod,
      Nat.reducePow, Nat.reduceSub] <;> omega

theorem clear_of_start {b : UInt8} {p : Partial} (h : (start b).2 = some p) : p.Clear := by
  unfold start at h
  split at h
  · cases h
  · split at h
    · rename_i q hq
      obtain rfl := Option.some.inj h
      exact clear_of_lead? hq
    · cases h

theorem clear_of_step {s : Option Partial} (hs : ∀ p ∈ s, p.Sound ∧ p.Clear) {b : UInt8}
    {p : Partial} (h : (step s b).2 = some p) : p.Clear := by
  cases s with
  | none => exact clear_of_start h
  | some q =>
    obtain ⟨sound, clear⟩ := hs q rfl
    simp only [step, Bool.and_eq_true, decide_eq_true_eq, UInt8.le_iff_toNat_le] at h
    split at h
    · rename_i hfit
      split at h
      · cases h
      · rename_i hw
        obtain rfl := Option.some.inj h
        obtain ⟨hleast, hgreatest⟩ := sound.narrows hfit.1 hfit.2 hw
        exact clear.imp hgreatest.trans_lt fun h => h.trans_le hleast
    · exact clear_of_start h

theorem isSurrogate_ofNat {n : Nat} (h : n < 0xD800 ∨ 0xDFFF < n) (hn : n < 0x110000) :
    (CodePoint.ofNat n).isSurrogate = false := by
  have hval : (CodePoint.ofNat n).val = n := Nat.mod_eq_of_lt hn
  simp only [CodePoint.isSurrogate, hval, Bool.and_eq_false_iff, decide_eq_false_iff_not]
  omega

theorem isSurrogate_of_mem_start {b : UInt8} {c : CodePoint} (h : .point c ∈ (start b).1) :
    c.isSurrogate = false := by
  have hb : b.toNat < 256 := b.toNat_lt
  unfold start at h
  split at h
  · obtain rfl := Piece.point.inj (List.mem_singleton.mp h)
    exact isSurrogate_ofNat (by omega) (by omega)
  · split at h
    · cases h
    · cases List.mem_singleton.mp h

theorem isSurrogate_of_mem_step {s : Option Partial} (hs : ∀ p ∈ s, p.Sound ∧ p.Clear) {b : UInt8}
    {c : CodePoint} (h : .point c ∈ (step s b).1) : c.isSurrogate = false := by
  cases s with
  | none => exact isSurrogate_of_mem_start h
  | some p =>
    obtain ⟨sound, clear⟩ := hs p rfl
    simp only [step, Bool.and_eq_true, decide_eq_true_eq, UInt8.le_iff_toNat_le] at h
    split at h
    · rename_i hfit
      split at h
      · rename_i hw
        obtain ⟨hl, hg⟩ := sound.fit hfit.1 hfit.2
        have hgreatest := sound.greatest_point
        rw [Nat.sub_eq_zero_of_le hw, pow_zero, Nat.mul_one] at hl hg
        obtain rfl := Piece.point.inj (List.mem_singleton.mp h)
        exact isSurrogate_ofNat (clear.imp (by omega) (by omega)) (by omega)
      · cases h
    · rcases List.mem_cons.mp h with h | h
      · cases h
      · exact isSurrogate_of_mem_start h

theorem isSurrogate_of_mem_pieces {s : Option Partial} (hs : ∀ p ∈ s, p.Sound ∧ p.Clear)
    {octets : Octets} {c : CodePoint} (h : .point c ∈ pieces s octets) :
    c.isSurrogate = false := by
  induction octets generalizing s with
  | nil =>
    cases s with
    | none => cases h
    | some p => cases List.mem_singleton.mp h
  | cons b octets ih =>
    rw [pieces_cons, List.mem_append] at h
    rcases h with h | h
    · exact isSurrogate_of_mem_step hs h
    · exact ih (fun p hp => ⟨sound_of_step (fun q hq => (hs q hq).1) hp, clear_of_step hs hp⟩) h

theorem mem_of_collect {position : Nat} {found : List Piece} {s : Text}
    (h : collect position found = .ok s) {c : CodePoint} (hc : c ∈ s) : .point c ∈ found := by
  induction found generalizing position s with
  | nil =>
    obtain rfl := Except.ok.inj h
    cases hc
  | cons piece found ih =>
    cases piece with
    | bad octets reason => cases h
    | point d =>
      rw [collect] at h
      cases hrest : collect (position + (encodePoint d).length) found with
      | error fault =>
        rw [hrest] at h
        cases h
      | ok rest =>
        rw [hrest] at h
        obtain rfl := Except.ok.inj h
        rcases List.mem_cons.mp hc with rfl | hc
        · exact List.mem_cons_self
        · exact List.mem_cons_of_mem _ (ih hrest hc)

/-- What octets are read as has octets again: no surrogate is ever read. -/
theorem any_isSurrogate_decode {octets : Octets} {s : Text} (h : decode octets = .ok s) :
    s.any CodePoint.isSurrogate = false := by
  rw [List.any_eq_false]
  intro c hc
  rw [isSurrogate_of_mem_pieces (fun _ h => by cases h) (mem_of_collect h hc)]
  exact Bool.false_ne_true

end Utf8

namespace Text

theorem mem_of_normaliseLinesFrom {afterReturn : Bool} {s : Text} {c : CodePoint}
    (h : c ∈ normaliseLinesFrom afterReturn s) : c ∈ s ∨ c = CodePoint.ofChar '\n' := by
  induction s generalizing afterReturn with
  | nil => cases h
  | cons d s ih =>
    rw [normaliseLinesFrom] at h
    split_ifs at h
    · exact (ih h).imp_left (List.mem_cons_of_mem _)
    · rcases List.mem_cons.mp h with h | h
      · exact .inr h
      · exact (ih h).imp_left (List.mem_cons_of_mem _)
    · rcases List.mem_cons.mp h with rfl | h
      · exact .inl List.mem_cons_self
      · exact (ih h).imp_left (List.mem_cons_of_mem _)

theorem any_isSurrogate_normaliseLines {s : Text} (h : s.any CodePoint.isSurrogate = false) :
    (normaliseLines s).any CodePoint.isSurrogate = false := by
  rw [List.any_eq_false] at h ⊢
  intro c hc
  rcases mem_of_normaliseLinesFrom hc with hc | rfl
  · exact h c hc
  · decide

end Text

end LiveTree
