import LiveTree.Proofs.Text.Utf8
import LiveTree.Text.Cut
import Mathlib.Tactic.Positivity
import Mathlib.Tactic.Ring

namespace LiveTree.Utf8

/-- The least code point that a sequence under way can still become. -/
def Partial.least (p : Partial) : Nat := (p.bits * 64 + p.low.toNat % 64) * 64 ^ (p.wanted - 1)

/-- The greatest code point that a sequence under way can still become. -/
def Partial.greatest (p : Partial) : Nat :=
  (p.bits * 64 + p.high.toNat % 64) * 64 ^ (p.wanted - 1) + (64 ^ (p.wanted - 1) - 1)

/-- A sequence under way wants tail octets only, and becomes a code point outside ASCII if any. -/
structure Partial.Sound (p : Partial) : Prop where
  low_tail : 0x80 ≤ p.low.toNat
  high_tail : p.high.toNat ≤ 0xBF
  least_wide : 0x80 ≤ p.least
  greatest_point : p.greatest < 0x110000

theorem sound_of_lead? {b : UInt8} {p : Partial} (h : lead? b = some p) : p.Sound := by
  rw [lead?_eq] at h
  split_ifs at h with h2 hE0 hED h3 hF0 h4 hF4 <;> obtain rfl := Option.some.inj h <;>
    constructor <;>
    simp only [Partial.least, Partial.greatest, UInt8.reduceToNat, Nat.reduceMod, Nat.reducePow,
      Nat.reduceSub] <;> omega

theorem bounds_next {m n g : Nat} (h : m * (64 * n) + (64 * n - 1) ≤ g) (hn : 0 < n) :
    (m * 64 + 63) * n + (n - 1) ≤ g := by
  have hsplit : (m * 64 + 63) * n = m * (64 * n) + 63 * n := by ring
  omega

/-- An octet that fits keeps what a sequence can become within what it could become. -/
theorem Partial.Sound.fit {p : Partial} (hp : p.Sound) {b : UInt8} (hlow : p.low.toNat ≤ b.toNat)
    (hhigh : b.toNat ≤ p.high.toNat) :
    p.least ≤ (p.bits * 64 + b.toNat % 64) * 64 ^ (p.wanted - 1) ∧
      (p.bits * 64 + b.toNat % 64) * 64 ^ (p.wanted - 1) + (64 ^ (p.wanted - 1) - 1) ≤
        p.greatest := by
  have := hp.low_tail
  have := hp.high_tail
  constructor
  · exact Nat.mul_le_mul_right _ (by omega)
  · exact Nat.add_le_add_right (Nat.mul_le_mul_right _ (by omega)) _

/-- After an octet that fits, a sequence can become no more than it could before. -/
theorem Partial.Sound.narrows {p : Partial} (hp : p.Sound) {b : UInt8}
    (hlow : p.low.toNat ≤ b.toNat) (hhigh : b.toNat ≤ p.high.toNat) (hw : ¬p.wanted ≤ 1) :
    let next : Partial :=
      ⟨p.octets ++ [b], p.bits * 64 + b.toNat % 64, p.wanted - 1, 0x80, 0xBF⟩
    p.least ≤ next.least ∧ next.greatest ≤ p.greatest := by
  obtain ⟨hl, hg⟩ := hp.fit hlow hhigh
  have hpow : 64 ^ (p.wanted - 1) = 64 * 64 ^ (p.wanted - 1 - 1) := by
    rw [← pow_succ', show p.wanted - 1 - 1 + 1 = p.wanted - 1 by omega]
  rw [hpow] at hl hg
  constructor
  · simp only [Partial.least, UInt8.reduceToNat, Nat.reduceMod] at hl ⊢
    refine hl.trans (le_of_eq ?_)
    ring
  · simp only [Partial.greatest, UInt8.reduceToNat, Nat.reduceMod] at hg ⊢
    exact bounds_next hg (by positivity)

/-- The sequence after an octet that fits but does not complete it. -/
theorem Partial.Sound.next {p : Partial} (hp : p.Sound) {b : UInt8} (hlow : p.low.toNat ≤ b.toNat)
    (hhigh : b.toNat ≤ p.high.toNat) (hw : ¬p.wanted ≤ 1) :
    Partial.Sound ⟨p.octets ++ [b], p.bits * 64 + b.toNat % 64, p.wanted - 1, 0x80, 0xBF⟩ := by
  obtain ⟨hl, hg⟩ := hp.narrows hlow hhigh hw
  exact ⟨le_refl _, le_refl _, hp.least_wide.trans hl, hg.trans_lt hp.greatest_point⟩

theorem sound_of_start {b : UInt8} {p : Partial} (h : (start b).2 = some p) : p.Sound := by
  unfold start at h
  split at h
  · cases h
  · split at h
    · rename_i q hq
      obtain rfl := Option.some.inj h
      exact sound_of_lead? hq
    · cases h

theorem sound_of_step {s : Option Partial} (hs : ∀ p ∈ s, p.Sound) {b : UInt8} {p : Partial}
    (h : (step s b).2 = some p) : p.Sound := by
  cases s with
  | none => exact sound_of_start h
  | some q =>
    simp only [step, Bool.and_eq_true, decide_eq_true_eq, UInt8.le_iff_toNat_le] at h
    split at h
    · rename_i hfit
      split at h
      · cases h
      · rename_i hw
        obtain rfl := Option.some.inj h
        exact (hs q rfl).next hfit.1 hfit.2 hw
    · exact sound_of_start h

theorem lineFeed_ne_replacement : CodePoint.ofChar '\n' ≠ .ofNat 0xFFFD := by decide

theorem lineFeed_ne_shown_bad (octets : Octets) (reason : Reason) :
    CodePoint.ofChar '\n' ≠ (Piece.bad octets reason).shown := lineFeed_ne_replacement

theorem ofNat_eq_lineFeed_iff {n : Nat} (h : n < 0x110000) :
    CodePoint.ofNat n = CodePoint.ofChar '\n' ↔ n = 0x0A := by
  rw [Fin.ext_iff]
  change n % 0x110000 = 0x0A ↔ n = 0x0A
  rw [Nat.mod_eq_of_lt h]

theorem lineFeed_notMem_start {b : UInt8} (hb : b ≠ 0x0A) :
    CodePoint.ofChar '\n' ∉ (start b).1.map Piece.shown := by
  have hne : b.toNat ≠ 0x0A := fun h => hb (UInt8.toNat_inj.mp h)
  have hlt : b.toNat < 0x110000 := b.toNat_lt.trans (by decide)
  unfold start
  split
  · intro h
    have heq := List.mem_singleton.mp h
    exact hne ((ofNat_eq_lineFeed_iff hlt).mp heq.symm)
  · split
    · exact List.not_mem_nil
    · exact fun h => lineFeed_ne_shown_bad _ _ (List.mem_singleton.mp h)

/-- Only a line feed is shown as a line feed. -/
theorem lineFeed_notMem_step {s : Option Partial} (hs : ∀ p ∈ s, p.Sound) {b : UInt8}
    (hb : b ≠ 0x0A) : CodePoint.ofChar '\n' ∉ (step s b).1.map Piece.shown := by
  cases s with
  | none => exact lineFeed_notMem_start hb
  | some p =>
    simp only [step, Bool.and_eq_true, decide_eq_true_eq, UInt8.le_iff_toNat_le]
    split
    · rename_i hfit
      split
      · rename_i hw
        obtain ⟨hl, hg⟩ := (hs p rfl).fit hfit.1 hfit.2
        have hleast := (hs p rfl).least_wide
        have hgreatest := (hs p rfl).greatest_point
        rw [Nat.sub_eq_zero_of_le hw, pow_zero, Nat.mul_one] at hl hg
        intro h
        have heq := List.mem_singleton.mp h
        have hn := (ofNat_eq_lineFeed_iff (by omega)).mp heq.symm
        omega
      · exact List.not_mem_nil
    · rw [List.map_cons, List.mem_cons, not_or]
      exact ⟨lineFeed_ne_shown_bad _ _, lineFeed_notMem_start hb⟩

theorem lineFeed_notMem_pieces {s : Option Partial} (hs : ∀ p ∈ s, p.Sound) {octets : Octets}
    (h : 0x0A ∉ octets) : CodePoint.ofChar '\n' ∉ (pieces s octets).map Piece.shown := by
  induction octets generalizing s with
  | nil =>
    cases s with
    | none => exact List.not_mem_nil
    | some p =>
      exact fun h => lineFeed_ne_shown_bad _ _ (List.mem_singleton.mp h)
  | cons b octets ih =>
    obtain ⟨hb, hrest⟩ := not_or.mp (mt List.mem_cons.mpr h)
    rw [pieces_cons, List.map_append, List.mem_append, not_or]
    exact ⟨lineFeed_notMem_step hs (Ne.symm hb), ih (fun p hp => sound_of_step hs hp) hrest⟩

/-- A line feed shows as itself and cuts off whatever was under way before it: a sequence that it
breaks shows the same as one that the end of the octets breaks. -/
theorem pieces_append_lineFeed {s : Option Partial} (hs : ∀ p ∈ s, p.Sound) (front back : Octets) :
    (pieces s (front ++ 0x0A :: back)).map Piece.shown =
      (pieces s front).map Piece.shown ++
        CodePoint.ofChar '\n' :: (pieces none back).map Piece.shown := by
  induction front generalizing s with
  | nil =>
    have hidle : (step s 0x0A).2 = none :=
      step_lineFeed s fun p hp => UInt8.le_iff_toNat_le.mpr (hs p hp).low_tail
    rw [List.nil_append, pieces_append_of_idle hidle, List.map_append]
    cases s with
    | none => rfl
    | some p =>
      have hfit : ¬(p.low.toNat ≤ (0x0A : UInt8).toNat ∧ (0x0A : UInt8).toNat ≤ p.high.toNat) := by
        have hlow := (hs p rfl).low_tail
        rintro ⟨h, -⟩
        exact absurd (hlow.trans h) (by decide)
      -- Both sides show one replacement character: here for the break, there for the end.
      simp only [step, Bool.and_eq_true, decide_eq_true_eq, UInt8.le_iff_toNat_le, if_neg hfit]
      rfl
  | cons b front ih =>
    rw [List.cons_append, pieces_cons, pieces_cons, List.map_append, List.map_append,
      ih fun p hp => sound_of_step hs hp, List.append_assoc]

theorem decodeLossy_append_lineFeed (front back : Octets) :
    decodeLossy (front ++ 0x0A :: back) =
      decodeLossy front ++ CodePoint.ofChar '\n' :: decodeLossy back :=
  pieces_append_lineFeed (fun _ h => by cases h) front back

theorem lineFeed_notMem_decodeLossy {octets : Octets} (h : 0x0A ∉ octets) :
    CodePoint.ofChar '\n' ∉ decodeLossy octets :=
  lineFeed_notMem_pieces (fun _ h => by cases h) h

end LiveTree.Utf8
