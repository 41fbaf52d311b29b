import LiveTree.Text.Base64

namespace LiveTree.Base64

/-- What stands in encoded text: the digits and the pad. -/
def isAlphabet (c : CodePoint) : Bool := (value? c).isSome || c == '='

theorem digit_ne_pad {n : Nat} (h : n < 64) : digit n ≠ '=' := by
  have all : ∀ m ∈ List.range 64, digit m ≠ '=' := by decide
  exact all n (List.mem_range.mpr h)

theorem decodeFrom_digit {n : Nat} (h : n < 64) (p : Place) (s : Text) :
    decodeFrom p (digit n :: s) =
      match p.digits % 4 with
      | 0 => decodeFrom ⟨p.digits + 1, n, 0⟩ s
      | 1 => (decodeFrom ⟨p.digits + 1, n % 16, 0⟩ s).map (.ofNat (p.bits * 4 + n / 16) :: ·)
      | 2 => (decodeFrom ⟨p.digits + 1, n % 4, 0⟩ s).map (.ofNat (p.bits * 16 + n / 4) :: ·)
      | _ => (decodeFrom ⟨p.digits + 1, 0, 0⟩ s).map (.ofNat (p.bits * 64 + n) :: ·) := by
  have hpad : (digit n == CodePoint.ofChar '=') = false := beq_false_of_ne (digit_ne_pad h)
  rw [decodeFrom, hpad, value?_digit h]
  rfl

/-- Four digits give three octets. -/
theorem decodeFrom_group {k v₁ v₂ v₃ v₄ : Nat} (h₁ : v₁ < 64) (h₂ : v₂ < 64) (h₃ : v₃ < 64)
    (h₄ : v₄ < 64) (s : Text) :
    decodeFrom ⟨4 * k, 0, 0⟩ (digit v₁ :: digit v₂ :: digit v₃ :: digit v₄ :: s) =
      (decodeFrom ⟨4 * (k + 1), 0, 0⟩ s).map fun octets =>
        .ofNat (v₁ * 4 + v₂ / 16) :: .ofNat (v₂ % 16 * 16 + v₃ / 4) :: .ofNat (v₃ % 4 * 64 + v₄) ::
          octets := by
  have m₁ : 4 * k % 4 = 0 := by omega
  have m₂ : (4 * k + 1) % 4 = 1 := by omega
  have m₃ : (4 * k + 1 + 1) % 4 = 2 := by omega
  have m₄ : (4 * k + 1 + 1 + 1) % 4 = 3 := by omega
  simp only [decodeFrom_digit h₁, decodeFrom_digit h₂, decodeFrom_digit h₃, decodeFrom_digit h₄,
    m₁, m₂, m₃, m₄]
  rw [show 4 * (k + 1) = 4 * k + 1 + 1 + 1 + 1 by omega]
  cases decodeFrom ⟨4 * k + 1 + 1 + 1 + 1, 0, 0⟩ s <;> rfl

/-- Two digits and two pads give one octet. -/
theorem decodeFrom_two {k v₁ v₂ : Nat} (h₁ : v₁ < 64) (h₂ : v₂ < 64) :
    decodeFrom ⟨4 * k, 0, 0⟩ [digit v₁, digit v₂, '=', '='] = .ok [.ofNat (v₁ * 4 + v₂ / 16)] := by
  have m₁ : 4 * k % 4 = 0 := by omega
  have m₂ : (4 * k + 1) % 4 = 1 := by omega
  have m₃ : (4 * k + 1 + 1) % 4 = 2 := by omega
  simp only [decodeFrom_digit h₁, decodeFrom_digit h₂, m₁, m₂]
  simp [decodeFrom, m₃, Except.map]

/-- Three digits and a pad give two octets. -/
theorem decodeFrom_three {k v₁ v₂ v₃ : Nat} (h₁ : v₁ < 64) (h₂ : v₂ < 64) (h₃ : v₃ < 64) :
    decodeFrom ⟨4 * k, 0, 0⟩ [digit v₁, digit v₂, digit v₃, '='] =
      .ok [.ofNat (v₁ * 4 + v₂ / 16), .ofNat (v₂ % 16 * 16 + v₃ / 4)] := by
  have m₁ : 4 * k % 4 = 0 := by omega
  have m₂ : (4 * k + 1) % 4 = 1 := by omega
  have m₃ : (4 * k + 1 + 1) % 4 = 2 := by omega
  have m₄ : (4 * k + 1 + 1 + 1) % 4 = 3 := by omega
  simp only [decodeFrom_digit h₁, decodeFrom_digit h₂, decodeFrom_digit h₃, m₁, m₂, m₃]
  simp [decodeFrom, m₄, Except.map]

theorem ofNat_eq {a : UInt8} {n : Nat} (h : n = a.toNat) : UInt8.ofNat n = a := by
  rw [h, UInt8.ofNat_toNat]

theorem decodeFrom_encode (k : Nat) (octets : Octets) :
    decodeFrom ⟨4 * k, 0, 0⟩ (encode octets) = .ok octets := by
  fun_induction encode octets generalizing k with
  | case1 =>
    have m₁ : 4 * k % 4 = 0 := by omega
    simp [decodeFrom, m₁]
  | case2 a n =>
    have ha : a.toNat < 256 := a.toNat_lt
    rw [decodeFrom_two (by omega) (by omega), ofNat_eq (show _ = a.toNat by omega)]
  | case3 a b n =>
    have ha : a.toNat < 256 := a.toNat_lt
    have hb : b.toNat < 256 := b.toNat_lt
    rw [decodeFrom_three (by omega) (by omega) (by omega), ofNat_eq (show _ = a.toNat by omega),
      ofNat_eq (show _ = b.toNat by omega)]
  | case4 a b c rest n ih =>
    have ha : a.toNat < 256 := a.toNat_lt
    have hb : b.toNat < 256 := b.toNat_lt
    have hc : c.toNat < 256 := c.toNat_lt
    rw [decodeFrom_group (by omega) (by omega) (by omega) (by omega), ih,
      ofNat_eq (show _ = a.toNat by omega), ofNat_eq (show _ = b.toNat by omega),
      ofNat_eq (show _ = c.toNat by omega)]
    rfl

theorem isAlphabet_digit {n : Nat} (h : n < 64) : isAlphabet (digit n) = true := by
  simp [isAlphabet, value?_digit h]

/-- Encoded text is made of the alphabet. -/
theorem isAlphabet_of_mem_encode {octets : Octets} {c : CodePoint} (h : c ∈ encode octets) :
    isAlphabet c = true := by
  have hpad : isAlphabet '=' = true := by decide
  fun_induction encode octets with
  | case1 => exact absurd h List.not_mem_nil
  | case2 a n =>
    have ha : a.toNat < 256 := a.toNat_lt
    simp only [List.mem_cons, List.not_mem_nil, or_false] at h
    rcases h with rfl | rfl | rfl | rfl
    · exact isAlphabet_digit (by omega)
    · exact isAlphabet_digit (by omega)
    · exact hpad
    · exact hpad
  | case3 a b n =>
    have ha : a.toNat < 256 := a.toNat_lt
    have hb : b.toNat < 256 := b.toNat_lt
    simp only [List.mem_cons, List.not_mem_nil, or_false] at h
    rcases h with rfl | rfl | rfl | rfl
    · exact isAlphabet_digit (by omega)
    · exact isAlphabet_digit (by omega)
    · exact isAlphabet_digit (by omega)
    · exact hpad
  | case4 a b c rest n ih =>
    have ha : a.toNat < 256 := a.toNat_lt
    have hb : b.toNat < 256 := b.toNat_lt
    have hc : c.toNat < 256 := c.toNat_lt
    simp only [List.mem_cons] at h
    rcases h with rfl | rfl | rfl | rfl | h
    · exact isAlphabet_digit (by omega)
    · exact isAlphabet_digit (by omega)
    · exact isAlphabet_digit (by omega)
    · exact isAlphabet_digit (by omega)
    · exact ih h

/-- The alphabet lies within printable ASCII. -/
theorem bounds_of_isAlphabet {c : CodePoint} (h : isAlphabet c = true) :
    0x2B ≤ c.val ∧ c.val ≤ 0x7A ∧ c.val ≠ 0x3A := by
  have hplus : c = CodePoint.ofChar '+' → c.val = 0x2B := fun h => by rw [h]; rfl
  have hslash : c = CodePoint.ofChar '/' → c.val = 0x2F := fun h => by rw [h]; rfl
  have hpad : c = CodePoint.ofChar '=' → c.val = 0x3D := fun h => by rw [h]; rfl
  simp only [isAlphabet, value?, Bool.or_eq_true, beq_iff_eq, Bool.and_eq_true,
    decide_eq_true_eq] at h
  rcases h with h | h
  · split at h
    · omega
    · split at h
      · omega
      · split at h
        · omega
        · split at h
          · have := hplus ‹_›
            omega
          · split at h
            · have := hslash ‹_›
              omega
            · exact absurd h Bool.false_ne_true
  · have := hpad h
    omega

theorem decode_encode (octets : Octets) : decode (encode octets) = .ok octets := by
  have hascii : (encode octets).any (0x80 ≤ ·.val) = false := by
    rw [List.any_eq_false]
    intro c hc
    have := (bounds_of_isAlphabet (isAlphabet_of_mem_encode hc)).2.1
    simp only [decide_eq_true_eq]
    omega
  rw [decode, hascii]
  exact decodeFrom_encode 0 octets

theorem encode_eq_nil {octets : Octets} : encode octets = [] ↔ octets = [] := by
  constructor
  · intro h
    have hdecode := decode_encode octets
    rw [h] at hdecode
    exact (Except.ok.inj hdecode).symm
  · rintro rfl
    rfl

end LiveTree.Base64
