import LiveTree.Text.Utf8

namespace LiveTree.Utf8

theorem lead?_eq (b : UInt8) : lead? b =
    if 0xC2 ≤ b.toNat ∧ b.toNat ≤ 0xDF then some ⟨[b], b.toNat - 0xC0, 1, 0x80, 0xBF⟩
    else if b.toNat = 0xE0 then some ⟨[b], 0, 2, 0xA0, 0xBF⟩
    else if b.toNat = 0xED then some ⟨[b], 0xD, 2, 0x80, 0x9F⟩
    else if 0xE1 ≤ b.toNat ∧ b.toNat ≤ 0xEF then some ⟨[b], b.toNat - 0xE0, 2, 0x80, 0xBF⟩
    else if b.toNat = 0xF0 then some ⟨[b], 0, 3, 0x90, 0xBF⟩
    else if 0xF1 ≤ b.toNat ∧ b.toNat ≤ 0xF3 then some ⟨[b], b.toNat - 0xF0, 3, 0x80, 0xBF⟩
    else if b.toNat = 0xF4 then some ⟨[b], 4, 3, 0x80, 0x8F⟩
    else none := by
  simp [lead?, UInt8.le_iff_toNat_le, ← UInt8.toNat_inj]

theorem toNat_ofNat_of_lt {n : Nat} (h : n < 256) : (UInt8.ofNat n).toNat = n := by
  rw [UInt8.toNat_ofNat']
  exact Nat.mod_eq_of_lt h

theorem toNat_tail (n : Nat) : (UInt8.ofNat (0x80 + n % 64)).toNat = 0x80 + n % 64 :=
  toNat_ofNat_of_lt (by omega)

theorem pieces_lead {b : UInt8} {p : Partial} (hb : 0x80 ≤ b.toNat) (h : lead? b = some p)
    (rest : Octets) : pieces none (b :: rest) = pieces (some p) rest := by
  have hlt : ¬b < 0x80 := by
    rw [UInt8.lt_iff_toNat_lt]
    exact Nat.not_lt.mpr hb
  simp [pieces, step, start, hlt, h]

theorem lead?_two {q : Nat} (h2 : 2 ≤ q) (h32 : q < 32) :
    lead? (.ofNat (0xC0 + q)) = some ⟨[.ofNat (0xC0 + q)], q, 1, 0x80, 0xBF⟩ := by
  rw [lead?_eq, toNat_ofNat_of_lt (by omega), if_pos (by omega)]
  simp

/-- The first of three octets. Its bounds shut out what two octets can hold, and the surrogates. -/
theorem lead?_three {q : Nat} (h : q < 16) :
    ∃ low high, lead? (.ofNat (0xE0 + q)) = some ⟨[.ofNat (0xE0 + q)], q, 2, low, high⟩ ∧
      low.toNat = (if q = 0 then 0xA0 else 0x80) ∧
      high.toNat = (if q = 0xD then 0x9F else 0xBF) := by
  rw [lead?_eq, toNat_ofNat_of_lt (by omega), if_neg (by omega)]
  by_cases h0 : q = 0
  · subst h0
    exact ⟨0xA0, 0xBF, rfl, rfl, rfl⟩
  by_cases hD : q = 0xD
  · subst hD
    exact ⟨0x80, 0x9F, rfl, rfl, rfl⟩
  rw [if_neg (by omega), if_neg (by omega), if_pos (by omega), if_neg h0, if_neg hD]
  exact ⟨0x80, 0xBF, by simp, rfl, rfl⟩

/-- The first of four octets. Its bounds shut out what three octets can hold, and what lies above
the last code point. -/
theorem lead?_four {q : Nat} (h : q < 5) :
    ∃ low high, lead? (.ofNat (0xF0 + q)) = some ⟨[.ofNat (0xF0 + q)], q, 3, low, high⟩ ∧
      low.toNat = (if q = 0 then 0x90 else 0x80) ∧
      high.toNat = (if q = 4 then 0x8F else 0xBF) := by
  rw [lead?_eq, toNat_ofNat_of_lt (by omega), if_neg (by omega), if_neg (by omega),
    if_neg (by omega), if_neg (by omega)]
  by_cases h0 : q = 0
  · subst h0
    exact ⟨0x90, 0xBF, rfl, rfl, rfl⟩
  by_cases h4 : q = 4
  · subst h4
    exact ⟨0x80, 0x8F, rfl, rfl, rfl⟩
  rw [if_neg (by omega), if_pos (by omega), if_neg h0, if_neg h4]
  exact ⟨0x80, 0xBF, by simp, rfl, rfl⟩

theorem pieces_tail {low high : UInt8} {n : Nat} (hlow : low.toNat ≤ 0x80 + n % 64)
    (hhigh : 0x80 + n % 64 ≤ high.toNat) (octets : Octets) (bits wanted : Nat) (rest : Octets) :
    pieces (some ⟨octets, bits, wanted, low, high⟩) (.ofNat (0x80 + n % 64) :: rest) =
      if wanted ≤ 1 then .point (.ofNat (bits * 64 + n % 64)) :: pieces none rest
      else pieces (some ⟨octets ++ [.ofNat (0x80 + n % 64)], bits * 64 + n % 64, wanted - 1, 0x80,
        0xBF⟩) rest := by
  have hb := toNat_tail n
  have hfit : (low ≤ .ofNat (0x80 + n % 64) && .ofNat (0x80 + n % 64) ≤ high) = true := by
    simp only [UInt8.le_iff_toNat_le, hb, hlow, hhigh, decide_true, Bool.and_self]
  simp only [pieces, step, hfit, if_true, hb]
  rw [show (0x80 + n % 64) % 64 = n % 64 by omega]
  split <;> rfl

/-- After the second octet every tail octet is within the bounds. -/
theorem low_le_tail (n : Nat) : (0x80 : UInt8).toNat ≤ 0x80 + n % 64 := Nat.le_add_right _ _

theorem tail_le_high (n : Nat) : 0x80 + n % 64 ≤ (0xBF : UInt8).toNat := by
  change 0x80 + n % 64 ≤ 0xBF
  omega

theorem pieces_encodePoint {c : CodePoint} (h : c.isSurrogate = false) (rest : Octets) :
    pieces none (encodePoint c ++ rest) = .point c :: pieces none rest := by
  obtain ⟨n, hn⟩ := c
  have hs : ¬(0xD800 ≤ n ∧ n ≤ 0xDFFF) := by
    simpa [CodePoint.isSurrogate] using h
  have point {m : Nat} (hm : m = n) : CodePoint.ofNat m = ⟨n, hn⟩ := by
    subst hm
    exact Fin.ext (Nat.mod_eq_of_lt hn)
  simp only [encodePoint]
  split
  · rename_i h1
    have hb := toNat_ofNat_of_lt (show n < 256 by omega)
    have hlt : UInt8.ofNat n < 0x80 := by
      rw [UInt8.lt_iff_toNat_lt, hb]
      exact h1
    simp [pieces, step, start, hlt, hb, point]
  split
  · rename_i h1 h2
    have hb := toNat_ofNat_of_lt (show 0xC0 + n / 64 < 256 by omega)
    rw [List.cons_append, List.singleton_append,
      pieces_lead (by omega) (lead?_two (by omega) (by omega)),
      pieces_tail (low_le_tail n) (tail_le_high n), if_pos (by decide), point (by omega)]
  split
  · rename_i h1 h2 h3
    have hb := toNat_ofNat_of_lt (show 0xE0 + n / 0x1000 < 256 by omega)
    obtain ⟨low, high, hlead, hlow, hhigh⟩ := lead?_three (show n / 0x1000 < 16 by omega)
    have hl : low.toNat ≤ 0x80 + n / 64 % 64 := by
      split at hlow <;> omega
    have hh : 0x80 + n / 64 % 64 ≤ high.toNat := by
      split at hhigh <;> omega
    simp only [List.cons_append, List.nil_append]
    rw [pieces_lead (by omega) hlead, pieces_tail hl hh, if_neg (by decide),
      pieces_tail (low_le_tail n) (tail_le_high n), if_pos (by decide), point (by omega)]
  · rename_i h1 h2 h3
    have hb := toNat_ofNat_of_lt (show 0xF0 + n / 0x40000 < 256 by omega)
    obtain ⟨low, high, hlead, hlow, hhigh⟩ := lead?_four (show n / 0x40000 < 5 by omega)
    have hl : low.toNat ≤ 0x80 + n / 0x1000 % 64 := by
      split at hlow <;> omega
    have hh : 0x80 + n / 0x1000 % 64 ≤ high.toNat := by
      split at hhigh <;> omega
    simp only [List.cons_append, List.nil_append]
    rw [pieces_lead (by omega) hlead, pieces_tail hl hh, if_neg (by decide),
      pieces_tail (low_le_tail (n / 64)) (tail_le_high (n / 64)), if_neg (by decide),
      pieces_tail (low_le_tail n) (tail_le_high n), if_pos (by decide), point (by omega)]

theorem pieces_flatMap_encodePoint {s : Text} (h : s.any CodePoint.isSurrogate = false) :
    pieces none (s.flatMap encodePoint) = s.map .point := by
  induction s with
  | nil => rfl
  | cons c s ih =>
    obtain ⟨hc, hs⟩ : c.isSurrogate = false ∧ s.any CodePoint.isSurrogate = false := by
      simpa only [List.any_cons, Bool.or_eq_false_iff] using h
    rw [List.flatMap_cons, pieces_encodePoint hc, ih hs, List.map_cons]

theorem collect_points (position : Nat) (s : Text) : collect position (s.map .point) = .ok s := by
  induction s generalizing position with
  | nil => rfl
  | cons c s ih => simp [collect, ih, Except.map]

theorem encode?_eq_none_iff {s : Text} : encode? s = none ↔ ∃ c ∈ s, c.isSurrogate = true := by
  rw [encode?, ← List.any_eq_true]
  split
  · rename_i h
    exact iff_of_true rfl h
  · rename_i h
    exact iff_of_false nofun h

/-- A text without surrogates has octets, and they are read as that text. -/
theorem exists_encode? {s : Text} (h : s.any CodePoint.isSurrogate = false) :
    ∃ octets, encode? s = some octets ∧ decode octets = .ok s := by
  refine ⟨s.flatMap encodePoint, by simp [encode?, h], ?_⟩
  rw [decode, pieces_flatMap_encodePoint h, collect_points]

theorem decode_of_encode? {s : Text} {octets : Octets} (h : encode? s = some octets) :
    decode octets = .ok s := by
  cases hs : s.any CodePoint.isSurrogate with
  | true => simp [encode?, hs] at h
  | false =>
    obtain ⟨_, hoctets, hdecode⟩ := exists_encode? hs
    obtain rfl := Option.some.inj (h.symm.trans hoctets)
    exact hdecode

/-- Only the empty text has no octets. -/
theorem eq_nil_of_encode? {s : Text} (h : encode? s = some []) : s = [] :=
  (Except.ok.inj (decode_of_encode? h)).symm

end LiveTree.Utf8
