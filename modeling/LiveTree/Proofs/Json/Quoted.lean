import LiveTree.Json.Quoted
import LiveTree.Json.Reader

namespace LiveTree.Json

section Units

variable (opening : Text)

theorem quotedUnits_quote (s : Text) :
    quotedUnits opening (CodePoint.ofChar '"' :: s) = .ok ([], s) := by
  rw [quotedUnits.eq_def]
  rfl

theorem quotedUnits_short {d e : CodePoint} (hd : d ≠ CodePoint.ofChar 'u')
    (he : shortEscape? d = some e) (s : Text) :
    quotedUnits opening (CodePoint.ofChar '\\' :: d :: s) =
      (quotedUnits opening s).map fun r => (.raw e :: r.1, r.2) := by
  have hq : (CodePoint.ofChar '\\' == CodePoint.ofChar '"') = false := by decide
  have hu : (d == CodePoint.ofChar 'u') = false := beq_false_of_ne hd
  rw [quotedUnits.eq_def]
  simp [hq, hu, he]

theorem quotedUnits_unicode {a b c d : CodePoint} {n : Nat} (hn : hex4? a b c d = some n)
    (next : CodePoint) (s : Text) :
    quotedUnits opening
        (CodePoint.ofChar '\\' :: CodePoint.ofChar 'u' :: a :: b :: c :: d :: next :: s) =
      (quotedUnits opening (next :: s)).map fun r => (.escaped n :: r.1, r.2) := by
  have hq : (CodePoint.ofChar '\\' == CodePoint.ofChar '"') = false := by decide
  rw [quotedUnits.eq_def]
  simp [hq, hn]

theorem quotedUnits_raw {c : CodePoint} (hq : c ≠ CodePoint.ofChar '"')
    (hb : c ≠ CodePoint.ofChar '\\') (hlow : ¬ c.val < 0x20) (s : Text) :
    quotedUnits opening (c :: s) =
      (quotedUnits opening s).map fun r => (.raw c :: r.1, r.2) := by
  have hq' : (c == CodePoint.ofChar '"') = false := beq_false_of_ne hq
  have hb' : (c == CodePoint.ofChar '\\') = false := beq_false_of_ne hb
  rw [quotedUnits.eq_def]
  simp [hq', hb', hlow]

end Units

/-- What is read for an escaped code point: a control character without a letter of its own comes
by its number. -/
def unitOf (c : CodePoint) : QuotedUnit :=
  if c.val < 0x20 ∧ c ≠ '\n' ∧ c ≠ '\r' ∧ c ≠ '\t' ∧ c.val ≠ 0x0C ∧ c.val ≠ 0x08 then .escaped c.val
  else .raw c

theorem hex4?_hex {n : Nat} (hn : n < 0x20) :
    ∃ a b c d, Text.hex 4 n = [a, b, c, d] ∧ hex4? a b c d = some n := by
  have all : ∀ m ∈ List.range 0x20,
      Text.hex 4 m = [CodePoint.ofChar '0', CodePoint.ofChar '0',
        CodePoint.ofChar (m / 16).digitChar, CodePoint.ofChar (m % 16).digitChar] ∧
      hex4? (CodePoint.ofChar '0') (CodePoint.ofChar '0') (CodePoint.ofChar (m / 16).digitChar)
        (CodePoint.ofChar (m % 16).digitChar) = some m := by decide +kernel
  obtain ⟨hdigits, hread⟩ := all n (List.mem_range.mpr hn)
  exact ⟨_, _, _, _, hdigits, hread⟩

/-- An escaped code point is read as one element. A number needs something behind it. -/
theorem quotedUnits_escapePoint (opening : Text) (c next : CodePoint) (s : Text) :
    quotedUnits opening (escapePoint c ++ next :: s) =
      (quotedUnits opening (next :: s)).map fun r => (unitOf c :: r.1, r.2) := by
  by_cases hquote : c = CodePoint.ofChar '"'
  · rw [hquote]
    exact quotedUnits_short opening (by decide) (by decide) _
  by_cases hback : c = CodePoint.ofChar '\\'
  · rw [hback]
    exact quotedUnits_short opening (by decide) (by decide) _
  by_cases hn : c = CodePoint.ofChar '\n'
  · rw [hn]
    exact quotedUnits_short opening (by decide) (by decide) _
  by_cases hr : c = CodePoint.ofChar '\r'
  · rw [hr]
    exact quotedUnits_short opening (by decide) (by decide) _
  by_cases ht : c = CodePoint.ofChar '\t'
  · rw [ht]
    exact quotedUnits_short opening (by decide) (by decide) _
  by_cases hf : c.val = 0x0C
  · rw [show c = CodePoint.ofNat 0x0C from Fin.ext hf]
    exact quotedUnits_short opening (by decide) (by decide) _
  by_cases hb : c.val = 0x08
  · rw [show c = CodePoint.ofNat 0x08 from Fin.ext hb]
    exact quotedUnits_short opening (by decide) (by decide) _
  simp only [escapePoint, beq_iff_eq, hquote, hback, hn, hr, ht, hf, hb, if_false]
  by_cases hlow : c.val < 0x20
  · obtain ⟨h₁, h₂, h₃, h₄, hhex, hread⟩ := hex4?_hex hlow
    have hlead : ("\\u" : Text) = [CodePoint.ofChar '\\', CodePoint.ofChar 'u'] := by decide
    have hunit : unitOf c = .escaped c.val := by simp [unitOf, hlow, hn, hr, ht, hf, hb]
    rw [if_pos hlow, hlead, hhex, hunit]
    exact quotedUnits_unicode opening hread next s
  · have hunit : unitOf c = .raw c := by simp [unitOf, hlow]
    rw [if_neg hlow, hunit]
    exact quotedUnits_raw opening hquote hback hlow _

theorem quotedUnits_escape (opening s rest : Text) :
    quotedUnits opening (escape s ++ CodePoint.ofChar '"' :: rest) = .ok (s.map unitOf, rest) := by
  induction s with
  | nil => exact quotedUnits_quote opening rest
  | cons c s ih =>
    rw [escape_cons, List.append_assoc]
    cases hs : escape s ++ CodePoint.ofChar '"' :: rest with
    | nil => simp at hs
    | cons next tail =>
      rw [quotedUnits_escapePoint, ← hs, ih]
      rfl

/-- No number written names half of a pair. -/
theorem joinUnits_unitOf (c : CodePoint) (units : List QuotedUnit) :
    joinUnits (unitOf c :: units) = c :: joinUnits units := by
  unfold unitOf
  split
  · rename_i h
    have hpoint : CodePoint.ofNat c.val = c := Fin.ofNat_val_eq_self c
    cases units with
    | nil => simp [joinUnits, hpoint]
    | cons u units =>
      cases u with
      | raw d => simp [joinUnits, hpoint]
      | escaped n =>
        have hlow : ¬ 0xD800 ≤ c.val := by omega
        rw [joinUnits]
        simp [hlow, hpoint]
  · rw [joinUnits]

theorem joinUnits_map_unitOf (s : Text) : joinUnits (s.map unitOf) = s := by
  induction s with
  | nil => rfl
  | cons c s ih => rw [List.map_cons, joinUnits_unitOf, ih]

/-- A quoted text is read back, whatever its code points. -/
theorem quoted_escape (opening s rest : Text) :
    quoted opening (escape s ++ CodePoint.ofChar '"' :: rest) = .ok (s, rest) := by
  rw [quoted, quotedUnits_escape]
  simp only [Except.map, joinUnits_map_unitOf]

/-- What holds of the escapes of ASCII, one by one, and of all other code points, which stand for
themselves, holds of every code point and its escape. -/
theorem escapePoint_cases {P : CodePoint → Text → Prop}
    (ascii : ∀ n ∈ List.range 0x80, P (.ofNat n) (escapePoint (.ofNat n)))
    (other : ∀ c : CodePoint, 0x80 ≤ c.val → P c [c]) (c : CodePoint) : P c (escapePoint c) := by
  by_cases hlow : c.val < 0x80
  · have h := ascii c.val (List.mem_range.mpr hlow)
    rwa [show CodePoint.ofNat c.val = c from Fin.ofNat_val_eq_self c] at h
  · have hne : ∀ d : CodePoint, d.val < 0x80 → c ≠ d := by
      rintro d hd rfl
      exact hlow hd
    have hval : ∀ n, n < 0x80 → c.val ≠ n := fun n hn h => hlow (h ▸ hn)
    have hcontrol : ¬ c.val < 0x20 := by omega
    have hself : escapePoint c = [c] := by
      simp [escapePoint, hne _ (show (CodePoint.ofChar '"').val < 0x80 by decide),
        hne _ (show (CodePoint.ofChar '\\').val < 0x80 by decide),
        hne _ (show (CodePoint.ofChar '\n').val < 0x80 by decide),
        hne _ (show (CodePoint.ofChar '\r').val < 0x80 by decide),
        hne _ (show (CodePoint.ofChar '\t').val < 0x80 by decide),
        hval 0x0C (by decide), hval 0x08 (by decide), hcontrol]
    rw [hself]
    exact other c (Nat.le_of_not_lt hlow)

theorem all_escapePoint (c : CodePoint) : (escapePoint c).all (0x20 ≤ ·.val) = true := by
  refine escapePoint_cases (P := fun _ s => s.all (0x20 ≤ ·.val) = true) ?ascii ?other c
  case ascii => decide +kernel
  case other =>
    intro c hc
    have hcontrol : 0x20 ≤ c.val := by omega
    simpa using hcontrol

/-- An escaped text has no control characters. -/
theorem le_of_mem_escape {s : Text} {c : CodePoint} (h : c ∈ escape s) : 0x20 ≤ c.val := by
  rw [escape, List.mem_flatMap] at h
  obtain ⟨d, -, hc⟩ := h
  exact of_decide_eq_true (List.all_eq_true.mp (all_escapePoint d) c hc)

end LiveTree.Json
