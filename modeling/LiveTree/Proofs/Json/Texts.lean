import LiveTree.Proofs.Json.Value

namespace LiveTree.Json

mutual

/-- Every text in a value, the keys among them. -/
def texts : Json → List Text
  | text s => [s]
  | list items => textsOfItems items
  | object members => textsOfMembers members
  | _ => []

def textsOfItems : List Json → List Text
  | [] => []
  | item :: items => texts item ++ textsOfItems items

def textsOfMembers : List (Text × Json) → List Text
  | [] => []
  | (key, value) :: members => key :: (texts value ++ textsOfMembers members)

end

/-- Whether a text has no octets. -/
def hasSurrogate (s : Text) : Bool := s.any CodePoint.isSurrogate

@[simp] theorem hasSurrogate_nil : hasSurrogate [] = false := rfl

@[simp] theorem hasSurrogate_cons (c : CodePoint) (s : Text) :
    hasSurrogate (c :: s) = (c.isSurrogate || hasSurrogate s) := rfl

@[simp] theorem hasSurrogate_append (s t : Text) :
    hasSurrogate (s ++ t) = (hasSurrogate s || hasSurrogate t) := List.any_append

theorem hasSurrogate_eq_false {s : Text} :
    hasSurrogate s = false ↔ ∀ c ∈ s, c.isSurrogate = false := by
  simp [hasSurrogate, List.any_eq_false]

theorem any_hasSurrogate_eq_false {texts : List Text} :
    texts.any hasSurrogate = false ↔ ∀ s ∈ texts, ∀ c ∈ s, c.isSurrogate = false := by
  simp only [List.any_eq_false, Bool.not_eq_true, hasSurrogate_eq_false]

theorem hasSurrogate_of_digits {s : Text} (h : ∀ c ∈ s, c.isAsciiDigit = true) :
    hasSurrogate s = false := by
  apply hasSurrogate_eq_false.mpr
  intro c hc
  have hdigit := h c hc
  simp only [CodePoint.isAsciiDigit, Bool.and_eq_true, decide_eq_true_eq] at hdigit
  simp only [CodePoint.isSurrogate, Bool.and_eq_false_iff, decide_eq_false_iff_not]
  omega

theorem hasSurrogate_escapePoint (c : CodePoint) :
    hasSurrogate (escapePoint c) = c.isSurrogate := by
  refine escapePoint_cases (P := fun c s => hasSurrogate s = c.isSurrogate) ?ascii ?other c
  case ascii => decide +kernel
  case other => simp

theorem hasSurrogate_escape (s : Text) : hasSurrogate (escape s) = hasSurrogate s := by
  induction s with
  | nil => rfl
  | cons c s ih =>
    rw [escape_cons, hasSurrogate_append, hasSurrogate_escapePoint, ih, hasSurrogate_cons]

theorem hasSurrogate_signed (negative : Bool) (s : Text) :
    hasSurrogate (signed negative s) = hasSurrogate s := by
  cases negative <;> rfl

theorem hasSurrogate_ofInt (n : Int) : hasSurrogate (Text.ofInt n) = false := by
  rw [ofInt_eq_signed, hasSurrogate_signed]
  exact hasSurrogate_of_digits (IsWhole.ofNat n.natAbs).digits

theorem DoubleText.hasSurrogate_text (t : DoubleText) : hasSurrogate t.text = false := by
  have hpoint : hasSurrogate (if t.fraction.isEmpty then [] else ("." ++ t.fraction : Text)) =
      false := by
    split
    · rfl
    · rw [hasSurrogate_append, hasSurrogate_of_digits t.digits]
      decide
  have hending : hasSurrogate t.ending = false := by
    rw [DoubleText.ending]
    cases t.power with
    | none => rfl
    | some e =>
      have hdigits : ∀ c ∈ Decimal.zeros (2 - (Text.ofNat e.natAbs).length) ++ Text.ofNat e.natAbs,
          c.isAsciiDigit = true := fun c => isAsciiDigit_of_mem_zeros_append
      rw [Option.map_some, Option.getD_some, exponentText_eq, hasSurrogate_cons, hasSurrogate_cons,
        hasSurrogate_of_digits hdigits]
      split <;> decide
  rw [DoubleText.text, hasSurrogate_append, hasSurrogate_append,
    hasSurrogate_of_digits t.isWhole.digits, hpoint, hending]
  rfl

theorem hasSurrogate_write_float (x : Float) :
    hasSurrogate (Decimal.Layout.json.write x) = false := by
  cases hx : Binary64.parts x with
  | nan =>
    simp only [Decimal.Layout.write, hx]
    decide
  | infinite negative =>
    simp only [Decimal.Layout.write, hx]
    cases negative <;> decide
  | number negative mantissa exponent =>
    obtain ⟨v, hwrite, -⟩ := write_number hx
    obtain ⟨t, -, ht⟩ := exists_doubleText v
    rw [hwrite, ← ht, hasSurrogate_signed, t.hasSurrogate_text]

theorem hasSurrogate_between {a b : CodePoint} (ha : a.isSurrogate = false)
    (hb : b.isSurrogate = false) (s : Text) :
    hasSurrogate (a :: (s ++ [b])) = hasSurrogate s := by
  rw [hasSurrogate_cons, hasSurrogate_append, hasSurrogate_cons, hasSurrogate_nil, ha, hb,
    Bool.false_or, Bool.false_or, Bool.or_false]

theorem hasSurrogate_comma_append (s : Text) : hasSurrogate (comma ++ s) = hasSurrogate s := by
  rw [hasSurrogate_append]
  rfl

theorem hasSurrogate_quote (s : Text) : hasSurrogate (quote s) = hasSurrogate s := by
  have hquote : hasSurrogate ("\"" : Text) = false := by decide
  rw [quote, hasSurrogate_append, hasSurrogate_append, hquote, hasSurrogate_escape, Bool.false_or,
    Bool.or_false]

theorem hasSurrogate_writeMember (key : Text) (v : Json) :
    hasSurrogate (writeMember key v) = (hasSurrogate key || hasSurrogate (write v)) := by
  rw [writeMember, hasSurrogate_append, hasSurrogate_quote]
  rfl

mutual

/-- The surrogates in written text are those of its texts. -/
theorem hasSurrogate_write (v : Json) :
    hasSurrogate (write v) = (texts v).any hasSurrogate := by
  cases v with
  | null => rfl
  | bool b => cases b <;> rfl
  | int n => exact hasSurrogate_ofInt n
  | float x => exact hasSurrogate_write_float x
  | text s =>
    rw [write_text, hasSurrogate_between (by decide) (by decide), hasSurrogate_escape, texts,
      List.any_cons, List.any_nil, Bool.or_false]
  | list elements =>
    rw [write_list, hasSurrogate_between (by decide) (by decide), hasSurrogate_writeItems elements,
      texts]
  | object pairs =>
    rw [write_object, hasSurrogate_between (by decide) (by decide),
      hasSurrogate_writeMembers pairs, texts]

theorem hasSurrogate_writeItems (elements : List Json) :
    hasSurrogate (writeItems elements) = (textsOfItems elements).any hasSurrogate := by
  cases elements with
  | nil => rfl
  | cons item elements =>
    rw [textsOfItems, List.any_append, ← hasSurrogate_write item,
      ← hasSurrogate_writeItems elements]
    by_cases hnil : elements = []
    · rw [hnil, writeItems, writeItems, hasSurrogate_nil, Bool.or_false]
    · rw [writeItems_cons item hnil, hasSurrogate_append, hasSurrogate_comma_append]

theorem hasSurrogate_writeMembers (pairs : List (Text × Json)) :
    hasSurrogate (writeMembers pairs) = (textsOfMembers pairs).any hasSurrogate := by
  cases pairs with
  | nil => rfl
  | cons pair pairs =>
    obtain ⟨key, v⟩ := pair
    rw [textsOfMembers, List.any_cons, List.any_append, ← hasSurrogate_write v,
      ← hasSurrogate_writeMembers pairs, ← Bool.or_assoc, ← hasSurrogate_writeMember]
    by_cases hnil : pairs = []
    · rw [hnil, writeMembers_singleton, writeMembers, hasSurrogate_nil, Bool.or_false]
    · rw [writeMembers_cons key v hnil, hasSurrogate_append, hasSurrogate_comma_append]

end

end LiveTree.Json
