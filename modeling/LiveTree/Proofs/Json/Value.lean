import LiveTree.Json.Writer
import LiveTree.Proofs.Json.Double
import LiveTree.Proofs.Json.Quoted

namespace LiveTree.Json

mutual

/-- What a reader can build: its integers have at most `Numeral.maxDigits` digits, and no object
has a key twice. -/
def Readable : Json → Prop
  | int n => (Nat.toDigits 10 n.natAbs).length ≤ Numeral.maxDigits
  | list items => ReadableItems items
  | object members => (members.map Prod.fst).Nodup ∧ ReadableMembers members
  | _ => True

def ReadableItems : List Json → Prop
  | [] => True
  | item :: items => Readable item ∧ ReadableItems items

def ReadableMembers : List (Text × Json) → Prop
  | [] => True
  | (_, value) :: members => Readable value ∧ ReadableMembers members

end

theorem write_text (s : Text) :
    write (.text s) = CodePoint.ofChar '"' :: (escape s ++ [CodePoint.ofChar '"']) := by
  have hquote : ("\"" : Text) = [CodePoint.ofChar '"'] := by decide
  rw [write, quote, hquote, List.singleton_append, List.cons_append]

theorem write_list (items : List Json) :
    write (.list items) = CodePoint.ofChar '[' :: (writeItems items ++ [CodePoint.ofChar ']']) := by
  have hopen : ("[" : Text) = [CodePoint.ofChar '['] := by decide
  have hclose : ("]" : Text) = [CodePoint.ofChar ']'] := by decide
  rw [write, hopen, hclose, List.singleton_append, List.cons_append]

theorem write_object (members : List (Text × Json)) :
    write (.object members) =
      CodePoint.ofChar '\x7b' :: (writeMembers members ++ [CodePoint.ofChar '\x7d']) := by
  have hopen : ("\x7b" : Text) = [CodePoint.ofChar '\x7b'] := by decide
  have hclose : ("\x7d" : Text) = [CodePoint.ofChar '\x7d'] := by decide
  rw [write, hopen, hclose, List.singleton_append, List.cons_append]

/-- What separates two elements. -/
def comma : Text := [CodePoint.ofChar ',', CodePoint.ofChar ' ']

theorem writeItems_cons {items : List Json} (item : Json) (h : items ≠ []) :
    writeItems (item :: items) = write item ++ (comma ++ writeItems items) := by
  have hcomma : (", " : Text) = comma := by decide
  cases items with
  | nil => exact absurd rfl h
  | cons next items =>
    rw [writeItems, hcomma, List.append_assoc]
    exact h

/-- A named value. -/
def writeMember (key : Text) (value : Json) : Text :=
  quote key ++ (CodePoint.ofChar ':' :: CodePoint.ofChar ' ' :: write value)

theorem writeMembers_singleton (key : Text) (value : Json) :
    writeMembers [(key, value)] = writeMember key value := by
  have hcolon : (": " : Text) = [CodePoint.ofChar ':', CodePoint.ofChar ' '] := by decide
  rw [writeMembers, hcolon, writeMember, List.append_assoc]
  rfl

theorem writeMembers_cons {members : List (Text × Json)} (key : Text) (value : Json)
    (h : members ≠ []) :
    writeMembers ((key, value) :: members) =
      writeMember key value ++ (comma ++ writeMembers members) := by
  have hcolon : (": " : Text) = [CodePoint.ofChar ':', CodePoint.ofChar ' '] := by decide
  have hcomma : (", " : Text) = comma := by decide
  cases members with
  | nil => exact absurd rfl h
  | cons next members =>
    rw [writeMembers, hcolon, hcomma, writeMember]
    · simp only [List.append_assoc, List.cons_append, List.nil_append]
    · exact h

/-- Whether a value can begin with this code point. -/
def Starts (c : CodePoint) : Prop :=
  isSpace c = false ∧ c ≠ ']' ∧ c ≠ '\x7d' ∧ c ≠ .ofNat 0xFEFF

theorem skipSpace_cons {c : CodePoint} (h : isSpace c = false) (s : Text) :
    skipSpace (c :: s) = c :: s := List.dropWhile_cons_of_neg (by simp [h])

theorem starts_of_digit {c : CodePoint} (h : c.isAsciiDigit = true) : Starts c := by
  have hne : ∀ d : CodePoint, d.isAsciiDigit = false → c ≠ d := fun d => ne_of_digit h
  refine ⟨?_, hne _ (by decide), hne _ (by decide), hne _ (by decide)⟩
  simp only [isSpace, Bool.or_eq_false_iff, beq_eq_false_iff_ne]
  exact ⟨⟨⟨hne _ (by decide), hne _ (by decide)⟩, hne _ (by decide)⟩, hne _ (by decide)⟩

/-- The text of a number: perhaps a minus, and a digit first. -/
def IsNumeral (s : Text) : Prop := ∃ negative c t, s = signed negative (c :: t) ∧
  c.isAsciiDigit = true

theorem IsNumeral.append {s : Text} (h : IsNumeral s) (rest : Text) : IsNumeral (s ++ rest) := by
  obtain ⟨negative, c, t, rfl, hc⟩ := h
  exact ⟨negative, c, t ++ rest, signed_append negative (c :: t) rest, hc⟩

theorem IsWhole.isNumeral {w : Text} (h : IsWhole w) (negative : Bool) (s : Text) :
    IsNumeral (signed negative (w ++ s)) := by
  obtain ⟨c, t, rfl, hc⟩ := h.head
  exact ⟨negative, c, t ++ s, rfl, hc⟩

theorem isNumeral_ofInt (n : Int) : IsNumeral (Text.ofInt n) := by
  have h := (IsWhole.ofNat n.natAbs).isNumeral (decide (n < 0)) []
  rwa [List.append_nil, ← ofInt_eq_signed] at h

theorem isNumeral_write_float {x : Float} {negative : Bool} {mantissa : Nat} {exponent : Int}
    (hx : Binary64.parts x = .number negative mantissa exponent) :
    IsNumeral (Decimal.Layout.json.write x) := by
  obtain ⟨v, hwrite, -⟩ := write_number hx
  obtain ⟨t, -, ht⟩ := exists_doubleText v
  rw [hwrite, ← ht, DoubleText.text]
  exact t.isWhole.isNumeral negative _

theorem IsNumeral.word? {s : Text} (h : IsNumeral s) : word? s = none := by
  obtain ⟨negative, c, t, rfl, hc⟩ := h
  have hne : ∀ d : CodePoint, d.isAsciiDigit = false → d ≠ c := fun d hd => (ne_of_digit hc hd).symm
  have hI := hne (CodePoint.ofChar 'I') (by decide)
  have hn := hne (CodePoint.ofChar 'n') (by decide)
  cases negative with
  | true =>
    have hu := hne (CodePoint.ofChar 'u') (by decide)
    have hr := hne (CodePoint.ofChar 'r') (by decide)
    have ha := hne (CodePoint.ofChar 'a') (by decide)
    simp [Json.word?, words, List.isPrefixOf?, Text.ofString, signed, hI, hn, hu, hr, ha]
  | false =>
    have ht := hne (CodePoint.ofChar 't') (by decide)
    have hf := hne (CodePoint.ofChar 'f') (by decide)
    have hN := hne (CodePoint.ofChar 'N') (by decide)
    have hminus := hne (CodePoint.ofChar '-') (by decide)
    simp [Json.word?, words, List.isPrefixOf?, Text.ofString, signed, hn, ht, hf, hN, hI, hminus]

/-- A numeral is read as a number, for it begins like nothing else. -/
theorem IsNumeral.value {s : Text} (h : IsNumeral s) (fuel room : Nat) :
    value (fuel + 1) room s = number s := by
  have hword := h.word?
  obtain ⟨negative, c, t, rfl, hc⟩ := h
  cases negative with
  | true =>
    rw [signed, if_pos rfl] at hword ⊢
    have hquote : (CodePoint.ofChar '-' == CodePoint.ofChar '"') = false := by decide
    have hlist : (CodePoint.ofChar '-' == CodePoint.ofChar '[') = false := by decide
    have hobject : (CodePoint.ofChar '-' == CodePoint.ofChar '\x7b') = false := by decide
    simp only [Json.value, hquote, hlist, hobject, Bool.false_eq_true, if_false, hword]
  | false =>
    rw [signed, if_neg Bool.false_ne_true] at hword ⊢
    have hquote : (c == CodePoint.ofChar '"') = false :=
      beq_false_of_ne (ne_of_digit hc (by decide))
    have hlist : (c == CodePoint.ofChar '[') = false :=
      beq_false_of_ne (ne_of_digit hc (by decide))
    have hobject : (c == CodePoint.ofChar '\x7b') = false :=
      beq_false_of_ne (ne_of_digit hc (by decide))
    simp only [Json.value, hquote, hlist, hobject, Bool.false_eq_true, if_false, hword]

theorem value_ofInt {n : Int} (hn : Readable (.int n)) (fuel room : Nat) {rest : Text}
    (hrest : Ends rest) : value (fuel + 1) room (Text.ofInt n ++ rest) = .ok (.int n, rest) := by
  rw [((isNumeral_ofInt n).append rest).value, number_ofInt hn hrest]

theorem value_write_float (x : Float) (fuel room : Nat) {rest : Text} (hrest : Ends rest) :
    value (fuel + 1) room (Decimal.Layout.json.write x ++ rest) = .ok (.float x, rest) := by
  cases hx : Binary64.parts x with
  | nan =>
    have hnan := Binary64.of_parts x
    rw [hx] at hnan
    have hwrite : Decimal.Layout.json.write x = ("NaN" : Text) := by
      simp only [Decimal.Layout.write, hx]
      rfl
    rw [hwrite, hnan]
    rfl
  | infinite negative =>
    have hinf := Binary64.of_parts x
    rw [hx] at hinf
    have hwrite : Decimal.Layout.json.write x = signed negative ("Infinity" : Text) := by
      simp only [Decimal.Layout.write, hx]
      rfl
    rw [hwrite, hinf]
    cases negative <;> rfl
  | number negative mantissa exponent =>
    rw [((isNumeral_write_float hx).append rest).value, number_write_float hx hrest]

theorem IsNumeral.head {s : Text} (h : IsNumeral s) : ∃ c t, s = c :: t ∧ Starts c := by
  obtain ⟨negative, c, t, rfl, hc⟩ := h
  cases negative with
  | true => exact ⟨_, c :: t, rfl, by decide, by decide, by decide, by decide⟩
  | false => exact ⟨c, t, rfl, starts_of_digit hc⟩

theorem write_float_head (x : Float) :
    ∃ c t, Decimal.Layout.json.write x = c :: t ∧ Starts c := by
  cases hx : Binary64.parts x with
  | nan =>
    refine ⟨_, _, by simp only [Decimal.Layout.write, hx]; rfl, ?_⟩
    exact ⟨by decide, by decide, by decide, by decide⟩
  | infinite negative =>
    cases negative with
    | true =>
      refine ⟨_, _, by simp only [Decimal.Layout.write, hx]; rfl, ?_⟩
      exact ⟨by decide, by decide, by decide, by decide⟩
    | false =>
      refine ⟨_, _, by simp only [Decimal.Layout.write, hx]; rfl, ?_⟩
      exact ⟨by decide, by decide, by decide, by decide⟩
  | number negative mantissa exponent => exact (isNumeral_write_float hx).head

theorem write_head (v : Json) : ∃ c t, write v = c :: t ∧ Starts c := by
  cases v with
  | null => exact ⟨_, _, rfl, by decide, by decide, by decide, by decide⟩
  | bool b => cases b <;> exact ⟨_, _, rfl, by decide, by decide, by decide, by decide⟩
  | int n => exact (isNumeral_ofInt n).head
  | float x => exact write_float_head x
  | text s => exact ⟨_, _, write_text s, by decide, by decide, by decide, by decide⟩
  | list items => exact ⟨_, _, write_list items, by decide, by decide, by decide, by decide⟩
  | object members => exact ⟨_, _, write_object members, by decide, by decide, by decide, by decide⟩

end LiveTree.Json
