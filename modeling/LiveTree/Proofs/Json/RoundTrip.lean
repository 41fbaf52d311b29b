import LiveTree.Proofs.Association
import LiveTree.Proofs.Json.Value

namespace LiveTree.Json

theorem value_text (fuel room : Nat) (s rest : Text) :
    value (fuel + 1) room (write (.text s) ++ rest) = .ok (.text s, rest) := by
  rw [write_text, List.cons_append, List.append_assoc, List.singleton_append, value.eq_def]
  simp [quoted_escape, Except.map]

theorem value_list {fuel room : Nat} {c : CodePoint} (hc : Starts c) (s : Text) :
    value (fuel + 1) (room + 1) (CodePoint.ofChar '[' :: c :: s) =
      (items fuel room (c :: s)).map fun r => (.list r.1, r.2) := by
  have hquote : (CodePoint.ofChar '[' == CodePoint.ofChar '"') = false := by decide
  have hclose : (c == CodePoint.ofChar ']') = false := beq_false_of_ne hc.2.1
  rw [value.eq_def]
  simp [hquote, skipSpace_cons hc.1, hclose]

theorem value_list_deep (fuel : Nat) (s : Text) :
    value (fuel + 1) 0 (CodePoint.ofChar '[' :: s) =
      .error ⟨.nesting, CodePoint.ofChar '[' :: s⟩ := by
  have hquote : (CodePoint.ofChar '[' == CodePoint.ofChar '"') = false := by decide
  rw [value.eq_def]
  simp [hquote]

theorem value_object (fuel room : Nat) (s : Text) :
    value (fuel + 1) (room + 1) (CodePoint.ofChar '\x7b' :: CodePoint.ofChar '"' :: s) =
      (members fuel room (CodePoint.ofChar '"' :: s)).map fun r =>
        (.object (Association.collapse r.1), r.2) := by
  have hquote : (CodePoint.ofChar '\x7b' == CodePoint.ofChar '"') = false := by decide
  have hlist : (CodePoint.ofChar '\x7b' == CodePoint.ofChar '[') = false := by decide
  have hspace : isSpace (CodePoint.ofChar '"') = false := by decide
  have hclose : (CodePoint.ofChar '"' == CodePoint.ofChar '\x7d') = false := by decide
  rw [value.eq_def]
  simp [hquote, hlist, skipSpace_cons hspace, hclose]

theorem value_object_deep (fuel : Nat) (s : Text) :
    value (fuel + 1) 0 (CodePoint.ofChar '\x7b' :: s) =
      .error ⟨.nesting, CodePoint.ofChar '\x7b' :: s⟩ := by
  have hquote : (CodePoint.ofChar '\x7b' == CodePoint.ofChar '"') = false := by decide
  have hlist : (CodePoint.ofChar '\x7b' == CodePoint.ofChar '[') = false := by decide
  rw [value.eq_def]
  simp [hquote, hlist]

section Elements

variable {fuel room : Nat} {s : Text}

theorem items_last {item : Json} {rest : Text}
    (h : value fuel room s = .ok (item, CodePoint.ofChar ']' :: rest)) :
    items (fuel + 1) room s = .ok ([item], rest) := by
  have hspace : isSpace (CodePoint.ofChar ']') = false := by decide
  rw [items.eq_def]
  simp [h, skipSpace_cons hspace]

theorem items_next {item : Json} {c : CodePoint} (hc : Starts c) {rest : Text}
    (h : value fuel room s = .ok (item, comma ++ c :: rest)) :
    items (fuel + 1) room s =
      (items fuel room (c :: rest)).map fun r => (item :: r.1, r.2) := by
  have hspace : isSpace (CodePoint.ofChar ',') = false := by decide
  have hclose : (CodePoint.ofChar ',' == CodePoint.ofChar ']') = false := by decide
  have hblank : skipSpace (CodePoint.ofChar ' ' :: c :: rest) = c :: rest :=
    skipSpace_cons hc.1 rest
  rw [items.eq_def]
  simp [h, comma, skipSpace_cons hspace, hclose, hblank]

theorem items_error {stop : Stop} (h : value fuel room s = .error stop) :
    items (fuel + 1) room s = .error stop := by
  rw [items.eq_def]
  simp [h]

theorem writeMember_append (key : Text) (v : Json) :
    writeMember key v ++ s = CodePoint.ofChar '"' :: (escape key ++ CodePoint.ofChar '"' ::
      CodePoint.ofChar ':' :: CodePoint.ofChar ' ' :: (write v ++ s)) := by
  have hquote : ("\"" : Text) = [CodePoint.ofChar '"'] := by decide
  rw [writeMember, quote, hquote]
  simp only [List.append_assoc, List.cons_append, List.nil_append]

theorem skipSpace_blank_write (v : Json) :
    skipSpace (CodePoint.ofChar ' ' :: (write v ++ s)) = write v ++ s := by
  obtain ⟨c, t, hw, hc⟩ := write_head v
  rw [hw, List.cons_append]
  exact skipSpace_cons hc.1 _

/-- A name is read, and what decides is the value behind it. -/
theorem members_write (key : Text) (v : Json) :
    members (fuel + 1) room (writeMember key v ++ s) =
      match value fuel room (write v ++ s) with
      | .error stop => .error stop
      | .ok (item, rest) =>
        match skipSpace rest with
        | [] => .error ⟨.comma, []⟩
        | c :: rest =>
          if c == '\x7d' then .ok ([(key, item)], rest)
          else if c == ',' then
            (members fuel room (skipSpace rest)).map fun r => ((key, item) :: r.1, r.2)
          else .error ⟨.comma, c :: rest⟩ := by
  have hspace : isSpace (CodePoint.ofChar ':') = false := by decide
  rw [writeMember_append, members.eq_def]
  cases hvalue : value fuel room (write v ++ s) with
  | error stop =>
    simp [quoted_escape, skipSpace_cons hspace, skipSpace_blank_write, hvalue]
  | ok read =>
    cases hrest : skipSpace read.2 <;>
      simp [quoted_escape, skipSpace_cons hspace, skipSpace_blank_write, hvalue, hrest]

theorem members_last {key : Text} {v item : Json} {rest : Text}
    (h : value fuel room (write v ++ s) = .ok (item, CodePoint.ofChar '\x7d' :: rest)) :
    members (fuel + 1) room (writeMember key v ++ s) = .ok ([(key, item)], rest) := by
  have hspace : isSpace (CodePoint.ofChar '\x7d') = false := by decide
  rw [members_write, h]
  simp [skipSpace_cons hspace]

theorem members_next {key : Text} {v item : Json} {c : CodePoint} (hc : Starts c) {rest : Text}
    (h : value fuel room (write v ++ s) = .ok (item, comma ++ c :: rest)) :
    members (fuel + 1) room (writeMember key v ++ s) =
      (members fuel room (c :: rest)).map fun r => ((key, item) :: r.1, r.2) := by
  have hspace : isSpace (CodePoint.ofChar ',') = false := by decide
  have hclose : (CodePoint.ofChar ',' == CodePoint.ofChar '\x7d') = false := by decide
  have hblank : skipSpace (CodePoint.ofChar ' ' :: c :: rest) = c :: rest :=
    skipSpace_cons hc.1 rest
  rw [members_write, h]
  simp [comma, skipSpace_cons hspace, hclose, hblank]

theorem members_error {key : Text} {v : Json} {stop : Stop}
    (h : value fuel room (write v ++ s) = .error stop) :
    members (fuel + 1) room (writeMember key v ++ s) = .error stop := by
  rw [members_write, h]

end Elements

theorem ends_comma (s : Text) : Ends (comma ++ s) := ends_cons (Or.inl rfl) _

theorem writeItems_head {items : List Json} (h : items ≠ []) :
    ∃ c t, writeItems items = c :: t ∧ Starts c := by
  cases items with
  | nil => exact absurd rfl h
  | cons item items =>
    obtain ⟨c, t, hw, hc⟩ := write_head item
    by_cases hnil : items = []
    · rw [hnil, writeItems]
      exact ⟨c, t, hw, hc⟩
    · rw [writeItems_cons item hnil, hw]
      exact ⟨c, _, rfl, hc⟩

theorem writeMembers_head {members : List (Text × Json)} (h : members ≠ []) :
    ∃ t, writeMembers members = CodePoint.ofChar '"' :: t := by
  cases members with
  | nil => exact absurd rfl h
  | cons member members =>
    obtain ⟨key, v⟩ := member
    by_cases hnil : members = []
    · rw [hnil, writeMembers_singleton, ← List.append_nil (writeMember key v), writeMember_append]
      exact ⟨_, rfl⟩
    · rw [writeMembers_cons key v hnil, writeMember_append]
      exact ⟨_, rfl⟩

theorem length_writeItems_cons {items : List Json} (item : Json) (h : items ≠ []) :
    (writeItems (item :: items)).length = (write item).length + 2 + (writeItems items).length := by
  rw [writeItems_cons item h, List.length_append, List.length_append]
  simp [comma]
  omega

theorem length_writeMembers_cons {members : List (Text × Json)} (key : Text) (v : Json)
    (h : members ≠ []) : (writeMembers ((key, v) :: members)).length =
      (writeMember key v).length + 2 + (writeMembers members).length := by
  rw [writeMembers_cons key v h, List.length_append, List.length_append]
  simp [comma]
  omega

/-- What is written has at least one code point, so that a reader takes a step. -/
theorem exists_fuel {v : Json} {fuel : Nat} (h : 2 * (write v).length ≤ fuel) :
    ∃ rest, fuel = rest + 1 := by
  obtain ⟨c, t, hw, -⟩ := write_head v
  rw [hw, List.length_cons] at h
  exact ⟨fuel - 1, by omega⟩

theorem length_write_le (key : Text) (v : Json) :
    (write v).length ≤ (writeMember key v).length := by
  rw [writeMember, List.length_append, List.length_cons, List.length_cons]
  omega

section Steps

variable {fuel room : Nat}

theorem value_write_list {elements : List Json} (hne : elements ≠ []) (rest : Text) :
    value (fuel + 1) (room + 1) (write (.list elements) ++ rest) =
      (items fuel room (writeItems elements ++ CodePoint.ofChar ']' :: rest)).map fun r =>
        (.list r.1, r.2) := by
  obtain ⟨c, t, hw, hc⟩ := writeItems_head hne
  rw [write_list, List.cons_append, List.append_assoc, List.singleton_append, hw, List.cons_append,
    value_list hc]

theorem value_write_object {pairs : List (Text × Json)} (hne : pairs ≠ []) (rest : Text) :
    value (fuel + 1) (room + 1) (write (.object pairs) ++ rest) =
      (members fuel room (writeMembers pairs ++ CodePoint.ofChar '\x7d' :: rest)).map fun r =>
        (.object (Association.collapse r.1), r.2) := by
  obtain ⟨t, hw⟩ := writeMembers_head hne
  rw [write_object, List.cons_append, List.append_assoc, List.singleton_append, hw,
    List.cons_append, value_object]

theorem writeItems_append {elements : List Json} (item : Json) (hne : elements ≠ []) (s : Text) :
    writeItems (item :: elements) ++ s = write item ++ (comma ++ (writeItems elements ++ s)) := by
  rw [writeItems_cons item hne, List.append_assoc, List.append_assoc]

theorem writeMembers_append {pairs : List (Text × Json)} (key : Text) (v : Json)
    (hne : pairs ≠ []) (s : Text) :
    writeMembers ((key, v) :: pairs) ++ s =
      writeMember key v ++ (comma ++ (writeMembers pairs ++ s)) := by
  rw [writeMembers_cons key v hne, List.append_assoc, List.append_assoc]

theorem items_write_next {item : Json} {elements : List Json} (hne : elements ≠ []) {s : Text}
    (h : value fuel room (write item ++ (comma ++ (writeItems elements ++ s))) =
      .ok (item, comma ++ (writeItems elements ++ s))) :
    items (fuel + 1) room (writeItems (item :: elements) ++ s) =
      (items fuel room (writeItems elements ++ s)).map fun r => (item :: r.1, r.2) := by
  obtain ⟨c, t, hw, hc⟩ := writeItems_head hne
  rw [writeItems_append item hne]
  rw [hw, List.cons_append] at h ⊢
  exact items_next hc h

theorem members_write_next {key : Text} {v : Json} {pairs : List (Text × Json)} (hne : pairs ≠ [])
    {s : Text} (h : value fuel room (write v ++ (comma ++ (writeMembers pairs ++ s))) =
      .ok (v, comma ++ (writeMembers pairs ++ s))) :
    members (fuel + 1) room (writeMembers ((key, v) :: pairs) ++ s) =
      (members fuel room (writeMembers pairs ++ s)).map fun r => ((key, v) :: r.1, r.2) := by
  have hstarts : Starts (CodePoint.ofChar '"') := ⟨by decide, by decide, by decide, by decide⟩
  obtain ⟨t, hw⟩ := writeMembers_head hne
  rw [writeMembers_append key v hne]
  rw [hw, List.cons_append] at h ⊢
  exact members_next hstarts h

end Steps

mutual

/-- A value is read back from its text where there is room for it. -/
theorem value_write (v : Json) (hv : Readable v) {fuel room : Nat}
    (hfuel : 2 * (write v).length ≤ fuel) (hroom : depth v ≤ room) {rest : Text}
    (hrest : Ends rest) : value fuel room (write v ++ rest) = .ok (v, rest) := by
  -- Two steps for each code point are enough: an element costs one for itself and one for its
  -- place among the elements.
  obtain ⟨fuel, rfl⟩ := exists_fuel hfuel
  cases v with
  | null => rfl
  | bool b => cases b <;> rfl
  | int n => exact value_ofInt hv fuel room hrest
  | float x => exact value_write_float x fuel room hrest
  | text s => exact value_text fuel room s rest
  | list elements =>
    rw [depth] at hroom
    rw [Readable] at hv
    obtain ⟨room, rfl⟩ : ∃ r, room = r + 1 := ⟨room - 1, by omega⟩
    by_cases hnil : elements = []
    · rw [hnil]
      rfl
    · rw [write_list, List.length_cons, List.length_append, List.length_singleton] at hfuel
      have hitems : items fuel room (writeItems elements ++ CodePoint.ofChar ']' :: rest) =
          .ok (elements, rest) := items_write elements hnil hv (by omega) (by omega) rest
      rw [value_write_list hnil, hitems]
      rfl
  | object pairs =>
    rw [depth] at hroom
    rw [Readable] at hv
    obtain ⟨room, rfl⟩ : ∃ r, room = r + 1 := ⟨room - 1, by omega⟩
    by_cases hnil : pairs = []
    · rw [hnil]
      rfl
    · rw [write_object, List.length_cons, List.length_append, List.length_singleton] at hfuel
      have hmembers : members fuel room (writeMembers pairs ++ CodePoint.ofChar '\x7d' :: rest) =
          .ok (pairs, rest) := members_writeMembers pairs hnil hv.2 (by omega) (by omega) rest
      rw [value_write_object hnil, hmembers]
      simp only [Except.map, Association.collapse_of_nodup hv.1]

theorem items_write (elements : List Json) (hne : elements ≠ []) (hv : ReadableItems elements)
    {fuel room : Nat} (hfuel : 2 * (writeItems elements).length + 1 ≤ fuel)
    (hroom : depthItems elements ≤ room) (rest : Text) :
    items fuel room (writeItems elements ++ CodePoint.ofChar ']' :: rest) =
      .ok (elements, rest) := by
  obtain ⟨fuel, rfl⟩ : ∃ f, fuel = f + 1 := ⟨fuel - 1, by omega⟩
  cases elements with
  | nil => exact absurd rfl hne
  | cons item elements =>
    rw [depthItems] at hroom
    rw [ReadableItems] at hv
    by_cases hnil : elements = []
    · rw [hnil, writeItems] at hfuel ⊢
      exact items_last (value_write item hv.1 (by omega) (by omega)
        (ends_cons (Or.inr (Or.inl rfl)) rest))
    · rw [length_writeItems_cons item hnil] at hfuel
      have hvalue : value fuel room
          (write item ++ (comma ++ (writeItems elements ++ CodePoint.ofChar ']' :: rest))) =
          .ok (item, comma ++ (writeItems elements ++ CodePoint.ofChar ']' :: rest)) :=
        value_write item hv.1 (by omega) (by omega) (ends_comma _)
      have hitems : items fuel room (writeItems elements ++ CodePoint.ofChar ']' :: rest) =
          .ok (elements, rest) := items_write elements hnil hv.2 (by omega) (by omega) rest
      rw [items_write_next hnil hvalue, hitems]
      rfl

theorem members_writeMembers (pairs : List (Text × Json)) (hne : pairs ≠ [])
    (hv : ReadableMembers pairs) {fuel room : Nat}
    (hfuel : 2 * (writeMembers pairs).length + 1 ≤ fuel) (hroom : depthMembers pairs ≤ room)
    (rest : Text) :
    members fuel room (writeMembers pairs ++ CodePoint.ofChar '\x7d' :: rest) =
      .ok (pairs, rest) := by
  obtain ⟨fuel, rfl⟩ : ∃ f, fuel = f + 1 := ⟨fuel - 1, by omega⟩
  cases pairs with
  | nil => exact absurd rfl hne
  | cons pair pairs =>
    obtain ⟨key, v⟩ := pair
    have hlength := length_write_le key v
    rw [depthMembers] at hroom
    rw [ReadableMembers] at hv
    by_cases hnil : pairs = []
    · rw [hnil, writeMembers_singleton] at hfuel ⊢
      exact members_last (value_write v hv.1 (by omega) (by omega)
        (ends_cons (Or.inr (Or.inr rfl)) rest))
    · rw [length_writeMembers_cons key v hnil] at hfuel
      have hvalue : value fuel room
          (write v ++ (comma ++ (writeMembers pairs ++ CodePoint.ofChar '\x7d' :: rest))) =
          .ok (v, comma ++ (writeMembers pairs ++ CodePoint.ofChar '\x7d' :: rest)) :=
        value_write v hv.1 (by omega) (by omega) (ends_comma _)
      have hmembers : members fuel room (writeMembers pairs ++ CodePoint.ofChar '\x7d' :: rest) =
          .ok (pairs, rest) := members_writeMembers pairs hnil hv.2 (by omega) (by omega) rest
      rw [members_write_next hnil hvalue, hmembers]
      rfl

end

mutual

/-- Where there is no room for a value, the nesting stops the reader. -/
theorem value_write_deep (v : Json) (hv : Readable v) {fuel room : Nat}
    (hfuel : 2 * (write v).length ≤ fuel) (hroom : room < depth v) (rest : Text) :
    ∃ place, value fuel room (write v ++ rest) = .error ⟨.nesting, place⟩ := by
  obtain ⟨fuel, rfl⟩ := exists_fuel hfuel
  cases v with
  | null => exact absurd hroom (Nat.not_lt_zero room)
  | bool b => exact absurd hroom (Nat.not_lt_zero room)
  | int n => exact absurd hroom (Nat.not_lt_zero room)
  | float x => exact absurd hroom (Nat.not_lt_zero room)
  | text s => exact absurd hroom (Nat.not_lt_zero room)
  | list elements =>
    rw [depth] at hroom
    rw [Readable] at hv
    cases room with
    | zero =>
      rw [write_list]
      exact ⟨_, value_list_deep fuel _⟩
    | succ room =>
      have hnil : elements ≠ [] := by
        rintro rfl
        exact absurd hroom (by simp [depthItems])
      rw [write_list, List.length_cons, List.length_append, List.length_singleton] at hfuel
      obtain ⟨place, hitems⟩ : ∃ place, items fuel room
          (writeItems elements ++ CodePoint.ofChar ']' :: rest) = .error ⟨.nesting, place⟩ :=
        items_write_deep elements hv (by omega) (by omega) rest
      rw [value_write_list hnil, hitems]
      exact ⟨place, rfl⟩
  | object pairs =>
    rw [depth] at hroom
    rw [Readable] at hv
    cases room with
    | zero =>
      rw [write_object]
      exact ⟨_, value_object_deep fuel _⟩
    | succ room =>
      have hnil : pairs ≠ [] := by
        rintro rfl
        exact absurd hroom (by simp [depthMembers])
      rw [write_object, List.length_cons, List.length_append, List.length_singleton] at hfuel
      obtain ⟨place, hmembers⟩ : ∃ place, members fuel room
          (writeMembers pairs ++ CodePoint.ofChar '\x7d' :: rest) = .error ⟨.nesting, place⟩ :=
        members_write_deep pairs hv.2 (by omega) (by omega) rest
      rw [value_write_object hnil, hmembers]
      exact ⟨place, rfl⟩

theorem items_write_deep (elements : List Json) (hv : ReadableItems elements)
    {fuel room : Nat} (hfuel : 2 * (writeItems elements).length + 1 ≤ fuel)
    (hroom : room < depthItems elements) (rest : Text) :
    ∃ place, items fuel room (writeItems elements ++ CodePoint.ofChar ']' :: rest) =
      .error ⟨.nesting, place⟩ := by
  obtain ⟨fuel, rfl⟩ : ∃ f, fuel = f + 1 := ⟨fuel - 1, by omega⟩
  cases elements with
  | nil => exact absurd hroom (Nat.not_lt_zero room)
  | cons item elements =>
    rw [depthItems] at hroom
    rw [ReadableItems] at hv
    by_cases hnil : elements = []
    · rw [hnil, writeItems] at hfuel ⊢
      rw [hnil, depthItems] at hroom
      obtain ⟨place, hvalue⟩ : ∃ place, value fuel room
          (write item ++ CodePoint.ofChar ']' :: rest) = .error ⟨.nesting, place⟩ :=
        value_write_deep item hv.1 (by omega) (by omega) _
      exact ⟨place, items_error hvalue⟩
    · rw [length_writeItems_cons item hnil] at hfuel
      by_cases hdeep : room < depth item
      · obtain ⟨place, hvalue⟩ : ∃ place, value fuel room
            (write item ++ (comma ++ (writeItems elements ++ CodePoint.ofChar ']' :: rest))) =
            .error ⟨.nesting, place⟩ :=
          value_write_deep item hv.1 (by omega) hdeep _
        rw [writeItems_append item hnil]
        exact ⟨place, items_error hvalue⟩
      · have hvalue : value fuel room
            (write item ++ (comma ++ (writeItems elements ++ CodePoint.ofChar ']' :: rest))) =
            .ok (item, comma ++ (writeItems elements ++ CodePoint.ofChar ']' :: rest)) :=
          value_write item hv.1 (by omega) (by omega) (ends_comma _)
        obtain ⟨place, hitems⟩ : ∃ place, items fuel room
            (writeItems elements ++ CodePoint.ofChar ']' :: rest) = .error ⟨.nesting, place⟩ :=
          items_write_deep elements hv.2 (by omega) (by omega) rest
        rw [items_write_next hnil hvalue, hitems]
        exact ⟨place, rfl⟩

theorem members_write_deep (pairs : List (Text × Json)) (hv : ReadableMembers pairs)
    {fuel room : Nat} (hfuel : 2 * (writeMembers pairs).length + 1 ≤ fuel)
    (hroom : room < depthMembers pairs) (rest : Text) :
    ∃ place, members fuel room (writeMembers pairs ++ CodePoint.ofChar '\x7d' :: rest) =
      .error ⟨.nesting, place⟩ := by
  obtain ⟨fuel, rfl⟩ : ∃ f, fuel = f + 1 := ⟨fuel - 1, by omega⟩
  cases pairs with
  | nil => exact absurd hroom (Nat.not_lt_zero room)
  | cons pair pairs =>
    obtain ⟨key, v⟩ := pair
    have hlength := length_write_le key v
    rw [depthMembers] at hroom
    rw [ReadableMembers] at hv
    by_cases hnil : pairs = []
    · rw [hnil, writeMembers_singleton] at hfuel ⊢
      rw [hnil, depthMembers] at hroom
      obtain ⟨place, hvalue⟩ : ∃ place, value fuel room
          (write v ++ CodePoint.ofChar '\x7d' :: rest) = .error ⟨.nesting, place⟩ :=
        value_write_deep v hv.1 (by omega) (by omega) _
      exact ⟨place, members_error hvalue⟩
    · rw [length_writeMembers_cons key v hnil] at hfuel
      by_cases hdeep : room < depth v
      · obtain ⟨place, hvalue⟩ : ∃ place, value fuel room
            (write v ++ (comma ++ (writeMembers pairs ++ CodePoint.ofChar '\x7d' :: rest))) =
            .error ⟨.nesting, place⟩ :=
          value_write_deep v hv.1 (by omega) hdeep _
        rw [writeMembers_append key v hnil]
        exact ⟨place, members_error hvalue⟩
      · have hvalue : value fuel room
            (write v ++ (comma ++ (writeMembers pairs ++ CodePoint.ofChar '\x7d' :: rest))) =
            .ok (v, comma ++ (writeMembers pairs ++ CodePoint.ofChar '\x7d' :: rest)) :=
          value_write v hv.1 (by omega) (by omega) (ends_comma _)
        obtain ⟨place, hmembers⟩ : ∃ place, members fuel room
            (writeMembers pairs ++ CodePoint.ofChar '\x7d' :: rest) = .error ⟨.nesting, place⟩ :=
          members_write_deep pairs hv.2 (by omega) (by omega) rest
        rw [members_write_next hnil hvalue, hmembers]
        exact ⟨place, rfl⟩

end

theorem document_write (v : Json) : document (write v) =
    match value (2 * (write v).length + 2) maxNesting (write v) with
    | .error stop => .error stop
    | .ok (v, rest) =>
      match skipSpace rest with
      | [] => .ok v
      | rest => .error ⟨.extra, rest⟩ := by
  obtain ⟨c, t, hw, hc⟩ := write_head v
  have hmark : (some c == some (CodePoint.ofNat 0xFEFF)) = false := by
    apply beq_false_of_ne
    intro h
    exact hc.2.2.2 (Option.some.inj h)
  rw [document, hw, List.head?_cons, hmark, skipSpace_cons hc.1]
  rfl

/-- What was written is read again. -/
theorem read_write {v : Json} (hv : Readable v) (hdepth : depth v ≤ maxNesting) :
    read (write v) = .ok v := by
  have hvalue := value_write v hv (Nat.le_add_right _ 2) hdepth ends_nil
  rw [List.append_nil] at hvalue
  rw [read, document_write, hvalue]
  rfl

theorem read_write_deep {v : Json} (hv : Readable v) (hdepth : maxNesting < depth v) :
    ∃ fault, read (write v) = .error fault ∧ fault.cause = .nesting := by
  obtain ⟨place, hvalue⟩ := value_write_deep v hv (Nat.le_add_right _ 2) hdepth []
  rw [List.append_nil] at hvalue
  rw [read, document_write, hvalue]
  exact ⟨_, rfl, rfl⟩

/-- Of brackets that are never closed no reader gets to the end if they are too many. -/
theorem value_brackets {fuel room n : Nat} (hfuel : 2 * room < fuel) (hroom : room < n) :
    ∃ place, value fuel room (List.replicate n (CodePoint.ofChar '[')) =
      .error ⟨.nesting, place⟩ := by
  obtain ⟨n, rfl⟩ := Nat.exists_eq_succ_of_ne_zero (Nat.ne_of_gt (Nat.zero_lt_of_lt hroom))
  obtain ⟨fuel, rfl⟩ := Nat.exists_eq_succ_of_ne_zero (Nat.ne_of_gt (Nat.zero_lt_of_lt hfuel))
  induction room generalizing fuel n with
  | zero => exact ⟨_, value_list_deep fuel _⟩
  | succ room ih =>
    obtain ⟨n, rfl⟩ : ∃ m, n = m + 1 := ⟨n - 1, by omega⟩
    obtain ⟨fuel, rfl⟩ : ∃ f, fuel = f + 2 := ⟨fuel - 2, by omega⟩
    have hstarts : Starts (CodePoint.ofChar '[') :=
      ⟨by decide, by decide, by decide, by decide⟩
    obtain ⟨place, hvalue⟩ := ih n (by omega) fuel (by omega)
    refine ⟨place, ?_⟩
    rw [List.replicate_succ] at hvalue
    rw [List.replicate_succ, List.replicate_succ, value_list hstarts, items_error hvalue]
    rfl

theorem read_brackets {n : Nat} (h : maxNesting < n) :
    ∃ fault, read (List.replicate n (CodePoint.ofChar '[')) = .error fault ∧
      fault.cause = .nesting := by
  have hfuel : 2 * maxNesting < 2 * (List.replicate n (CodePoint.ofChar '[')).length + 2 := by
    rw [List.length_replicate]
    omega
  obtain ⟨place, hvalue⟩ := value_brackets hfuel h
  obtain ⟨n, rfl⟩ := Nat.exists_eq_succ_of_ne_zero (Nat.ne_of_gt (Nat.zero_lt_of_lt h))
  have hspace : isSpace (CodePoint.ofChar '[') = false := by decide
  have hmark : ((List.replicate (n + 1) (CodePoint.ofChar '[')).head? ==
      some (CodePoint.ofNat 0xFEFF)) = false := rfl
  have hskip : skipSpace (List.replicate (n + 1) (CodePoint.ofChar '[')) =
      List.replicate (n + 1) (CodePoint.ofChar '[') := skipSpace_cons hspace _
  rw [read, document, hmark, hskip, if_neg Bool.false_ne_true, hvalue]
  exact ⟨_, rfl, rfl⟩

theorem read_quote (s : Text) : read (quote s) = .ok (.text s) := by
  have hwrite : write (.text s) = quote s := by rw [write]
  rw [← hwrite]
  exact read_write (by simp [Readable]) (by simp [depth])

theorem escape_inj {s t : Text} : escape s = escape t ↔ s = t := by
  refine ⟨fun h => ?_, congrArg escape⟩
  have hread : read (quote s) = read (quote t) := by rw [quote, quote, h]
  rw [read_quote, read_quote] at hread
  exact text.inj (Except.ok.inj hread)

end LiveTree.Json
