namespace LiveTree

variable {α : Type}

/-- What follows `start`, none if the list does not begin with it. -/
abbrev dropStart? [BEq α] (start s : List α) : Option (List α) := start.isPrefixOf? s

theorem dropStart?_cons_cons [BEq α] (a b : α) (start s : List α) :
    dropStart? (a :: start) (b :: s) = if a == b then dropStart? start s else none := rfl

theorem length_of_dropStart? [BEq α] {start s rest : List α} (h : dropStart? start s = some rest) :
    rest.length ≤ s.length := by
  induction start generalizing s with
  | nil =>
    obtain rfl : s = rest := Option.some.inj h
    exact Nat.le_refl _
  | cons a start ih =>
    cases s with
    | nil => cases h
    | cons b s =>
      rw [dropStart?_cons_cons] at h
      split at h
      · exact Nat.le_succ_of_le (ih h)
      · cases h

def startsWith [BEq α] (s start : List α) : Bool := (dropStart? start s).isSome

def trimLeft (p : α → Bool) (s : List α) : List α := s.dropWhile p

def trimRight (p : α → Bool) (s : List α) : List α := (s.reverse.dropWhile p).reverse

def trim (p : α → Bool) (s : List α) : List α := trimRight p (trimLeft p s)

@[simp] theorem trimRight_nil (p : α → Bool) : trimRight p [] = [] := rfl

/-- The part before the first `separator` and the part after it, none if there is no separator. -/
def cutOnce [BEq α] (separator : α) : List α → List α × Option (List α)
  | [] => ([], none)
  | a :: s =>
    if a == separator then ([], some s)
    else ((a :: (cutOnce separator s).1), (cutOnce separator s).2)

/-- The part up to and with the last element in `p`, and the part after it. -/
def cutLast (p : α → Bool) (s : List α) : List α × List α :=
  ((s.reverse.dropWhile (!p ·)).reverse, (s.reverse.takeWhile (!p ·)).reverse)

/-- Replaces every element that is `old` by the elements of `new`. -/
def replace [BEq α] (old : α) (new s : List α) : List α :=
  s.flatMap fun a => if a == old then new else [a]

end LiveTree
