import LiveTree.Proofs.Parser.Exchange

namespace LiveTree.Parser

/-- A line that is not blank, and the blank lines right behind it. -/
@[ext] structure Block where
  line : Text
  blanks : List Text
  filled : Text.isBlank line = false
  blank : ∀ b ∈ blanks, Text.isBlank b = true

/-- The lines of an output: blank lines, then blocks. -/
@[ext] structure Layout where
  lead : List Text
  blocks : List Block
  blank : ∀ b ∈ lead, Text.isBlank b = true

namespace Layout

def lines (o : Layout) : List Text := o.lead ++ o.blocks.flatMap fun b => b.line :: b.blanks

/-- The last line that is not blank. -/
def candidate (o : Layout) : Candidate := o.blocks.getLast?.map (·.line)

/-- The lines that are passed on, in their order: each block is turned round, and of the last one
only the blank lines are left. -/
def passed (o : Layout) : List Text :=
  o.lead ++ o.blocks.dropLast.flatMap (fun b => b.blanks ++ [b.line]) ++
    (o.blocks.getLast?.map (·.blanks)).getD []

def ofLines : List Text → Layout
  | [] => ⟨[], [], nofun⟩
  | line :: rest =>
    let o := ofLines rest
    if h : Text.isBlank line = true then
      ⟨line :: o.lead, o.blocks, List.forall_mem_cons.mpr ⟨h, o.blank⟩⟩
    else ⟨[], ⟨line, o.lead, Bool.eq_false_iff.mpr h, o.blank⟩ :: o.blocks, nofun⟩

theorem ofLines_cons_of_blank {line : Text} (h : Text.isBlank line = true) (rest : List Text) :
    ofLines (line :: rest) = ⟨line :: (ofLines rest).lead, (ofLines rest).blocks,
      List.forall_mem_cons.mpr ⟨h, (ofLines rest).blank⟩⟩ := dif_pos h

theorem ofLines_cons_of_filled {line : Text} (h : Text.isBlank line = false) (rest : List Text) :
    ofLines (line :: rest) =
      ⟨[], ⟨line, (ofLines rest).lead, h, (ofLines rest).blank⟩ :: (ofLines rest).blocks, nofun⟩ :=
  dif_neg (Bool.eq_false_iff.mp h)

theorem lines_ofLines (lines : List Text) : (ofLines lines).lines = lines := by
  induction lines with
  | nil => rfl
  | cons line rest ih =>
    cases h : Text.isBlank line with
    | true =>
      rw [ofLines_cons_of_blank h]
      exact congrArg (List.cons line) ih
    | false =>
      rw [ofLines_cons_of_filled h]
      exact congrArg (List.cons line) ih

theorem ofLines_append {blanks : List Text} (h : ∀ b ∈ blanks, Text.isBlank b = true)
    (rest : List Text) :
    (ofLines (blanks ++ rest)).lead = blanks ++ (ofLines rest).lead ∧
      (ofLines (blanks ++ rest)).blocks = (ofLines rest).blocks := by
  induction blanks with
  | nil => exact ⟨rfl, rfl⟩
  | cons b blanks ih =>
    obtain ⟨hb, hblanks⟩ := List.forall_mem_cons.mp h
    obtain ⟨hlead, hblocks⟩ := ih hblanks
    rw [List.cons_append, ofLines_cons_of_blank hb]
    exact ⟨congrArg (List.cons b) hlead, hblocks⟩

/-- There is one way only to lay lines out. -/
theorem ofLines_lines (o : Layout) : ofLines o.lines = o := by
  obtain ⟨lead, blocks, hlead⟩ := o
  have hblocks : ofLines (blocks.flatMap fun b => b.line :: b.blanks) = ⟨[], blocks, nofun⟩ := by
    induction blocks with
    | nil => rfl
    | cons b blocks ih =>
      obtain ⟨hblanks, hrest⟩ := ofLines_append b.blank (blocks.flatMap fun b => b.line :: b.blanks)
      rw [ih] at hblanks hrest
      rw [List.flatMap_cons, List.cons_append, ofLines_cons_of_filled b.filled]
      simp only [hblanks, hrest, List.append_nil]
  obtain ⟨hfirst, hrest⟩ := ofLines_append hlead (blocks.flatMap fun b => b.line :: b.blanks)
  rw [hblocks, List.append_nil] at hfirst
  rw [hblocks] at hrest
  exact Layout.ext hfirst hrest

end Layout

namespace Candidate

theorem pushAll_blank (candidate : Candidate) {blanks : List Text}
    (h : ∀ b ∈ blanks, Text.isBlank b = true) : candidate.pushAll blanks = (candidate, blanks) := by
  induction blanks with
  | nil => rfl
  | cons b blanks ih =>
    obtain ⟨hb, hblanks⟩ := List.forall_mem_cons.mp h
    rw [pushAll_cons, push_blank candidate hb, ih hblanks]
    rfl

/-- A block takes the candidate's place, and only its blank lines are passed on. -/
theorem pushAll_block (candidate : Candidate) (b : Block) :
    candidate.pushAll (b.line :: b.blanks) = (some b.line, candidate.toList ++ b.blanks) := by
  have hfilled : ¬Text.isBlank b.line = true := Bool.eq_false_iff.mp b.filled
  rw [pushAll_cons, push_of_not_blank candidate hfilled, pushAll_blank _ b.blank]

theorem pushAll_blocks (candidate : Candidate) (b : Block) (blocks : List Block) :
    candidate.pushAll ((b :: blocks).flatMap fun b => b.line :: b.blanks) =
      (some ((b :: blocks).getLast (List.cons_ne_nil b blocks)).line,
        candidate.toList ++ (b :: blocks).dropLast.flatMap (fun b => b.blanks ++ [b.line]) ++
          ((b :: blocks).getLast (List.cons_ne_nil b blocks)).blanks) := by
  induction blocks generalizing candidate b with
  | nil =>
    rw [List.flatMap_singleton, pushAll_block]
    simp
  | cons b' blocks ih =>
    rw [List.flatMap_cons, pushAll_append, pushAll_block, ih (some b.line) b']
    simp

theorem pushAll_layout (o : Layout) : pushAll none o.lines = (o.candidate, o.passed) := by
  obtain ⟨lead, blocks, hlead⟩ := o
  rw [Layout.lines, pushAll_append, pushAll_blank none hlead]
  cases blocks with
  | nil => simp [Layout.candidate, Layout.passed]
  | cons b blocks =>
    rw [pushAll_blocks none b blocks]
    simp [Layout.candidate, Layout.passed, List.getLast?_eq_getLast_of_ne_nil]

end Candidate

/-- Whether the line at a place is blank, none if there is no line. -/
def blankAt? (lines : List Text) (i : Nat) : Option Bool := lines[i]?.map Text.isBlank

/-- A blank line is passed on before a line in front of it, for there are only blank lines from the
one to the other. -/
structure Overtakes (lines : List Text) (i j : Nat) : Prop where
  behind : j < i
  filled : blankAt? lines j = some false
  blank : ∀ k, j < k → k ≤ i → blankAt? lines k = some true

/-- The places of the lines that were passed on, in that order, and of the candidate. -/
structure Arranged (lines : List Text) (order : List Nat) (last : Option Nat) : Prop where
  places : (order ++ last.toList).Perm (List.range lines.length)
  sorted : order.Pairwise fun i j => i < j ∨ Overtakes lines i j
  filled : ∀ c ∈ last, blankAt? lines c = some false
  blank : ∀ c ∈ last, ∀ k, c < k → k < lines.length → blankAt? lines k = some true

theorem blankAt_append {lines : List Text} {i : Nat} {b : Bool} (h : blankAt? lines i = some b)
    (more : List Text) : blankAt? (lines ++ more) i = some b := by
  obtain ⟨line, hline, rfl⟩ := Option.map_eq_some_iff.mp h
  have hi : i < lines.length := (List.getElem?_eq_some_iff.mp hline).1
  rw [blankAt?, List.getElem?_append_left hi, hline]
  rfl

theorem blankAt_length (lines : List Text) (line : Text) :
    blankAt? (lines ++ [line]) lines.length = some (Text.isBlank line) := by
  simp [blankAt?]

theorem Overtakes.append {lines : List Text} {i j : Nat} (h : Overtakes lines i j)
    (more : List Text) : Overtakes (lines ++ more) i j :=
  ⟨h.behind, blankAt_append h.filled more, fun k hj hi => blankAt_append (h.blank k hj hi) more⟩

namespace Arranged

variable {lines : List Text} {order : List Nat} {last : Option Nat}

theorem sorted_append (h : Arranged lines order last) (more : List Text) :
    order.Pairwise fun i j => i < j ∨ Overtakes (lines ++ more) i j :=
  h.sorted.imp fun hij => hij.imp_right fun hover => hover.append more

theorem lt_of_mem (h : Arranged lines order last) {i : Nat} (hi : i ∈ order ++ last.toList) :
    i < lines.length := List.mem_range.mp (h.places.mem_iff.mp hi)

/-- A blank line is passed on at once. -/
theorem push_blank (h : Arranged lines order last) {line : Text}
    (hline : Text.isBlank line = true) :
    Arranged (lines ++ [line]) (order ++ [lines.length]) last := by
  refine ⟨?_, ?_, ?_, ?_⟩
  · rw [List.length_append, List.length_singleton, List.range_succ, List.append_assoc]
    have hswap : (order ++ ([lines.length] ++ last.toList)).Perm
        (order ++ (last.toList ++ [lines.length])) := List.perm_append_comm.append_left order
    refine hswap.trans ?_
    rw [← List.append_assoc]
    exact h.places.append_right _
  · refine List.pairwise_append.mpr ⟨h.sorted_append [line], List.pairwise_singleton _ _, ?_⟩
    intro i hi j hj
    obtain rfl := List.mem_singleton.mp hj
    exact .inl (h.lt_of_mem (List.mem_append_left _ hi))
  · exact fun c hc => blankAt_append (h.filled c hc) [line]
  · intro c hc k hck hk
    rw [List.length_append, List.length_singleton, Nat.lt_succ_iff_lt_or_eq] at hk
    obtain hk | rfl := hk
    · exact blankAt_append (h.blank c hc k hck hk) [line]
    · rw [blankAt_length, hline]

/-- Another line is the next candidate, and the one before it is passed on. -/
theorem push_filled (h : Arranged lines order last) {line : Text}
    (hline : Text.isBlank line = false) :
    Arranged (lines ++ [line]) (order ++ last.toList) (some lines.length) := by
  refine ⟨?_, ?_, ?_, ?_⟩
  · rw [List.length_append, List.length_singleton, List.range_succ]
    exact h.places.append_right _
  · have hdistinct : (order ++ last.toList).Nodup := h.places.nodup_iff.mpr List.nodup_range
    refine List.pairwise_append.mpr ⟨h.sorted_append [line], ?_, ?_⟩
    · cases last with
      | none => exact List.Pairwise.nil
      | some c => exact List.pairwise_singleton _ c
    · intro i hi c hc
      have hmem : c ∈ last := by simpa using hc
      have hne : i ≠ c := List.nodup_append.mp hdistinct |>.2.2 i hi c hc
      obtain hlt | hgt := Nat.lt_or_gt_of_ne hne
      · exact .inl hlt
      · have hi' : i < lines.length := h.lt_of_mem (List.mem_append_left _ hi)
        have hover : Overtakes lines i c :=
          ⟨hgt, h.filled c hmem, fun k hck hki => h.blank c hmem k hck (hki.trans_lt hi')⟩
        exact .inr (hover.append [line])
  · intro c hc
    obtain rfl := Option.some.inj hc
    rw [blankAt_length, hline]
  · intro c hc k hck hk
    obtain rfl := Option.some.inj hc
    rw [List.length_append, List.length_singleton] at hk
    omega

theorem map_getElem_append (h : Arranged lines order last) (more : List Text) :
    order.map ((lines ++ more)[·]?) = order.map (lines[·]?) ∧
      last.map ((lines ++ more)[·]?) = last.map (lines[·]?) := by
  refine ⟨List.map_congr_left fun i hi => ?_, Option.map_congr fun c hc => ?_⟩
  · exact List.getElem?_append_left (h.lt_of_mem (List.mem_append_left _ hi))
  · have hmem : c ∈ last.toList := by simpa using hc
    exact List.getElem?_append_left (h.lt_of_mem (List.mem_append_right _ hmem))

end Arranged

namespace Candidate

theorem pushAll_concat (candidate : Candidate) (lines : List Text) (line : Text) :
    candidate.pushAll (lines ++ [line]) =
      (((candidate.pushAll lines).1.push line).1,
        (candidate.pushAll lines).2 ++ ((candidate.pushAll lines).1.push line).2.toList) := by
  rw [pushAll_append, pushAll_cons, pushAll_nil, List.append_nil]

/-- The lines that are passed on are those of an arrangement, and so is the candidate. -/
theorem exists_arranged (lines : List Text) :
    ∃ order last, Arranged lines order last ∧
      (pushAll none lines).2.map some = order.map (lines[·]?) ∧
      (pushAll none lines).1.map some = last.map (lines[·]?) := by
  induction lines using List.reverseRecOn with
  | nil => exact ⟨[], none, ⟨.nil, .nil, nofun, nofun⟩, rfl, rfl⟩
  | append_singleton lines line ih =>
    obtain ⟨order, last, harranged, hpassed, hcandidate⟩ := ih
    obtain ⟨horder, hlast⟩ := harranged.map_getElem_append [line]
    have hnext : (lines ++ [line])[lines.length]? = some line := by simp
    rw [pushAll_concat]
    cases hline : Text.isBlank line with
    | true =>
      refine ⟨order ++ [lines.length], last, harranged.push_blank hline, ?_, ?_⟩
      · rw [push_blank _ hline, List.map_append, List.map_append, horder, hpassed]
        simp
      · rw [push_blank _ hline, hlast, hcandidate]
    | false =>
      have hfilled : ¬Text.isBlank line = true := Bool.eq_false_iff.mp hline
      refine ⟨order ++ last.toList, some lines.length, harranged.push_filled hline, ?_, ?_⟩
      · rw [push_of_not_blank _ hfilled, List.map_append, List.map_append, horder, hpassed,
          ← Option.toList_map, ← Option.toList_map, hlast, hcandidate]
      · rw [push_of_not_blank _ hfilled, Option.map_some, Option.map_some, hnext]

/-- The lines that are not blank come out in their order, the candidate last. -/
theorem filter_pushAll {candidate : Candidate}
    (h : ∀ line ∈ candidate, Text.isBlank line = false) (lines : List Text) :
    (candidate.pushAll lines).2.filter (!Text.isBlank ·) ++ (candidate.pushAll lines).1.toList =
      candidate.toList ++ lines.filter (!Text.isBlank ·) := by
  induction lines generalizing candidate with
  | nil => simp
  | cons line lines ih =>
    rw [pushAll_cons, List.filter_append, List.append_assoc]
    cases hline : Text.isBlank line with
    | true =>
      rw [push_blank candidate hline, ih h]
      simp [hline]
    | false =>
      have hfilled : ¬Text.isBlank line = true := Bool.eq_false_iff.mp hline
      have hnext : ∀ next ∈ some line, Text.isBlank next = false := by simpa using hline
      have hcandidate : candidate.toList.filter (!Text.isBlank ·) = candidate.toList := by
        rw [List.filter_eq_self]
        intro last hlast
        simp [h last (by simpa using hlast)]
      rw [push_of_not_blank candidate hfilled, ih hnext, hcandidate]
      simp [hline]

/-- Lines can be laid out in one way as blank lines and blocks, and that tells what becomes of them:
the last block holds the candidate, and the others are passed on turned round. So every line but
the candidate is passed on once, in the order of their places, unless a line is overtaken, and that
is by the blank lines right behind it. Lines that are not blank keep their order. -/
theorem pushAll_exact (lines : List Text) :
    let o := Layout.ofLines lines
    let pushed := Candidate.pushAll none lines
    (o.lines = lines ∧ ∀ o' : Layout, o'.lines = lines → o' = o) ∧
      pushed = (o.candidate, o.passed) ∧
      (∃ (order : List Nat) (last : Option Nat),
        (order ++ last.toList).Perm (List.range lines.length) ∧
          pushed.2.map some = order.map (lines[·]?) ∧ pushed.1.map some = last.map (lines[·]?) ∧
          order.Pairwise fun i j => i < j ∨ Overtakes lines i j) ∧
      pushed.2.filter (!Text.isBlank ·) ++ pushed.1.toList =
        lines.filter (!Text.isBlank ·) := by
  intro o pushed
  have hlines : o.lines = lines := Layout.lines_ofLines lines
  refine ⟨⟨hlines, fun o' ho' => ?_⟩, ?_, ?_, ?_⟩
  · rw [← Layout.ofLines_lines o', ho']
  · rw [← pushAll_layout o, hlines]
  · obtain ⟨order, last, harranged, hpassed, hcandidate⟩ := exists_arranged lines
    exact ⟨order, last, harranged.places, hpassed, hcandidate, harranged.sorted⟩
  · have hnone : ∀ line ∈ (none : Candidate), Text.isBlank line = false := nofun
    exact filter_pushAll hnone lines

end Candidate

end LiveTree.Parser
