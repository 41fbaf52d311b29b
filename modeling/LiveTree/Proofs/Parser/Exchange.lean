import LiveTree.Parser.Run
import LiveTree.Proofs.Parser.Line

namespace LiveTree.Parser

/-- The most octets that one read gives. -/
def readSize : Nat := 4096

/-- A reader of an output in the middle of its work. What is pending is the start of a line. -/
structure Reader where
  unread : Octets
  pending : Octets
  ended : Bool
  start_of_line : lineFeed ∉ pending

namespace Reader

def ofOctets (octets : Octets) : Reader := ⟨octets, [], false, List.not_mem_nil⟩

/-- One read, which gives up to `count` octets: the lines that it completes, and the reader after
it. With no octets left it is the end, where what is pending is a line too. -/
def read (count : Nat) (r : Reader) : Option (List Text × Reader) :=
  if r.ended then none
  else if r.unread = [] then some (tailLine r.pending, ⟨[], [], true, List.not_mem_nil⟩)
  else if 0 < count ∧ count ≤ readSize then
    let split := splitLines r.pending (r.unread.take count)
    some (split.1, ⟨r.unread.drop count, split.2, false, notMem_splitLines _ _⟩)
  else none

/-- The lines that are still to come. -/
def remaining (r : Reader) : List Text :=
  if r.ended then []
  else
    let split := splitLines r.pending r.unread
    split.1 ++ tailLine split.2

theorem remaining_ofOctets (chunks : List Octets) :
    (ofOctets chunks.flatten).remaining = allLines chunks := by
  change (splitLines [] chunks.flatten).1 ++ tailLine (splitLines [] chunks.flatten).2 =
    (feed [] chunks).1 ++ tailLine (feed [] chunks).2
  rw [feed_flatten List.not_mem_nil]

/-- A read either finds the end or cuts a piece off what is unread. -/
theorem read_cases {count : Nat} {r next : Reader} {lines : List Text}
    (h : r.read count = some (lines, next)) :
    r.ended = false ∧
      ((r.unread = [] ∧ lines = tailLine r.pending ∧ next = ⟨[], [], true, List.not_mem_nil⟩) ∨
        (r.unread ≠ [] ∧ 0 < count ∧
          lines = (splitLines r.pending (r.unread.take count)).1 ∧
          next = ⟨r.unread.drop count, (splitLines r.pending (r.unread.take count)).2, false,
            notMem_splitLines _ _⟩)) := by
  unfold read at h
  split at h
  · cases h
  rename_i hopen
  refine ⟨Bool.eq_false_iff.mpr hopen, ?_⟩
  split at h
  · rename_i hend
    obtain ⟨rfl, rfl⟩ := Prod.mk.inj (Option.some.inj h)
    exact Or.inl ⟨hend, rfl, rfl⟩
  rename_i hmore
  split at h
  · rename_i hcount
    obtain ⟨rfl, rfl⟩ := Prod.mk.inj (Option.some.inj h)
    exact Or.inr ⟨hmore, hcount.1, rfl, rfl⟩
  · cases h

/-- Whatever a read gives, it takes from the lines that are still to come. -/
theorem remaining_read {count : Nat} {r next : Reader} {lines : List Text}
    (h : r.read count = some (lines, next)) : r.remaining = lines ++ next.remaining := by
  obtain ⟨hopen, hread⟩ := read_cases h
  have hsplit : r.remaining = (splitLines r.pending r.unread).1 ++
      tailLine (splitLines r.pending r.unread).2 := by
    rw [remaining, hopen, if_neg Bool.false_ne_true]
  rcases hread with ⟨hend, rfl, rfl⟩ | ⟨-, -, rfl, rfl⟩
  · rw [hsplit, hend, splitLines_nil r.start_of_line]
    simp [remaining]
  · have happend := splitLines_append r.pending (r.unread.take count) (r.unread.drop count)
    rw [List.take_append_drop] at happend
    rw [hsplit, happend, List.append_assoc]
    rfl

end Reader

/-- How far the input of a process has come. -/
inductive Feeding where
  | absent
  | waiting (octets : Octets)
  | written (octets : Octets)
  | closed (octets : Octets)

/-- The input as it will be, whatever happens to the pipe. -/
def Feeding.final : Feeding → Option Input
  | .absent => none
  | .waiting octets => some ⟨octets, true⟩
  | .written octets => some ⟨octets, true⟩
  | .closed octets => some ⟨octets, true⟩

def Feeding.isOver : Feeding → Bool
  | .absent => true
  | .closed _ => true
  | _ => false

/-- A started process whose input is written while both of its outputs are read. -/
structure Exchange where
  feeding : Feeding
  output : Reader
  errors : Reader
  candidate : Candidate := none
  /-- Lines of standard output that were passed on. -/
  passed : List Text := []
  /-- Lines of standard error that were passed on. -/
  complaints : List Text := []

/-- What happens next in an exchange. -/
inductive Turn where
  | write
  /-- The pipe has taken the input, or it broke. -/
  | close
  | read (count : Nat)
  | readErrors (count : Nat)

/-- What an exchange comes to. -/
structure Yield where
  candidate : Candidate
  passed : List Text
  complaints : List Text
  input : Option Input

namespace Exchange

def start (process : Process) (input : Option Octets) : Exchange where
  feeding := input.elim .absent .waiting
  output := .ofOctets process.stdout.flatten
  errors := .ofOctets process.stderr.flatten

/-- One turn, none if it cannot be taken now. -/
def turn (e : Exchange) : Turn → Option Exchange
  | .write => match e.feeding with
    | .waiting octets => some { e with feeding := .written octets }
    | _ => none
  | .close => match e.feeding with
    | .written octets => some { e with feeding := .closed octets }
    | _ => none
  | .read count => (e.output.read count).map fun read =>
    let pushed := e.candidate.pushAll read.1
    { e with output := read.2, candidate := pushed.1, passed := e.passed ++ pushed.2 }
  | .readErrors count => (e.errors.read count).map fun read =>
    { e with errors := read.2, complaints := e.complaints ++ read.1 }

def run (e : Exchange) : List Turn → Option Exchange
  | [] => some e
  | t :: turns => (e.turn t).bind fun next => next.run turns

/-- All three activities are done. -/
def isOver (e : Exchange) : Bool := e.feeding.isOver && e.output.ended && e.errors.ended

def yield (e : Exchange) : Yield :=
  let pushed := e.candidate.pushAll e.output.remaining
  ⟨pushed.1, e.passed ++ pushed.2, e.complaints ++ e.errors.remaining, e.feeding.final⟩

end Exchange

theorem Candidate.pushAll_append (candidate : Candidate) (lines more : List Text) :
    candidate.pushAll (lines ++ more) =
      (((candidate.pushAll lines).1.pushAll more).1,
        (candidate.pushAll lines).2 ++ ((candidate.pushAll lines).1.pushAll more).2) := by
  induction lines generalizing candidate with
  | nil => rfl
  | cons line lines ih =>
    rw [List.cons_append, pushAll_cons, pushAll_cons, ih, List.append_assoc]

namespace Exchange

/-- What a turn can do: the input goes one step on, or one output is read. -/
theorem turn_cases {e next : Exchange} {t : Turn} (h : e.turn t = some next) :
    (∃ octets, t = .write ∧ e.feeding = .waiting octets ∧
        next = { e with feeding := .written octets }) ∨
      (∃ octets, t = .close ∧ e.feeding = .written octets ∧
        next = { e with feeding := .closed octets }) ∨
      (∃ count lines reader, t = .read count ∧ e.output.read count = some (lines, reader) ∧
        next = { e with
          output := reader
          candidate := (e.candidate.pushAll lines).1
          passed := e.passed ++ (e.candidate.pushAll lines).2 }) ∨
      ∃ count lines reader, t = .readErrors count ∧ e.errors.read count = some (lines, reader) ∧
        next = { e with errors := reader, complaints := e.complaints ++ lines } := by
  cases t with
  | write =>
    simp only [turn] at h
    split at h
    · exact Or.inl ⟨_, rfl, ‹_›, (Option.some.inj h).symm⟩
    · cases h
  | close =>
    simp only [turn] at h
    split at h
    · exact Or.inr (Or.inl ⟨_, rfl, ‹_›, (Option.some.inj h).symm⟩)
    · cases h
  | read count =>
    obtain ⟨⟨lines, reader⟩, hread, rfl⟩ := Option.map_eq_some_iff.mp h
    exact Or.inr (Or.inr (Or.inl ⟨count, lines, reader, rfl, hread, rfl⟩))
  | readErrors count =>
    obtain ⟨⟨lines, reader⟩, hread, rfl⟩ := Option.map_eq_some_iff.mp h
    exact Or.inr (Or.inr (Or.inr ⟨count, lines, reader, rfl, hread, rfl⟩))

/-- No turn changes what an exchange comes to. -/
theorem yield_turn {e next : Exchange} {t : Turn} (h : e.turn t = some next) :
    next.yield = e.yield := by
  rcases turn_cases h with ⟨octets, -, hf, rfl⟩ | ⟨octets, -, hf, rfl⟩ |
    ⟨count, lines, reader, -, hread, rfl⟩ | ⟨count, lines, reader, -, hread, rfl⟩
  · simp only [yield, hf, Feeding.final]
  · simp only [yield, hf, Feeding.final]
  · simp only [yield]
    rw [Reader.remaining_read hread, Candidate.pushAll_append, List.append_assoc]
  · simp only [yield]
    rw [Reader.remaining_read hread, List.append_assoc]

theorem yield_run {e final : Exchange} {turns : List Turn} (h : e.run turns = some final) :
    final.yield = e.yield := by
  induction turns generalizing e with
  | nil =>
    obtain rfl := Option.some.inj h
    rfl
  | cons t turns ih =>
    obtain ⟨next, hturn, hrun⟩ := Option.bind_eq_some_iff.mp h
    exact (ih hrun).trans (yield_turn hturn)

theorem yield_of_isOver {e : Exchange} (h : e.isOver = true) :
    e.yield = ⟨e.candidate, e.passed, e.complaints, e.feeding.final⟩ := by
  obtain ⟨⟨-, hout⟩, herr⟩ : (e.feeding.isOver = true ∧ e.output.ended = true) ∧
      e.errors.ended = true := by
    simpa only [isOver, Bool.and_eq_true] using h
  have houtput : e.output.remaining = [] := if_pos hout
  have herrors : e.errors.remaining = [] := if_pos herr
  simp [yield, houtput, herrors]

theorem yield_start (process : Process) (input : Option Octets) :
    (start process input).yield =
      ⟨(Candidate.pushAll none (allLines process.stdout)).1,
        (Candidate.pushAll none (allLines process.stdout)).2, allLines process.stderr,
        input.map process.offer⟩ := by
  simp only [yield, start, Reader.remaining_ofOctets, List.nil_append]
  cases input <;> rfl

/-- Whatever turns its activities take, an exchange that is over has read all lines in order. -/
theorem of_run_start {process : Process} {input : Option Octets} {turns : List Turn}
    {final : Exchange} (hrun : (start process input).run turns = some final)
    (hover : final.isOver = true) :
    final.candidate = (Candidate.pushAll none (allLines process.stdout)).1 ∧
      final.passed = (Candidate.pushAll none (allLines process.stdout)).2 ∧
      final.complaints = allLines process.stderr ∧
      final.feeding.final = input.map process.offer := by
  have h := (yield_of_isOver hover).symm.trans ((yield_run hrun).trans (yield_start process input))
  exact ⟨congrArg Yield.candidate h, congrArg Yield.passed h, congrArg Yield.complaints h,
    congrArg Yield.input h⟩

end Exchange

/-- How many reads there may be at most. -/
def Reader.left (r : Reader) : Nat := if r.ended then 0 else r.unread.length + 1

theorem Reader.left_read {count : Nat} {r next : Reader} {lines : List Text}
    (h : r.read count = some (lines, next)) : next.left < r.left := by
  obtain ⟨hopen, hread⟩ := read_cases h
  have hleft : r.left = r.unread.length + 1 := by
    rw [left, hopen, if_neg Bool.false_ne_true]
  rcases hread with ⟨-, -, rfl⟩ | ⟨hmore, hcount, -, rfl⟩
  · rw [hleft]
    exact Nat.succ_pos _
  · have hpos : 0 < r.unread.length := List.length_pos_of_ne_nil hmore
    rw [hleft, left, if_neg Bool.false_ne_true, List.length_drop]
    omega

theorem Reader.exists_read {r : Reader} (h : r.ended = false) :
    ∃ lines next, r.read readSize = some (lines, next) := by
  unfold read
  rw [if_neg (by rw [h]; exact Bool.false_ne_true)]
  by_cases hend : r.unread = []
  · rw [if_pos hend]
    exact ⟨_, _, rfl⟩
  · rw [if_neg hend, if_pos ⟨by decide, Nat.le_refl _⟩]
    exact ⟨_, _, rfl⟩

def Feeding.left : Feeding → Nat
  | .waiting _ => 2
  | .written _ => 1
  | _ => 0

namespace Exchange

/-- How many turns there may be at most. -/
def left (e : Exchange) : Nat := e.feeding.left + e.output.left + e.errors.left

theorem left_turn {e next : Exchange} {t : Turn} (h : e.turn t = some next) :
    next.left < e.left := by
  rcases turn_cases h with ⟨octets, -, hf, rfl⟩ | ⟨octets, -, hf, rfl⟩ |
    ⟨count, lines, reader, -, hread, rfl⟩ | ⟨count, lines, reader, -, hread, rfl⟩
  · simp [left, hf, Feeding.left]
  · simp [left, hf, Feeding.left]
  · have hless := Reader.left_read hread
    simp only [left]
    omega
  · have hless := Reader.left_read hread
    simp only [left]
    omega

/-- An exchange that is not over is not stuck. -/
theorem exists_turn {e : Exchange} (h : e.isOver = false) : ∃ t next, e.turn t = some next := by
  by_cases hout : e.output.ended = false
  · obtain ⟨lines, reader, hread⟩ := Reader.exists_read hout
    exact ⟨.read readSize, _, by rw [turn, hread]; rfl⟩
  by_cases herr : e.errors.ended = false
  · obtain ⟨lines, reader, hread⟩ := Reader.exists_read herr
    exact ⟨.readErrors readSize, _, by rw [turn, hread]; rfl⟩
  have hfeeding : e.feeding.isOver = false := by
    simpa [isOver, hout, herr] using h
  cases hf : e.feeding with
  | absent => rw [hf] at hfeeding; cases hfeeding
  | waiting octets => exact ⟨.write, _, by rw [turn, hf]⟩
  | written octets => exact ⟨.close, _, by rw [turn, hf]⟩
  | closed octets => rw [hf] at hfeeding; cases hfeeding

/-- Every exchange can be brought to its end. -/
theorem exists_run (e : Exchange) :
    ∃ turns final, e.run turns = some final ∧ final.isOver = true := by
  -- Every turn lowers `left`, and an exchange without a turn is over.
  induction hn : e.left using Nat.strongRecOn generalizing e with
  | _ n ih =>
    cases hover : e.isOver with
    | true => exact ⟨[], e, rfl, hover⟩
    | false =>
      obtain ⟨t, next, hturn⟩ := exists_turn hover
      obtain ⟨turns, final, hrun, hfinal⟩ := ih next.left (hn ▸ left_turn hturn) next rfl
      exact ⟨t :: turns, final, by rw [run, hturn]; exact hrun, hfinal⟩

end Exchange

end LiveTree.Parser
