import LiveTree.Event.Pool

namespace LiveTree.Event

/-- What is done with a queue, one thing at a time. -/
inductive Use where
  | write (text : Text)
  | close
  | next (reader : Text)

/-- What a use of a queue comes to. -/
inductive Answer where
  | done
  | refused (fault : Fault)
  | read (reading : Reading)

/-- What was done with a queue, each use with what it came to. -/
abbrev History := List (Use × Answer)

namespace History

/-- The texts that were written; one that was refused is none of them. -/
def written (past : History) : List Text :=
  past.filterMap fun | (.write text, .done) => some text | _ => none

/-- The texts that were read, each with the one reader that got it. -/
def taken (past : History) : List (Text × Text) :=
  past.filterMap fun | (.next reader, .read (.frame text)) => some (reader, text) | _ => none

def takenTexts (past : History) : List Text := past.taken.map Prod.snd

def closed (past : History) : Bool := past.any fun | (.close, _) => true | _ => false

variable {past more : History}

theorem written_append : written (past ++ more) = past.written ++ more.written :=
  List.filterMap_append

theorem takenTexts_append : takenTexts (past ++ more) = past.takenTexts ++ more.takenTexts := by
  rw [takenTexts, taken, List.filterMap_append, List.map_append]
  rfl

theorem closed_append : closed (past ++ more) = (past.closed || more.closed) := List.any_append

variable (u : Use) (answer : Answer)

@[simp] theorem written_singleton : written [(u, answer)] =
    match u, answer with | .write text, .done => [text] | _, _ => [] := by
  cases u <;> cases answer <;> rfl

@[simp] theorem takenTexts_singleton : takenTexts [(u, answer)] =
    match u, answer with | .next _, .read (.frame text) => [text] | _, _ => [] := by
  cases u with
  | next reader =>
    cases answer with
    | read reading => cases reading <;> rfl
    | _ => rfl
  | _ => rfl

@[simp] theorem closed_singleton : closed [(u, answer)] =
    match u with | .close => true | _ => false := by
  cases u <;> rfl

end History

namespace ReadQueue

def use (q : ReadQueue) : Use → Answer × ReadQueue
  | .write text =>
    match q.queue.write? text with
    | some queue => (.done, { q with queue })
    | none => (.refused (.transport Pool.closedText), q)
  | .close => (.done, { q with queue := q.queue.close })
  | .next reader =>
    let (reading, q) := q.next reader
    (.read reading, q)

def useAll (q : ReadQueue) : List Use → History × ReadQueue
  | [] => ([], q)
  | use :: uses =>
    let (answer, q) := q.use use
    let (past, q) := q.useAll uses
    ((use, answer) :: past, q)

/-- A queue of which the texts `rest` are still to be read. Behind them waits the end, until some
reader has met it. -/
inductive Holds : List Text → Queue → Prop
  | opened (rest : List Text) : Holds rest ⟨rest.map some, false⟩
  | ending (rest : List Text) : Holds rest ⟨rest.map some ++ [none], true⟩
  | drained : Holds [] ⟨[], true⟩

theorem Holds.write {rest : List Text} {queue : Queue} (holds : Holds rest queue)
    (hopen : queue.closed = false) (text : Text) :
    Holds (rest ++ [text]) { queue with waiting := queue.waiting ++ [some text] } := by
  cases holds with
  | opened =>
    have hmap : (rest ++ [text]).map some = rest.map some ++ [some text] := List.map_append
    simpa only [hmap] using opened (rest ++ [text])
  | ending => cases hopen
  | drained => cases hopen

theorem Holds.close {rest : List Text} {queue : Queue} (holds : Holds rest queue) :
    Holds rest queue.close := by
  cases holds with
  | opened => exact ending rest
  | ending => exact ending rest
  | drained => exact drained

theorem Holds.eq_nil {rest : List Text} (holds : Holds rest ⟨[], true⟩) : rest = [] := by
  generalize hqueue : (⟨[], true⟩ : Queue) = queue at holds
  cases holds with
  | opened => simp at hqueue
  | ending => simp at hqueue
  | drained => rfl

/-- A queue fits its past. -/
structure Sound (past : History) (q : ReadQueue) : Prop where
  holds : ∃ rest, past.written = past.takenTexts ++ rest ∧ Holds rest q.queue
  closed : q.queue.closed = past.closed
  /-- A reader ends only where the end was met and nothing waits. -/
  ended : q.ended = [] ∨ q.queue = ⟨[], true⟩

theorem sound_initial : Sound [] {} := ⟨⟨[], rfl, .opened []⟩, rfl, .inl rfl⟩

theorem use_next {q : ReadQueue} {reader : Text} (h : reader ∉ q.ended) :
    q.use (.next reader) = (.read q.queue.next.1, ⟨q.queue.next.2,
      if q.queue.next.1 = .ended then reader :: q.ended else q.ended⟩) := by
  simp [use, next, h]

section Sound

variable {past : History} {q : ReadQueue} (sound : Sound past q)

include sound

theorem Sound.write (text : Text) :
    past.closed = false ∧
        q.use (.write text) = (.done, { q with queue.waiting := q.queue.waiting ++ [some text] }) ∨
      past.closed = true ∧
        q.use (.write text) = (.refused (.transport Pool.closedText), q) := by
  rw [← sound.closed]
  cases hclosed : q.queue.closed with
  | false => exact .inl ⟨rfl, by simp [use, Queue.write?, hclosed]⟩
  | true => exact .inr ⟨rfl, by simp [use, Queue.write?, hclosed]⟩

theorem Sound.close (hclosed : past.closed = true) : q.use .close = (.done, q) := by
  rw [← sound.closed] at hclosed
  rw [use, Queue.close_of_closed hclosed]

/-- What a reader gets: the next text, or where there is none a sign that the queue is open, or
the end. -/
theorem Sound.next (reader : Text) :
    (∃ text rest queue, past.written = past.takenTexts ++ text :: rest ∧
        q.use (.next reader) = (.read (.frame text), ⟨queue, []⟩) ∧
        Holds rest queue ∧ queue.closed = past.closed) ∨
      past.written = past.takenTexts ∧
        (past.closed = false ∧ q.use (.next reader) = (.read .keepAlive, q) ∨
          past.closed = true ∧
            ∃ ended, q.use (.next reader) = (.read .ended, ⟨⟨[], true⟩, ended⟩)) := by
  obtain ⟨⟨rest, hwritten, hholds⟩, hclosed, hended⟩ := sound
  obtain ⟨queue, ended⟩ := q
  simp only at hholds hclosed hended
  by_cases hmem : reader ∈ ended
  · -- A reader that has ended is not asked again; the end was met before.
    obtain rfl : queue = ⟨[], true⟩ := hended.resolve_left (List.ne_nil_of_mem hmem)
    rw [hholds.eq_nil, List.append_nil] at hwritten
    exact .inr ⟨hwritten, .inr ⟨hclosed.symm, ended, by simp [use, ReadQueue.next, hmem]⟩⟩
  · rw [use_next hmem]
    cases hholds with
    | opened =>
      obtain rfl : ended = [] := hended.resolve_right (by simp)
      cases rest with
      | nil => exact .inr ⟨by rw [hwritten, List.append_nil], .inl ⟨hclosed.symm, rfl⟩⟩
      | cons text rest => exact .inl ⟨text, rest, _, hwritten, rfl, .opened rest, hclosed⟩
    | ending =>
      obtain rfl : ended = [] := hended.resolve_right (by simp)
      cases rest with
      | nil => exact .inr ⟨by rw [hwritten, List.append_nil], .inr ⟨hclosed.symm, _, rfl⟩⟩
      | cons text rest => exact .inl ⟨text, rest, _, hwritten, rfl, .ending rest, hclosed⟩
    | drained => exact .inr ⟨by rw [hwritten, List.append_nil], .inr ⟨hclosed.symm, _, rfl⟩⟩

end Sound

theorem Sound.grown {past more : History} {q : ReadQueue} (rest : List Text)
    (written : past.written ++ more.written = past.takenTexts ++ more.takenTexts ++ rest)
    (holds : Holds rest q.queue) (closed : q.queue.closed = (past.closed || more.closed))
    (ended : q.ended = [] ∨ q.queue = ⟨[], true⟩) : Sound (past ++ more) q := by
  refine ⟨⟨rest, ?_, holds⟩, ?_, ended⟩
  · rw [History.written_append, History.takenTexts_append, written]
  · rw [History.closed_append, closed]

/-- One use keeps a queue sound. -/
theorem Sound.used {past : History} {q : ReadQueue} (sound : Sound past q) (u : Use) :
    Sound (past ++ [(u, (q.use u).1)]) (q.use u).2 := by
  obtain ⟨rest, hwritten, hholds⟩ := sound.holds
  cases u with
  | write text =>
    obtain ⟨hopen, h⟩ | ⟨-, h⟩ := sound.write text
    · have hqueue : q.queue.closed = false := sound.closed.trans hopen
      rw [h]
      refine .grown (rest ++ [text]) ?_ (hholds.write hqueue text) ?_ (.inl ?_)
      · rw [hwritten]
        simp
      · simpa using sound.closed
      · exact sound.ended.resolve_right fun hdrained => by simp [hdrained] at hqueue
    · rw [h]
      refine .grown rest ?_ hholds ?_ sound.ended
      · simpa using hwritten
      · simpa using sound.closed
  | close =>
    refine .grown rest ?_ hholds.close ?_ ?_
    · simpa using hwritten
    · simp [use]
    · exact sound.ended.imp_right fun hdrained => by simp [use, hdrained, Queue.close]
  | next reader =>
    obtain ⟨text, rest, queue, hwritten, h, hholds, hclosed⟩ |
      ⟨hall, ⟨hopen, h⟩ | ⟨hclosed, ended, h⟩⟩ := sound.next reader
    · rw [h]
      refine .grown rest ?_ hholds ?_ (.inl rfl)
      · rw [hwritten]
        simp
      · simpa using hclosed
    · rw [h]
      refine .grown rest ?_ hholds ?_ sound.ended
      · simpa using hwritten
      · simpa using sound.closed
    · rw [h]
      refine .grown [] ?_ .drained ?_ (.inr rfl)
      · simpa using hall
      · simpa using hclosed.symm

theorem sound_useAll {past : History} {q : ReadQueue} (sound : Sound past q) (uses : List Use) :
    Sound (past ++ (q.useAll uses).1) (q.useAll uses).2 := by
  induction uses generalizing past q with
  | nil => exact (List.append_nil past).symm ▸ sound
  | cons u uses ih => exact List.append_cons past _ _ ▸ ih (sound.used u)

/-- Whatever is written to a queue, closed and read by any number of readers, the texts that are
read are the first of those written, in order and each by one reader. A write is refused once the
queue is closed, and neither it nor closing again changes anything. Every reader, also one that
comes when another has met the end, gets the next text as long as there is one, and else a sign
that the queue is open, or the end if it is closed. -/
theorem lossless (uses : List Use) :
    let (past, q) := ({} : ReadQueue).useAll uses
    past.takenTexts <+: past.written ∧
      (∀ text, if past.closed then
          q.use (.write text) = (.refused (.transport Pool.closedText), q)
        else (q.use (.write text)).1 = .done) ∧
      (past.closed = true → q.use .close = (.done, q)) ∧
      ∀ reader,
        (∀ text, (q.use (.next reader)).1 = .read (.frame text) ↔
          past.takenTexts ++ [text] <+: past.written) ∧
        ((q.use (.next reader)).1 = .read .keepAlive ↔
          past.closed = false ∧ past.takenTexts = past.written) ∧
        ((q.use (.next reader)).1 = .read .ended ↔
          past.closed = true ∧ past.takenTexts = past.written) := by
  have sound := sound_useAll sound_initial uses
  rw [List.nil_append] at sound
  rcases hrun : ({} : ReadQueue).useAll uses with ⟨past, q⟩
  rw [hrun] at sound
  obtain ⟨rest, hwritten, -⟩ := sound.holds
  refine ⟨⟨rest, hwritten.symm⟩, fun text => ?_, sound.close, fun reader => ?_⟩
  · obtain ⟨hopen, h⟩ | ⟨hclosed, h⟩ := sound.write text
    · rw [if_neg (by simp [hopen]), h]
    · rw [if_pos hclosed, h]
  · -- Nothing comes before the end but what is left to read.
    have hnone (text : Text) : ¬past.takenTexts ++ [text] <+: past.takenTexts :=
      fun h => absurd h.length_le (by simp)
    obtain ⟨text, rest, queue, hwritten, h, -⟩ | ⟨hall, ⟨hopen, h⟩ | ⟨hclosed, ended, h⟩⟩ :=
      sound.next reader
    · rw [h, hwritten]
      refine ⟨fun t => ?_, by simp, by simp⟩
      rw [List.prefix_append_right_inj, List.cons_prefix_cons]
      simp [eq_comm]
    · rw [h, hall]
      exact ⟨fun t => by simp [hnone], by simp [hopen], by simp [hopen]⟩
    · rw [h, hall]
      exact ⟨fun t => by simp [hnone], by simp [hclosed], by simp [hclosed]⟩

/-- The end is met by one reader and ends the other as well. -/
example : (({} : ReadQueue).useAll [.write "x", .next "a", .next "b", .write "y", .close, .next "b",
    .next "a", .next "b", .next "a"]).1.map Prod.snd =
      [.done, .read (.frame "x"), .read .keepAlive, .done, .done, .read (.frame "y"), .read .ended,
        .read .ended, .read .ended] := by
  rfl

end ReadQueue

end LiveTree.Event
