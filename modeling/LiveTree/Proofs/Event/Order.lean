import LiveTree.Proofs.Event.Broadcast

namespace LiveTree.Event

variable {σ ι : Type}

/-- A write that was tried, whether it succeeded or not. -/
structure Attempt where
  receiver : Handle
  text : Text
  taken : Bool
  deriving DecidableEq

/-- A world with every write that was tried in it. -/
structure Traced (σ : Type) where
  world : σ
  attempts : List Attempt := []

namespace Traced

def attemptsOn (w : Traced σ) (h : Handle) : List Attempt := w.attempts.filter (·.receiver == h)

/-- The frames written to a stream, given by the connections that are its. -/
def framesTo (w : Traced σ) (stream : Handle → Bool) : List Text :=
  (w.attempts.filter fun a => stream a.receiver && a.taken).map Attempt.text

end Traced

namespace Change

/-- The connections that changes make. -/
def joined (changes : List Change) : List Handle :=
  changes.filterMap fun | join h => some h | leave _ => none

/-- The connections that changes end. -/
def left (changes : List Change) : List Handle :=
  changes.filterMap fun | join _ => none | leave h => some h

@[simp] theorem joined_join (h : Handle) (changes : List Change) :
    joined (join h :: changes) = h :: joined changes := rfl

@[simp] theorem joined_leave (h : Handle) (changes : List Change) :
    joined (leave h :: changes) = joined changes := rfl

@[simp] theorem left_join (h : Handle) (changes : List Change) :
    left (join h :: changes) = left changes := rfl

@[simp] theorem left_leave (h : Handle) (changes : List Change) :
    left (leave h :: changes) = h :: left changes := rfl

end Change

/-- Distinct connections out of those in `live`. -/
structure Visits (live order : List Handle) : Prop where
  distinct : order.Nodup
  subset : ∀ k ∈ order, k ∈ live

theorem Visits.left {live order rest : List Handle} (visits : Visits live (order ++ rest)) :
    Visits live order :=
  ⟨(List.nodup_append.mp visits.distinct).1,
    fun k hk => visits.subset k (List.mem_append_left rest hk)⟩

namespace Streams

/-- The same streams, with a record of the writes that are tried. -/
def traced (streams : Streams σ) : Streams (Traced σ) where
  isOpen w h := streams.isOpen w.world h
  write h text w :=
    let result := streams.write h text w.world
    (result.1, ⟨result.2, w.attempts ++ [⟨h, text, result.1.fault.isNone⟩]⟩)
  close h w := { w with world := streams.close h w.world }

variable (streams : Streams σ) (who? : σ → Handle → Option ι) (text : Text)

/-- The connections that are made while a text is offered to one. -/
def joiners (w : σ) (h : Handle) : List Handle :=
  if streams.isOpen w h then Change.joined (streams.write h text w).1.changes else []

/-- The connections that are unsubscribed while a text is offered to one. -/
def leavers (w : σ) (h : Handle) : List Handle :=
  if streams.isOpen w h then Change.left (streams.write h text w).1.changes else []

/-- Whose the new connections are. -/
def newcomers (w : σ) (h : Handle) : List (Option ι) :=
  (streams.joiners text w h).map (who? (streams.offered text w h))

/-- Whether offering a text to the connection `h` ends the connection `k`. -/
def ousts (w : σ) (h k : Handle) : Bool :=
  k == h && !streams.takes text w h || (streams.leavers text w h).contains k

/-- The world after the connections in a list were offered a text. -/
def visited (w : σ) (order : List Handle) : σ := order.foldl (streams.offered text) w

/-- What a connection may do when its turn comes in the world `w` of a broadcast that found the
world `start`. It takes or refuses the text as it did then, ends the connections that it ended
then, and makes connections of the same streams under names that are new. -/
structure Turn (start w : σ) (h : Handle) : Prop where
  isOpen : streams.isOpen w h = streams.isOpen start h
  takes : streams.takes text w h = streams.takes text start h
  leavers : ∀ k, k ∈ streams.leavers text w h ↔ k ∈ streams.leavers text start h
  newcomers : streams.newcomers who? text w h = streams.newcomers who? text start h
  family : streams.isOpen w h = true → ∀ fault, (streams.write h text w).1.fault = some fault →
    fault.family = .system ∨ fault.family = .value ∨ fault.family = .transport
  distinct : (streams.joiners text w h).Nodup
  fresh : ∀ k ∈ streams.joiners text w h, who? w k = none
  named : ∀ k ∈ streams.joiners text w h, (who? (streams.offered text w h) k).isSome = true
  kept : ∀ k, (who? w k).isSome = true → who? (streams.offered text w h) k = who? w k

/-- Streams whose outcomes are fixed during a broadcast to the connections `live`. A name that no
connection bears belongs to no stream. -/
structure Steady (live : List Handle) (start : σ) : Prop where
  named : ∀ h ∈ live, (who? start h).isSome = true
  known : ∀ h ∈ live, ∀ k ∈ streams.leavers text start h, (who? start k).isSome = true
  turn : ∀ before h, Visits live (before ++ [h]) →
    streams.Turn who? text start (streams.visited text start before) h

section Steady

variable {streams who? text} {live : List Handle} {start : σ}

theorem visited_append_cons (before rest : List Handle) (h : Handle) :
    streams.visited text start (before ++ h :: rest) =
      streams.visited text (streams.offered text (streams.visited text start before) h) rest := by
  rw [visited, List.foldl_append]
  rfl

theorem Turn.ousts {w : σ} {h : Handle} (turn : streams.Turn who? text start w h) (k : Handle) :
    streams.ousts text w h k = streams.ousts text start h k := by
  have hleavers : (streams.leavers text w h).contains k =
      (streams.leavers text start h).contains k := by
    rw [Bool.eq_iff_iff, List.contains_iff_mem, List.contains_iff_mem, turn.leavers]
  rw [Streams.ousts, Streams.ousts, turn.takes, hleavers]

variable (steady : streams.Steady who? text live start)

include steady

/-- Only connections that were there before can be ended. -/
theorem Steady.named_of_ousts {h k : Handle} (hh : h ∈ live)
    (hk : streams.ousts text start h k = true) : (who? start k).isSome = true := by
  simp only [Streams.ousts, Bool.or_eq_true, Bool.and_eq_true, beq_iff_eq,
    List.contains_iff_mem] at hk
  rcases hk with ⟨rfl, -⟩ | hk
  · exact steady.named k hh
  · exact steady.known h hh k hk

/-- A name stays with the stream that it was given to. -/
theorem Steady.kept {before rest : List Handle} (visits : Visits live (before ++ rest)) {k : Handle}
    (hk : (who? (streams.visited text start before) k).isSome = true) :
    who? (streams.visited text start (before ++ rest)) k =
      who? (streams.visited text start before) k := by
  induction rest generalizing before with
  | nil => rw [List.append_nil]
  | cons h rest ih =>
    rw [List.append_cons] at visits ⊢
    have hnext : streams.visited text start (before ++ [h]) =
        streams.offered text (streams.visited text start before) h :=
      visited_append_cons before [] h
    have hkept := (steady.turn before h visits.left).kept k hk
    rw [← hnext] at hkept
    rw [ih visits (hkept ▸ hk), hkept]

theorem Steady.named_visited {before : List Handle} (visits : Visits live before) {k : Handle}
    (hk : (who? start k).isSome = true) :
    (who? (streams.visited text start before) k).isSome = true := by
  have hkept : who? (streams.visited text start ([] ++ before)) k = who? start k :=
    steady.kept (show Visits live ([] ++ before) from visits) hk
  rw [List.nil_append] at hkept
  exact hkept ▸ hk

end Steady

end Streams

namespace Channel

theorem world_change (c : Channel σ) (change : Change) : (c.change change).world = c.world := by
  cases change with
  | join h =>
    rw [Channel.change, subscribe]
    split <;> rfl
  | leave h => rfl

theorem world_foldl_change (changes : List Change) (c : Channel σ) :
    (changes.foldl change c).world = c.world := by
  induction changes generalizing c with
  | nil => rfl
  | cons change changes ih => exact (ih _).trans (world_change c change)

/-- Of changes that make new connections and end old ones, the order does not matter. -/
theorem live_foldl_change {changes : List Change} {c : Channel σ}
    (fresh : ∀ k ∈ Change.joined changes, k ∉ c.live) (distinct : (Change.joined changes).Nodup)
    (apart : ∀ k ∈ Change.joined changes, k ∉ Change.left changes) :
    (changes.foldl change c).live =
      c.live.filter (!(Change.left changes).contains ·) ++ Change.joined changes := by
  induction changes generalizing c with
  | nil => exact (List.filter_eq_self.mpr fun _ _ => rfl).symm.trans (List.append_nil _).symm
  | cons first changes ih =>
    cases first with
    | join h =>
      rw [Change.joined_join] at fresh distinct apart ⊢
      rw [Change.left_join] at apart ⊢
      obtain ⟨hnew, fresh⟩ := List.forall_mem_cons.mp fresh
      obtain ⟨hnot, distinct⟩ := List.nodup_cons.mp distinct
      obtain ⟨hstays, apart⟩ := List.forall_mem_cons.mp apart
      have hlive : (c.change (.join h)).live = c.live ++ [h] := by
        simp [Channel.change, subscribe, hnew]
      have hfresh : ∀ k ∈ Change.joined changes, k ∉ (c.change (.join h)).live := by
        intro k hk
        rw [hlive, List.mem_append, List.mem_singleton, not_or]
        exact ⟨fresh k hk, fun heq => hnot (heq ▸ hk)⟩
      have hsingle : [h].filter (!(Change.left changes).contains ·) = [h] :=
        List.filter_cons_of_pos (by simp [hstays])
      rw [List.foldl_cons, ih hfresh distinct apart, hlive, List.filter_append, hsingle,
        List.append_assoc, List.singleton_append]
    | leave h =>
      rw [Change.joined_leave] at fresh distinct apart ⊢
      rw [Change.left_leave] at apart ⊢
      have hlive : (c.change (.leave h)).live = c.live.filter (· != h) := rfl
      have hfresh : ∀ k ∈ Change.joined changes, k ∉ (c.change (.leave h)).live :=
        fun k hk hmem => fresh k hk (List.mem_filter.mp hmem).1
      have hapart : ∀ k ∈ Change.joined changes, k ∉ Change.left changes :=
        fun k hk hmem => apart k hk (List.mem_cons_of_mem h hmem)
      rw [List.foldl_cons, ih hfresh distinct hapart, hlive, List.filter_filter]
      congr 1
      apply List.filter_congr
      intro k _
      rw [List.contains_cons, Bool.not_or, Bool.and_comm]
      rfl

variable {streams : Streams σ} {who? : σ → Handle → Option ι} {text : Text}

/-- Writing, whatever comes of it: the changes that it makes and the record of it are kept. -/
theorem send_traced {h : Handle} {c : Channel (Traced σ)}
    (fresh : ∀ k ∈ Change.joined (streams.write h text c.world.world).1.changes, k ∉ c.live)
    (distinct : (Change.joined (streams.write h text c.world.world).1.changes).Nodup)
    (apart : ∀ k ∈ Change.joined (streams.write h text c.world.world).1.changes,
      k ∉ Change.left (streams.write h text c.world.world).1.changes) :
    let result := streams.write h text c.world.world
    ∃ told : Channel (Traced σ),
      c.send streams.traced h text =
        (match result.1.fault with | none => .ok () | some fault => .error fault.sent, told) ∧
      told.world = ⟨result.2, c.world.attempts ++ [⟨h, text, result.1.fault.isNone⟩]⟩ ∧
      told.live = c.live.filter (!(Change.left result.1.changes).contains ·) ++
        Change.joined result.1.changes := by
  intro result
  let written : Channel (Traced σ) :=
    ⟨c.live, ⟨result.2, c.world.attempts ++ [⟨h, text, result.1.fault.isNone⟩]⟩,
      c.log ++ result.1.log⟩
  refine ⟨result.1.changes.foldl change written, ?_, world_foldl_change _ _,
    live_foldl_change (c := written) fresh distinct apart⟩
  have hsend : c.send streams.traced h text = (match result.1.fault with
      | none => (.ok (), result.1.changes.foldl change written)
      | some fault => (.error fault.sent, result.1.changes.foldl change written)) := rfl
  rw [hsend]
  cases result.1.fault <;> rfl

/-- One offer, whatever its outcome: who does not take the text leaves, and so does who is
unsubscribed by the write; who joins comes last. -/
theorem offer_traced {start : σ} {h : Handle} {c : Channel (Traced σ)}
    (turn : streams.Turn who? text start c.world.world h)
    (named : ∀ k ∈ h :: (streams.leavers text c.world.world h ++ c.live),
      (who? c.world.world k).isSome = true) :
    let w := c.world.world
    let result := c.offer streams.traced text h
    result.1 = .ok (streams.takes text w h) ∧
      result.2.world = ⟨streams.offered text w h, c.world.attempts ++
        if streams.isOpen w h then [⟨h, text, streams.takes text w h⟩] else []⟩ ∧
      result.2.live = c.live.filter (!streams.ousts text w h ·) ++ streams.joiners text w h := by
  intro w result
  have hopen : streams.traced.isOpen c.world h = streams.isOpen w h := rfl
  by_cases ho : streams.isOpen w h = true
  · -- Names that are borne are none of the new ones.
    have hnew : ∀ k ∈ streams.joiners text w h, k ∉ h :: (streams.leavers text w h ++ c.live) := by
      intro k hk hmem
      have hsome := named k hmem
      rw [turn.fresh k hk] at hsome
      exact Bool.false_ne_true hsome
    have hjoiners : streams.joiners text w h =
        Change.joined (streams.write h text w).1.changes := if_pos ho
    have hleavers : streams.leavers text w h =
        Change.left (streams.write h text w).1.changes := if_pos ho
    have hdistinct := turn.distinct
    have hself : h ∉ streams.joiners text w h := fun hmem => hnew h hmem List.mem_cons_self
    rw [hjoiners] at hnew hdistinct
    rw [hleavers] at hnew
    obtain ⟨told, hsend, hworld, hlive⟩ := send_traced
      (fun k hk hmem => hnew k hk (List.mem_cons_of_mem h (List.mem_append_right _ hmem))) hdistinct
      (fun k hk hmem => hnew k hk (List.mem_cons_of_mem h (List.mem_append_left _ hmem)))
    rw [← hjoiners, ← hleavers] at hlive
    have hoffered : streams.offered text w h = (streams.write h text w).2 := if_pos ho
    have htakes : streams.takes text w h = (streams.write h text w).1.fault.isNone := by
      simp [Streams.takes, ho]
    rw [hoffered, if_pos ho]
    cases hfault : (streams.write h text w).1.fault with
    | none =>
      rw [hfault] at hsend hworld htakes
      have hresult : result = (.ok true, told) := by simp [result, offer, hopen, ho, hsend]
      rw [hresult, htakes]
      refine ⟨rfl, hworld, hlive.trans ?_⟩
      simp [Streams.ousts, htakes]
    | some fault =>
      rw [hfault] at hsend hworld htakes
      have hsent := Fault.family_sent (turn.family ho fault hfault)
      have hresult : result.1 = .ok false ∧ result.2.live = told.live.filter (· != h) ∧
          result.2.world = told.world := by
        simp [result, offer, hopen, ho, hsend, hsent, note]
      rw [hresult.1, hresult.2.1, hresult.2.2, htakes]
      refine ⟨rfl, hworld, ?_⟩
      have hjoin : (streams.joiners text w h).filter (· != h) = streams.joiners text w h :=
        List.filter_eq_self.mpr fun k hk => bne_iff_ne.mpr fun heq => hself (heq ▸ hk)
      rw [hlive, List.filter_append, hjoin, List.filter_filter]
      simp [Streams.ousts, htakes, bne, Bool.and_comm]
  · have htakes : streams.takes text w h = false := by simp [Streams.takes, ho]
    have hresult : result = (.ok false, c.unsubscribe h) := by simp [result, offer, hopen, ho]
    rw [hresult, htakes]
    refine ⟨rfl, ?_, ?_⟩
    · simp [Streams.offered, ho, w]
    · simp [Streams.joiners, Streams.ousts, Streams.leavers, ho, htakes, bne]

/-- A channel some way into a round, when the connections `before` were offered the text. -/
structure Midway (streams : Streams σ) (who? : σ → Handle → Option ι) (text : Text) (start : σ)
    (before : List Handle) (c : Channel (Traced σ)) : Prop where
  world : c.world.world = streams.visited text start before
  named : ∀ k ∈ c.live, (who? c.world.world k).isSome = true

/-- What offers to the connections `order` come to, told by what they do in the world `start`: the
tries that they make, the connections that they end and those that they make. -/
structure Round (streams : Streams σ) (who? : σ → Handle → Option ι) (text : Text) (start : σ)
    (order : List Handle) (c after : Channel (Traced σ)) : Prop where
  attempts : after.world.attempts = c.world.attempts ++
    (order.filter (streams.isOpen start)).map fun h => ⟨h, text, streams.takes text start h⟩
  live : ∃ joined,
    after.live = c.live.filter (fun k => !order.any (streams.ousts text start · k)) ++ joined ∧
      joined.map (who? after.world.world) = order.flatMap (streams.newcomers who? text start) ∧
      (∀ k ∈ joined, who? c.world.world k = none) ∧
      ∀ k ∈ joined, (who? after.world.world k).isSome = true

section Round

variable {live before first rest : List Handle} {start : σ} {c between after : Channel (Traced σ)}
  (steady : streams.Steady who? text live start)

include steady

theorem Midway.borne (midway : Midway streams who? text start before c)
    (visits : Visits live before) {k : Handle} (hk : (who? start k).isSome = true) :
    (who? c.world.world k).isSome = true := by
  rw [midway.world]
  exact steady.named_visited visits hk

theorem Midway.kept (midway : Midway streams who? text start before c)
    (ahead : Midway streams who? text start (before ++ rest) after)
    (visits : Visits live (before ++ rest)) {k : Handle}
    (hk : (who? c.world.world k).isSome = true) :
    who? after.world.world k = who? c.world.world k := by
  rw [midway.world] at hk ⊢
  rw [ahead.world, steady.kept visits hk]

/-- Two rounds one after the other are one. -/
theorem Round.append (visits : Visits live (before ++ first ++ rest))
    (midway : Midway streams who? text start before c)
    (midway₁ : Midway streams who? text start (before ++ first) between)
    (midway₂ : Midway streams who? text start (before ++ first ++ rest) after)
    (round₁ : Round streams who? text start first c between)
    (round₂ : Round streams who? text start rest between after) :
    Round streams who? text start (first ++ rest) c after := by
  obtain ⟨joined₁, hlive₁, hwhose₁, hfresh₁, hsome₁⟩ := round₁.live
  obtain ⟨joined₂, hlive₂, hwhose₂, hfresh₂, hsome₂⟩ := round₂.live
  have hkept₁ {k : Handle} (hk : (who? c.world.world k).isSome = true) :=
    midway.kept steady midway₁ visits.left hk
  have hkept₂ {k : Handle} (hk : (who? between.world.world k).isSome = true) :=
    midway₁.kept steady midway₂ visits hk
  -- Only connections that were there at the start are ended, so who has joined since stays.
  have hstays : joined₁.filter (fun k => !rest.any (streams.ousts text start · k)) = joined₁ := by
    refine List.filter_eq_self.mpr fun k hk => ?_
    rw [Bool.not_eq_true', List.any_eq_false]
    intro h hh houst
    have hlive : h ∈ live := visits.subset h (List.mem_append_right _ hh)
    have hborne := midway.borne steady visits.left.left (steady.named_of_ousts hlive houst)
    rw [hfresh₁ k hk] at hborne
    exact Bool.false_ne_true hborne
  refine ⟨?_, joined₁ ++ joined₂, ?_, ?_, ?_, ?_⟩
  · rw [round₂.attempts, round₁.attempts, List.filter_append, List.map_append, List.append_assoc]
  · rw [hlive₂, hlive₁, List.filter_append, hstays, List.filter_filter, List.append_assoc]
    congr 1
    apply List.filter_congr
    intro k _
    rw [List.any_append, Bool.not_or, Bool.and_comm]
  · have hsame : joined₁.map (who? after.world.world) = joined₁.map (who? between.world.world) :=
      List.map_congr_left fun k hk => hkept₂ (hsome₁ k hk)
    rw [List.map_append, hsame, hwhose₁, hwhose₂, List.flatMap_append]
  · intro k hk
    rcases List.mem_append.mp hk with hk | hk
    · exact hfresh₁ k hk
    · cases hwho : who? c.world.world k with
      | none => rfl
      | some i =>
        have hsame := hkept₁ (Option.isSome_of_eq_some hwho)
        rw [hfresh₂ k hk, hwho] at hsame
        cases hsame
  · intro k hk
    rcases List.mem_append.mp hk with hk | hk
    · exact hkept₂ (hsome₁ k hk) ▸ hsome₁ k hk
    · exact hsome₂ k hk

/-- One offer is a round. -/
theorem offer_round {h : Handle} (visits : Visits live (before ++ [h]))
    (midway : Midway streams who? text start before c) :
    let result := c.offer streams.traced text h
    result.1 = .ok (streams.takes text start h) ∧
      Midway streams who? text start (before ++ [h]) result.2 ∧
      Round streams who? text start [h] c result.2 := by
  have turn := steady.turn before h visits
  rw [← midway.world] at turn
  have hh : h ∈ live := visits.subset h (by simp)
  have hnamed : ∀ k ∈ h :: (streams.leavers text c.world.world h ++ c.live),
      (who? c.world.world k).isSome = true := by
    intro k hk
    rcases List.mem_cons.mp hk with rfl | hk
    · exact midway.borne steady visits.left (steady.named k hh)
    rcases List.mem_append.mp hk with hk | hk
    · exact midway.borne steady visits.left (steady.known h hh k ((turn.leavers k).mp hk))
    · exact midway.named k hk
  obtain ⟨hgot, hworld, hlive⟩ := offer_traced turn hnamed
  intro result
  have hnext : result.2.world.world = streams.offered text c.world.world h :=
    congrArg Traced.world hworld
  refine ⟨turn.takes ▸ hgot, ⟨?_, ?_⟩, ?_, streams.joiners text c.world.world h, ?_, ?_, ?_, ?_⟩
  · rw [hnext, midway.world, Streams.visited_append_cons]
    rfl
  · intro k hk
    rw [hlive, List.mem_append] at hk
    rw [hnext]
    rcases hk with hk | hk
    · have hk := midway.named k (List.mem_filter.mp hk).1
      exact turn.kept k hk ▸ hk
    · exact turn.named k hk
  · rw [hworld, turn.isOpen, turn.takes]
    cases ho : streams.isOpen start h <;> simp [ho]
  · rw [hlive]
    congr 1
    apply List.filter_congr
    intro k _
    rw [turn.ousts, List.any_cons, List.any_nil, Bool.or_false]
  · rw [hnext, List.flatMap_cons, List.flatMap_nil, List.append_nil, ← turn.newcomers]
    rfl
  · exact turn.fresh
  · rw [hnext]
    exact turn.named

theorem offerAll_round {order : List Handle} (visits : Visits live (before ++ order))
    (midway : Midway streams who? text start before c) :
    let result := c.offerAll streams.traced text order
    result.1 = .ok (order.countP (streams.takes text start)) ∧
      Midway streams who? text start (before ++ order) result.2 ∧
      Round streams who? text start order c result.2 := by
  induction order generalizing before c with
  | nil =>
    refine ⟨rfl, ?_, (List.append_nil _).symm, [], ?_, rfl, ?_, ?_⟩
    · rw [List.append_nil]
      exact midway
    · exact (List.filter_eq_self.mpr fun _ _ => rfl).symm.trans (List.append_nil _).symm
    · exact fun _ h => absurd h List.not_mem_nil
    · exact fun _ h => absurd h List.not_mem_nil
  | cons h order ih =>
    rw [List.append_cons] at visits ⊢
    obtain ⟨hgot, midway₁, round₁⟩ := offer_round steady visits.left midway
    obtain ⟨hcount, midway₂, round₂⟩ := ih visits midway₁
    have hresult : c.offerAll streams.traced text (h :: order) =
        (.ok (order.countP (streams.takes text start) + (streams.takes text start h).toNat),
          ((c.offer streams.traced text h).2.offerAll streams.traced text order).2) := by
      rw [offerAll, Prod.ext (y := (_, _)) hgot rfl]
      simp only
      rw [Prod.ext (y := (_, _)) hcount rfl]
    intro result
    rw [show result = _ from hresult]
    refine ⟨?_, midway₂, Round.append steady visits midway midway₁ midway₂ round₁ round₂⟩
    rw [List.countP_cons]
    cases streams.takes text start h <;> rfl

end Round

/-- Whether a connection is still subscribed after a broadcast: it took the text, and no write
unsubscribed it. -/
def stays (streams : Streams σ) (text : Text) (c : Channel (Traced σ)) (k : Handle) : Bool :=
  streams.takes text c.world.world k &&
    c.live.all fun h => !(streams.leavers text c.world.world h).contains k

/-- What a broadcast comes to. No order is in it: the count is of those who take the text, every
open connection that was found is tried once and no other is, each frame is written where it is
taken, and of the connections found those stay that should, with the new ones after them. -/
structure Outcome (streams : Streams σ) (who? : σ → Handle → Option ι) (text : Text)
    (c : Channel (Traced σ)) (result : Except Fault Nat × Channel (Traced σ)) : Prop where
  count : result.1 = .ok (c.live.countP (streams.takes text c.world.world))
  attempts : ∀ h, result.2.world.attemptsOn h = c.world.attemptsOn h ++
    if h ∈ c.live ∧ streams.isOpen c.world.world h then
      [⟨h, text, streams.takes text c.world.world h⟩] else []
  frames : ∀ stream : Handle → Bool, result.2.world.framesTo stream =
    c.world.framesTo stream ++
      List.replicate (c.live.countP fun h => stream h && streams.takes text c.world.world h) text
  connections : ∃ joined, result.2.live = c.live.filter (stays streams text c) ++ joined ∧
    (∀ k ∈ joined, k ∉ c.live) ∧
      (joined.map (who? result.2.world.world)).Perm
        (c.live.flatMap (streams.newcomers who? text c.world.world))
  kept : ∀ k ∈ c.live, who? result.2.world.world k = who? c.world.world k

/-- Distinct connections are tried once each. -/
theorem filter_receiver_map {order : List Handle} (distinct : order.Nodup) (taken : Handle → Bool)
    (h : Handle) :
    (order.map fun k => (⟨k, text, taken k⟩ : Attempt)).filter (·.receiver == h) =
      if h ∈ order then [⟨h, text, taken h⟩] else [] := by
  have hkey : ((·.receiver == h) ∘ fun k => (⟨k, text, taken k⟩ : Attempt)) = (· == h) := rfl
  rw [List.filter_map, hkey, List.filter_beq, distinct.count]
  split <;> rfl

theorem texts_map (order : List Handle) (stream taken : Handle → Bool) :
    ((order.map fun k => (⟨k, text, taken k⟩ : Attempt)).filter fun a =>
      stream a.receiver && a.taken).map Attempt.text =
        List.replicate (order.countP fun h => stream h && taken h) text := by
  have hconst : (Attempt.text ∘ fun k => ⟨k, text, taken k⟩) = fun _ : Handle => text := rfl
  rw [List.filter_map, List.map_map, hconst, List.map_const', ← List.countP_eq_length_filter]
  rfl

theorem Round.stays_eq {order : List Handle} {c : Channel (Traced σ)} (perm : order.Perm c.live)
    {k : Handle} (hk : k ∈ c.live) :
    (!order.any (streams.ousts text c.world.world · k)) = stays streams text c k := by
  rw [Bool.eq_iff_iff, Bool.not_eq_true', List.any_eq_false, stays, Bool.and_eq_true,
    List.all_eq_true]
  simp only [Streams.ousts, Bool.or_eq_true, Bool.and_eq_true, beq_iff_eq, Bool.not_eq_true',
    not_or, not_and, perm.mem_iff, Bool.not_eq_false, Bool.not_eq_true]
  constructor
  · intro h
    exact ⟨(h k hk).1 rfl, fun g hg => (h g hg).2⟩
  · rintro ⟨htakes, hleft⟩ g hg
    exact ⟨fun heq => heq ▸ htakes, hleft g hg⟩

theorem outcome_of_round {order : List Handle} {c : Channel (Traced σ)} (distinct : c.live.Nodup)
    (steady : streams.Steady who? text c.live c.world.world) (perm : order.Perm c.live) :
    Outcome streams who? text c (c.offerAll streams.traced text order) := by
  have visits : Visits c.live order :=
    ⟨perm.nodup_iff.mpr distinct, fun k hk => perm.mem_iff.mp hk⟩
  have midway : Midway streams who? text c.world.world [] c := ⟨rfl, steady.named⟩
  obtain ⟨hcount, midway', round⟩ := offerAll_round steady
    (show Visits c.live ([] ++ order) from visits) midway
  obtain ⟨joined, hlive, hwhose, hfresh, -⟩ := round.live
  refine ⟨?_, fun h => ?_, fun stream => ?_, ⟨joined, ?_, fun k hk hmem => ?_, ?_⟩, fun k hk => ?_⟩
  · rw [hcount, perm.countP_eq]
  · rw [Traced.attemptsOn, round.attempts, List.filter_append,
      filter_receiver_map (visits.distinct.filter _)]
    simp only [List.mem_filter, perm.mem_iff]
    rfl
  · rw [Traced.framesTo, round.attempts, List.filter_append, List.map_append]
    rw [texts_map, List.countP_filter, perm.countP_eq]
    have htakes : (fun h => (stream h && streams.takes text c.world.world h) &&
        streams.isOpen c.world.world h) =
          fun h => stream h && streams.takes text c.world.world h := by
      funext h
      rw [Streams.takes]
      cases streams.isOpen c.world.world h <;> simp
    rw [htakes]
    rfl
  · rw [hlive]
    congr 1
    exact List.filter_congr fun k hk => Round.stays_eq perm hk
  · have hsome := steady.named k hmem
    rw [hfresh k hk] at hsome
    exact Bool.false_ne_true hsome
  · rw [hwhose]
    exact perm.flatMap_right _
  · exact midway.kept steady midway' visits (steady.named k hk)

/-- Results that nobody can tell apart: the count, what was tried and written where, which of the
connections found are left, and whose all connections are. -/
structure Alike (who? : σ → Handle → Option ι) (found : List Handle)
    (result result' : Except Fault Nat × Channel (Traced σ)) : Prop where
  count : result.1 = result'.1
  attempts : ∀ h, result.2.world.attemptsOn h = result'.2.world.attemptsOn h
  frames : ∀ stream, result.2.world.framesTo stream = result'.2.world.framesTo stream
  left : ∀ k ∈ found, k ∈ result.2.live ↔ k ∈ result'.2.live
  whose : (result.2.live.map (who? result.2.world.world)).Perm
    (result'.2.live.map (who? result'.2.world.world))

section Outcome

variable {c : Channel (Traced σ)} {result result' : Except Fault Nat × Channel (Traced σ)}

theorem Outcome.mem_live (outcome : Outcome streams who? text c result) {k : Handle}
    (hk : k ∈ c.live) : k ∈ result.2.live ↔ stays streams text c k = true := by
  obtain ⟨joined, hlive, hfresh, -⟩ := outcome.connections
  rw [hlive, List.mem_append, List.mem_filter]
  constructor
  · rintro (h | h)
    · exact h.2
    · exact absurd hk (hfresh k h)
  · exact fun h => .inl ⟨hk, h⟩

theorem Outcome.whose (outcome : Outcome streams who? text c result) :
    (result.2.live.map (who? result.2.world.world)).Perm
      ((c.live.filter (stays streams text c)).map (who? c.world.world) ++
        c.live.flatMap (streams.newcomers who? text c.world.world)) := by
  obtain ⟨joined, hlive, -, hwhose⟩ := outcome.connections
  have hkept : (c.live.filter (stays streams text c)).map (who? result.2.world.world) =
      (c.live.filter (stays streams text c)).map (who? c.world.world) :=
    List.map_congr_left fun k hk => outcome.kept k (List.mem_filter.mp hk).1
  rw [hlive, List.map_append, hkept]
  exact hwhose.append_left _

theorem Outcome.alike (outcome : Outcome streams who? text c result)
    (outcome' : Outcome streams who? text c result') : Alike who? c.live result result' where
  count := outcome.count.trans outcome'.count.symm
  attempts h := (outcome.attempts h).trans (outcome'.attempts h).symm
  frames stream := (outcome.frames stream).trans (outcome'.frames stream).symm
  left _ hk := (outcome.mem_live hk).trans (outcome'.mem_live hk).symm
  whose := outcome.whose.trans outcome'.whose.symm

end Outcome

/-- The order in which a broadcast visits the connections that it finds does not matter, though
writes fail, end each other's connections and make new ones meanwhile. -/
theorem broadcast_any_order {c : Channel (Traced σ)} {type payload : Text} {data : Json}
    (encoded : encode? type data = some payload) (distinct : c.live.Nodup)
    (steady : streams.Steady who? (frame payload) c.live c.world.world) :
    let told (order : List Handle) := c.broadcastIn streams.traced order type data
    (∀ order, order.Perm c.live → Outcome streams who? (frame payload) c (told order)) ∧
      ∀ order order', order.Perm c.live → order'.Perm c.live →
        Alike who? c.live (told order) (told order') := by
  intro told
  have houtcome : ∀ order, order.Perm c.live →
      Outcome streams who? (frame payload) c (told order) := by
    intro order perm
    have htold : told order = c.offerAll streams.traced (frame payload) order :=
      c.broadcastIn_of_some streams.traced encoded order
    rw [htold]
    exact outcome_of_round distinct steady perm
  exact ⟨houtcome, fun order order' perm perm' =>
    (houtcome order perm).alike (houtcome order' perm')⟩

end Channel

/-- What a connection does whenever it is written to. The streams that it connects are told by
their labels. -/
structure Script where
  closed : Bool := false
  fault : Option Fault := none
  leaves : List Handle := []
  joins : List Text := []

/-- Streams that keep to scripts. The world is the labels of all connections in the order in which
they were made, so the name that a new connection gets depends on who came before. -/
def scripted (script : Handle → Script) : Streams (List Text) where
  isOpen _ h := !(script h).closed
  write h _ labels :=
    ({ fault := (script h).fault
       changes := (script h).leaves.map .leave ++
        (List.range' labels.length (script h).joins.length).map .join },
      labels ++ (script h).joins)
  close _ labels := labels

section Scripted

/-- Whose a connection is. -/
def label? (labels : List Text) (h : Handle) : Option Text := labels[h]?

theorem joined_scripted (leaves joins : List Handle) :
    Change.joined (leaves.map .leave ++ joins.map .join) = joins := by
  induction leaves with
  | nil =>
    induction joins with
    | nil => rfl
    | cons h joins ih => exact congrArg (h :: ·) ih
  | cons h leaves ih => exact ih

theorem left_scripted (leaves joins : List Handle) :
    Change.left (leaves.map .leave ++ joins.map .join) = leaves := by
  induction leaves with
  | nil =>
    induction joins with
    | nil => rfl
    | cons h joins ih => exact ih
  | cons h leaves ih => exact congrArg (h :: ·) ih

variable (script : Handle → Script) (text : Text)

theorem joiners_scripted (labels : List Text) (h : Handle) :
    (scripted script).joiners text labels h =
      if (script h).closed then [] else List.range' labels.length (script h).joins.length := by
  cases hc : (script h).closed <;>
    simp [Streams.joiners, scripted, joined_scripted, hc]

theorem offered_scripted (labels : List Text) (h : Handle) :
    (scripted script).offered text labels h =
      labels ++ if (script h).closed then [] else (script h).joins := by
  cases hc : (script h).closed <;> simp [Streams.offered, scripted, hc]

theorem newcomers_scripted (labels : List Text) (h : Handle) :
    (scripted script).newcomers label? text labels h =
      if (script h).closed then [] else (script h).joins.map some := by
  rw [Streams.newcomers, joiners_scripted, offered_scripted]
  cases (script h).closed with
  | true => rfl
  | false =>
    apply List.ext_getElem
    · simp
    · intro i hi _
      have hlt : i < (script h).joins.length := by simpa using hi
      simp [label?, hlt]

theorem turn_scripted {h : Handle} (family : ∀ fault ∈ (script h).fault,
      fault.family = .system ∨ fault.family = .value ∨ fault.family = .transport)
    (start labels : List Text) :
    (scripted script).Turn label? text start labels h where
  isOpen := rfl
  takes := rfl
  leavers k := by
    simp only [Streams.leavers, scripted, left_scripted]
  newcomers := by rw [newcomers_scripted, newcomers_scripted]
  family _ fault hfault := family fault hfault
  distinct := by
    rw [joiners_scripted]
    split
    · exact List.nodup_nil
    · exact List.nodup_range'
  fresh k hk := by
    rw [joiners_scripted] at hk
    split at hk
    · exact absurd hk List.not_mem_nil
    · exact List.getElem?_eq_none (List.mem_range'_1.mp hk).1
  named k hk := by
    rw [joiners_scripted] at hk
    rw [offered_scripted]
    split at hk
    · exact absurd hk List.not_mem_nil
    · rename_i hclosed
      have hlt := (List.mem_range'_1.mp hk).2
      rw [if_neg hclosed, label?, isSome_getElem?, List.length_append]
      exact hlt
  kept k hk := by
    rw [label?, isSome_getElem?] at hk
    rw [offered_scripted]
    exact List.getElem?_append_left hk

/-- Scripts that name connections of before only, and fail as a write may, are steady. -/
theorem steady_scripted {live : List Handle} {labels : List Text}
    (named : ∀ h ∈ live, ∀ k ∈ h :: (script h).leaves, k < labels.length)
    (family : ∀ h ∈ live, ∀ fault ∈ (script h).fault,
      fault.family = .system ∨ fault.family = .value ∨ fault.family = .transport) :
    (scripted script).Steady label? text live labels where
  named h hh := by
    rw [label?, isSome_getElem?]
    exact named h hh h List.mem_cons_self
  known h hh k hk := by
    rw [label?, isSome_getElem?]
    refine named h hh k (List.mem_cons_of_mem h ?_)
    rw [Streams.leavers] at hk
    split at hk
    · simpa only [scripted, left_scripted] using hk
    · exact absurd hk List.not_mem_nil
  turn before h visits := turn_scripted script text (family h (visits.subset h (by simp))) _ _

end Scripted

namespace Channel

/-- Six connections: one that ends itself and the next, one that makes two, one that is closed, one
that fails and yet ends another and makes one, one that only takes, and one that is gone. -/
def quarrel : Handle → Script
  | 0 => { leaves := [0, 1], joins := ["x"] }
  | 1 => { joins := ["y", "z"] }
  | 2 => { closed := true, joins := ["w"] }
  | 3 => { fault := some (.outside .system "OSError" "broken"), leaves := [1], joins := ["v"] }
  | 4 => {}
  | _ => { fault := some (.transport "gone") }

theorem broadcast_any_order_quarrel :
    let c : Channel (Traced (List Text)) :=
      { live := [0, 1, 2, 3, 4, 5], world := ⟨["a", "b", "c", "d", "e", "f"], []⟩ }
    let told (order : List Handle) := c.broadcastIn (scripted quarrel).traced order reload .null
    ∃ payload, encode? reload .null = some payload ∧ c.live.Nodup ∧
      (scripted quarrel).Steady label? (frame payload) c.live c.world.world ∧
      Alike label? c.live (told [0, 1, 2, 3, 4, 5]) (told [5, 4, 3, 2, 1, 0]) ∧
      (told [5, 4, 3, 2, 1, 0]).1 = .ok 3 ∧
      (∀ k ∈ c.live, k ∈ (told [5, 4, 3, 2, 1, 0]).2.live ↔ k = 4) ∧
      (told [0, 1, 2, 3, 4, 5]).2.world.attemptsOn 1 = [⟨1, frame payload, true⟩] := by
  intro c told
  obtain ⟨payload, encoded⟩ : ∃ payload, encode? reload .null = some payload :=
    Option.isSome_iff_exists.mp (by decide +kernel)
  have distinct : c.live.Nodup := by decide
  have named : ∀ h ∈ c.live, ∀ k ∈ h :: (quarrel h).leaves, k < 6 := by decide
  have family : ∀ h ∈ c.live, ∀ fault ∈ (quarrel h).fault,
      fault.family = .system ∨ fault.family = .value ∨ fault.family = .transport := by
    decide
  have steady : (scripted quarrel).Steady label? (frame payload) c.live c.world.world :=
    steady_scripted quarrel (frame payload) named family
  obtain ⟨houtcome, halike⟩ := broadcast_any_order encoded distinct steady
  have hforth : [0, 1, 2, 3, 4, 5].Perm c.live := List.Perm.refl _
  have hback : [5, 4, 3, 2, 1, 0].Perm c.live := by decide
  refine ⟨payload, encoded, distinct, steady, halike _ _ hforth hback, ?_, ?_, ?_⟩
  · exact (houtcome _ hback).count
  · intro k hk
    have hstays : c.live.filter (stays (scripted quarrel) (frame payload) c) = [4] := rfl
    have hiff : k ∈ c.live.filter (stays (scripted quarrel) (frame payload) c) ↔ k = 4 := by
      rw [hstays, List.mem_singleton]
    rw [(houtcome _ hback).mem_live hk, ← hiff, List.mem_filter]
    exact ⟨fun h => ⟨hk, h⟩, fun h => h.2⟩
  · exact (houtcome _ hforth).attempts 1

end Channel

end LiveTree.Event
