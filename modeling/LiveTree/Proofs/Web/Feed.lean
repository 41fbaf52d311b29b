import LiveTree.Proofs.Event.Delivery
import Mathlib.Data.List.Perm.Subperm

namespace LiveTree.Web

open Event (Channel Handle Queue Reading Visiting)

namespace Feeds

/-- How far the reading of a feed has come, none if there is no such feed. -/
def stage? (feeds : Feeds) (h : Handle) : Option Stage := feeds[h]?.map Feed.stage

@[simp] theorem size_setQueue (h : Handle) (queue : Queue) (feeds : Feeds) :
    (feeds.setQueue h queue).size = feeds.size := Array.size_modify

@[simp] theorem size_setStage (h : Handle) (stage : Stage) (feeds : Feeds) :
    (feeds.setStage h stage).size = feeds.size := Array.size_modify

@[simp] theorem stage?_setQueue (h k : Handle) (queue : Queue) (feeds : Feeds) :
    (feeds.setQueue h queue).stage? k = feeds.stage? k := by
  rw [stage?, stage?, setQueue, Array.getElem?_modify]
  split
  · subst h
    cases feeds[k]? <;> rfl
  · rfl

theorem stage?_setStage (h k : Handle) (stage : Stage) (feeds : Feeds) :
    (feeds.setStage h stage).stage? k =
      if h = k ∧ h < feeds.size then some stage else feeds.stage? k := by
  rw [stage?, stage?, setStage, Array.getElem?_modify]
  by_cases hk : h = k
  · subst hk
    by_cases hlt : h < feeds.size
    · simp [hlt]
    · simp [hlt]
  · simp [hk]

theorem queue_setQueue (h k : Handle) (queue : Queue) (feeds : Feeds) :
    (feeds.setQueue h queue).queue k =
      if h = k ∧ h < feeds.size then queue else feeds.queue k := by
  rw [Feeds.queue, Feeds.queue, setQueue, Array.getElem?_modify]
  by_cases hk : h = k
  · subst hk
    by_cases hlt : h < feeds.size
    · simp [hlt]
    · simp [hlt]
  · simp [hk]

@[simp] theorem queue_setStage (h k : Handle) (stage : Stage) (feeds : Feeds) :
    (feeds.setStage h stage).queue k = feeds.queue k := by
  rw [Feeds.queue, Feeds.queue, setStage, Array.getElem?_modify]
  split
  · subst h
    cases feeds[k]? <;> rfl
  · rfl

end Feeds

namespace Hub

/-- What writing to open feeds and reading on leave as they are: who is subscribed, how far each
feed was read and which are closed. -/
structure Quiet (hub after : Hub) : Prop where
  live : after.live = hub.live
  size : after.world.size = hub.world.size
  stage : ∀ k, after.world.stage? k = hub.world.stage? k
  closed : ∀ k, (after.world.queue k).closed = (hub.world.queue k).closed

theorem Quiet.refl (hub : Hub) : Quiet hub hub := ⟨rfl, rfl, fun _ => rfl, fun _ => rfl⟩

theorem Quiet.trans {hub between after : Hub} (first : Quiet hub between)
    (second : Quiet between after) : Quiet hub after where
  live := second.live.trans first.live
  size := second.size.trans first.size
  stage k := (second.stage k).trans (first.stage k)
  closed k := (second.closed k).trans (first.closed k)

theorem quiet_setQueue {hub after : Hub} {h : Handle} {queue : Queue}
    (hclosed : queue.closed = (hub.world.queue h).closed) (hlive : after.live = hub.live)
    (hworld : after.world = hub.world.setQueue h queue) : Quiet hub after where
  live := hlive
  size := by rw [hworld, Feeds.size_setQueue]
  stage k := by rw [hworld, Feeds.stage?_setQueue]
  closed k := by
    rw [hworld, Feeds.queue_setQueue]
    split
    · rename_i hk
      rw [hclosed, hk.1]
    · rfl

/-- Ending a feed for good. -/
structure Finishes (h : Handle) (hub after : Hub) : Prop where
  live : after.live = hub.live.filter (· != h)
  size : after.world.size = hub.world.size
  stage : ∀ k, after.world.stage? k = if k = h then some .over else hub.world.stage? k
  closed : ∀ k, (after.world.queue k).closed = (k == h || (hub.world.queue k).closed)

theorem finishes_finish {h : Handle} {hub : Hub} (hlt : h < hub.world.size) :
    Finishes h hub (hub.finish h) := by
  refine ⟨rfl, ?_, fun k => ?_, fun k => ?_⟩
  · simp [finish]
  · simp only [finish, Channel.world_unsubscribe, Feeds.stage?_setStage, Feeds.size_setQueue,
      hlt, and_true, Feeds.stage?_setQueue, eq_comm]
  · simp only [finish, Channel.world_unsubscribe, Feeds.queue_setStage, Feeds.queue_setQueue, hlt,
      and_true]
    by_cases hk : k = h
    · simp [hk]
    · simp [hk, Ne.symm hk]

theorem Quiet.finishes {h : Handle} {hub between after : Hub} (first : Quiet hub between)
    (second : Finishes h between after) : Finishes h hub after where
  live := first.live ▸ second.live
  size := second.size.trans first.size
  stage k := first.stage k ▸ second.stage k
  closed k := first.closed k ▸ second.closed k

/-- Nothing changes but how far one feed was read. -/
structure Turns (h : Handle) (stage : Stage) (hub after : Hub) : Prop where
  live : after.live = hub.live
  size : after.world.size = hub.world.size
  stage : ∀ k, after.world.stage? k = if k = h then some stage else hub.world.stage? k
  queue : ∀ k, after.world.queue k = hub.world.queue k

theorem turns_setStage {h : Handle} {hub : Hub} (hlt : h < hub.world.size) (stage : Stage) :
    Turns h stage hub { hub with world := hub.world.setStage h stage } where
  live := rfl
  size := Feeds.size_setStage h stage _
  stage k := by simp only [Feeds.stage?_setStage, hlt, and_true, eq_comm]
  queue k := Feeds.queue_setStage h k stage _

theorem lt_of_stage? {feeds : Feeds} {h : Handle} {stage : Stage}
    (hstage : feeds.stage? h = some stage) : h < feeds.size := by
  obtain ⟨feed, hfeed, -⟩ := Option.map_eq_some_iff.mp hstage
  exact (Array.getElem?_eq_some_iff.mp hfeed).1

theorem closed_next (queue : Queue) : queue.next.2.closed = queue.closed := by
  rcases queue with ⟨_ | ⟨_ | text, waiting⟩, closed⟩ <;> rfl

section Read

variable {hub : Hub} {h : Handle}

theorem read_fresh (hstage : hub.world.stage? h = some .fresh) :
    hub.read h = (.text connectedText, { hub with world := hub.world.setStage h .reading }) := by
  unfold read
  rw [show hub.world[h]?.map Feed.stage = some .fresh from hstage]

theorem read_over (hstage : hub.world.stage? h = some .over) : hub.read h = (.ended, hub) := by
  unfold read
  rw [show hub.world[h]?.map Feed.stage = some .over from hstage]

/-- Reading on either goes on quietly or ends the feed. -/
theorem read_reading (hstage : hub.world.stage? h = some .reading) :
    (∃ text, (hub.read h).1 = .text text ∧ Quiet hub (hub.read h).2) ∨
      (hub.read h).1 = .ended ∧ Finishes h hub (hub.read h).2 := by
  rcases hnext : (hub.world.queue h).next with ⟨reading, queue⟩
  let taken : Hub := { hub with world := hub.world.setQueue h queue }
  have hclosed : queue.closed = (hub.world.queue h).closed := by
    have hclosed := closed_next (hub.world.queue h)
    rwa [hnext] at hclosed
  have hquiet : Quiet hub taken := quiet_setQueue hclosed rfl rfl
  unfold read
  rw [show hub.world[h]?.map Feed.stage = some .reading from hstage, hnext]
  cases reading with
  | frame text => exact .inl ⟨text, rfl, hquiet⟩
  | keepAlive => exact .inl ⟨_, rfl, hquiet⟩
  | ended =>
    have hlt : h < taken.world.size := hquiet.size ▸ lt_of_stage? hstage
    exact .inr ⟨rfl, hquiet.finishes (finishes_finish hlt)⟩

theorem closeFeed_fresh (hstage : hub.world.stage? h = some .fresh) :
    hub.closeFeed h = { hub with world := hub.world.setStage h .over } := by
  unfold closeFeed
  rw [show hub.world[h]?.map Feed.stage = some .fresh from hstage]

theorem closeFeed_reading (hstage : hub.world.stage? h = some .reading) :
    Finishes h hub (hub.closeFeed h) := by
  have hclose : hub.closeFeed h = hub.finish h := by
    unfold closeFeed
    rw [show hub.world[h]?.map Feed.stage = some .reading from hstage]
  rw [hclose]
  exact finishes_finish (lt_of_stage? hstage)

theorem closeFeed_over (hstage : hub.world.stage? h = some .over) : hub.closeFeed h = hub := by
  unfold closeFeed
  rw [show hub.world[h]?.map Feed.stage = some .over from hstage]

end Read

section Broadcast

variable {hub : Hub}

/-- An open feed takes a frame, and nothing else comes of it. -/
theorem offer_open {h : Handle} (text : Text) (hopen : (hub.world.queue h).closed = false) :
    ∃ after, hub.offer Feeds.asStreams text h = (.ok true, after) ∧ Quiet hub after := by
  let queue : Queue :=
    { hub.world.queue h with waiting := (hub.world.queue h).waiting ++ [some text] }
  let written : Hub := { hub with world := hub.world.setQueue h queue }
  have hclosed : queue.closed = (hub.world.queue h).closed := rfl
  refine ⟨written, ?_, quiet_setQueue hclosed rfl rfl⟩
  simp [Channel.offer, Channel.send, Feeds.asStreams, Feeds.write, Queue.write?, hopen, queue,
    written]

theorem offerAll_open {order : List Handle} {text : Text}
    (hopen : ∀ h ∈ order, (hub.world.queue h).closed = false) :
    (∃ count, (hub.offerAll Feeds.asStreams text order).1 = .ok count) ∧
      Quiet hub (hub.offerAll Feeds.asStreams text order).2 := by
  induction order generalizing hub with
  | nil => exact ⟨⟨0, rfl⟩, .refl hub⟩
  | cons h order ih =>
    obtain ⟨hfirst, hrest⟩ := List.forall_mem_cons.mp hopen
    obtain ⟨between, hoffer, hquiet⟩ := offer_open text hfirst
    obtain ⟨⟨count, hcount⟩, hquiet'⟩ := ih fun k hk => (hquiet.closed k).trans (hrest k hk)
    have hround : hub.offerAll Feeds.asStreams text (h :: order) =
        (.ok (count + 1), (between.offerAll Feeds.asStreams text order).2) := by
      rw [Channel.offerAll, hoffer]
      simp only
      rw [Prod.ext (y := (_, _)) hcount rfl]
      rfl
    rw [hround]
    exact ⟨⟨_, rfl⟩, hquiet.trans hquiet'⟩

theorem broadcastIn_open {order : List Handle} (type : Text) (data : Json)
    (hopen : ∀ h ∈ order, (hub.world.queue h).closed = false) :
    Quiet hub (hub.broadcastIn Feeds.asStreams order type data).2 := by
  rw [Channel.broadcastIn]
  cases Event.encode type data with
  | error fault => exact .refl hub
  | ok payload => exact (offerAll_open hopen).2

end Broadcast

theorem size_openFeed (hub : Hub) : hub.openFeed.2.world.size = hub.world.size + 1 := by
  simp only [openFeed, Channel.subscribe]
  split <;> exact Array.size_push _

theorem size_finish (h : Handle) (hub : Hub) : (hub.finish h).world.size = hub.world.size := by
  simp [finish]

theorem size_read (h : Handle) (hub : Hub) : (hub.read h).2.world.size = hub.world.size := by
  unfold read
  split
  · exact Feeds.size_setStage h _ _
  · rcases (hub.world.queue h).next with ⟨_ | _ | _, queue⟩
    · exact Feeds.size_setQueue h _ _
    · exact Feeds.size_setQueue h _ _
    · exact (size_finish h _).trans (Feeds.size_setQueue h _ _)
  · rfl

theorem size_closeFeed (h : Handle) (hub : Hub) :
    (hub.closeFeed h).world.size = hub.world.size := by
  unfold closeFeed
  split
  · exact Feeds.size_setStage h _ _
  · exact size_finish h hub
  · rfl

/-- A new feed is open and subscribed, and changes nothing for the others. -/
theorem openFeed_spec {hub : Hub} (hnew : hub.world.size ∉ hub.live) :
    hub.openFeed.2.live = hub.live ++ [hub.world.size] ∧
      (∀ k, hub.openFeed.2.world.stage? k =
        if k = hub.world.size then some .fresh else hub.world.stage? k) ∧
      ∀ k, hub.openFeed.2.world.queue k = hub.world.queue k := by
  have hopen : hub.openFeed.2 =
      { hub with live := hub.live ++ [hub.world.size], world := hub.world.push {} } := by
    simp [openFeed, Channel.subscribe, hnew]
  rw [hopen]
  refine ⟨rfl, fun k => ?_, fun k => ?_⟩
  · rw [Feeds.stage?, Array.getElem?_push]
    split
    · rfl
    · rfl
  · rw [Feeds.queue, Feeds.queue, Array.getElem?_push]
    split
    · rename_i hk
      subst hk
      simp
    · rfl

end Hub

/-- A hub, and what its viewers have done with the answers that they got. -/
structure Traffic where
  hub : Hub := .empty
  /-- The answers that a text was read from. -/
  begun : List Handle := []
  closed : List Handle := []
  /-- The answers that were read to their end. -/
  ended : List Handle := []

/-- What happens at a hub. -/
inductive Move where
  /-- A request for events is answered. -/
  | request
  | read (h : Handle)
  | close (h : Handle)
  | broadcast (visiting : Visiting) (type : Text) (data : Json)

def Move.isRequest : Move → Bool
  | .request => true
  | _ => false

namespace Traffic

/-- One move. Nobody can read or close an answer that was not given. -/
def act (t : Traffic) : Move → Traffic
  | .request => { t with hub := t.hub.openFeed.2 }
  | .read h =>
    if h < t.hub.world.size then
      match t.hub.read h with
      | (.text _, hub) => { t with hub, begun := h :: t.begun }
      | (.ended, hub) => { t with hub, ended := h :: t.ended }
    else t
  | .close h =>
    if h < t.hub.world.size then
      { t with hub := t.hub.closeFeed h, closed := h :: t.closed }
    else t
  | .broadcast visiting type data =>
    { t with
      hub := (t.hub.broadcastIn Feeds.asStreams (visiting.order t.hub.live) type data).2 }

def run (t : Traffic) (moves : List Move) : Traffic := moves.foldl act t

/-- Whether an answer was closed or read to its end. -/
def Over (t : Traffic) (h : Handle) : Prop := h ∈ t.closed ∨ h ∈ t.ended

instance (t : Traffic) (h : Handle) : Decidable (t.Over h) :=
  inferInstanceAs (Decidable (_ ∨ _))

/-- A feed is open and subscribed until its answer is over, and for good if nothing was read of the
answer before. -/
structure Tidy (t : Traffic) : Prop where
  distinct : t.hub.live.Nodup
  live : ∀ h, h ∈ t.hub.live ↔ h < t.hub.world.size ∧ ¬(t.Over h ∧ h ∈ t.begun)
  closed : ∀ h, (t.hub.world.queue h).closed = true ↔ t.Over h ∧ h ∈ t.begun
  known : ∀ h, t.Over h ∨ h ∈ t.begun → h < t.hub.world.size
  fresh : ∀ h, h < t.hub.world.size → h ∉ t.begun → ¬t.Over h →
    t.hub.world.stage? h = some .fresh
  reading : ∀ h ∈ t.begun, ¬t.Over h → t.hub.world.stage? h = some .reading
  stopped : ∀ h, t.Over h → t.hub.world.stage? h = some .over

theorem tidy_initial : Tidy {} := by
  have hover (h : Handle) : ¬Over {} h := by simp [Over]
  constructor
  · exact List.nodup_nil
  · exact fun h => ⟨fun hh => absurd hh List.not_mem_nil, fun hh => absurd hh.1 (Nat.not_lt_zero h)⟩
  · intro h
    have hopen : (Hub.empty.world.queue h).closed = false := by simp [Hub.empty, Feeds.queue]
    refine ⟨fun hh => ?_, fun hh => absurd hh.1 (hover h)⟩
    exact absurd (hopen.symm.trans hh) Bool.false_ne_true
  · exact fun h hh => hh.elim (fun hh => absurd hh (hover h)) fun hh => absurd hh List.not_mem_nil
  · exact fun h hh => absurd hh (Nat.not_lt_zero h)
  · exact fun h hh => absurd hh List.not_mem_nil
  · exact fun h hh => absurd hh (hover h)

section Step

variable {t after : Traffic} (tidy : t.Tidy)

include tidy

theorem Tidy.not_over {h : Handle} (hnew : ¬h < t.hub.world.size) : ¬t.Over h ∧ h ∉ t.begun :=
  ⟨fun hover => hnew (tidy.known h (.inl hover)), fun hbegun => hnew (tidy.known h (.inr hbegun))⟩

/-- What changes neither the feeds nor how far they were read keeps a hub tidy. -/
theorem Tidy.quiet (hquiet : Hub.Quiet t.hub after.hub)
    (hbegun : ∀ h, h ∈ after.begun ↔ h ∈ t.begun) (hover : ∀ h, after.Over h ↔ t.Over h) :
    after.Tidy where
  distinct := hquiet.live ▸ tidy.distinct
  live h := by rw [hquiet.live, hquiet.size, hover, hbegun, tidy.live]
  closed h := by rw [hquiet.closed, hover, hbegun, tidy.closed]
  known h := by
    rw [hover, hbegun, hquiet.size]
    exact tidy.known h
  fresh h := by
    rw [hquiet.size, hbegun, hover, hquiet.stage]
    exact tidy.fresh h
  reading h := by
    rw [hbegun, hover, hquiet.stage]
    exact tidy.reading h
  stopped h := by
    rw [hover, hquiet.stage]
    exact tidy.stopped h

theorem Tidy.finishes {h : Handle} (hfinishes : Hub.Finishes h t.hub after.hub)
    (hbegun : after.begun = t.begun) (hh : h ∈ t.begun)
    (hover : ∀ k, after.Over k ↔ k = h ∨ t.Over k) : after.Tidy where
  distinct := hfinishes.live ▸ tidy.distinct.filter _
  live k := by
    rw [hfinishes.live, hfinishes.size, hover, hbegun, List.mem_filter, tidy.live, bne_iff_ne]
    by_cases hk : k = h
    · simp [hk, hh]
    · simp [hk]
  closed k := by
    rw [hfinishes.closed, hover, hbegun, Bool.or_eq_true, tidy.closed, beq_iff_eq]
    by_cases hk : k = h
    · simp [hk, hh]
    · simp [hk]
  known k := by
    rw [hover, hbegun, hfinishes.size]
    rintro ((rfl | hk) | hk)
    · exact tidy.known k (.inr hh)
    · exact tidy.known k (.inl hk)
    · exact tidy.known k (.inr hk)
  fresh k := by
    rw [hfinishes.size, hbegun, hover, not_or, hfinishes.stage]
    intro hlt hk hnot
    rw [if_neg hnot.1]
    exact tidy.fresh k hlt hk hnot.2
  reading k := by
    rw [hbegun, hover, not_or, hfinishes.stage]
    intro hk hnot
    rw [if_neg hnot.1]
    exact tidy.reading k hk hnot.2
  stopped k := by
    rw [hover, hfinishes.stage]
    intro hk
    split
    · rfl
    · rename_i hne
      exact tidy.stopped k (hk.resolve_left hne)

/-- The first text of a feed is read. -/
theorem Tidy.begins {h : Handle} (hturns : Hub.Turns h .reading t.hub after.hub)
    (hlt : h < t.hub.world.size) (hnot : ¬t.Over h)
    (hbegun : ∀ k, k ∈ after.begun ↔ k = h ∨ k ∈ t.begun) (hover : ∀ k, after.Over k ↔ t.Over k) :
    after.Tidy := by
  have hboth (k : Handle) : after.Over k ∧ k ∈ after.begun ↔ t.Over k ∧ k ∈ t.begun := by
    rw [hover, hbegun]
    exact and_congr_right fun hk => or_iff_right fun heq => hnot (heq ▸ hk)
  constructor
  · exact hturns.live ▸ tidy.distinct
  · intro k
    rw [hturns.live, hturns.size, hboth, tidy.live]
  · intro k
    rw [hturns.queue, hboth, tidy.closed]
  · intro k
    rw [hover, hbegun, hturns.size, or_left_comm]
    rintro (rfl | hk)
    · exact hlt
    · exact tidy.known k hk
  · intro k
    rw [hturns.size, hbegun, hover, not_or, hturns.stage]
    intro hk hnew hnot'
    rw [if_neg hnew.1]
    exact tidy.fresh k hk hnew.2 hnot'
  · intro k
    rw [hbegun, hover, hturns.stage]
    intro hk hnot'
    split
    · rfl
    · rename_i hne
      exact tidy.reading k (hk.resolve_left hne) hnot'
  · intro k
    rw [hover, hturns.stage]
    intro hk
    have hne : k ≠ h := fun heq => hnot (heq ▸ hk)
    rw [if_neg hne]
    exact tidy.stopped k hk

/-- The answer is closed, and the feed left as it is. -/
theorem Tidy.leaves {h : Handle} (hturns : Hub.Turns h .over t.hub after.hub)
    (hlt : h < t.hub.world.size) (hnew : h ∉ t.begun) (hbegun : after.begun = t.begun)
    (hover : ∀ k, after.Over k ↔ k = h ∨ t.Over k) : after.Tidy := by
  have hboth (k : Handle) : after.Over k ∧ k ∈ after.begun ↔ t.Over k ∧ k ∈ t.begun := by
    rw [hover, hbegun]
    exact and_congr_left fun hk => or_iff_right fun heq => hnew (heq ▸ hk)
  constructor
  · exact hturns.live ▸ tidy.distinct
  · intro k
    rw [hturns.live, hturns.size, hboth, tidy.live]
  · intro k
    rw [hturns.queue, hboth, tidy.closed]
  · intro k
    rw [hover, hbegun, hturns.size, or_assoc]
    rintro (rfl | hk)
    · exact hlt
    · exact tidy.known k hk
  · intro k
    rw [hturns.size, hbegun, hover, not_or, hturns.stage]
    intro hk hk' hnot
    rw [if_neg hnot.1]
    exact tidy.fresh k hk hk' hnot.2
  · intro k
    rw [hbegun, hover, not_or, hturns.stage]
    intro hk hnot
    rw [if_neg hnot.1]
    exact tidy.reading k hk hnot.2
  · intro k
    rw [hover, hturns.stage]
    intro hk
    split
    · rfl
    · rename_i hne
      exact tidy.stopped k (hk.resolve_left hne)

theorem Tidy.request : (t.act .request).Tidy := by
  have hnew : ¬t.hub.world.size < t.hub.world.size := Nat.lt_irrefl _
  obtain ⟨hnot, hunknown⟩ := tidy.not_over hnew
  have hsubscribed : t.hub.world.size ∉ t.hub.live := fun h => hnew ((tidy.live _).mp h).1
  obtain ⟨hlive, hstage, hqueue⟩ := Hub.openFeed_spec hsubscribed
  have hsize := Hub.size_openFeed t.hub
  constructor
  · change t.hub.openFeed.2.live.Nodup
    rw [hlive, List.nodup_append]
    refine ⟨tidy.distinct, List.pairwise_singleton _ _, fun k hk j hj => ?_⟩
    rw [List.mem_singleton.mp hj]
    exact fun heq => hsubscribed (heq ▸ hk)
  · intro h
    change h ∈ t.hub.openFeed.2.live ↔
      h < t.hub.openFeed.2.world.size ∧ ¬(t.Over h ∧ h ∈ t.begun)
    rw [hlive, hsize, List.mem_append, List.mem_singleton, tidy.live, Nat.lt_succ_iff_lt_or_eq]
    constructor
    · rintro (⟨hlt, hover⟩ | rfl)
      · exact ⟨.inl hlt, hover⟩
      · exact ⟨.inr rfl, fun h => hnot h.1⟩
    · rintro ⟨hlt | heq, hover⟩
      · exact .inl ⟨hlt, hover⟩
      · exact .inr heq
  · intro h
    change (t.hub.openFeed.2.world.queue h).closed = true ↔ t.Over h ∧ h ∈ t.begun
    rw [hqueue, tidy.closed]
  · intro h hh
    change h < t.hub.openFeed.2.world.size
    rw [hsize]
    exact Nat.lt_succ_of_lt (tidy.known h hh)
  · intro h hlt hh hover
    change h < t.hub.openFeed.2.world.size at hlt
    rw [hsize] at hlt
    refine (hstage h).trans ?_
    split
    · rfl
    · rename_i hne
      exact tidy.fresh h (Nat.lt_of_le_of_ne (Nat.lt_succ_iff.mp hlt) hne) hh hover
  · intro h hh hover
    have hne : h ≠ t.hub.world.size := fun heq => hunknown (heq ▸ hh)
    exact (hstage h).trans ((if_neg hne).trans (tidy.reading h hh hover))
  · intro h hh
    have hne : h ≠ t.hub.world.size := fun heq => hnot (heq ▸ hh)
    exact (hstage h).trans ((if_neg hne).trans (tidy.stopped h hh))

theorem Tidy.read (h : Handle) : (t.act (.read h)).Tidy := by
  rw [act]
  split
  · rename_i hlt
    have hended (hub : Hub) (k : Handle) :
        Over { t with hub, ended := h :: t.ended } k ↔ k = h ∨ t.Over k := by
      simp only [Over, List.mem_cons, or_left_comm]
    by_cases hover : t.Over h
    · rw [Hub.read_over (tidy.stopped h hover)]
      refine tidy.quiet (.refl t.hub) (fun _ => Iff.rfl) fun k => (hended t.hub k).trans ?_
      exact or_iff_right_of_imp fun heq => heq ▸ hover
    by_cases hbegun : h ∈ t.begun
    · rcases Hub.read_reading (tidy.reading h hbegun hover) with
        ⟨text, hitem, hquiet⟩ | ⟨hitem, hfinishes⟩
      · rw [Prod.ext (y := (_, _)) hitem rfl]
        refine tidy.quiet hquiet (fun k => List.mem_cons.trans ?_) fun _ => Iff.rfl
        exact or_iff_right_of_imp fun heq => heq ▸ hbegun
      · rw [Prod.ext (y := (_, _)) hitem rfl]
        exact tidy.finishes hfinishes rfl hbegun (hended _)
    · rw [Hub.read_fresh (tidy.fresh h hlt hbegun hover)]
      exact tidy.begins (Hub.turns_setStage hlt .reading) hlt hover (fun _ => List.mem_cons)
        fun _ => Iff.rfl
  · exact tidy

theorem Tidy.close (h : Handle) : (t.act (.close h)).Tidy := by
  rw [act]
  split
  · rename_i hlt
    have hclosed (hub : Hub) (k : Handle) :
        Over { t with hub, closed := h :: t.closed } k ↔ k = h ∨ t.Over k := by
      simp only [Over, List.mem_cons, or_assoc]
    by_cases hover : t.Over h
    · rw [Hub.closeFeed_over (tidy.stopped h hover)]
      refine tidy.quiet (.refl t.hub) (fun _ => Iff.rfl) fun k => (hclosed t.hub k).trans ?_
      exact or_iff_right_of_imp fun heq => heq ▸ hover
    by_cases hbegun : h ∈ t.begun
    · exact tidy.finishes (Hub.closeFeed_reading (tidy.reading h hbegun hover)) rfl hbegun
        (hclosed _)
    · rw [Hub.closeFeed_fresh (tidy.fresh h hlt hbegun hover)]
      exact tidy.leaves (Hub.turns_setStage hlt .over) hlt hbegun rfl (hclosed _)
  · exact tidy

theorem Tidy.quiet_broadcast (visiting : Visiting) (type : Text) (data : Json) :
    Hub.Quiet t.hub (t.act (.broadcast visiting type data)).hub := by
  refine Hub.broadcastIn_open type data fun h hh => ?_
  have hlive := (tidy.live h).mp ((visiting.perm t.hub.live).mem_iff.mp hh)
  rw [← Bool.not_eq_true, tidy.closed]
  exact hlive.2

theorem Tidy.act (move : Move) : (t.act move).Tidy := by
  cases move with
  | request => exact tidy.request
  | read h => exact tidy.read h
  | close h => exact tidy.close h
  | broadcast visiting type data =>
    exact tidy.quiet (tidy.quiet_broadcast visiting type data) (fun _ => Iff.rfl) fun _ => Iff.rfl

end Step

theorem size_act {t : Traffic} (tidy : t.Tidy) (move : Move) :
    (t.act move).hub.world.size = t.hub.world.size + if move.isRequest then 1 else 0 := by
  cases move with
  | request => exact Hub.size_openFeed t.hub
  | read h =>
    have hsize := Hub.size_read h t.hub
    rw [act]
    split
    · rcases hread : t.hub.read h with ⟨text | _, hub⟩ <;> rw [hread] at hsize <;> exact hsize
    · rfl
  | close h =>
    rw [act]
    split
    · exact Hub.size_closeFeed h t.hub
    · rfl
  | broadcast visiting type data => exact (tidy.quiet_broadcast visiting type data).size

theorem tidy_run {t : Traffic} (tidy : t.Tidy) (moves : List Move) : (t.run moves).Tidy := by
  induction moves generalizing t with
  | nil => exact tidy
  | cons move moves ih => exact ih (tidy.act move)

theorem size_run {t : Traffic} (tidy : t.Tidy) (moves : List Move) :
    (t.run moves).hub.world.size = t.hub.world.size + moves.countP Move.isRequest := by
  induction moves generalizing t with
  | nil => rfl
  | cons move moves ih =>
    rw [List.countP_cons]
    refine (ih (tidy.act move)).trans ?_
    rw [size_act tidy move]
    omega

/-- Which connections outlive their answers. An answer that a text was read from leaves nothing
behind when it is closed or comes to its end: its stream is closed and its connection gone. One that
is closed before leaves both for good, as its feed has nothing to clean up yet. So the connections
are at any time just those of the answers that are not over and of those that nothing was read from;
if there are none of the latter, no more than there are answers not yet closed. -/
theorem connections_run (moves : List Move) :
    let t := run {} moves
    let answers := List.range (moves.countP Move.isRequest)
    (∀ h, t.Over h → h ∈ t.begun → (t.hub.world.queue h).closed = true ∧ h ∉ t.hub.live) ∧
      (∀ h, t.Over h → h ∉ t.begun → (t.hub.world.queue h).closed = false ∧ h ∈ t.hub.live) ∧
      t.hub.live.Perm (answers.filter fun h => ¬(t.Over h ∧ h ∈ t.begun)) ∧
      ((∀ h ∈ t.closed, h ∈ t.begun) →
        t.hub.live.length ≤ (answers.filter (· ∉ t.closed)).length) := by
  intro t answers
  have tidy : t.Tidy := tidy_run tidy_initial moves
  have hsize : t.hub.world.size = moves.countP Move.isRequest :=
    (size_run tidy_initial moves).trans (Nat.zero_add _)
  have hlive (h : Handle) : h ∈ t.hub.live ↔ h ∈ answers ∧ ¬(t.Over h ∧ h ∈ t.begun) := by
    rw [tidy.live, hsize, List.mem_range]
  refine ⟨fun h hover hbegun => ?_, fun h hover hnew => ?_, ?_, fun hread => ?_⟩
  · exact ⟨(tidy.closed h).mpr ⟨hover, hbegun⟩, fun hh => ((hlive h).mp hh).2 ⟨hover, hbegun⟩⟩
  · rw [← Bool.not_eq_true, tidy.closed, tidy.live]
    exact ⟨fun hh => hnew hh.2, tidy.known h (.inl hover), fun hh => hnew hh.2⟩
  · refine (List.perm_ext_iff_of_nodup tidy.distinct (List.nodup_range.filter _)).mpr fun h => ?_
    rw [hlive, List.mem_filter, decide_eq_true_eq]
  · apply (List.subperm_of_subset tidy.distinct fun h hh => ?_).length_le
    obtain ⟨hanswer, hkept⟩ := (hlive h).mp hh
    rw [List.mem_filter, decide_eq_true_eq]
    exact ⟨hanswer, fun hclosed => hkept ⟨.inl hclosed, hread h hclosed⟩⟩

/-- An answer that is closed unread. -/
theorem unread_stays_subscribed :
    let t := run {} [.request, .close 0]
    0 ∈ t.closed ∧ (t.hub.world.queue 0).closed = false ∧ 0 ∈ t.hub.live ∧
      ((List.range 1).filter (· ∉ t.closed)).length < t.hub.live.length := by
  decide

end Traffic

end LiveTree.Web
