import LiveTree.Event.Channel

namespace LiveTree.Event

variable {σ : Type}

/-- A world with a record of every text that a stream of it took. -/
structure Recorded (σ : Type) where
  world : σ
  taken : List (Handle × Text) := []

namespace Streams

/-- The same streams, with a record of what they take. -/
def recorded (streams : Streams σ) : Streams (Recorded σ) where
  isOpen w h := streams.isOpen w.world h
  write h text w :=
    let result := streams.write h text w.world
    (result.1, ⟨result.2, if result.1.fault.isNone then w.taken ++ [(h, text)] else w.taken⟩)
  close h w := { w with world := streams.close h w.world }

/-- Writing to these streams succeeds or fails as a transport does, and leaves the channel alone. -/
structure Passive (streams : Streams σ) : Prop where
  changes : ∀ h text w, (streams.write h text w).1.changes = []
  family : ∀ h text w fault, (streams.write h text w).1.fault = some fault →
    fault.family = .system ∨ fault.family = .value ∨ fault.family = .transport

/-- Whether a connection takes a text: it is open and its write succeeds. -/
def takes (streams : Streams σ) (text : Text) (w : σ) (h : Handle) : Bool :=
  streams.isOpen w h && (streams.write h text w).1.fault.isNone

/-- The world after a connection was offered a text. -/
def offered (streams : Streams σ) (text : Text) (w : σ) (h : Handle) : σ :=
  if streams.isOpen w h then (streams.write h text w).2 else w

/-- The connections of `order` that take a text, each offered it when its turn comes. -/
def receivers (streams : Streams σ) (text : Text) : List Handle → σ → List Handle
  | [], _ => []
  | h :: order, w =>
    if streams.takes text w h then h :: receivers streams text order (streams.offered text w h)
    else receivers streams text order (streams.offered text w h)

theorem receivers_sublist (streams : Streams σ) (text : Text) (order : List Handle) (w : σ) :
    (streams.receivers text order w).Sublist order := by
  induction order generalizing w with
  | nil => exact List.Sublist.refl []
  | cons h order ih =>
    rw [receivers]
    split
    · exact (ih _).cons_cons h
    · exact (ih _).cons h

end Streams

theorem Fault.family_sent {fault : Fault}
    (h : fault.family = .system ∨ fault.family = .value ∨ fault.family = .transport) :
    fault.sent.family = .transport := by
  rcases h with h | h | h <;> simp only [Fault.sent, h]
  · rfl
  · rfl

namespace Channel

variable {streams : Streams σ}

theorem send_of_none (passive : streams.Passive) {text : Text} {h : Handle}
    {c : Channel (Recorded σ)} (hf : (streams.write h text c.world.world).1.fault = none) :
    ∃ log, c.send streams.recorded h text =
      (.ok (), ⟨c.live, ⟨(streams.write h text c.world.world).2,
        c.world.taken ++ [(h, text)]⟩, log⟩) := by
  simp only [send, Streams.recorded, passive.changes, hf]
  exact ⟨_, rfl⟩

theorem send_of_some (passive : streams.Passive) {text : Text} {h : Handle}
    {c : Channel (Recorded σ)} {fault : Fault}
    (hf : (streams.write h text c.world.world).1.fault = some fault) :
    ∃ log, c.send streams.recorded h text =
      (.error fault.sent, ⟨c.live, ⟨(streams.write h text c.world.world).2, c.world.taken⟩,
        log⟩) := by
  simp only [send, Streams.recorded, passive.changes, hf]
  exact ⟨_, rfl⟩

/-- One offer: who takes the text stays, and all others leave. -/
theorem offer_recorded (passive : streams.Passive) (text : Text) (h : Handle)
    (c : Channel (Recorded σ)) :
    let result := c.offer streams.recorded text h
    let takes := streams.takes text c.world.world h
    result.1 = .ok takes ∧
      result.2.live = (if takes then c.live else c.live.filter (· != h)) ∧
      result.2.world = ⟨streams.offered text c.world.world h,
        c.world.taken ++ if takes then [(h, text)] else []⟩ := by
  have hopen : streams.recorded.isOpen c.world h = streams.isOpen c.world.world h := rfl
  intro result takes
  by_cases ho : streams.isOpen c.world.world h = true
  · cases hf : (streams.write h text c.world.world).1.fault with
    | none =>
      obtain ⟨log, hsend⟩ := send_of_none passive hf
      have htakes : takes = true := by simp [takes, Streams.takes, ho, hf]
      have hresult : result = (.ok true, (c.send streams.recorded h text).2) := by
        simp [result, offer, hopen, ho, hsend]
      rw [hresult, htakes, hsend]
      simp [Streams.offered, ho]
    | some fault =>
      obtain ⟨log, hsend⟩ := send_of_some passive hf
      have hsent := Fault.family_sent (passive.family h text c.world.world fault hf)
      have htakes : takes = false := by simp [takes, Streams.takes, hf]
      have hresult : result.1 = .ok false ∧
          result.2.live = (c.send streams.recorded h text).2.live.filter (· != h) ∧
          result.2.world = (c.send streams.recorded h text).2.world := by
        simp [result, offer, hopen, ho, hsend, hsent, note]
      rw [hresult.1, hresult.2.1, hresult.2.2, htakes, hsend]
      simp [Streams.offered, ho]
  · have htakes : takes = false := by simp [takes, Streams.takes, ho]
    have hresult : result = (.ok false, c.unsubscribe h) := by
      simp [result, offer, hopen, ho]
    rw [hresult, htakes]
    simp [Streams.offered, ho]

/-- What a round of offers comes to: the record grows by the receivers in order, and of those who
were offered the text only the receivers stay. -/
theorem offerAll_recorded (passive : streams.Passive) (text : Text) {order : List Handle}
    (distinct : order.Nodup) (c : Channel (Recorded σ)) :
    let result := c.offerAll streams.recorded text order
    let receivers := streams.receivers text order c.world.world
    result.1 = .ok receivers.length ∧
      result.2.world.taken = c.world.taken ++ receivers.map (·, text) ∧
      result.2.live.Sublist c.live ∧
      ∀ k, k ∈ result.2.live ↔ k ∈ c.live ∧ (k ∈ order → k ∈ receivers) := by
  induction order generalizing c with
  | nil => simp [offerAll, Streams.receivers]
  | cons h order ih =>
    obtain ⟨hfresh, hrest⟩ := List.nodup_cons.mp distinct
    obtain ⟨hresult, hlive, hworld⟩ := offer_recorded passive text h c
    obtain ⟨hcount, htaken, hsub, hmem⟩ := ih hrest (c.offer streams.recorded text h).2
    -- The first connection has no second turn, so the rest of the round leaves it as it is.
    have hnot {w : σ} : h ∉ streams.receivers text order w :=
      fun hin => hfresh ((streams.receivers_sublist text order w).subset hin)
    have hoffer : c.offer streams.recorded text h =
        (.ok (streams.takes text c.world.world h), (c.offer streams.recorded text h).2) :=
      Prod.ext hresult rfl
    rw [hworld] at hcount htaken hmem
    have hround : (c.offer streams.recorded text h).2.offerAll streams.recorded text order =
        (.ok (streams.receivers text order (streams.offered text c.world.world h)).length,
          ((c.offer streams.recorded text h).2.offerAll streams.recorded text order).2) :=
      Prod.ext hcount rfl
    intro result receivers
    have hsplit : result = (.ok
        ((streams.receivers text order (streams.offered text c.world.world h)).length +
          (streams.takes text c.world.world h).toNat),
        ((c.offer streams.recorded text h).2.offerAll streams.recorded text order).2) := by
      simp only [result, offerAll]
      rw [hoffer]
      simp only
      rw [hround]
    by_cases ht : streams.takes text c.world.world h = true
    · have hreceivers : receivers =
          h :: streams.receivers text order (streams.offered text c.world.world h) := if_pos ht
      rw [hsplit, hreceivers]
      rw [ht, if_pos rfl] at hlive htaken
      refine ⟨by simp [ht], by simp [htaken], hlive ▸ hsub, fun k => ?_⟩
      rw [hmem, hlive]
      by_cases hk : k = h
      · subst hk
        simp [hfresh]
      · simp [hk]
    · have hreceivers : receivers =
          streams.receivers text order (streams.offered text c.world.world h) := if_neg ht
      rw [hsplit, hreceivers]
      rw [Bool.not_eq_true] at ht
      rw [ht] at hlive htaken
      have hleft : (c.offer streams.recorded text h).2.live.Sublist c.live := by
        rw [hlive]
        exact List.filter_sublist
      refine ⟨by simp [ht], by simp [htaken], hsub.trans hleft, fun k => ?_⟩
      rw [hmem, hlive]
      by_cases hk : k = h
      · subst hk
        simp [hnot]
      · simp [hk]

/-- Closing ends the connections that it closes, and nothing is taken meanwhile. -/
theorem foldl_close (streams : Streams σ) (handles : List Handle) (c : Channel (Recorded σ)) :
    let after := handles.foldl (fun c h =>
      unsubscribe h { c with world := streams.recorded.close h c.world }) c
    after.live = c.live.filter (!handles.contains ·) ∧ after.world.taken = c.world.taken := by
  induction handles generalizing c with
  | nil => exact ⟨(List.filter_eq_self.mpr fun _ _ => rfl).symm, rfl⟩
  | cons h handles ih =>
    obtain ⟨hlive, htaken⟩ := ih (unsubscribe h
      { c with world := streams.recorded.close h c.world })
    refine ⟨hlive.trans ?_, htaken⟩
    rw [live_unsubscribe, List.filter_filter]
    apply List.filter_congr
    intro k _
    rw [List.contains_cons, Bool.not_or, Bool.and_comm]
    rfl

theorem close_recorded (c : Channel (Recorded σ)) :
    (c.close streams.recorded).live = [] ∧
      (c.close streams.recorded).world.taken = c.world.taken := by
  obtain ⟨hlive, htaken⟩ := foldl_close streams c.live c
  exact ⟨hlive.trans (by simp), htaken⟩

end Channel

end LiveTree.Event
