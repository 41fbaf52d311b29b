import LiveTree.Proofs.Event.Order
import LiveTree.Proofs.Viewer.Settling

namespace LiveTree

namespace Event

variable {σ : Type}

theorem Fault.family_sent_iff {fault : Fault} : fault.sent.family = .transport ↔
    fault.family = .system ∨ fault.family = .value ∨ fault.family = .transport := by
  refine ⟨fun h => ?_, Fault.family_sent⟩
  cases hfamily : fault.family with
  | system => exact .inl rfl
  | value => exact .inr (.inl rfl)
  | transport => exact .inr (.inr rfl)
  | viewer => simp [Fault.sent, hfamily] at h
  | other => simp [Fault.sent, hfamily] at h

/-- The connection that a change is about. -/
def Change.handle : Change → Handle
  | join h => h
  | leave h => h

namespace Channel

variable {streams : Streams σ} {c : Channel σ}

theorem nodup_change (distinct : c.live.Nodup) (change : Change) :
    (c.change change).live.Nodup := by
  cases change with
  | join h =>
    rw [Channel.change, subscribe]
    split
    · exact distinct
    · rename_i hnew
      rw [List.contains_iff_mem] at hnew
      refine List.nodup_append.mpr ⟨distinct, List.pairwise_singleton _ _, fun k hk l hl => ?_⟩
      rw [List.mem_singleton.mp hl]
      exact fun heq => hnew (heq ▸ hk)
  | leave h => exact distinct.filter _

theorem mem_live_change {change : Change} {h : Handle} (hother : change.handle ≠ h) :
    h ∈ (c.change change).live ↔ h ∈ c.live := by
  cases change with
  | join k =>
    rw [Channel.change, subscribe]
    split
    · exact Iff.rfl
    · simp [show h ≠ k from Ne.symm hother]
  | leave k => simp [Channel.change, show h ≠ k from Ne.symm hother]

theorem nodup_foldl_change (distinct : c.live.Nodup) (changes : List Change) :
    (changes.foldl change c).live.Nodup := by
  induction changes generalizing c with
  | nil => exact distinct
  | cons change changes ih => exact ih (nodup_change distinct change)

theorem mem_live_foldl_change {changes : List Change} {h : Handle}
    (hothers : ∀ change ∈ changes, change.handle ≠ h) :
    h ∈ (changes.foldl change c).live ↔ h ∈ c.live := by
  induction changes generalizing c with
  | nil => exact Iff.rfl
  | cons change changes ih =>
    obtain ⟨hother, hothers⟩ := List.forall_mem_cons.mp hothers
    exact (ih hothers).trans (mem_live_change hother)

/-- What an offer comes to: a stream that is closed leaves, one that is open is written to. -/
theorem offer_cases (streams : Streams σ) (text : Text) (h : Handle) (c : Channel σ) :
    streams.isOpen c.world h = false ∧ c.offer streams text h = (.ok false, c.unsubscribe h) ∨
      streams.isOpen c.world h = true ∧ ∃ written told : Channel σ,
        written.live = c.live ∧ told.world = (streams.write h text c.world).2 ∧
        told.live = ((streams.write h text c.world).1.changes.foldl change written).live ∧
        c.offer streams text h = match (streams.write h text c.world).1.fault with
          | none => (.ok true, told)
          | some fault => if fault.sent.family = .transport then (.ok false, told.unsubscribe h)
            else (.error fault.sent, told) := by
  cases hopen : streams.isOpen c.world h with
  | false => exact .inl ⟨rfl, by simp [offer, hopen]⟩
  | true =>
    let written : Channel σ := { c with
      world := (streams.write h text c.world).2
      log := c.log ++ (streams.write h text c.world).1.log }
    let told := (streams.write h text c.world).1.changes.foldl change written
    have hworld : told.world = written.world := world_foldl_change _ _
    refine .inr ⟨rfl, written, ?_⟩
    cases hfault : (streams.write h text c.world).1.fault with
    | none => exact ⟨told, rfl, hworld, rfl, by simp [offer, send, hopen, hfault, told, written]⟩
    | some fault =>
      by_cases hsent : fault.sent.family = .transport
      · refine ⟨told.note ⟨.info, .events, "Dropping viewer connection: " ++ fault.sent.message⟩,
          rfl, hworld, rfl, ?_⟩
        simp [offer, send, hopen, hfault, hsent, told, written]
      · refine ⟨told, rfl, hworld, rfl, ?_⟩
        simp [offer, send, hopen, hfault, hsent, told, written]

/-- The first of several offers ends them all with its fault, or the others follow it. -/
theorem offerAll_cons_cases (streams : Streams σ) (text : Text) (h : Handle) (rest : List Handle)
    (c : Channel σ) :
    let first := c.offer streams text h
    (∃ fault, c.offerAll streams text (h :: rest) = (.error fault, first.2)) ∨
      ∃ got, c.offerAll streams text (h :: rest) =
        ((first.2.offerAll streams text rest).1.map (· + got),
          (first.2.offerAll streams text rest).2) := by
  intro first
  rw [offerAll, show c.offer streams text h = first from rfl]
  rcases first with ⟨fault | got, told⟩
  · exact .inl ⟨fault, rfl⟩
  · refine .inr ⟨got.toNat, ?_⟩
    dsimp only
    rcases told.offerAll streams text rest with ⟨fault | count, last⟩
    · rfl
    · rfl

end Channel

end Event

namespace Viewer

open Event

variable {σ ω R : Type}

section Spares

variable {listener : σ → Listener ω R} {h : Handle}

/-- An open viewer has the connection `h` of a channel, whose connections are distinct. -/
structure Subscribed (listener : σ → Listener ω R) (h : Handle) (c : Channel σ) : Prop where
  live : h ∈ c.live
  distinct : c.live.Nodup
  opened : (listener c.world).closed = false

/-- What happened to a channel left the viewer alone and its connection as it was. -/
structure Spares (listener : σ → Listener ω R) (h : Handle) (c c' : Channel σ) : Prop where
  live : h ∈ c'.live ↔ h ∈ c.live
  distinct : c.live.Nodup → c'.live.Nodup
  viewer : listener c'.world = listener c.world

theorem Spares.refl (c : Channel σ) : Spares listener h c c := ⟨Iff.rfl, id, rfl⟩

theorem Spares.trans {c c' c'' : Channel σ} (first : Spares listener h c c')
    (next : Spares listener h c' c'') : Spares listener h c c'' where
  live := next.live.trans first.live
  distinct hdistinct := next.distinct (first.distinct hdistinct)
  viewer := next.viewer.trans first.viewer

theorem spares_unsubscribe {k : Handle} (hk : k ≠ h) (c : Channel σ) :
    Spares listener h c (c.unsubscribe k) where
  live := by simp [hk.symm]
  distinct hdistinct := hdistinct.filter _
  viewer := rfl

theorem Subscribed.spared {c c' : Channel σ} (subscribed : Subscribed listener h c)
    (spares : Spares listener h c c') : Subscribed listener h c' where
  live := spares.live.mpr subscribed.live
  distinct := spares.distinct subscribed.distinct
  opened := spares.viewer ▸ subscribed.opened

end Spares

variable [Measure R]

/-- An event that costs a viewer its connection: answering it raises a fault that the sender takes
for the transport's. -/
structure Session.Loses (callbacks : Callbacks ω R) (s : Session ω R) (event : Text × Json) :
    Prop where
  fits : Fits event
  concerns : Concerns s.controller.file event
  escapes : ∃ fault, s.Escapes callbacks fault ∧
    (fault.family = .system ∨ fault.family = .value ∨ fault.family = .transport)

omit [Measure R] in
/-- What escapes a viewer whose drawing does not fail costs it nothing. -/
theorem Session.not_loses {callbacks : Callbacks ω R} (benign : callbacks.Benign)
    (s : Session ω R) (event : Text × Json) : ¬s.Loses callbacks event := by
  rintro ⟨-, -, fault, hescapes, hfamily⟩
  obtain rfl := eq_tooDeep_of_escapes benign hescapes
  revert hfamily
  decide

theorem Session.handleEvent_eq_error_iff {callbacks : Callbacks ω R} {s : Session ω R}
    {event : Text × Json} {fault : Fault} :
    (s.handleEvent callbacks ⟨.text event.1, event.2⟩).1 = .error fault ↔
      Concerns s.controller.file event ∧ s.Escapes callbacks fault := by
  rw [concerns_iff]
  obtain ⟨hcalls, h⟩ | ⟨hcalls, log, h⟩ := handleEvent_cases callbacks ⟨.text event.1, event.2⟩ s
  · rw [h]
    by_cases hfile : s.controller.file = []
    · rw [refresh_of_nil callbacks hfile]
      exact ⟨nofun, fun h => absurd hfile h.1.1⟩
    · rw [refresh_eq_error_iff hfile]
      exact (and_iff_right ⟨hfile, hcalls⟩).symm
  · rw [h]
    exact ⟨nofun, fun h => absurd h.1.2 hcalls⟩

namespace Listener

/-- A viewer that was sent an event. -/
def heard (callbacks : Callbacks ω R) (l : Listener ω R) (event : Text × Json) : Listener ω R :=
  { l with session := { (l.session.handleEvent callbacks ⟨.text event.1, event.2⟩).2 with
    log := [] } }

/-- Writing the frame of an event to a viewer lets it hear the event. The fault of doing so is the
transport's to the sender if the viewer loses by the event. -/
theorem write_frame {event : Text × Json} (sendable : Sendable event) (fits : Fits event)
    {payload : Text} (encoded : encode? event.1 event.2 = some payload)
    (callbacks : Callbacks ω R) (h : Handle) (l : Listener ω R) :
    let result := l.write callbacks h (frame payload)
    result.1.changes = [] ∧ result.2 = l.heard callbacks event ∧
      ((∃ fault ∈ result.1.fault, fault.sent.family = .transport) ↔
        l.session.Loses callbacks event) := by
  obtain ⟨other, hencode, hdecode⟩ := sendable.exists_frame fits
  obtain rfl : other = payload := Option.some.inj (hencode.symm.trans encoded)
  have hwrite : l.write callbacks h (frame other) = _ := write_of_ok hdecode callbacks h l
  rw [hwrite]
  refine ⟨rfl, rfl, ?_⟩
  have hraises (fault : Fault) :
      (l.session.handleEvent callbacks ⟨.text event.1, event.2⟩).1 = .error fault ↔
        Concerns l.session.controller.file event ∧ l.session.Escapes callbacks fault :=
    Session.handleEvent_eq_error_iff
  constructor
  · rintro ⟨fault, hfault, hsent⟩
    have hraised : (l.session.handleEvent callbacks ⟨.text event.1, event.2⟩).1 =
        .error fault := by
      revert hfault
      cases (l.session.handleEvent callbacks ⟨.text event.1, event.2⟩).1 with
      | ok b =>
        intro h
        cases h
      | error raised => exact fun h => congrArg _ (Option.some.inj h)
    obtain ⟨hconcerns, hescapes⟩ := (hraises fault).mp hraised
    exact ⟨fits, hconcerns, fault, hescapes, Fault.family_sent_iff.mp hsent⟩
  · rintro ⟨-, hconcerns, fault, hescapes, hfamily⟩
    refine ⟨fault, ?_, Fault.family_sent_iff.mpr hfamily⟩
    rw [(hraises fault).mpr ⟨hconcerns, hescapes⟩]
    rfl

end Listener

section Hosts

variable {streams : Streams σ} {callbacks : Callbacks ω R}
  {listener : σ → Listener ω R} {h : Handle}

/-- The stream of the connection `h` is a viewer, and the streams of other connections leave it
alone. -/
structure Hosts (streams : Streams σ) (callbacks : Callbacks ω R) (listener : σ → Listener ω R)
    (h : Handle) : Prop where
  isOpen : ∀ w, streams.isOpen w h = !(listener w).closed
  written : ∀ w text, (streams.write h text w).1 = ((listener w).write callbacks h text).1
  hears : ∀ w text, listener (streams.write h text w).2 = ((listener w).write callbacks h text).2
  others : ∀ w text, ∀ k ≠ h, listener (streams.write k text w).2 = listener w ∧
    ∀ change ∈ (streams.write k text w).1.changes, change.handle ≠ h

variable (hosts : Hosts streams callbacks listener h)

include hosts

theorem Hosts.offer_other (text : Text) {k : Handle} (hk : k ≠ h) (c : Channel σ) :
    Spares listener h c (c.offer streams text k).2 := by
  obtain ⟨-, hoffer⟩ | ⟨-, written, told, hwritten, hworld, htold, hoffer⟩ :=
    Channel.offer_cases streams text k c
  · rw [hoffer]
    exact spares_unsubscribe hk c
  · obtain ⟨hlistener, hothers⟩ := hosts.others c.world text k hk
    have hspares : Spares listener h c told := by
      refine ⟨?_, fun hdistinct => ?_, by rw [hworld, hlistener]⟩
      · rw [htold, Channel.mem_live_foldl_change hothers, hwritten]
      · rw [htold]
        exact Channel.nodup_foldl_change (hwritten ▸ hdistinct) _
    rw [hoffer]
    split
    · exact hspares
    · split
      · exact hspares.trans (spares_unsubscribe hk told)
      · exact hspares

theorem Hosts.offerAll_others (text : Text) {order : List Handle} (hothers : h ∉ order)
    (c : Channel σ) : Spares listener h c (c.offerAll streams text order).2 := by
  induction order generalizing c with
  | nil => exact .refl c
  | cons k order ih =>
    obtain ⟨hother, hothers⟩ := not_or.mp (mt List.mem_cons.mpr hothers)
    have hfirst := hosts.offer_other text (Ne.symm hother) c
    obtain ⟨fault, hall⟩ | ⟨got, hall⟩ := Channel.offerAll_cons_cases streams text k order c
    · rw [hall]
      exact hfirst
    · rw [hall]
      exact hfirst.trans (ih hothers _)

/-- The viewer's own turn. -/
theorem Hosts.offer_viewer {event : Text × Json} (sendable : Sendable event) (fits : Fits event)
    {payload : Text} (encoded : encode? event.1 event.2 = some payload) {c : Channel σ}
    (subscribed : Subscribed listener h c) :
    let result := c.offer streams (frame payload) h
    result.2.live.Nodup ∧
      (h ∈ result.2.live ↔ ¬(listener c.world).session.Loses callbacks event) ∧
      listener result.2.world = (listener c.world).heard callbacks event := by
  intro result
  have hopen : streams.isOpen c.world h = true := by simp [hosts.isOpen, subscribed.opened]
  obtain ⟨hclosed, -⟩ | ⟨-, written, told, hwritten, hworld, htold, hoffer⟩ :=
    Channel.offer_cases streams (frame payload) h c
  · exact absurd (hclosed.symm.trans hopen) Bool.false_ne_true
  · obtain ⟨hquiet, hheard, hloses⟩ :=
      Listener.write_frame sendable fits encoded callbacks h (listener c.world)
    rw [← hosts.written] at hquiet hloses
    rw [← hosts.hears, ← hworld] at hheard
    have hlive : told.live = c.live := by
      rw [htold, hquiet]
      exact hwritten
    have hin : h ∈ told.live := hlive ▸ subscribed.live
    have hdistinct : told.live.Nodup := hlive ▸ subscribed.distinct
    rw [show result = _ from hoffer, ← hloses]
    cases (streams.write h (frame payload) c.world).1.fault with
    | none => exact ⟨hdistinct, ⟨fun _ => nofun, fun _ => hin⟩, hheard⟩
    | some fault =>
      dsimp only
      split
      · rename_i hsent
        exact ⟨hdistinct.filter _, by simp [hsent], hheard⟩
      · rename_i hsent
        exact ⟨hdistinct, by simp [hin, hsent], hheard⟩

/-- All turns of a broadcast. Where one before the viewer's ends it, the viewer hears nothing. -/
theorem Hosts.offerAll_viewer {event : Text × Json} (sendable : Sendable event)
    (fits : Fits event) {payload : Text} (encoded : encode? event.1 event.2 = some payload)
    {order : List Handle} (distinct : order.Nodup) (hmem : h ∈ order) {c : Channel σ}
    (subscribed : Subscribed listener h c) :
    let result := c.offerAll streams (frame payload) order
    result.2.live.Nodup ∧
      ((∃ fault, result.1 = .error fault) ∧ h ∈ result.2.live ∧
          listener result.2.world = listener c.world ∨
        (h ∈ result.2.live ↔ ¬(listener c.world).session.Loses callbacks event) ∧
          listener result.2.world = (listener c.world).heard callbacks event) := by
  induction order generalizing c with
  | nil => exact absurd hmem List.not_mem_nil
  | cons k order ih =>
    obtain ⟨hnot, distinct⟩ := List.nodup_cons.mp distinct
    intro result
    by_cases hk : k = h
    · subst hk
      obtain ⟨hdistinct, hlive, hheard⟩ := hosts.offer_viewer sendable fits encoded subscribed
      obtain ⟨fault, hall⟩ | ⟨got, hall⟩ :=
        Channel.offerAll_cons_cases streams (frame payload) k order c
      · rw [show result = _ from hall]
        exact ⟨hdistinct, .inr ⟨hlive, hheard⟩⟩
      · have hrest := hosts.offerAll_others (frame payload) hnot
          (c.offer streams (frame payload) k).2
        rw [show result = _ from hall]
        exact ⟨hrest.distinct hdistinct,
          .inr ⟨hrest.live.trans hlive, hrest.viewer.trans hheard⟩⟩
    · have hfirst := hosts.offer_other (frame payload) hk c
      have hsubscribed := subscribed.spared hfirst
      obtain ⟨fault, hall⟩ | ⟨got, hall⟩ :=
        Channel.offerAll_cons_cases streams (frame payload) k order c
      · rw [show result = _ from hall]
        exact ⟨hsubscribed.distinct, .inl ⟨⟨fault, rfl⟩, hsubscribed.live, hfirst.viewer⟩⟩
      · obtain ⟨hdistinct, hturn⟩ :=
          ih distinct ((List.mem_cons.mp hmem).resolve_left (Ne.symm hk)) hsubscribed
        rw [hfirst.viewer] at hturn
        rw [show result = _ from hall]
        refine ⟨hdistinct, hturn.imp_left fun ⟨⟨fault, hfault⟩, hspared⟩ => ⟨⟨fault, ?_⟩, hspared⟩⟩
        rw [hfault]
        rfl

/-- A broadcast lets the viewer hear its event, unless it ends before, as it does with an event that
is too deep. -/
theorem Hosts.broadcastIn_viewer {event : Text × Json} (sendable : Sendable event) {c : Channel σ}
    (subscribed : Subscribed listener h c) {order : List Handle} (perm : order.Perm c.live) :
    let result := c.broadcastIn streams order event.1 event.2
    result.2.live.Nodup ∧ (listener result.2.world).closed = false ∧
      ((∃ fault, result.1 = .error fault) ∧ h ∈ result.2.live ∧
          listener result.2.world = listener c.world ∨
        (h ∈ result.2.live ↔ ¬(listener c.world).session.Loses callbacks event) ∧
          listener result.2.world = (listener c.world).heard callbacks event) := by
  intro result
  by_cases hfits : Fits event
  · obtain ⟨payload, encoded, -⟩ := sendable.exists_frame hfits
    have hresult : result = c.offerAll streams (frame payload) order :=
      Channel.broadcastIn_of_some streams c encoded order
    obtain ⟨hdistinct, hturn⟩ := hosts.offerAll_viewer sendable hfits encoded
      (perm.nodup_iff.mpr subscribed.distinct) (perm.mem_iff.mpr subscribed.live) subscribed
    rw [← hresult] at hdistinct hturn
    refine ⟨hdistinct, ?_, hturn⟩
    obtain ⟨-, -, hviewer⟩ | ⟨-, hviewer⟩ := hturn
    · rw [hviewer, subscribed.opened]
    · rw [hviewer]
      exact subscribed.opened
  · have hresult : result = (.error .tooDeep, c) :=
      Channel.broadcastIn_of_error streams c (encode_of_not_fits hfits) order
    rw [hresult]
    exact ⟨subscribed.distinct, subscribed.opened, .inl ⟨⟨_, rfl⟩, subscribed.live, rfl⟩⟩

end Hosts

/-- What a broadcast of an event without surrogates comes to for an open viewer, in whatever order
the connections have their turn and whatever the viewer fetches and draws. The viewer stays open.
It keeps its connection, unless answering the event raises a fault of the system, of a value or of a
transport that its controller does not catch. Then the viewer has heard the event, and the
connection is dropped as if the event had not come through. A broadcast that returns has reached
the viewer. -/
theorem broadcast_keeps_viewer {streams : Streams σ} {callbacks : Callbacks ω R}
    {listener : σ → Listener ω R} {h : Handle} (hosts : Hosts streams callbacks listener h)
    {c : Channel σ} (subscribed : Subscribed listener h c) {event : Text × Json}
    (sendable : Sendable event) {order : List Handle} (perm : order.Perm c.live) :
    let s := (listener c.world).session
    let result := c.broadcastIn streams order event.1 event.2
    (listener result.2.world).closed = false ∧
      (¬s.Loses callbacks event → Subscribed listener h result.2) ∧
      (h ∉ result.2.live ∨ (∃ n, result.1 = .ok n) →
        listener result.2.world = (listener c.world).heard callbacks event) ∧
      (∀ n, result.1 = .ok n → (h ∉ result.2.live ↔ s.Loses callbacks event)) := by
  intro s result
  obtain ⟨hdistinct, hopened, hturn⟩ := hosts.broadcastIn_viewer sendable subscribed perm
  refine ⟨hopened, fun hkept => ⟨?_, hdistinct, hopened⟩, ?_, fun n hn => ?_⟩
  · obtain ⟨-, hlive, -⟩ | ⟨hlive, -⟩ := hturn
    · exact hlive
    · exact hlive.mpr hkept
  · obtain ⟨⟨fault, hfault⟩, hlive, -⟩ | ⟨-, hviewer⟩ := hturn
    · rintro (hlost | ⟨n, hn⟩)
      · exact absurd hlive hlost
      · cases hfault.symm.trans hn
    · exact fun _ => hviewer
  · obtain ⟨⟨fault, hfault⟩, -⟩ | ⟨hlive, -⟩ := hturn
    · cases hfault.symm.trans hn
    · rw [hlive, not_not]

/-- A viewer at the connection 0, and other streams beside it. -/
def beside (callbacks : Callbacks ω R) (streams : Streams σ) : Streams (Listener ω R × σ) where
  isOpen w k := if k = 0 then !w.1.closed else streams.isOpen w.2 k
  write k text w :=
    if k = 0 then
      let (written, l) := w.1.write callbacks k text
      (written, l, w.2)
    else
      let (written, others) := streams.write k text w.2
      (written, w.1, others)
  close k w :=
    if k = 0 then ({ w.1 with closed := true }, w.2) else (w.1, streams.close k w.2)

theorem hosts_beside (callbacks : Callbacks ω R) {streams : Streams σ}
    (apart : ∀ w text, ∀ k ≠ 0, ∀ change ∈ (streams.write k text w).1.changes, change.handle ≠ 0) :
    Hosts (beside callbacks streams) callbacks Prod.fst 0 where
  isOpen w := rfl
  written w text := rfl
  hears w text := rfl
  others w text k hk := by
    have hwrite : (beside callbacks streams).write k text w =
        ((streams.write k text w.2).1, w.1, (streams.write k text w.2).2) := if_neg hk
    rw [hwrite]
    exact ⟨rfl, apart w.2 text k hk⟩

/-- A viewer of the file `a` between two other connections. -/
def between : Channel (Listener Unit Rat × List Text) where
  live := [1, 0, 2]
  world := ({ session := Session.untouched }, [])

/-- The streams of `between`. Those beside the viewer only take what is written. -/
def flanked (callbacks : Callbacks Unit Rat) : Streams (Listener Unit Rat × List Text) :=
  beside callbacks (scripted fun _ => {})

theorem hosts_flanked (callbacks : Callbacks Unit Rat) :
    Hosts (flanked callbacks) callbacks Prod.fst 0 :=
  hosts_beside callbacks fun _ _ _ _ => nofun

theorem subscribed_between : Subscribed Prod.fst 0 between := ⟨by decide, by decide, rfl⟩

theorem sendable_reload : Sendable (reload, .null) where
  plain := Json.any_hasSurrogate_eq_false.mp (by decide)
  readable := by simp [Json.Readable]

theorem broadcast_keeps_viewer_between :
    let told (callbacks : Callbacks Unit Rat) :=
      (between.broadcastIn (flanked callbacks) [2, 0, 1] reload .null).2
    Sendable (reload, .null) ∧ [2, 0, 1].Perm between.live ∧
      (∀ callbacks, Hosts (flanked callbacks) callbacks Prod.fst 0) ∧
      Subscribed Prod.fst 0 between ∧
      Subscribed Prod.fst 0 (told Session.echo) ∧
      Session.untouched.Loses Session.unprintable (reload, .null) ∧
      (told Session.unprintable).world.1.closed = false := by
  intro told
  have perm : [2, 0, 1].Perm between.live := by decide
  obtain ⟨-, hkept, -⟩ :=
    broadcast_keeps_viewer (hosts_flanked Session.echo) subscribed_between sendable_reload perm
  obtain ⟨hopened, -⟩ :=
    broadcast_keeps_viewer (hosts_flanked Session.unprintable) subscribed_between sendable_reload perm
  refine ⟨sendable_reload, perm, hosts_flanked, subscribed_between, hkept ?_, ?_, ?_⟩
  · exact Session.not_loses Session.benign_echo _ _
  · exact ⟨by decide, ⟨by decide, .inl rfl⟩, _, .render rfl rfl rfl rfl, .inr (.inl rfl)⟩
  · simpa only [told] using hopened

/-- A viewer that cannot print the tree it fetched is told of a change once, and of none after. -/
theorem unprintable_unsubscribed :
    let result := between.broadcast (flanked Session.unprintable) reload .null
    Hosts (flanked Session.unprintable) Session.unprintable Prod.fst 0 ∧
      Sendable (reload, .null) ∧ Subscribed Prod.fst 0 between ∧
      result.1 = .ok 2 ∧ 0 ∉ result.2.live ∧ result.2.world.1.closed = false := by
  intro result
  have hcount : result.1.toOption = some 2 := by decide +kernel
  refine ⟨hosts_flanked _, sendable_reload, subscribed_between, ?_, by decide +kernel,
    by decide +kernel⟩
  cases hresult : result.1 with
  | error fault => simp [hresult, Except.toOption] at hcount
  | ok n => simpa [hresult, Except.toOption] using hcount

end Viewer

end LiveTree
