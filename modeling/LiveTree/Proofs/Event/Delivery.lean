import LiveTree.Proofs.Event.Broadcast
import LiveTree.Web.Feed

namespace LiveTree.Event

variable {σ : Type}

/-- The order in which a broadcast visits the connections that are subscribed. -/
structure Visiting where
  order : List Handle → List Handle
  perm : ∀ live, (order live).Perm live

/-- What may happen to a channel and the world of its streams. -/
inductive Action (σ : Type) where
  /-- Subscribes a new connection. -/
  | subscribe
  | unsubscribe (h : Handle)
  | broadcast (visiting : Visiting) (type : Text) (data : Json)
  | close
  /-- Streams open, close, fail or recover. -/
  | alter (change : σ → σ)

/-- A channel that names its connections in turn. -/
structure Station (σ : Type) where
  channel : Channel (Recorded σ)
  next : Handle := 0

namespace Station

def initial (world : σ) : Station σ := { channel := { world := ⟨world, []⟩ } }

def live (s : Station σ) : List Handle := s.channel.live

/-- Every text that was taken, with the connection that took it. -/
def taken (s : Station σ) : List (Handle × Text) := s.channel.world.taken

def textsTo (s : Station σ) (h : Handle) : List Text :=
  (s.taken.filter (·.1 == h)).map (·.2)

/-- The connections that take a text, in the order of a visit. -/
def receivers (streams : Streams σ) (s : Station σ) (visiting : Visiting) (text : Text) :
    List Handle :=
  streams.receivers text (visiting.order s.live) s.channel.world.world

/-- One action: what a broadcast answers, and the station after it. -/
def act (streams : Streams σ) (s : Station σ) : Action σ → Option (Except Fault Nat) × Station σ
  | .subscribe => (none, ⟨s.channel.subscribe s.next, s.next + 1⟩)
  | .unsubscribe h => (none, { s with channel := s.channel.unsubscribe h })
  | .broadcast visiting type data =>
    let result := s.channel.broadcastIn streams.recorded (visiting.order s.live) type data
    (some result.1, { s with channel := result.2 })
  | .close => (none, { s with channel := s.channel.close streams.recorded })
  | .alter change =>
    (none, { s with channel := { s.channel with
      world := { s.channel.world with world := change s.channel.world.world } } })

def run (streams : Streams σ) (s : Station σ) (actions : List (Action σ)) : Station σ :=
  actions.foldl (fun s action => (s.act streams action).2) s

/-- The actions of a run, each with the station that it finds. -/
def moments (streams : Streams σ) (s : Station σ) : List (Action σ) → List (Station σ × Action σ)
  | [] => []
  | action :: actions => (s, action) :: moments streams (s.act streams action).2 actions

end Station

namespace Action

/-- The frame that a connection gets of an action: that of a broadcast which finds it subscribed
and open and whose write succeeds. -/
def frameTo? (streams : Streams σ) (s : Station σ) (h : Handle) : Action σ → Option Text
  | .broadcast visiting type data =>
    (encode? type data).bind fun payload =>
      if h ∈ s.live ∧ h ∈ s.receivers streams visiting (frame payload) then some (frame payload)
      else none
  | _ => none

/-- An action that ends a connection: it unsubscribes it or closes the channel, or it is a
broadcast that finds it closed or whose write fails. -/
def Ends (streams : Streams σ) (s : Station σ) (h : Handle) : Action σ → Prop
  | .unsubscribe k => k = h ∧ h < s.next
  | .close => h < s.next
  | .broadcast visiting type data => ∃ payload, encode? type data = some payload ∧
      h ∈ s.live ∧ h ∉ s.receivers streams visiting (frame payload)
  | _ => False

end Action

namespace Station

variable {streams : Streams σ}

/-- Connections are subscribed once and under names that were given out. -/
structure Sound (s : Station σ) : Prop where
  distinct : s.live.Nodup
  named : ∀ h ∈ s.live, h < s.next

theorem sound_initial (world : σ) : (initial world).Sound :=
  ⟨List.nodup_nil, fun _ h => absurd h List.not_mem_nil⟩

theorem mem_visit {s : Station σ} {visiting : Visiting} {h : Handle} :
    h ∈ visiting.order s.live ↔ h ∈ s.live := (visiting.perm s.live).mem_iff

theorem receivers_nodup {s : Station σ} (sound : s.Sound) (visiting : Visiting) (text : Text) :
    (s.receivers streams visiting text).Nodup :=
  (streams.receivers_sublist text _ _).nodup ((visiting.perm s.live).nodup_iff.mpr sound.distinct)

theorem live_of_receivers {s : Station σ} {visiting : Visiting} {text : Text} {h : Handle}
    (hh : h ∈ s.receivers streams visiting text) : h ∈ s.live :=
  mem_visit.mp ((streams.receivers_sublist text _ _).subset hh)

theorem act_unencodable (s : Station σ) (visiting : Visiting) {type : Text} {data : Json}
    {fault : EncodeFault} (h : encode type data = .error fault) :
    s.act streams (.broadcast visiting type data) = (some (.error (.ofEncode fault)), s) := by
  simp [act, Channel.broadcastIn_of_error _ _ h]

/-- What a broadcast comes to: its answer counts the receivers, the record grows by them, and they
alone stay. -/
theorem act_broadcast (passive : streams.Passive) {s : Station σ} (sound : s.Sound)
    (visiting : Visiting) {type : Text} {data : Json} {payload : Text}
    (h : encode? type data = some payload) :
    let result := s.act streams (.broadcast visiting type data)
    let receivers := s.receivers streams visiting (frame payload)
    result.1 = some (.ok receivers.length) ∧
      result.2.taken = s.taken ++ receivers.map (·, frame payload) ∧
      result.2.live.Nodup ∧ (∀ k, k ∈ result.2.live ↔ k ∈ receivers) ∧ result.2.next = s.next := by
  have distinct : (visiting.order s.live).Nodup :=
    (visiting.perm s.live).nodup_iff.mpr sound.distinct
  obtain ⟨hcount, htaken, hsub, hmem⟩ :=
    Channel.offerAll_recorded passive (frame payload) distinct s.channel
  have hact : s.act streams (.broadcast visiting type data) =
      (some (s.channel.offerAll streams.recorded (frame payload) (visiting.order s.live)).1,
        { s with channel :=
          (s.channel.offerAll streams.recorded (frame payload) (visiting.order s.live)).2 }) := by
    simp [act, Channel.broadcastIn_of_some _ _ h]
  intro result receivers
  have hresult : result = _ := hact
  rw [hresult]
  refine ⟨congrArg some hcount, htaken, hsub.nodup sound.distinct, fun k => ?_, rfl⟩
  refine (hmem k).trans ⟨fun hk => hk.2 (mem_visit.mpr hk.1), fun hk => ?_⟩
  exact ⟨live_of_receivers hk, fun _ => hk⟩

theorem act_close (streams : Streams σ) (s : Station σ) :
    (s.act streams .close).2.live = [] ∧ (s.act streams .close).2.taken = s.taken :=
  s.channel.close_recorded

/-- The only step lemma: what an action does to who is subscribed and to what was taken. -/
structure Follows (streams : Streams σ) (s : Station σ) (action : Action σ) (s' : Station σ) :
    Prop where
  sound : s'.Sound
  next_le : s.next ≤ s'.next
  live_iff : ∀ h, h ∈ s'.live ↔
    h < s'.next ∧ (s.next ≤ h ∨ h ∈ s.live) ∧ ¬action.Ends streams s h
  texts : ∀ h, s'.textsTo h = s.textsTo h ++ (action.frameTo? streams s h).toList

/-- A record that grows by one text under distinct names. -/
theorem textsTo_append {s s' : Station σ} {handles : List Handle} {text : Text}
    (distinct : handles.Nodup) (htaken : s'.taken = s.taken ++ handles.map (·, text))
    (h : Handle) : s'.textsTo h = s.textsTo h ++ if h ∈ handles then [text] else [] := by
  have hfilter : ((handles.map (·, text)).filter (·.1 == h)).map (·.2) =
      if h ∈ handles then [text] else [] := by
    rw [List.filter_map, List.map_map]
    have hconst : ((fun p : Handle × Text => p.2) ∘ (·, text)) = fun _ : Handle => text := rfl
    have hkey : ((fun p : Handle × Text => p.1 == h) ∘ (·, text)) = (· == h) := rfl
    rw [hconst, hkey, List.map_const', ← List.countP_eq_length_filter]
    change List.replicate (handles.count h) text = _
    rw [distinct.count]
    split <;> rfl
  rw [textsTo, htaken, List.filter_append, List.map_append, hfilter]
  rfl

theorem follows_subscribe {s : Station σ} (sound : s.Sound) :
    Follows streams s .subscribe (s.act streams .subscribe).2 := by
  have hfresh : s.next ∉ s.live := fun h => Nat.lt_irrefl _ (sound.named _ h)
  have hlive : (s.act streams .subscribe).2.live = s.live ++ [s.next] := by
    simp [act, live, Channel.subscribe, show s.next ∉ s.channel.live from hfresh]
  have hnext : (s.act streams .subscribe).2.next = s.next + 1 := rfl
  have htaken : (s.act streams .subscribe).2.taken = s.taken := by
    simp only [act, taken, Channel.subscribe]
    split <;> rfl
  refine ⟨⟨?_, ?_⟩, Nat.le_succ s.next, ?_, ?_⟩
  · rw [hlive, List.nodup_append]
    refine ⟨sound.distinct, List.pairwise_singleton _ _, fun h hh k hk => ?_⟩
    rw [List.mem_singleton.mp hk]
    exact fun heq => hfresh (heq ▸ hh)
  · intro h hh
    rw [hlive, List.mem_append, List.mem_singleton] at hh
    rcases hh with hh | rfl
    · exact Nat.lt_succ_of_lt (sound.named h hh)
    · exact Nat.lt_succ_self _
  · intro h
    rw [hlive, hnext, List.mem_append, List.mem_singleton]
    simp only [Action.Ends, not_false_iff, and_true]
    constructor
    · rintro (hh | rfl)
      · exact ⟨Nat.lt_succ_of_lt (sound.named h hh), .inr hh⟩
      · exact ⟨Nat.lt_succ_self _, .inl (Nat.le_refl _)⟩
    · rintro ⟨hlt, hle | hh⟩
      · exact .inr (Nat.le_antisymm (Nat.lt_succ_iff.mp hlt) hle)
      · exact .inl hh
  · intro h
    simp [textsTo, htaken, Action.frameTo?]

/-- An action that gives out no name and keeps the record only has to say who stays. -/
theorem follows_of_taken {s s' : Station σ} {action : Action σ} (sound : s.Sound)
    (hsub : s'.live.Sublist s.live) (hnext : s'.next = s.next) (htaken : s'.taken = s.taken)
    (hquiet : ∀ h, action.frameTo? streams s h = none)
    (hlive : ∀ h, h ∈ s'.live ↔ h ∈ s.live ∧ ¬action.Ends streams s h) :
    Follows streams s action s' := by
  refine ⟨⟨hsub.nodup sound.distinct, fun h hh => ?_⟩, Nat.le_of_eq hnext.symm, fun h => ?_,
    fun h => ?_⟩
  · rw [hnext]
    exact sound.named h (hsub.subset hh)
  · rw [hlive, hnext]
    constructor
    · rintro ⟨hh, hends⟩
      exact ⟨sound.named h hh, .inr hh, hends⟩
    · rintro ⟨hlt, hle | hh, hends⟩
      · exact absurd hlt (Nat.not_lt.mpr hle)
      · exact ⟨hh, hends⟩
  · simp [textsTo, htaken, hquiet]

theorem follows_unsubscribe {s : Station σ} (sound : s.Sound) (k : Handle) :
    Follows streams s (.unsubscribe k) (s.act streams (.unsubscribe k)).2 := by
  refine follows_of_taken sound List.filter_sublist rfl rfl (fun _ => rfl) fun h => ?_
  change h ∈ s.live.filter (· != k) ↔ _
  rw [List.mem_filter]
  have hnamed := sound.named h
  simp only [Action.Ends, bne_iff_ne, ne_eq]
  grind

theorem follows_close {s : Station σ} (sound : s.Sound) :
    Follows streams s .close (s.act streams .close).2 := by
  obtain ⟨hlive, htaken⟩ := act_close streams s
  refine follows_of_taken sound (hlive ▸ List.nil_sublist _) rfl htaken (fun _ => rfl) fun h => ?_
  rw [hlive]
  constructor
  · exact fun hh => absurd hh List.not_mem_nil
  · exact fun ⟨hh, hends⟩ => absurd (sound.named h hh) hends

theorem follows_alter {s : Station σ} (sound : s.Sound) (change : σ → σ) :
    Follows streams s (.alter change) (s.act streams (.alter change)).2 := by
  refine follows_of_taken sound (List.Sublist.refl _) rfl rfl (fun _ => rfl) fun h => ?_
  exact ⟨fun hh => ⟨hh, id⟩, fun hh => hh.1⟩

theorem follows_broadcast (passive : streams.Passive) {s : Station σ} (sound : s.Sound)
    (visiting : Visiting) (type : Text) (data : Json) :
    Follows streams s (.broadcast visiting type data)
      (s.act streams (.broadcast visiting type data)).2 := by
  cases he : encode? type data with
  | none =>
    obtain ⟨fault, hfault⟩ := encode?_eq_none_iff.mp he
    rw [act_unencodable s visiting hfault]
    refine follows_of_taken sound (List.Sublist.refl _) rfl rfl (fun h => ?_) fun h => ?_
    · simp [Action.frameTo?, he]
    · simp [Action.Ends, he]
  | some payload =>
    obtain ⟨-, htaken, hdistinct, hmem, hnext⟩ := act_broadcast passive sound visiting he
    refine ⟨⟨hdistinct, fun h hh => ?_⟩, Nat.le_of_eq hnext.symm, fun h => ?_, fun h => ?_⟩
    · rw [hnext]
      exact sound.named h (live_of_receivers ((hmem h).mp hh))
    · rw [hmem, hnext]
      simp only [Action.Ends, he, Option.some.injEq, exists_eq_left', not_and, Decidable.not_not]
      constructor
      · intro hh
        exact ⟨sound.named h (live_of_receivers hh), .inr (live_of_receivers hh), fun _ => hh⟩
      · rintro ⟨hlt, hle | hh, hgot⟩
        · exact absurd hlt (Nat.not_lt.mpr hle)
        · exact hgot hh
    · rw [textsTo_append (receivers_nodup sound visiting _) htaken]
      simp only [Action.frameTo?, he, Option.bind_some]
      by_cases hh : h ∈ s.receivers streams visiting (frame payload)
      · simp [hh, live_of_receivers hh]
      · simp [hh]

theorem follows_act (passive : streams.Passive) {s : Station σ} (sound : s.Sound)
    (action : Action σ) : Follows streams s action (s.act streams action).2 := by
  cases action with
  | subscribe => exact follows_subscribe sound
  | unsubscribe h => exact follows_unsubscribe sound h
  | broadcast visiting type data => exact follows_broadcast passive sound visiting type data
  | close => exact follows_close sound
  | alter change => exact follows_alter sound change

theorem run_cons (s : Station σ) (action : Action σ) (actions : List (Action σ)) :
    s.run streams (action :: actions) = (s.act streams action).2.run streams actions := rfl

theorem run_append (s : Station σ) (actions more : List (Action σ)) :
    s.run streams (actions ++ more) = (s.run streams actions).run streams more :=
  List.foldl_append

theorem sound_run (passive : streams.Passive) {s : Station σ} (sound : s.Sound)
    (actions : List (Action σ)) : (s.run streams actions).Sound := by
  induction actions generalizing s with
  | nil => exact sound
  | cons action actions ih => exact ih (follows_act passive sound action).sound

theorem sound_of_moments (passive : streams.Passive) {s : Station σ} (sound : s.Sound)
    {actions : List (Action σ)} {m : Station σ × Action σ}
    (hm : m ∈ s.moments streams actions) : m.1.Sound := by
  induction actions generalizing s with
  | nil => exact absurd hm List.not_mem_nil
  | cons action actions ih =>
    rcases List.mem_cons.mp hm with rfl | hm
    · exact sound
    · exact ih (follows_act passive sound action).sound hm

/-- What a connection took in a run is what it got of each moment, in order. -/
theorem textsTo_run (passive : streams.Passive) {s : Station σ} (sound : s.Sound)
    (actions : List (Action σ)) (h : Handle) :
    (s.run streams actions).textsTo h =
      s.textsTo h ++ (s.moments streams actions).filterMap fun m => m.2.frameTo? streams m.1 h := by
  induction actions generalizing s with
  | nil => exact (List.append_nil _).symm
  | cons action actions ih =>
    have hstep := follows_act passive sound action
    rw [run_cons, ih hstep.sound, hstep.texts, moments, List.filterMap_cons, List.append_assoc]
    cases action.frameTo? streams s h <;> rfl

theorem lt_of_ends {s : Station σ} (sound : s.Sound) {action : Action σ} {h : Handle}
    (hends : action.Ends streams s h) : h < s.next := by
  cases action with
  | subscribe => exact hends.elim
  | unsubscribe k => exact hends.2
  | broadcast visiting type data =>
    obtain ⟨payload, -, hlive, -⟩ := hends
    exact sound.named h hlive
  | close => exact hends
  | alter change => exact hends.elim

/-- A connection is subscribed after a run if it was before or is new, and nothing ended it. -/
theorem live_run (passive : streams.Passive) {s : Station σ} (sound : s.Sound)
    (actions : List (Action σ)) (h : Handle) :
    h ∈ (s.run streams actions).live ↔
      h < (s.run streams actions).next ∧ (s.next ≤ h ∨ h ∈ s.live) ∧
        ∀ m ∈ s.moments streams actions, ¬m.2.Ends streams m.1 h := by
  induction actions generalizing s with
  | nil =>
    constructor
    · exact fun hh => ⟨sound.named h hh, .inr hh, fun m hm => absurd hm List.not_mem_nil⟩
    · rintro ⟨hlt, hle | hh, -⟩
      · exact absurd hlt (Nat.not_lt.mpr hle)
      · exact hh
  | cons action actions ih =>
    have hstep := follows_act passive sound action
    rw [run_cons, ih hstep.sound, moments, List.forall_mem_cons, hstep.live_iff]
    constructor
    · rintro ⟨hlt, hle | ⟨-, hold, hends⟩, hrest⟩
      · have hnew : s.next ≤ h := Nat.le_trans hstep.next_le hle
        exact ⟨hlt, .inl hnew, fun he => absurd (lt_of_ends sound he) (Nat.not_lt.mpr hnew), hrest⟩
      · exact ⟨hlt, hold, hends, hrest⟩
    · rintro ⟨hlt, hold, hends, hrest⟩
      rcases Nat.lt_or_ge h (s.act streams action).2.next with hknown | hnew
      · exact ⟨hlt, .inr ⟨hknown, hold, hends⟩, hrest⟩
      · exact ⟨hlt, .inl hnew, hrest⟩

theorem frameTo?_of_notMem {s : Station σ} {h : Handle} (hlive : h ∉ s.live)
    (action : Action σ) : action.frameTo? streams s h = none := by
  cases action with
  | broadcast visiting type data =>
    simp only [Action.frameTo?, hlive, false_and, if_false]
    cases encode? type data <;> rfl
  | _ => rfl

/-- A connection that has left is never subscribed again and takes nothing more. -/
theorem run_of_left (passive : streams.Passive) {s : Station σ} (sound : s.Sound) {h : Handle}
    (hnamed : h < s.next) (hlive : h ∉ s.live) (actions : List (Action σ)) :
    h ∉ (s.run streams actions).live ∧ (s.run streams actions).textsTo h = s.textsTo h := by
  induction actions generalizing s with
  | nil => exact ⟨hlive, rfl⟩
  | cons action actions ih =>
    have hstep := follows_act passive sound action
    have hgone : h ∉ (s.act streams action).2.live := by
      rw [hstep.live_iff]
      rintro ⟨-, hle | hh, -⟩
      · exact absurd hnamed (Nat.not_lt.mpr hle)
      · exact hlive hh
    obtain ⟨hfinal, htexts⟩ := ih hstep.sound (Nat.lt_of_lt_of_le hnamed hstep.next_le) hgone
    refine ⟨hfinal, htexts.trans ?_⟩
    rw [hstep.texts, frameTo?_of_notMem hlive, Option.toList_none, List.append_nil]

theorem frameTo?_of_ends {s : Station σ} {action : Action σ} {h : Handle}
    (hends : action.Ends streams s h) : action.frameTo? streams s h = none := by
  cases action with
  | broadcast visiting type data =>
    obtain ⟨payload, he, -, hnot⟩ := hends
    simp [Action.frameTo?, he, hnot]
  | _ => rfl

/-- From the action that ends it on, a connection takes nothing more. -/
theorem run_of_ends (passive : streams.Passive) {s : Station σ} (sound : s.Sound) {h : Handle}
    {action : Action σ} (hends : action.Ends streams s h) (after : List (Action σ)) :
    h ∉ (s.run streams (action :: after)).live ∧
      (s.run streams (action :: after)).textsTo h = s.textsTo h := by
  have hstep := follows_act passive sound action
  have hleft : h ∉ (s.act streams action).2.live := fun hh => ((hstep.live_iff h).mp hh).2.2 hends
  have hnamed := Nat.lt_of_lt_of_le (lt_of_ends sound hends) hstep.next_le
  obtain ⟨hlive, htexts⟩ := run_of_left passive hstep.sound hnamed hleft after
  refine ⟨hlive, htexts.trans ?_⟩
  rw [hstep.texts, frameTo?_of_ends hends, Option.toList_none, List.append_nil]

/-- What a broadcast does at some moment of a run. -/
def BroadcastExact (streams : Streams σ) (s : Station σ) (visiting : Visiting) (type : Text)
    (data : Json) : Prop :=
  match encode type data with
  | .error fault =>
    s.act streams (.broadcast visiting type data) = (some (.error (.ofEncode fault)), s)
  | .ok payload =>
    let receivers := s.receivers streams visiting (frame payload)
    (s.act streams (.broadcast visiting type data)).1 = some (.ok receivers.length) ∧
      receivers.Nodup ∧ ∀ h, (s.act streams (.broadcast visiting type data)).2.textsTo h =
        s.textsTo h ++ if h ∈ receivers then [frame payload] else []

theorem broadcastExact (passive : streams.Passive) {s : Station σ} (sound : s.Sound)
    (visiting : Visiting) (type : Text) (data : Json) :
    BroadcastExact streams s visiting type data := by
  unfold BroadcastExact
  cases he : encode type data with
  | error fault => exact act_unencodable s visiting he
  | ok payload =>
    obtain ⟨hcount, htaken, -⟩ :=
      act_broadcast passive sound visiting (encode?_eq_some_iff.mpr he)
    have hdistinct : (s.receivers streams visiting (frame payload)).Nodup :=
      receivers_nodup sound visiting (frame payload)
    exact ⟨hcount, hdistinct, textsTo_append hdistinct htaken⟩

/-- Delivery over a whole run. A connection takes exactly the frames of the broadcasts that find
it subscribed and open and whose write succeeds, in order and once each; it is subscribed exactly
from when it joins until the first action that ends it, and takes nothing from then on; a broadcast
counts the connections that took its frame, and changes nothing if its event has no encoding. -/
theorem delivery (passive : streams.Passive) (world : σ) (actions : List (Action σ)) (h : Handle) :
    let s := initial world
    (s.run streams actions).textsTo h =
        (s.moments streams actions).filterMap (fun m => m.2.frameTo? streams m.1 h) ∧
      (h ∈ (s.run streams actions).live ↔ h < (s.run streams actions).next ∧
        ∀ m ∈ s.moments streams actions, ¬m.2.Ends streams m.1 h) ∧
      (∀ before action after, actions = before ++ action :: after →
        action.Ends streams (s.run streams before) h →
          h ∉ (s.run streams actions).live ∧
            (s.run streams actions).textsTo h = (s.run streams before).textsTo h) ∧
      ∀ m ∈ s.moments streams actions, ∀ visiting type data,
        m.2 = .broadcast visiting type data → BroadcastExact streams m.1 visiting type data := by
  have sound := sound_initial world
  refine ⟨textsTo_run passive sound actions h, ?_, ?_, ?_⟩
  · rw [live_run passive sound actions h]
    have hjoined : (initial world).next ≤ h ∨ h ∈ (initial world).live := .inl (Nat.zero_le h)
    simp only [hjoined, true_and]
  · rintro before action after rfl hends
    rw [run_append]
    exact run_of_ends passive (sound_run passive sound before) hends after
  · intro m hm visiting type data _
    exact broadcastExact passive (sound_of_moments passive sound hm) visiting type data

/-- A write to a feed fails only if the feed is closed. -/
theorem passive_feeds : Web.Feeds.asStreams.Passive := by
  constructor
  · intro h text feeds
    simp only [Web.Feeds.asStreams, Web.Feeds.write]
    split <;> rfl
  · intro h text feeds fault hfault
    simp only [Web.Feeds.asStreams, Web.Feeds.write] at hfault
    split at hfault
    · obtain rfl := Option.some.inj hfault
      exact Or.inr (Or.inr rfl)
    · cases hfault

/-- Two feeds of which the first is closed for the time of one broadcast. -/
def lapse : List (Action Web.Feeds) :=
  let asSubscribed : Visiting := ⟨id, List.Perm.refl⟩
  let flag (closed : Bool) (feeds : Web.Feeds) : Web.Feeds :=
    feeds.setQueue 0 { feeds.queue 0 with closed }
  [.subscribe, .subscribe, .broadcast asSubscribed "a" .null, .alter (flag true),
    .broadcast asSubscribed "b" .null, .alter (flag false), .broadcast asSubscribed "c" .null]

theorem delivery_lapse :
    Web.Feeds.asStreams.Passive ∧
      ((initial #[{}, {}]).run Web.Feeds.asStreams lapse).textsTo 0 =
        (encode? "a" .null).toList.map frame ∧
      0 ∉ ((initial #[{}, {}]).run Web.Feeds.asStreams lapse).live := by
  obtain ⟨htexts, -, hleft, -⟩ := delivery passive_feeds #[{}, {}] lapse 0
  refine ⟨passive_feeds, htexts.trans ?_, ?_⟩
  · decide +kernel
  · refine (hleft (lapse.take 4) _ (lapse.drop 5) rfl ⟨_, rfl, ?_, ?_⟩).1
    · decide +kernel
    · decide +kernel

end Station

end LiveTree.Event
