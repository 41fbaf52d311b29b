import LiveTree.Proofs.Event.RoundTrip
import LiveTree.Proofs.Viewer.Latest

namespace LiveTree

namespace Event

variable {σ : Type} {streams : Streams σ}

/-- Sends events in turn, whether or not those before them raised a fault. -/
def Channel.broadcastAll (streams : Streams σ) : List (Text × Json) → Channel σ →
    List (Except Fault Nat) × Channel σ
  | [], c => ([], c)
  | (type, data) :: events, c =>
    let (answer, c) := c.broadcast streams type data
    let (answers, c) := broadcastAll streams events c
    (answer :: answers, c)

/-- An event with octets: its data can be read from JSON, and no text in it holds a surrogate. -/
structure Sendable (event : Text × Json) : Prop where
  plain : ∀ s ∈ event.1 :: event.2.texts, ∀ c ∈ s, c.isSurrogate = false
  readable : event.2.Readable

/-- Whether the data leaves a level of nesting for the object around it. -/
def Fits (event : Text × Json) : Prop := event.2.depth < Json.maxNesting

instance : DecidablePred Fits := fun _ => Nat.decLt _ _

/-- Whether an event calls for a new tree of the file that is selected. -/
def Concerns (file : Text) (event : Text × Json) : Prop :=
  file ≠ [] ∧ (event.1 = reload ∨ event.1 = programMod ∨
    event.1 = fileMod ∧ event.2 = .text file)

instance (data : Json) (file : Text) : Decidable (data = .text file) :=
  match data with
  | .text changed => decidable_of_iff (changed = file) (by rw [Json.text.injEq])
  | .null | .bool _ | .int _ | .float _ | .list _ | .object _ => isFalse nofun

instance (file : Text) : DecidablePred (Concerns file) :=
  fun _ => inferInstanceAs (Decidable (_ ∧ _))

/-- An event that fits is heard from its frame as what it was. -/
theorem Sendable.exists_frame {event : Text × Json} (sendable : Sendable event)
    (fits : Fits event) : ∃ payload, encode? event.1 event.2 = some payload ∧
      decode (frame payload) = .ok ⟨.text event.1, event.2⟩ := by
  obtain ⟨payload, hencode, hdecode⟩ := exists_payload fits sendable.plain sendable.readable
  refine ⟨payload, encode?_eq_some_iff.mpr hencode, ?_⟩
  simpa using hdecode [] [] rfl rfl _ List.mem_cons_self

theorem encode_of_not_fits {event : Text × Json} (deep : ¬Fits event) :
    encode event.1 event.2 = .error .tooDeep :=
  encode_eq_tooDeep_iff.mpr (Nat.le_of_not_lt deep)

theorem concerns_iff {file type : Text} {data : Json} :
    Concerns file (type, data) ↔
      file ≠ [] ∧ calls? file ⟨.text type, data⟩ = some true := by
  have hmod : fileMod ≠ reload ∧ fileMod ≠ programMod := by decide
  rw [Concerns, calls?]
  by_cases hall : type = reload ∨ type = programMod
  · simp only [if_pos hall, and_true]
    rw [← or_assoc]
    exact and_iff_left (.inl hall)
  · simp only [if_neg hall]
    by_cases htype : type = fileMod
    · cases data with
      | text changed => simp [htype, hmod]
      | _ => simp [htype, hmod]
    · simpa [htype] using fun _ => not_or.mp hall

namespace Channel

section Offer

variable {c : Channel σ} {h : Handle} {text : Text} (hopen : streams.isOpen c.world h = true)
  (hquiet : (streams.write h text c.world).1.changes = [])

include hopen hquiet

theorem offer_of_none (hfault : (streams.write h text c.world).1.fault = none) :
    c.offer streams text h = (.ok true,
      { c with
        world := (streams.write h text c.world).2
        log := c.log ++ (streams.write h text c.world).1.log }) := by
  simp [offer, send, hopen, hquiet, hfault]

theorem offer_of_some {fault : Fault}
    (hfault : (streams.write h text c.world).1.fault = some fault)
    (hfamily : fault.sent.family ≠ .transport) :
    c.offer streams text h = (.error fault.sent,
      { c with
        world := (streams.write h text c.world).2
        log := c.log ++ (streams.write h text c.world).1.log }) := by
  simp [offer, send, hopen, hquiet, hfault, hfamily]

theorem world_offer : (c.offer streams text h).2.world = (streams.write h text c.world).2 := by
  cases hfault : (streams.write h text c.world).1.fault with
  | none => rw [offer_of_none hopen hquiet hfault]
  | some fault =>
    by_cases hfamily : fault.sent.family = .transport
    · simp [offer, send, hopen, hquiet, hfault, hfamily, note]
    · rw [offer_of_some hopen hquiet hfault hfamily]

end Offer

theorem broadcast_single {c : Channel σ} {h : Handle} (hlive : c.live = [h]) {type : Text}
    {data : Json} {payload : Text} (hencode : encode? type data = some payload) :
    c.broadcast streams type data =
      ((c.offer streams (frame payload) h).1.map Bool.toNat,
        (c.offer streams (frame payload) h).2) := by
  rw [broadcast, broadcastIn_of_some _ _ hencode, hlive]
  simp only [offerAll]
  rcases c.offer streams (frame payload) h with ⟨_ | got, c'⟩
  · rfl
  · simp [Except.map]

end Channel

end Event

namespace Viewer

variable {ω R : Type}

/-- Fetches return or fail as a fetch may, and drawing succeeds. -/
structure Callbacks.Benign (callbacks : Callbacks ω R) : Prop where
  fetch : ∀ file rule w fault,
    (callbacks.fetch file rule w).1.result = .error fault → fault.isFetchFault = true
  render : ∀ tree w fault, (callbacks.render tree w).1 ≠ .error fault

theorem Callbacks.Benign.observed {callbacks : Callbacks ω R} (benign : callbacks.Benign) :
    callbacks.observed.Benign :=
  ⟨fun file rule w => benign.fetch file rule w.world, fun tree w => benign.render tree w.world⟩

/-- An answer that is JSON too deep to be read. -/
def Deep (result : Except Fault Payload) : Prop :=
  ∃ payload fault, result = .ok payload ∧ payload.node = .error fault

/-- No response is too deep. -/
def Callbacks.Shallow (callbacks : Callbacks ω R) : Prop :=
  ∀ file rule w, ¬Deep (callbacks.fetch file rule w).1.result

theorem Callbacks.Shallow.observed {callbacks : Callbacks ω R} (shallow : callbacks.Shallow) :
    callbacks.observed.Shallow := fun file rule w => shallow file rule w.world

namespace Session

/-- The file and the rule whose tree is asked for. -/
def selection (s : Session ω R) : Text × Text := (s.controller.file, s.controller.rule)

/-- The same session with notes made before its own. -/
def prepend (log : Log) (s : Session ω R) : Session ω R := { s with log := log ++ s.log }

@[simp] theorem controller_prepend (log : Log) (s : Session ω R) :
    (s.prepend log).controller = s.controller := rfl

@[simp] theorem world_prepend (log : Log) (s : Session ω R) :
    (s.prepend log).world = s.world := rfl

theorem note_prepend (log : Log) (record : Record) (s : Session ω R) :
    (s.prepend log).note record = (s.note record).prepend log := by
  simp [note, prepend]

theorem fail_prepend (log : Log) (sequence : Int) (fault : Fault) (s : Session ω R) :
    (s.prepend log).fail sequence fault = Prod.map id (prepend log) (s.fail sequence fault) := by
  by_cases h : sequence = s.controller.sequence
  · simp [fail, h, note, prepend]
  · simp [fail, h]

theorem beginFetches_prepend (log : Log) (n : Nat) (s : Session ω R) :
    beginFetches n (s.prepend log) = (beginFetches n s).prepend log := by
  induction n generalizing s with
  | zero => rfl
  | succ n ih => exact ih s.beginFetch

theorem selection_beginFetches (n : Nat) (s : Session ω R) :
    (beginFetches n s).selection = s.selection := by
  induction n generalizing s with
  | zero => rfl
  | succ n ih => exact ih s.beginFetch

theorem world_beginFetches (n : Nat) (s : Session ω R) : (beginFetches n s).world = s.world := by
  induction n generalizing s with
  | zero => rfl
  | succ n ih => exact ih s.beginFetch

theorem selection_fail (s : Session ω R) (sequence : Int) (fault : Fault) :
    (s.fail sequence fault).2.selection = s.selection := by
  unfold fail
  split <;> rfl

theorem world_fail (s : Session ω R) (sequence : Int) (fault : Fault) :
    (s.fail sequence fault).2.world = s.world := by
  unfold fail
  split <;> rfl

/-- The session that an answer finds: the requests begun meanwhile are newer than its own. -/
def answered (callbacks : Callbacks ω R) (s : Session ω R) : Session ω R :=
  let (fetched, world) := callbacks.fetch s.controller.file s.controller.rule s.world
  beginFetches fetched.begun { s.beginFetch with world, log := s.log ++ fetched.log }

theorem answered_prepend (log : Log) (callbacks : Callbacks ω R) (s : Session ω R) :
    (s.prepend log).answered callbacks = (s.answered callbacks).prepend log := by
  simp only [answered, ← beginFetches_prepend]
  simp [beginFetch, prepend]

theorem selection_answered (callbacks : Callbacks ω R) (s : Session ω R) :
    (s.answered callbacks).selection = s.selection := by
  rw [answered, selection_beginFetches]
  rfl

variable [Measure R] {callbacks : Callbacks ω R}

def handleAll (callbacks : Callbacks ω R) (s : Session ω R) (events : List (Text × Json)) :
    Session ω R :=
  events.foldl (fun s event => (s.handleEvent callbacks ⟨.text event.1, event.2⟩).2) s

/-- What the broadcasts of events to one open viewer come to: each returns 1 if the event fits and
the controller handles it, and raises what that raises. -/
def answers (callbacks : Callbacks ω R) (s : Session ω R) :
    List (Text × Json) → List (Except Fault Nat)
  | [] => []
  | event :: events =>
    if Event.Fits event then
      let (handled, s) := s.handleEvent callbacks ⟨.text event.1, event.2⟩
      handled.map (fun _ => 1) :: answers callbacks s events
    else .error .tooDeep :: answers callbacks s events

/-- Takes the answer to a request. -/
def settle (callbacks : Callbacks ω R) (sequence : Int) (s : Session ω R) :
    Except Fault Payload → Step Bool ω R
  | .ok payload => s.complete callbacks sequence payload
  | .error fault =>
    if fault.isFetchFault then (.ok false, (s.fail sequence fault).2) else (.error fault, s)

/-- Displays a tree that is not stale. -/
def draw (callbacks : Callbacks ω R) (tree : Display.Node) (s : Session ω R) : Step Bool ω R :=
  match callbacks.render tree s.world with
  | (.error fault, world) => (.error fault, { s with world })
  | (.ok (width, height), world) =>
    let view := s.controller.viewport
    let viewport := view.resizeContent (width * view.zoom) (height * view.zoom)
    (.ok true, { s with
      world
      controller := { s.controller with
        viewport, tree := some tree, error := none, phase := .displaying } })

theorem complete_eq (callbacks : Callbacks ω R) (sequence : Int) (payload : Payload)
    (s : Session ω R) :
    s.complete callbacks sequence payload =
      if sequence ≠ s.controller.sequence then (.ok false, s)
      else match payload.node with
        | .error _ => (.error .tooDeep, s)
        | .ok none => (.ok false, (s.fail sequence (.noTree s.controller.file)).2)
        | .ok (some tree) => s.draw callbacks tree := rfl

/-- What an answer can do: nothing, be noted as a failure, be drawn, or raise a fault, its own or
that of lying too deep. -/
theorem settle_cases (callbacks : Callbacks ω R) (sequence : Int) (s : Session ω R)
    (result : Except Fault Payload) :
    s.settle callbacks sequence result = (.ok false, s) ∨
      (∃ fault, s.settle callbacks sequence result = (.ok false, (s.fail sequence fault).2)) ∨
      (∃ tree, s.settle callbacks sequence result = s.draw callbacks tree) ∨
      ∃ fault, (result = .error fault ∧ fault.isFetchFault = false ∨
          Deep result ∧ fault = .tooDeep) ∧
        s.settle callbacks sequence result = (.error fault, s) := by
  cases result with
  | error fault =>
    rw [settle]
    cases hfault : fault.isFetchFault with
    | true => exact .inr (.inl ⟨fault, rfl⟩)
    | false => exact .inr (.inr (.inr ⟨fault, .inl ⟨rfl, hfault⟩, rfl⟩))
  | ok payload =>
    rw [settle, complete_eq]
    split
    · exact .inl rfl
    · rcases hread : payload.node with fault | _ | tree
      · exact .inr (.inr (.inr ⟨_, .inr ⟨⟨payload, fault, rfl, hread⟩, rfl⟩, rfl⟩))
      · exact .inr (.inl ⟨_, rfl⟩)
      · exact .inr (.inr (.inl ⟨tree, rfl⟩))

theorem refresh_of_file (callbacks : Callbacks ω R) {s : Session ω R}
    (hfile : s.controller.file ≠ []) :
    s.refresh callbacks =
      (s.answered callbacks).settle callbacks (s.controller.sequence + 1 : Nat)
        (callbacks.fetch s.controller.file s.controller.rule s.world).1.result := by
  have hempty : s.controller.file.isEmpty = false := by simpa using hfile
  rw [refresh, hempty, if_neg Bool.false_ne_true]
  rcases hfetch : callbacks.fetch s.controller.file s.controller.rule s.world with
    ⟨⟨_ | _, _, _⟩, world⟩
  · simp only [answered, beginFetch, hfetch]
    rfl
  · simp only [answered, beginFetch, hfetch]
    rfl

theorem refresh_of_nil (callbacks : Callbacks ω R) {s : Session ω R}
    (hfile : s.controller.file = []) :
    s.refresh callbacks = (.ok false, s) := by
  rw [refresh, hfile]
  rfl

/-- What an event can do: repeat the request, or nothing but be noted. -/
theorem handleEvent_cases (callbacks : Callbacks ω R) (event : Event) (s : Session ω R) :
    event.calls? s.controller.file = some true ∧
        s.handleEvent callbacks event = s.refresh callbacks ∨
      event.calls? s.controller.file ≠ some true ∧
        ∃ log, s.handleEvent callbacks event = (.ok false, { s with log := s.log ++ log }) := by
  rw [handleEvent]
  cases event.calls? s.controller.file with
  | none => exact .inr ⟨by simp, _, rfl⟩
  | some calls =>
    cases calls with
    | true => exact .inl ⟨rfl, rfl⟩
    | false => exact .inr ⟨by simp, [], by rw [List.append_nil]⟩

theorem draw_prepend (log : Log) (tree : Display.Node) (s : Session ω R) :
    (s.prepend log).draw callbacks tree = Prod.map id (prepend log) (s.draw callbacks tree) := by
  rw [draw, draw, controller_prepend, world_prepend]
  rcases callbacks.render tree s.world with ⟨fault | size, world⟩
  · rfl
  · rfl

theorem settle_prepend (log : Log) (sequence : Int) (s : Session ω R)
    (result : Except Fault Payload) :
    (s.prepend log).settle callbacks sequence result =
      Prod.map id (prepend log) (s.settle callbacks sequence result) := by
  cases result with
  | ok payload =>
    rw [settle, settle, complete_eq, complete_eq, controller_prepend]
    split
    · rfl
    · rcases payload.node with _ | _ | tree
      · rfl
      · simp only [fail_prepend]; rfl
      · exact draw_prepend log tree s
  | error fault =>
    rw [settle, settle, fail_prepend]
    split
    · rfl
    · rfl

theorem refresh_prepend (log : Log) (s : Session ω R) :
    (s.prepend log).refresh callbacks = Prod.map id (prepend log) (s.refresh callbacks) := by
  by_cases hfile : s.controller.file = []
  · have hprepend : (s.prepend log).refresh callbacks = _ := refresh_of_nil callbacks hfile
    rw [hprepend, refresh_of_nil callbacks hfile]
    rfl
  · have hprepend : (s.prepend log).refresh callbacks = _ := refresh_of_file callbacks hfile
    rw [hprepend, refresh_of_file callbacks hfile, answered_prepend]
    exact settle_prepend log _ _ _

theorem handleEvent_prepend (log : Log) (event : Event) (s : Session ω R) :
    (s.prepend log).handleEvent callbacks event =
      Prod.map id (prepend log) (s.handleEvent callbacks event) := by
  rw [handleEvent, handleEvent, controller_prepend]
  cases event.calls? s.controller.file with
  | none => simp only [note_prepend]; rfl
  | some calls =>
    cases calls with
    | true => exact refresh_prepend log s
    | false => rfl

theorem exists_ok_draw (benign : callbacks.Benign) (tree : Display.Node) (s : Session ω R) :
    ∃ b, (s.draw callbacks tree).1 = .ok b := by
  rw [draw]
  rcases hrender : callbacks.render tree s.world with ⟨fault | size, world⟩
  · exact absurd (congrArg Prod.fst hrender) (benign.render tree s.world fault)
  · exact ⟨true, rfl⟩

/-- The result of a step that raises no fault but that of lying too deep, and that only if a
response may. -/
def Returns (callbacks : Callbacks ω R) (result : Except Fault Bool) : Prop :=
  (∃ b, result = .ok b) ∨ ¬callbacks.Shallow ∧ result = .error .tooDeep

theorem returns_refresh (benign : callbacks.Benign) (s : Session ω R) :
    Returns callbacks (s.refresh callbacks).1 := by
  by_cases hfile : s.controller.file = []
  · exact .inl ⟨false, by rw [refresh_of_nil _ hfile]⟩
  · rw [refresh_of_file _ hfile]
    obtain h | ⟨fault, h⟩ | ⟨tree, h⟩ | ⟨fault, ⟨hresult, hfault⟩ | ⟨hdeep, rfl⟩, h⟩ :=
      settle_cases callbacks (s.controller.sequence + 1 : Nat) (s.answered callbacks)
        (callbacks.fetch s.controller.file s.controller.rule s.world).1.result
    · exact .inl ⟨false, by rw [h]⟩
    · exact .inl ⟨false, by rw [h]⟩
    · rw [h]
      exact .inl (exists_ok_draw benign tree _)
    · rw [benign.fetch _ _ _ fault hresult] at hfault
      cases hfault
    · exact .inr ⟨fun shallow => shallow _ _ _ hdeep, by rw [h]⟩

theorem returns_handleEvent (benign : callbacks.Benign) (event : Event) (s : Session ω R) :
    Returns callbacks (s.handleEvent callbacks event).1 := by
  obtain ⟨-, h⟩ | ⟨-, log, h⟩ := handleEvent_cases callbacks event s
  · rw [h]
    exact returns_refresh benign s
  · exact .inl ⟨false, by rw [h]⟩

theorem selection_draw (tree : Display.Node) (s : Session ω R) :
    (s.draw callbacks tree).2.selection = s.selection := by
  rw [draw]
  rcases callbacks.render tree s.world with ⟨fault | size, world⟩
  · rfl
  · rfl

theorem selection_settle (sequence : Int) (s : Session ω R) (result : Except Fault Payload) :
    (s.settle callbacks sequence result).2.selection = s.selection := by
  obtain h | ⟨fault, h⟩ | ⟨tree, h⟩ | ⟨fault, -, h⟩ := settle_cases callbacks sequence s result
  · rw [h]
  · rw [h]
    exact selection_fail s sequence fault
  · rw [h]
    exact selection_draw tree s
  · rw [h]

theorem selection_refresh (s : Session ω R) :
    (s.refresh callbacks).2.selection = s.selection := by
  by_cases hfile : s.controller.file = []
  · rw [refresh_of_nil _ hfile]
  · rw [refresh_of_file _ hfile, selection_settle, selection_answered]

theorem selection_handleEvent (event : Event) (s : Session ω R) :
    (s.handleEvent callbacks event).2.selection = s.selection := by
  obtain ⟨-, h⟩ | ⟨-, log, h⟩ := handleEvent_cases callbacks event s
  · rw [h]
    exact selection_refresh s
  · rw [h]
    rfl

section View

variable {α : Type} (view : ω → α) (hrender : ∀ tree w, view (callbacks.render tree w).2 = view w)

include hrender

theorem view_settle (sequence : Int) (s : Session ω R) (result : Except Fault Payload) :
    view (s.settle callbacks sequence result).2.world = view s.world := by
  obtain h | ⟨fault, h⟩ | ⟨tree, h⟩ | ⟨fault, -, h⟩ := settle_cases callbacks sequence s result
  · rw [h]
  · rw [h, world_fail]
  · rw [h, ← hrender tree s.world, draw]
    rcases callbacks.render tree s.world with ⟨fault | size, world⟩
    · rfl
    · rfl
  · rw [h]

theorem view_refresh {s : Session ω R} (hfile : s.controller.file ≠ []) :
    view (s.refresh callbacks).2.world =
      view (callbacks.fetch s.controller.file s.controller.rule s.world).2 := by
  rw [refresh_of_file _ hfile, view_settle view hrender, answered, world_beginFetches]

end View

theorem fetched_refresh (callbacks : Callbacks ω R) (s : Session (Observed ω) R) :
    (s.refresh callbacks.observed).2.world.fetched =
      s.world.fetched ++ if s.controller.file = [] then [] else [s.selection] := by
  by_cases hfile : s.controller.file = []
  · rw [refresh_of_nil _ hfile, if_pos hfile, List.append_nil]
  · rw [if_neg hfile]
    exact view_refresh Observed.fetched (fun _ _ => rfl) hfile

/-- An event that concerns the file that is selected is worth one fetch, and any other none. -/
theorem fetched_handleEvent (callbacks : Callbacks ω R) (type : Text) (data : Json)
    (s : Session (Observed ω) R) :
    (s.handleEvent callbacks.observed ⟨.text type, data⟩).2.world.fetched =
      s.world.fetched ++ if Event.Concerns s.controller.file (type, data) then [s.selection]
        else [] := by
  obtain ⟨hcalls, h⟩ | ⟨hcalls, log, h⟩ :=
    handleEvent_cases callbacks.observed ⟨.text type, data⟩ s
  · rw [h, fetched_refresh]
    simp only [Event.concerns_iff, hcalls, and_true, ite_not]
  · have hnot : ¬Event.Concerns s.controller.file (type, data) := by
      simp [Event.concerns_iff, hcalls]
    rw [h, if_neg hnot, List.append_nil]

theorem fetched_handleAll (callbacks : Callbacks ω R) (s : Session (Observed ω) R)
    (events : List (Text × Json)) :
    (s.handleAll callbacks.observed events).world.fetched =
      s.world.fetched ++
        (events.filter (Event.Concerns s.controller.file ·)).map fun _ => s.selection := by
  induction events generalizing s with
  | nil => exact (List.append_nil _).symm
  | cons event events ih =>
    have hselection : (s.handleEvent callbacks.observed ⟨.text event.1, event.2⟩).2.selection =
        s.selection := selection_handleEvent _ s
    have hfile : (s.handleEvent callbacks.observed ⟨.text event.1, event.2⟩).2.controller.file =
        s.controller.file := congrArg Prod.fst hselection
    have hstep := fetched_handleEvent callbacks event.1 event.2 s
    have hrest := ih (s.handleEvent callbacks.observed ⟨.text event.1, event.2⟩).2
    rw [hselection, hfile, hstep] at hrest
    rw [handleAll, List.foldl_cons, ← handleAll, hrest, List.filter_cons]
    by_cases hconcerns : Event.Concerns s.controller.file event
    · rw [if_pos hconcerns, if_pos (decide_eq_true hconcerns)]
      simp
    · rw [if_neg hconcerns, if_neg (by simpa using hconcerns)]
      simp

end Session

/-- A viewer is the one connection of a channel, and its stream is open. -/
structure Hears (h : Event.Handle) (c : Event.Channel (Listener ω R)) : Prop where
  live : c.live = [h]
  opened : c.world.closed = false

/-- The viewer of a channel, with the notes of both. -/
def viewer (c : Event.Channel (Listener ω R)) : Session ω R := c.world.session.prepend c.log

variable [Measure R] {callbacks : Callbacks ω R}

namespace Listener

theorem write_of_ok {text : Text} {event : Event} (hdecode : Event.decode text = .ok event)
    (callbacks : Callbacks ω R) (h : Event.Handle) (l : Listener ω R) :
    let handled := l.session.handleEvent callbacks event
    (asStreams callbacks).write h text l =
      ({ fault := match handled.1 with | .ok _ => none | .error fault => some fault
         log := handled.2.log },
        { l with session := { handled.2 with log := [] } }) := by
  change l.write callbacks h text = _
  rcases hhandled : l.session.handleEvent callbacks event with ⟨fault | _, s⟩
  · simp only [write, hear, hdecode, hhandled]
  · simp only [write, hear, hdecode, hhandled]

end Listener

/-- What a broadcast to one open viewer comes to, if no response is too deep. -/
inductive Answered (event : Text × Json) : Except Fault Nat → Prop
  | heard (fits : Event.Fits event) : Answered event (.ok 1)
  | deep (deep : ¬Event.Fits event) : Answered event (.error .tooDeep)

theorem Hears.isOpen {h : Event.Handle} {c : Event.Channel (Listener ω R)} (hears : Hears h c)
    (callbacks : Callbacks ω R) : (Listener.asStreams callbacks).isOpen c.world h = true := by
  simp [Listener.asStreams, hears.opened]

section Broadcast

variable {h : Event.Handle} {c : Event.Channel (Listener ω R)} (hears : Hears h c)

include hears

/-- An event that fits is handled by the viewer, even where that raises a fault. -/
theorem session_broadcast (callbacks : Callbacks ω R) {event : Text × Json}
    (sendable : Event.Sendable event) (fits : Event.Fits event) :
    (c.broadcast (Listener.asStreams callbacks) event.1 event.2).2.world.session =
      { (c.world.session.handleEvent callbacks ⟨.text event.1, event.2⟩).2 with log := [] } := by
  obtain ⟨payload, hencode, hdecode⟩ := sendable.exists_frame fits
  have hopen := hears.isOpen callbacks
  have hwrite := Listener.write_of_ok hdecode callbacks h c.world
  rw [Event.Channel.broadcast_single hears.live hencode, Event.Channel.world_offer hopen rfl,
    hwrite]

theorem broadcast_heard (benign : callbacks.Benign) {event : Text × Json}
    (sendable : Event.Sendable event) (fits : Event.Fits event) :
    let result := c.broadcast (Listener.asStreams callbacks) event.1 event.2
    let direct := (viewer c).handleEvent callbacks ⟨.text event.1, event.2⟩
    result.1 = direct.1.map (fun _ => 1) ∧ Hears h result.2 ∧ viewer result.2 = direct.2 := by
  obtain ⟨payload, hencode, hdecode⟩ := sendable.exists_frame fits
  have hopen := hears.isOpen callbacks
  have hwrite := Listener.write_of_ok hdecode callbacks h c.world
  intro result direct
  have hresult : result = _ := Event.Channel.broadcast_single hears.live hencode
  have hdirect : direct = _ :=
    Session.handleEvent_prepend c.log ⟨.text event.1, event.2⟩ c.world.session
  rw [hresult, hdirect]
  obtain ⟨b, hb⟩ | ⟨-, hraised⟩ :=
    Session.returns_handleEvent benign ⟨.text event.1, event.2⟩ c.world.session
  · simp only [hb] at hwrite
    have hoffer : c.offer (Listener.asStreams callbacks) (Event.frame payload) h = _ :=
      Event.Channel.offer_of_none hopen rfl (congrArg (fun w => w.1.fault) hwrite)
    rw [hoffer, hwrite]
    refine ⟨?_, ⟨hears.live, hears.opened⟩, by simp [viewer, Session.prepend]⟩
    rw [Prod.map_fst, hb]
    rfl
  · -- The fault is none that the sender would take for the transport's, so it is passed on.
    have hfamily : Fault.tooDeep.sent.family ≠ .transport := nofun
    simp only [hraised] at hwrite
    have hoffer : c.offer (Listener.asStreams callbacks) (Event.frame payload) h = _ :=
      Event.Channel.offer_of_some hopen rfl (congrArg (fun w => w.1.fault) hwrite) hfamily
    rw [hoffer, hwrite]
    refine ⟨?_, ⟨hears.live, hears.opened⟩, by simp [viewer, Session.prepend]⟩
    rw [Prod.map_fst, hraised]
    rfl

omit [Measure R] hears in
/-- An event that does not fit is not sent; the viewer stays as it is. -/
theorem broadcast_deep (streams : Event.Streams (Listener ω R)) {event : Text × Json}
    (deep : ¬Event.Fits event) :
    c.broadcast streams event.1 event.2 = (.error .tooDeep, c) :=
  c.broadcast_of_error streams (Event.encode_of_not_fits deep)

end Broadcast

theorem broadcastAll_run (benign : callbacks.Benign) {h : Event.Handle}
    {events : List (Text × Json)} (sendable : ∀ event ∈ events, Event.Sendable event)
    {c : Event.Channel (Listener ω R)} (hears : Hears h c) :
    let result := c.broadcastAll (Listener.asStreams callbacks) events
    result.1 = (viewer c).answers callbacks events ∧ Hears h result.2 ∧
      viewer result.2 = (viewer c).handleAll callbacks (events.filter (Event.Fits ·)) := by
  induction events generalizing c with
  | nil => exact ⟨rfl, hears, rfl⟩
  | cons event events ih =>
    -- One event leaves a viewer that hears the others.
    obtain ⟨hfirst, hrest⟩ := List.forall_mem_cons.mp sendable
    rw [Session.answers, List.filter_cons]
    by_cases hfits : Event.Fits event
    · obtain ⟨hanswer, hhears, hviewer⟩ := broadcast_heard hears benign hfirst hfits
      obtain ⟨hanswers, hhears', hviewer'⟩ := ih hrest hhears
      rw [hviewer] at hanswers hviewer'
      rw [if_pos hfits, if_pos (decide_eq_true hfits)]
      exact ⟨congrArg₂ List.cons hanswer hanswers, hhears', hviewer'⟩
    · obtain ⟨hanswers, hhears', hviewer'⟩ := ih hrest hears
      have hdeep := broadcast_deep (c := c) (Listener.asStreams callbacks) hfits
      rw [if_neg hfits, if_neg (by simpa using hfits), Event.Channel.broadcastAll, hdeep]
      exact ⟨congrArg _ hanswers, hhears', hviewer'⟩

theorem answered_answers (benign : callbacks.Benign) (shallow : callbacks.Shallow)
    (s : Session ω R) (events : List (Text × Json)) :
    List.Forall₂ Answered events (s.answers callbacks events) := by
  induction events generalizing s with
  | nil => exact .nil
  | cons event events ih =>
    rw [Session.answers]
    split
    · rename_i hfits
      obtain ⟨b, hb⟩ :=
        (Session.returns_handleEvent benign ⟨.text event.1, event.2⟩ s).resolve_right
          fun h => h.1 shallow
      rcases hhandled : s.handleEvent callbacks ⟨.text event.1, event.2⟩ with ⟨handled, s'⟩
      rw [hhandled] at hb
      obtain rfl : handled = .ok b := hb
      exact .cons (.heard hfits) (ih s')
    · rename_i hdeep
      exact .cons (.deep hdeep) (ih s)

/-- A channel does with a viewer what its controller would do by itself, for every sequence of
events without surrogates, whatever of its fetches fails. Only an event whose data leaves no level
of nesting for the object around it is lost: its broadcast raises the fault of lying too deep, and
every other one reaches the viewer, which stays. A broadcast returns 1 where the controller handles
the event, and that it always does unless a response is too deep. The file that is selected is
fetched once for each event heard that concerns it, and for no other. -/
theorem broadcastAll_eq_handleAll {callbacks : Callbacks ω R} (benign : callbacks.Benign)
    {events : List (Text × Json)} (sendable : ∀ event ∈ events, Event.Sendable event)
    {h : Event.Handle} {c : Event.Channel (Listener (Observed ω) R)} (hears : Hears h c) :
    let streams := Listener.asStreams callbacks.observed
    let result := c.broadcastAll streams events
    let heard := events.filter (Event.Fits ·)
    let s := c.world.session
    viewer result.2 = (viewer c).handleAll callbacks.observed heard ∧
      result.1 = (viewer c).answers callbacks.observed events ∧
      (callbacks.Shallow → List.Forall₂ Answered events result.1) ∧
      (∀ n, (c.broadcastAll streams (events.take n)).2.live = [h]) ∧
      result.2.world.session.world.fetched = s.world.fetched ++
        (heard.filter (Event.Concerns s.controller.file ·)).map fun _ => s.selection := by
  intro streams result heard s
  obtain ⟨hanswers, -, hviewer⟩ := broadcastAll_run benign.observed sendable hears
  refine ⟨hviewer, hanswers, fun shallow => ?_, ?_, ?_⟩
  · rw [show result.1 = _ from hanswers]
    exact answered_answers benign.observed shallow.observed (viewer c) events
  · intro n
    have htaken : ∀ event ∈ events.take n, Event.Sendable event :=
      fun event hevent => sendable event (List.mem_of_mem_take hevent)
    exact (broadcastAll_run benign.observed htaken hears).2.1.live
  · have hfetched := congrArg (fun s => s.world.fetched) hviewer
    exact hfetched.trans (Session.fetched_handleAll callbacks (viewer c) heard)

def tuned (file rule : Text) : Event.Channel (Listener (Observed Unit) Rat) where
  live := [0]
  world := { session := Session.initial file rule Viewport.initial { world := () } }

theorem hears_tuned (file rule : Text) : Hears 0 (tuned file rule) := ⟨rfl, rfl⟩

theorem Session.benign_echo : Session.echo.Benign := ⟨nofun, nofun⟩

theorem sendable_nested (n : Nat) : Event.Sendable (Event.reload, Event.nested n) :=
  ⟨Event.clear_nested Event.reload (by decide) n, Event.readable_nested n⟩

theorem not_fits_nested : ¬Event.Fits (Event.reload, Event.nested 990) := by
  rw [Event.Fits, Event.depth_nested]
  decide

/-- A change of another file, a reload that is too deep, and a message of unknown type are worth
no fetch. -/
theorem broadcastAll_eq_handleAll_tuned :
    let events : List (Text × Json) := [(Event.fileMod, .text "a"), (Event.fileMod, .text "b"),
      (Event.reload, Event.nested 990), (Event.programMod, .null), ("resize", .null)]
    let selection : Text × Text := ("a", "r")
    Session.echo.Benign ∧ (∀ event ∈ events, Event.Sendable event) ∧ Hears 0 (tuned "a" "r") ∧
      ((tuned "a" "r").broadcastAll (Listener.asStreams Session.echo.observed)
        events).2.world.session.world.fetched = [selection, selection] := by
  intro events selection
  have hplain (type : Text) (data : Json) (hdata : data.Readable)
      (h : ∀ s ∈ type :: data.texts, Json.hasSurrogate s = false) : Event.Sendable (type, data) :=
    ⟨fun s hs => Json.hasSurrogate_eq_false.mp (h s hs), hdata⟩
  have hsendable : ∀ event ∈ events, Event.Sendable event := by
    simp only [events, List.forall_mem_cons, List.not_mem_nil, false_implies, implies_true,
      and_true]
    refine ⟨hplain _ _ ?_ (by decide), hplain _ _ ?_ (by decide), sendable_nested 990,
      hplain _ _ ?_ (by decide), hplain _ _ ?_ (by decide)⟩
    all_goals simp [Json.Readable]
  obtain ⟨-, -, -, -, hfetched⟩ :=
    broadcastAll_eq_handleAll Session.benign_echo hsendable (hears_tuned "a" "r")
  refine ⟨Session.benign_echo, hsendable, hears_tuned "a" "r", ?_⟩
  have hheard : events.filter (Event.Fits ·) = [(Event.fileMod, .text "a"),
      (Event.fileMod, .text "b"), (Event.programMod, .null), ("resize", .null)] := by
    simp only [events, List.filter_cons, not_fits_nested]
    rfl
  rw [hfetched, hheard]
  decide

theorem deep_not_heard {data : Json} (deep : ¬Event.Fits (Event.reload, data)) {file : Text}
    (hfile : file ≠ []) (rule : Text) :
    let c := tuned file rule
    let result := c.broadcast (Listener.asStreams Session.echo.observed) Event.reload data
    let direct := (viewer c).handleEvent Session.echo.observed ⟨.text Event.reload, data⟩
    result.1 ≠ .ok 1 ∧ result.2.world.session.world.fetched = [] ∧
      direct.2.world.fetched = [(file, rule)] := by
  intro c result direct
  have hresult : result = _ := broadcast_deep (Listener.asStreams Session.echo.observed) deep
  have hconcerns : Event.Concerns (viewer c).controller.file (Event.reload, data) :=
    ⟨hfile, .inl rfl⟩
  have hfetched : direct.2.world.fetched = _ :=
    Session.fetched_handleEvent Session.echo Event.reload data (viewer c)
  refine ⟨?_, ?_, ?_⟩
  · rw [hresult]
    exact nofun
  · rw [hresult]
    rfl
  · rw [hfetched, if_pos hconcerns]
    rfl

/-- Data as deep as a reader goes alone. -/
theorem nested_not_heard :
    let data := Event.nested 990
    let c := tuned "a" "r"
    let result := c.broadcast (Listener.asStreams Session.echo.observed) Event.reload data
    let direct := (viewer c).handleEvent Session.echo.observed ⟨.text Event.reload, data⟩
    Event.Sendable (Event.reload, data) ∧ result.1 ≠ .ok 1 ∧
      result.2.world.session.world.fetched = [] ∧ direct.2.world.fetched ≠ [] := by
  have hfile : ("a" : Text) ≠ [] := by decide
  obtain ⟨hanswer, hkept, hdirect⟩ :=
    deep_not_heard not_fits_nested hfile "r"
  refine ⟨sendable_nested 990, hanswer, hkept, ?_⟩
  rw [hdirect]
  exact List.cons_ne_nil _ _

end Viewer

end LiveTree
