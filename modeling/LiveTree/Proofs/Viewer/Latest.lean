import LiveTree.Viewer.Controller

namespace LiveTree.Viewer

variable {ω R : Type}

/-- A world with a record of what was fetched in it and what was drawn. -/
structure Observed (ω : Type) where
  world : ω
  fetched : List (Text × Text) := []
  drawn : List Display.Node := []

/-- The same callbacks, with a record of every call of them. -/
def Callbacks.observed (callbacks : Callbacks ω R) : Callbacks (Observed ω) R where
  fetch file rule w :=
    let result := callbacks.fetch file rule w.world
    (result.1, { w with world := result.2, fetched := w.fetched ++ [(file, rule)] })
  render tree w :=
    let result := callbacks.render tree w.world
    (result.1, { w with world := result.2, drawn := w.drawn ++ [tree] })

/-- What a viewer is called for. -/
inductive Call where
  | select (file rule : Option Text)
  | refresh
  | beginFetch
  | complete (sequence : Int) (payload : Payload)
  | fail (sequence : Int) (fault : Fault)
  | handleEvent (event : Event)

/-- The single things that calls are made of. -/
inductive Act where
  | choose (file rule : Option Text)
  | beginFetch
  /-- Calls back for a tree. Requests that are begun meanwhile are acts of their own. -/
  | fetch
  | complete (sequence : Int) (payload : Payload)
  | fail (sequence : Int) (fault : Fault)
  | note (record : Record)

/-- The numbers, trees and faults that a viewer holds fit what it is doing. -/
structure Controller.Consistent (c : Controller R) : Prop where
  displaying : c.phase = .displaying → c.tree.isSome ∧ c.error = none
  failed : c.phase = .error → c.error.isSome
  idle : c.phase = .idle → c.sequence = 0 ∧ c.tree = none ∧ c.error = none

namespace Session

def initial (file rule : Text) (viewport : Viewport R) (world : ω) : Session ω R :=
  { controller := { file, rule, viewport }, world }

def choose (file rule : Option Text) (s : Session ω R) : Session ω R :=
  { s with controller := { s.controller with
    file := file.getD s.controller.file
    rule := rule.getD s.controller.rule } }

theorem fail_stale {s : Session ω R} {sequence : Int} (h : sequence ≠ s.controller.sequence)
    (fault : Fault) : s.fail sequence fault = (false, s) := if_pos h

theorem fail_latest {s : Session ω R} {sequence : Int} (h : sequence = s.controller.sequence)
    (fault : Fault) : ∃ log, s.fail sequence fault =
      (true, ⟨{ s.controller with error := some fault, phase := .error }, s.world, log⟩) :=
  ⟨_, if_neg (not_not_intro h)⟩

theorem consistent_initial (file rule : Text) (viewport : Viewport R) (world : ω) :
    (initial file rule viewport world).controller.Consistent :=
  ⟨nofun, nofun, fun _ => ⟨rfl, rfl, rfl⟩⟩

variable [Measure R] (callbacks : Callbacks ω R)

/-- A viewer after a call, whether the call returned or raised a fault. -/
def call (s : Session ω R) : Call → Session ω R
  | .select file rule => (s.select callbacks file rule).2
  | .refresh => (s.refresh callbacks).2
  | .beginFetch => s.beginFetch
  | .complete sequence payload => (s.complete callbacks sequence payload).2
  | .fail sequence fault => (s.fail sequence fault).2
  | .handleEvent event => (s.handleEvent callbacks event).2

def run (s : Session ω R) (calls : List Call) : Session ω R := calls.foldl (call callbacks) s

def act (s : Session ω R) : Act → Session ω R
  | .choose file rule => s.choose file rule
  | .beginFetch => s.beginFetch
  | .fetch =>
    let (fetched, world) := callbacks.fetch s.controller.file s.controller.rule s.world
    { s with world, log := s.log ++ fetched.log }
  | .complete sequence payload => (s.complete callbacks sequence payload).2
  | .fail sequence fault => (s.fail sequence fault).2
  | .note record => s.note record

def perform (s : Session ω R) (acts : List Act) : Session ω R := acts.foldl (act callbacks) s

/-- The acts of a refresh: its request, those begun while it is fetched, and what comes of it. -/
def refreshActs (s : Session ω R) : List Act :=
  if s.controller.file.isEmpty then []
  else
    let sequence : Int := s.beginFetch.controller.sequence
    let fetched := (callbacks.fetch s.controller.file s.controller.rule s.world).1
    [.beginFetch, .fetch] ++ List.replicate fetched.begun .beginFetch ++
      match fetched.result with
      | .ok payload => [.complete sequence payload]
      | .error fault => if fault.isFetchFault then [.fail sequence fault] else []

def acts (s : Session ω R) : Call → List Act
  | .select file rule => .choose file rule :: (s.choose file rule).refreshActs callbacks
  | .refresh => s.refreshActs callbacks
  | .beginFetch => [.beginFetch]
  | .complete sequence payload => [.complete sequence payload]
  | .fail sequence fault => [.fail sequence fault]
  | .handleEvent event =>
    match event.calls? s.controller.file with
    | some true => s.refreshActs callbacks
    | some false => []
    | none => [.note ⟨.error, .viewer, "Unrecognized server event: " ++ event.type.asText⟩]

/-- Acts in turn, each with the session that it finds. -/
def actMoments (s : Session ω R) : List Act → List (Session ω R × Act)
  | [] => []
  | a :: acts => (s, a) :: actMoments (s.act callbacks a) acts

/-- All that is done in a run of calls, each act with the session that it finds. -/
def moments (s : Session ω R) : List Call → List (Session ω R × Act)
  | [] => []
  | c :: calls =>
    s.actMoments callbacks (s.acts callbacks c) ++ moments (s.call callbacks c) calls

/-- The number that an act gives to a new request. -/
def begun? (m : Session ω R × Act) : Option Nat :=
  match m.2 with
  | .beginFetch => some m.1.beginFetch.controller.sequence
  | _ => none

/-- The number of the request whose response an act displays. -/
def displayed? (m : Session ω R × Act) : Option Int :=
  match m.2 with
  | .complete sequence payload =>
    match (m.1.complete callbacks sequence payload).1 with
    | .ok true => some sequence
    | _ => none
  | _ => none

variable {callbacks}

theorem perform_append (s : Session ω R) (acts more : List Act) :
    s.perform callbacks (acts ++ more) = (s.perform callbacks acts).perform callbacks more :=
  List.foldl_append

theorem perform_replicate (n : Nat) (s : Session ω R) :
    s.perform callbacks (List.replicate n .beginFetch) = beginFetches n s := by
  induction n generalizing s with
  | zero => rfl
  | succ n ih => exact ih s.beginFetch

theorem perform_refreshActs (s : Session ω R) :
    s.perform callbacks (s.refreshActs callbacks) = (s.refresh callbacks).2 := by
  rw [refreshActs, refresh]
  by_cases hfile : s.controller.file.isEmpty = true
  · rw [if_pos hfile, if_pos hfile]
    rfl
  · rw [if_neg hfile, if_neg hfile]
    rw [perform_append, perform_append, perform_replicate]
    -- The new request has the file, the rule and the world of the session before it.
    have hfetch : callbacks.fetch s.beginFetch.controller.file s.beginFetch.controller.rule
        s.beginFetch.world = callbacks.fetch s.controller.file s.controller.rule s.world := rfl
    simp only [hfetch]
    cases (callbacks.fetch s.controller.file s.controller.rule s.world).1.result with
    | ok payload => rfl
    | error fault =>
      by_cases hfault : fault.isFetchFault = true
      · simp only [hfault, if_true]
        rfl
      · simp only [hfault]
        rfl

theorem perform_acts (s : Session ω R) (c : Call) :
    s.perform callbacks (s.acts callbacks c) = s.call callbacks c := by
  cases c with
  | select file rule => exact perform_refreshActs (s.choose file rule)
  | refresh => exact perform_refreshActs s
  | handleEvent event =>
    rw [acts, call, handleEvent]
    cases event.calls? s.controller.file with
    | none => rfl
    | some calls =>
      cases calls with
      | true => exact perform_refreshActs s
      | false => rfl
  | _ => rfl

theorem actMoments_append (s : Session ω R) (acts more : List Act) :
    s.actMoments callbacks (acts ++ more) =
      s.actMoments callbacks acts ++ (s.perform callbacks acts).actMoments callbacks more := by
  induction acts generalizing s with
  | nil => rfl
  | cons a acts ih => exact congrArg (List.cons (s, a)) (ih (s.act callbacks a))

theorem map_snd_actMoments (s : Session ω R) (acts : List Act) :
    (s.actMoments callbacks acts).map Prod.snd = acts := by
  induction acts generalizing s with
  | nil => rfl
  | cons a acts ih => exact congrArg (List.cons a) (ih (s.act callbacks a))

/-- A run of calls is one run of acts. -/
theorem exists_acts (callbacks : Callbacks ω R) (s : Session ω R) (calls : List Call) :
    ∃ acts, s.moments callbacks calls = s.actMoments callbacks acts ∧
      s.run callbacks calls = s.perform callbacks acts := by
  induction calls generalizing s with
  | nil => exact ⟨[], rfl, rfl⟩
  | cons c calls ih =>
    obtain ⟨acts, hmoments, hrun⟩ := ih (s.call callbacks c)
    refine ⟨s.acts callbacks c ++ acts, ?_, ?_⟩
    · rw [actMoments_append, perform_acts, ← hmoments]
      rfl
    · rw [perform_append, perform_acts, ← hrun]
      rfl

theorem complete_stale {s : Session ω R} {sequence : Int}
    (h : sequence ≠ s.controller.sequence) (payload : Payload) :
    s.complete callbacks sequence payload = (.ok false, s) := if_pos h

/-- What an act can make of a controller. -/
inductive Acted (callbacks : Callbacks ω R) (s : Session ω R) : Act → Controller R → Prop
  | kept {a : Act} (no_begin : begun? (s, a) = none)
      (no_display : displayed? callbacks (s, a) = none) (file rule : Text) :
      Acted callbacks s a { s.controller with file, rule }
  | failed {a : Act} (no_begin : begun? (s, a) = none)
      (no_display : displayed? callbacks (s, a) = none) (fault : Fault) :
      Acted callbacks s a { s.controller with error := some fault, phase := .error }
  | begun : Acted callbacks s .beginFetch s.beginFetch.controller
  | displayed {payload : Payload} {tree : Display.Node} (read : payload.node = .ok (some tree))
      (result : (s.complete callbacks s.controller.sequence payload).1 = .ok true)
      (viewport : Viewport R) :
      Acted callbacks s (.complete s.controller.sequence payload) { s.controller with
        viewport, tree := some tree, error := none, phase := .displaying }

theorem acted_complete (s : Session ω R) (sequence : Int) (payload : Payload) :
    Acted callbacks s (.complete sequence payload)
      (s.complete callbacks sequence payload).2.controller := by
  have hdisplay : (s.complete callbacks sequence payload).1 ≠ .ok true →
      displayed? callbacks (s, .complete sequence payload) = none := by
    intro h
    simp only [displayed?]
  by_cases hsequence : sequence = s.controller.sequence
  · subst hsequence
    have hlatest : ¬(s.controller.sequence : Int) ≠ s.controller.sequence := not_not_intro rfl
    rw [complete, if_neg hlatest] at hdisplay ⊢
    rcases hread : payload.node with _ | _ | tree
    · simp only [hread] at hdisplay ⊢
      exact .kept rfl (hdisplay nofun) _ _
    · obtain ⟨log, hfail⟩ := fail_latest (s := s) rfl (.noTree s.controller.file)
      simp only [hread, hfail] at hdisplay ⊢
      exact .failed rfl (hdisplay nofun) _
    · rcases hrender : callbacks.render tree s.world with ⟨_ | size, world⟩
      · simp only [hread, hrender] at hdisplay ⊢
        exact .kept rfl (hdisplay nofun) _ _
      · have hresult : (s.complete callbacks s.controller.sequence payload).1 = .ok true := by
          rw [complete, if_neg hlatest, hread]
          simp only [hrender]
        simp only [hrender]
        exact .displayed hread hresult _
  · rw [complete_stale hsequence] at hdisplay ⊢
    exact .kept rfl (hdisplay nofun) _ _

theorem acted (callbacks : Callbacks ω R) (s : Session ω R) (a : Act) :
    Acted callbacks s a (s.act callbacks a).controller := by
  cases a with
  | beginFetch => exact .begun
  | complete sequence payload => exact acted_complete s sequence payload
  | fail sequence fault =>
    rw [act]
    by_cases hsequence : sequence = s.controller.sequence
    · obtain ⟨log, hfail⟩ := fail_latest hsequence fault
      rw [hfail]
      exact .failed rfl rfl fault
    · rw [fail_stale hsequence]
      exact .kept rfl rfl _ _
  | _ => exact .kept rfl rfl _ _

theorem Acted.consistent {s : Session ω R} {a : Act} {c : Controller R}
    (h : Acted callbacks s a c) (hs : s.controller.Consistent) : c.Consistent := by
  cases h with
  | kept => exact ⟨hs.displaying, hs.failed, hs.idle⟩
  | failed => exact ⟨nofun, fun _ => rfl, nofun⟩
  | begun => exact ⟨nofun, nofun, nofun⟩
  | displayed => exact ⟨fun _ => ⟨rfl, rfl⟩, nofun, nofun⟩

/-- Only the begin of a request takes a number, the next one. -/
theorem Acted.sequence {s : Session ω R} {a : Act} {c : Controller R} (h : Acted callbacks s a c) :
    c.sequence = s.controller.sequence + (begun? (s, a)).toList.length := by
  cases h with
  | kept no_begin => rw [no_begin]; rfl
  | failed no_begin => rw [no_begin]; rfl
  | begun => rfl
  | displayed => rfl

/-- An act keeps what is displayed, or it displays the response to the latest request. -/
theorem Acted.display {s : Session ω R} {a : Act} {c : Controller R} (h : Acted callbacks s a c) :
    c.tree = s.controller.tree ∧ c.viewport = s.controller.viewport ∨
      ∃ payload tree, a = .complete s.controller.sequence payload ∧ payload.node = .ok (some tree) ∧
        (s.complete callbacks s.controller.sequence payload).1 = .ok true ∧ c.tree = some tree := by
  cases h with
  | displayed read result => exact .inr ⟨_, _, rfl, read, result, rfl⟩
  | _ => exact .inl ⟨rfl, rfl⟩

theorem Acted.sequence_displayed {s : Session ω R} {a : Act} {c : Controller R}
    (h : Acted callbacks s a c) {n : Int} (hn : displayed? callbacks (s, a) = some n) :
    n = s.controller.sequence := by
  cases h with
  | kept _ no_display => rw [no_display] at hn; cases hn
  | failed _ no_display => rw [no_display] at hn; cases hn
  | begun => cases hn
  | displayed read result =>
    simp only [displayed?, result] at hn
    exact (Option.some.inj hn).symm

theorem consistent_of_actMoments {s : Session ω R} (h : s.controller.Consistent) {acts : List Act}
    {m : Session ω R × Act} (hm : m ∈ s.actMoments callbacks acts) :
    m.1.controller.Consistent := by
  induction acts generalizing s with
  | nil => exact absurd hm List.not_mem_nil
  | cons a acts ih =>
    rcases List.mem_cons.mp hm with rfl | hm
    · exact h
    · exact ih ((acted callbacks s a).consistent h) hm

theorem consistent_perform {s : Session ω R} (h : s.controller.Consistent) (acts : List Act) :
    (s.perform callbacks acts).controller.Consistent := by
  induction acts generalizing s with
  | nil => exact h
  | cons a acts ih => exact ih ((acted callbacks s a).consistent h)

/-- Requests are numbered in turn. -/
theorem begun_actMoments (callbacks : Callbacks ω R) (s : Session ω R) (acts : List Act) :
    ∃ n, (s.actMoments callbacks acts).filterMap begun? =
      List.range' (s.controller.sequence + 1) n := by
  induction acts generalizing s with
  | nil => exact ⟨0, rfl⟩
  | cons a acts ih =>
    obtain ⟨n, hn⟩ := ih (s.act callbacks a)
    rw [(acted callbacks s a).sequence] at hn
    rw [actMoments, List.filterMap_cons, hn]
    cases a with
    | beginFetch => exact ⟨n + 1, rfl⟩
    | _ => exact ⟨n, rfl⟩

/-- A session has counted the requests that were begun before it. -/
theorem sequence_of_actMoments {s : Session ω R} {acts : List Act}
    {before after : List (Session ω R × Act)} {m : Session ω R × Act}
    (h : s.actMoments callbacks acts = before ++ m :: after) :
    m.1.controller.sequence = s.controller.sequence + (before.filterMap begun?).length := by
  induction acts generalizing s before with
  | nil => simp [actMoments] at h
  | cons a acts ih =>
    rw [actMoments] at h
    cases before with
    | nil =>
      rw [List.nil_append, List.cons.injEq] at h
      rw [← h.1]
      rfl
    | cons m' before =>
      rw [List.cons_append, List.cons.injEq] at h
      rw [ih h.2, (acted callbacks s a).sequence, ← h.1, List.filterMap_cons]
      cases begun? (s, a) with
      | none => rfl
      | some n => simp only [Option.toList_some, List.length_cons, List.length_nil]; omega

theorem displayed_actMoments (s : Session ω R) (acts : List Act) :
    ((s.actMoments callbacks acts).filterMap (displayed? callbacks)).Pairwise (· ≤ ·) ∧
      ∀ n ∈ (s.actMoments callbacks acts).filterMap (displayed? callbacks),
        (s.controller.sequence : Int) ≤ n := by
  induction acts generalizing s with
  | nil => exact ⟨.nil, nofun⟩
  | cons a acts ih =>
    obtain ⟨hsorted, hle⟩ := ih (s.act callbacks a)
    have hlater : ∀ n ∈ ((s.act callbacks a).actMoments callbacks acts).filterMap
        (displayed? callbacks), (s.controller.sequence : Int) ≤ n := by
      intro n hn
      have hn := hle n hn
      rw [(acted callbacks s a).sequence] at hn
      omega
    rw [actMoments, List.filterMap_cons]
    cases hdisplayed : displayed? callbacks (s, a) with
    | none => exact ⟨hsorted, hlater⟩
    | some n =>
      obtain rfl := (acted callbacks s a).sequence_displayed hdisplayed
      exact ⟨List.pairwise_cons.mpr ⟨hlater, hsorted⟩,
        List.forall_mem_cons.mpr ⟨Int.le_refl _, hlater⟩⟩

/-- A viewer displays the response to its latest request only, in every run of calls, whatever the
callbacks return or raise. All that a run does is done by its moments. In every session on the way
what it holds fits what it is doing, and a response to another request than the latest changes
nothing and calls nothing back. What is displayed changes only by completing a request whose number
is that of the requests begun so far, so the numbers of the displayed responses never fall; and
every request has a greater number than those before. -/
theorem latest_displayed (callbacks : Callbacks ω R) (file rule : Text) (viewport : Viewport R)
    (world : ω) (calls : List Call) :
    let s : Session (Observed ω) R := initial file rule viewport { world }
    let moments := s.moments callbacks.observed calls
    s.run callbacks.observed calls = s.perform callbacks.observed (moments.map Prod.snd) ∧
      (∀ r ∈ s.run callbacks.observed calls :: moments.map Prod.fst,
        r.controller.Consistent ∧ ∀ n : Int, n ≠ r.controller.sequence →
          (∀ payload, r.complete callbacks.observed n payload = (.ok false, r)) ∧
            ∀ fault, r.fail n fault = (false, r)) ∧
      (∀ before m after, moments = before ++ m :: after →
        let left := m.1.act callbacks.observed m.2
        left.controller.tree = m.1.controller.tree ∧
            left.controller.viewport = m.1.controller.viewport ∨
          ∃ (n : Int) (payload : Payload) (tree : Display.Node), m.2 = .complete n payload ∧
            n = (before.filterMap begun?).length ∧ payload.node = .ok (some tree) ∧
            (m.1.complete callbacks.observed n payload).1 = .ok true ∧
            left.controller.tree = some tree) ∧
      (moments.filterMap (displayed? callbacks.observed)).Pairwise (· ≤ ·) ∧
      (moments.filterMap begun?).Pairwise (· < ·) := by
  intro s moments
  have hinitial : s.controller.Consistent := consistent_initial file rule viewport _
  obtain ⟨acts, hmoments, hrun⟩ := exists_acts callbacks.observed s calls
  have hconsistent : ∀ r ∈ s.run callbacks.observed calls :: moments.map Prod.fst,
      r.controller.Consistent := by
    intro r hr
    rcases List.mem_cons.mp hr with rfl | hr
    · rw [hrun]
      exact consistent_perform hinitial acts
    · obtain ⟨m, hm, rfl⟩ := List.mem_map.mp hr
      rw [show moments = _ from hmoments] at hm
      exact consistent_of_actMoments hinitial hm
  refine ⟨?_, fun r hr => ⟨hconsistent r hr, fun n hn => ?_⟩, ?_, ?_, ?_⟩
  · rw [show moments = _ from hmoments, map_snd_actMoments]
    exact hrun
  · exact ⟨complete_stale hn, fail_stale hn⟩
  · intro before m after hsplit
    obtain hkept | ⟨payload, tree, hact, hread, hresult, htree⟩ :=
      (acted callbacks.observed m.1 m.2).display
    · exact .inl hkept
    · have hcount : m.1.controller.sequence = s.controller.sequence + _ :=
        sequence_of_actMoments (hmoments.symm.trans hsplit)
      rw [show s.controller.sequence = 0 from rfl, Nat.zero_add] at hcount
      exact .inr ⟨_, payload, tree, hact, congrArg Nat.cast hcount, hread, hresult, htree⟩
  · rw [show moments = _ from hmoments]
    exact (displayed_actMoments s acts).1
  · obtain ⟨n, hn⟩ := begun_actMoments callbacks.observed s acts
    rw [show moments = _ from hmoments, hn]
    exact List.pairwise_lt_range'

/-- Fetches a tree that shows the name of the file, and begins a request for each letter of the
rule meanwhile. -/
def echo : Callbacks Unit Rat where
  fetch file rule _ :=
    ({ result := .ok (.tree (Display.placeholder file)), begun := rule.length }, ())
  render _ w := (.ok (1, 1), w)

/-- Two requests are answered in reverse, then one is overtaken while it is fetched. -/
def reversed : List Call :=
  [.beginFetch, .beginFetch, .complete 2 (.tree (Display.placeholder "new")),
    .complete 1 (.tree (Display.placeholder "old")), .select (some "a") none,
    .select none (some "r")]

theorem latest_displayed_reversed :
    let s : Session (Observed Unit) Rat := initial [] [] Viewport.initial { world := () }
    let moments := s.moments echo.observed reversed
    moments.filterMap (displayed? echo.observed) = [2, 3] ∧
      moments.filterMap begun? = [1, 2, 3, 4, 5] ∧
      (4 : Int) ≠ (s.run echo.observed reversed).controller.sequence ∧
      (s.run echo.observed reversed).complete echo.observed 4 (.tree (Display.placeholder "a")) =
        (.ok false, s.run echo.observed reversed) := by
  intro s moments
  obtain ⟨-, hreached, -⟩ := latest_displayed echo [] [] Viewport.initial () reversed
  have hstale : (4 : Int) ≠ (s.run echo.observed reversed).controller.sequence := by decide +kernel
  refine ⟨by decide +kernel, by decide +kernel, hstale, ?_⟩
  exact ((hreached _ List.mem_cons_self).2 4 hstale).1 _

end Session

end LiveTree.Viewer
