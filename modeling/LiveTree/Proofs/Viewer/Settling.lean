import LiveTree.Proofs.Viewer.Hearing

namespace LiveTree.Viewer.Session

variable {ω R : Type}

/-- What the selection of a session is answered, and the world after it. -/
def response (callbacks : Callbacks ω R) (s : Session ω R) : Fetched × ω :=
  callbacks.fetch s.controller.file s.controller.rule s.world

/-- A fault that a refresh passes on: of the fetch, one that no fetch may have; of drawing, any; of
reading the response, that of lying too deep. A response that newer requests have overtaken is
neither read nor drawn. -/
inductive Escapes (callbacks : Callbacks ω R) (s : Session ω R) : Fault → Prop
  | fetch {fault : Fault} (raised : (s.response callbacks).1.result = .error fault)
      (uncaught : fault.isFetchFault = false) : Escapes callbacks s fault
  | read {payload : Payload} {fault : Display.Fault}
      (returned : (s.response callbacks).1.result = .ok payload)
      (latest : (s.response callbacks).1.begun = 0) (deep : payload.node = .error fault) :
      Escapes callbacks s .tooDeep
  | render {payload : Payload} {tree : Display.Node} {fault : Fault}
      (returned : (s.response callbacks).1.result = .ok payload)
      (latest : (s.response callbacks).1.begun = 0) (read : payload.node = .ok (some tree))
      (raised : (callbacks.render tree (s.response callbacks).2).1 = .error fault) :
      Escapes callbacks s fault

theorem eq_tooDeep_of_escapes {callbacks : Callbacks ω R} (benign : callbacks.Benign)
    {s : Session ω R} {fault : Fault} (h : s.Escapes callbacks fault) : fault = .tooDeep := by
  rcases h with ⟨hraised, huncaught⟩ | ⟨-, -, -⟩ | ⟨-, -, -, hraised⟩
  · rw [benign.fetch _ _ _ _ hraised] at huncaught
    cases huncaught
  · rfl
  · exact absurd hraised (benign.render _ _ _)

/-- What a viewer is doing when a refresh has come to an end. -/
def phaseAfter : Except Fault Bool → Phase
  | .ok true => .displaying
  | .ok false => .error
  | .error _ => .fetching

theorem sequence_beginFetches (n : Nat) (s : Session ω R) :
    (beginFetches n s).controller.sequence = s.controller.sequence + n := by
  induction n generalizing s with
  | zero => rfl
  | succ n ih => exact (ih s.beginFetch).trans (Nat.add_right_comm _ 1 n)

theorem phase_beginFetches (n : Nat) {s : Session ω R} (h : s.controller.phase = .fetching) :
    (beginFetches n s).controller.phase = .fetching := by
  induction n generalizing s with
  | zero => exact h
  | succ n ih => exact ih rfl

section Answered

variable (callbacks : Callbacks ω R) (s : Session ω R)

theorem sequence_answered : (s.answered callbacks).controller.sequence =
    s.controller.sequence + 1 + (s.response callbacks).1.begun :=
  sequence_beginFetches _ _

/-- A request is the latest unless others were begun while it was answered. -/
theorem latest_answered : ((s.controller.sequence + 1 : Nat) : Int) =
    (s.answered callbacks).controller.sequence ↔ (s.response callbacks).1.begun = 0 := by
  rw [sequence_answered]
  omega

theorem phase_answered : (s.answered callbacks).controller.phase = .fetching :=
  phase_beginFetches _ rfl

theorem world_answered : (s.answered callbacks).world = (s.response callbacks).2 :=
  world_beginFetches _ _

end Answered

variable [Measure R] {callbacks : Callbacks ω R} {s : Session ω R}

theorem draw_eq_error_iff {tree : Display.Node} {fault : Fault} :
    (s.draw callbacks tree).1 = .error fault ↔
      (callbacks.render tree s.world).1 = .error fault := by
  rw [draw]
  rcases callbacks.render tree s.world with ⟨_ | size, world⟩
  · exact ⟨fun h => congrArg _ (Except.error.inj h), fun h => congrArg _ (Except.error.inj h)⟩
  · constructor
    · intro h
      cases h
    · intro h
      cases h

theorem phase_draw (h : s.controller.phase = .fetching) (tree : Display.Node) :
    (s.draw callbacks tree).2.controller.phase = phaseAfter (s.draw callbacks tree).1 := by
  rw [draw]
  rcases callbacks.render tree s.world with ⟨_ | size, world⟩
  · exact h
  · rfl

theorem refresh_settle (hfile : s.controller.file ≠ []) :
    s.refresh callbacks = (s.answered callbacks).settle callbacks
      (s.controller.sequence + 1 : Nat) (s.response callbacks).1.result :=
  refresh_of_file callbacks hfile

/-- A refresh raises the faults that escape it, and no other. -/
theorem refresh_eq_error_iff (hfile : s.controller.file ≠ []) {fault : Fault} :
    (s.refresh callbacks).1 = .error fault ↔ s.Escapes callbacks fault := by
  rw [refresh_settle hfile]
  cases hresult : (s.response callbacks).1.result with
  | error raised =>
    rw [settle]
    constructor
    · intro h
      split at h
      · cases h
      · rename_i huncaught
        obtain rfl : raised = fault := Except.error.inj h
        exact .fetch hresult (by simpa using huncaught)
    · rintro (⟨hraised, huncaught⟩ | ⟨hreturned, -, -⟩ | ⟨hreturned, -, -, -⟩)
      · obtain rfl := Except.error.inj (hresult.symm.trans hraised)
        rw [if_neg (by simp [huncaught])]
      · cases hresult.symm.trans hreturned
      · cases hresult.symm.trans hreturned
  | ok payload =>
    rw [settle, complete_eq]
    constructor
    · intro h
      split at h
      · cases h
      · rename_i hlatest
        have halone := (latest_answered _ _).mp (not_not.mp hlatest)
        rcases hread : payload.node with raised | _ | tree
        · rw [hread] at h
          obtain rfl : .tooDeep = fault := Except.error.inj h
          exact .read hresult halone hread
        · rw [hread] at h
          cases h
        · simp only [hread] at h
          rw [draw_eq_error_iff, world_answered] at h
          exact .render hresult halone hread h
    · rintro (⟨hraised, -⟩ | ⟨hreturned, hlatest, hread⟩ | ⟨hreturned, hlatest, hread, hraised⟩)
      · cases hresult.symm.trans hraised
      · obtain rfl := Except.ok.inj (hresult.symm.trans hreturned)
        rw [if_neg (not_not_intro ((latest_answered _ _).mpr hlatest)), hread]
      · obtain rfl := Except.ok.inj (hresult.symm.trans hreturned)
        rw [if_neg (not_not_intro ((latest_answered _ _).mpr hlatest)), hread]
        exact draw_eq_error_iff.mpr (by rw [world_answered, hraised])

/-- What a refresh returns tells what the viewer does, unless newer requests were begun. -/
theorem phase_refresh (hfile : s.controller.file ≠ [])
    (halone : (s.response callbacks).1.begun = 0) :
    (s.refresh callbacks).2.controller.phase = phaseAfter (s.refresh callbacks).1 := by
  have hlatest := (latest_answered callbacks s).mpr halone
  have hfailed (fault : Fault) : ((s.answered callbacks).fail (s.controller.sequence + 1 : Nat)
      fault).2.controller.phase = .error := by
    obtain ⟨log, hfail⟩ := fail_latest hlatest fault
    rw [hfail]
  rw [refresh_settle hfile]
  cases (s.response callbacks).1.result with
  | error fault =>
    rw [settle]
    split
    · exact hfailed fault
    · exact phase_answered callbacks s
  | ok payload =>
    rw [settle, complete_eq, if_neg (not_not_intro hlatest)]
    rcases payload.node with raised | _ | tree
    · exact phase_answered callbacks s
    · exact hfailed _
    · exact phase_draw (phase_answered callbacks s) tree

theorem phaseAfter_settled_iff {result : Except Fault Bool} :
    phaseAfter result = .displaying ∨ phaseAfter result = .error ↔
      ∀ fault, result ≠ .error fault := by
  rcases result with fault | _ | _
  · exact ⟨nofun, fun h => absurd rfl (h fault)⟩
  · exact ⟨fun _ => nofun, fun _ => .inr rfl⟩
  · exact ⟨fun _ => nofun, fun _ => .inl rfl⟩

/-- How a refresh that no newer request overtakes comes to an end, whatever is fetched and however
drawing it goes. If nothing escapes it, it returns, and the viewer displays or has failed. A fault
that escapes it is raised, and leaves the viewer fetching. -/
theorem refresh_settles (callbacks : Callbacks ω R) {s : Session ω R}
    (hfile : s.controller.file ≠ []) (halone : (s.response callbacks).1.begun = 0) :
    let result := s.refresh callbacks
    let phase := result.2.controller.phase
    (∀ fault, result.1 = .error fault ↔ s.Escapes callbacks fault) ∧
      phase = phaseAfter result.1 ∧
      (phase = .displaying ∨ phase = .error ↔ ∀ fault, ¬s.Escapes callbacks fault) := by
  intro result phase
  have hphase : phase = phaseAfter result.1 := phase_refresh hfile halone
  refine ⟨fun fault => refresh_eq_error_iff hfile, hphase, ?_⟩
  rw [hphase, phaseAfter_settled_iff]
  exact forall_congr' fun fault => not_congr (refresh_eq_error_iff hfile)

/-- Fetches as `echo` does, and cannot print what it draws. -/
def unprintable : Callbacks Unit Rat :=
  { echo with render := fun _ w => (.error (.outside .value "UnicodeEncodeError" []), w) }

/-- A viewer of the file `a` that has done nothing yet. -/
def untouched : Session Unit Rat := initial "a" [] Viewport.initial ()

theorem refresh_settles_untouched :
    untouched.controller.file ≠ [] ∧ (untouched.response echo).1.begun = 0 ∧
      (untouched.response unprintable).1.begun = 0 ∧
      (untouched.refresh echo).2.controller.phase = .displaying ∧
      (untouched.refresh unprintable).1 = .error (.outside .value "UnicodeEncodeError" []) := by
  have hfile : untouched.controller.file ≠ [] := by decide
  obtain ⟨-, hphase, -⟩ := refresh_settles echo hfile rfl
  obtain ⟨hraised, -, -⟩ := refresh_settles unprintable hfile rfl
  refine ⟨hfile, rfl, rfl, hphase.trans rfl, (hraised _).mpr ?_⟩
  exact .render rfl rfl rfl rfl

/-- A viewer that cannot print what it fetched goes on fetching, though nothing is fetched. -/
theorem unprintable_stays_fetching :
    untouched.controller.file ≠ [] ∧ (untouched.response unprintable).1.begun = 0 ∧
      (untouched.refresh unprintable).2.controller.phase ≠ .displaying ∧
      (untouched.refresh unprintable).2.controller.phase ≠ .error := by
  have hphase : (untouched.refresh unprintable).2.controller.phase = .fetching := rfl
  rw [hphase]
  exact ⟨by decide, rfl, nofun, nofun⟩

end LiveTree.Viewer.Session
