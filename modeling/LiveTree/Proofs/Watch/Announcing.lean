import LiveTree.Proofs.Event.Order
import LiveTree.Proofs.Watch.Naming

namespace LiveTree

open LiveTree.Path

namespace Event

variable {σ : Type}

/-- Each of the connections takes every text when its turn comes, whoever had a turn before. -/
def Streams.Working (streams : Streams σ) (live : List Handle) (w : σ) : Prop :=
  ∀ text before h, Visits live (before ++ [h]) →
    streams.takes text (streams.visited text w before) h = true

theorem Streams.Working.receivers {streams : Streams σ} {live : List Handle} {w : σ}
    (working : streams.Working live w) (text : Text) {before rest : List Handle}
    (visits : Visits live (before ++ rest)) :
    streams.receivers text rest (streams.visited text w before) = rest := by
  induction rest generalizing before with
  | nil => rfl
  | cons h rest ih =>
    rw [List.append_cons] at visits
    have htakes := working text before h visits.left
    have hrest := ih visits
    rw [show streams.visited text w (before ++ [h]) = _ from
      Streams.visited_append_cons before [] h] at hrest
    rw [Streams.receivers, if_pos htakes]
    exact congrArg (h :: ·) hrest

/-- All connections of a channel took one frame, which is read as the event, and all stay. -/
structure Reaches (event : Text × Json) (c : Channel (Recorded σ))
    (result : Except Fault Nat × Channel (Recorded σ)) (frame : Text) : Prop where
  count : result.1 = .ok c.live.length
  taken : result.2.world.taken = c.world.taken ++ c.live.map (·, frame)
  live : result.2.live = c.live
  read : decode frame = .ok ⟨.text event.1, event.2⟩

/-- An event that can be sent and read reaches all connections, if all work. -/
theorem Channel.broadcast_reaches {streams : Streams σ} (passive : streams.Passive)
    {c : Channel (Recorded σ)} (distinct : c.live.Nodup)
    (working : streams.Working c.live c.world.world) {event : Text × Json}
    (sendable : Sendable event) (fits : Fits event) :
    ∃ frame, Reaches event c (c.broadcast streams.recorded event.1 event.2) frame := by
  obtain ⟨payload, hencode, hread⟩ := sendable.exists_frame fits
  have hbroadcast : c.broadcast streams.recorded event.1 event.2 =
      c.offerAll streams.recorded (frame payload) c.live :=
    c.broadcastIn_of_some streams.recorded hencode c.live
  have hreceivers : streams.receivers (frame payload) c.live c.world.world = c.live :=
    working.receivers (frame payload)
      (show Visits c.live ([] ++ c.live) from ⟨distinct, fun _ => id⟩)
  obtain ⟨hcount, htaken, hsub, hmem⟩ :=
    Channel.offerAll_recorded passive (frame payload) distinct c
  rw [hreceivers] at hcount htaken hmem
  rw [hbroadcast]
  refine ⟨frame payload, hcount, htaken, hsub.eq_of_length_le ?_, hread⟩
  exact (distinct.subperm fun k hk => (hmem k).mpr ⟨hk, id⟩).length_le

end Event

/-- The file that a notice tells the new content of. -/
inductive Notice.Renews : Notice → Text → Prop
  | modified (path : Text) : Renews ⟨path, .modified, false⟩ path
  | created (path : Text) : Renews ⟨path, .created, false⟩ path
  | moved (path destination : Text) : Renews ⟨path, .moved destination, false⟩ destination

theorem Notice.changed?_eq_some_iff {notice : Notice} {path : Text} :
    notice.changed? = some path ↔ notice.Renews path := by
  constructor
  · intro h
    obtain ⟨source, happening, ofFolder⟩ := notice
    cases ofFolder with
    | true => cases h
    | false =>
      cases happening with
      | modified => obtain rfl : source = path := Option.some.inj h; exact .modified source
      | created => obtain rfl : source = path := Option.some.inj h; exact .created source
      | moved destination =>
        obtain rfl : destination = path := Option.some.inj h
        exact .moved source destination
      | deleted => cases h
      | closed => cases h
      | opened => cases h
  · rintro (_ | _ | _)
    · rfl
    · rfl
    · rfl

namespace Watch

variable {σ : Type} {site : Site} {notice : Notice}

theorem hear_of_renews (watch : Watch) (streams : Event.Streams σ) (c : Event.Channel σ) {q : Text}
    (renews : notice.Renews q) :
    watch.hear site streams notice c = (c.note (watch.record site q)).broadcast streams
      (watch.announcement site q).1 (watch.announcement site q).2 := by
  rw [hear, Notice.changed?_eq_some_iff.mpr renews]

/-- What a notice from the folder of the sources comes to, if all connections work. One that tells
of a file below the root, however its path is spelled, is broadcast once, under the path of the
file from the root. That reaches every connection, unless the path has no octets. Then it is a
fault for the one who gave the notice, and no connection takes anything. A notice of a folder comes
to nothing. -/
theorem sources_announced (hworkdir : isAbsolute site.disk.workdir = true)
    {streams : Event.Streams σ} (passive : streams.Passive)
    {c : Event.Channel (Event.Recorded σ)} (distinct : c.live.Nodup)
    (working : streams.Working c.live c.world.world) (notice : Notice) :
    let result := sources.hear site streams.recorded notice c
    (notice.ofFolder = true → result = (.ok 0, c)) ∧
      ∀ q names, notice.Renews q → (∀ name ∈ names, IsName name) → names ≠ [] →
        site.disk.absolute q = append site.root (ofNames names) →
        let noted := c.note (sources.record site q)
        let event : Text × Json := (Event.fileMod, .text (ofNames names))
        result = noted.broadcast streams.recorded event.1 event.2 ∧
          if Json.hasSurrogate (ofNames names) then result = (.error .unencodable, noted)
          else ∃ frame, Event.Reaches event noted result frame := by
  intro result
  constructor
  · intro hfolder
    simp only [result, hear, Notice.changed?, if_pos hfolder]
  · intro q names renews hnames hne hq noted event
    have hname := (Site.fromRoot_eq hworkdir hnames hne hq).2
    have hannounced : sources.announcement site q = event := by rw [announcement, hname]
    have hresult : result = noted.broadcast streams.recorded event.1 event.2 := by
      rw [show result = _ from hear_of_renews sources streams.recorded c renews, hannounced]
    refine ⟨hresult, ?_⟩
    rw [hresult]
    split
    · rename_i hsurrogate
      have hencode := Event.encode_text_of_hasSurrogate Event.fileMod hsurrogate
      exact noted.broadcast_of_error streams.recorded hencode
    · rename_i hplain
      have sendable := Event.sendable_fileMod (Bool.not_eq_true _ ▸ hplain)
      have fits : Event.Fits event := Nat.zero_lt_succ _
      have hdistinct : noted.live.Nodup := distinct
      exact Event.Channel.broadcast_reaches passive hdistinct working sendable fits

/-- Two connections to streams that take whatever is written. -/
def listening : Event.Channel (Event.Recorded (List Text)) :=
  { live := [0, 1], world := ⟨[], []⟩ }

theorem passive_listening : (Event.scripted fun _ => {}).Passive where
  changes h text w := by simp [Event.scripted]
  family h text w fault hfault := by cases hfault

theorem working_listening :
    (Event.scripted fun _ => {}).Working listening.live listening.world.world :=
  fun _ _ _ _ => rfl

/-- A file is moved into place, and all are told. -/
theorem sources_announced_misnamed :
    let site := Site.misnamed
    let notice : Notice := ⟨"/new", .moved "/src/../src/b//a.x", false⟩
    let names : List Text := ["b", "a.x"]
    let streams := Event.scripted fun _ => {}
    let noted := listening.note (sources.record site "/src/../src/b//a.x")
    isAbsolute site.disk.workdir = true ∧ streams.Passive ∧ listening.live.Nodup ∧
      streams.Working listening.live listening.world.world ∧
      notice.Renews "/src/../src/b//a.x" ∧ (∀ name ∈ names, IsName name) ∧ names ≠ [] ∧
      site.disk.absolute "/src/../src/b//a.x" = append site.root (ofNames names) ∧
      ∃ frame, Event.Reaches (Event.fileMod, .text (ofNames names)) noted
        (sources.hear site streams.recorded notice listening) frame := by
  intro site notice names streams noted
  have hdistinct : listening.live.Nodup := by decide
  have hnames : ∀ name ∈ names, IsName name := by decide +kernel
  have hne : names ≠ [] := List.cons_ne_nil _ _
  have renews : notice.Renews "/src/../src/b//a.x" := .moved _ _
  have hq : site.disk.absolute "/src/../src/b//a.x" = append site.root (ofNames names) := by
    decide +kernel
  have hplain : Json.hasSurrogate (ofNames names) = false := by decide +kernel
  obtain ⟨-, hrenewed⟩ := sources_announced Site.isAbsolute_misnamed passive_listening hdistinct
    working_listening notice
  obtain ⟨-, hreached⟩ := hrenewed _ names renews hnames hne hq
  rw [if_neg (by simp [hplain])] at hreached
  exact ⟨Site.isAbsolute_misnamed, passive_listening, hdistinct, working_listening, renews, hnames,
    hne, hq, hreached⟩

/-- Nobody is told of a file whose name is not UTF-8. -/
theorem misnamed_not_announced :
    let site := Site.misnamed
    let p : Text := [.ofNat 0xDCFF]
    let notice : Notice := ⟨"/src/" ++ p, .modified, false⟩
    let streams := Event.scripted fun _ => {}
    let result := sources.hear site streams.recorded notice listening
    isAbsolute site.disk.workdir = true ∧ streams.Passive ∧ listening.live.Nodup ∧
      streams.Working listening.live listening.world.world ∧
      notice.Renews ("/src/" ++ p) ∧ IsName p ∧
      site.disk.absolute ("/src/" ++ p) = append site.root (ofNames [p]) ∧
      result.1 = .error .unencodable ∧ result.2.world.taken = [] := by
  intro site p notice streams result
  have renews : notice.Renews ("/src/" ++ p) := .modified _
  have hannounced : sources.announcement site ("/src/" ++ p) = (Event.fileMod, .text p) := by
    have hname : sourceName site ("/src/" ++ p) = p := by decide +kernel
    rw [announcement, hname]
  have hresult : result =
      (.error .unencodable, listening.note (sources.record site ("/src/" ++ p))) := by
    have hencode := Event.encode_text_of_hasSurrogate Event.fileMod
      (show Json.hasSurrogate p = true by decide +kernel)
    rw [show result = _ from hear_of_renews sources streams.recorded listening renews, hannounced]
    exact Event.Channel.broadcast_of_error streams.recorded _ hencode
  rw [hresult]
  exact ⟨Site.isAbsolute_misnamed, passive_listening, by decide, working_listening, renews,
    by decide +kernel, by decide +kernel, rfl, rfl⟩

end Watch

end LiveTree
