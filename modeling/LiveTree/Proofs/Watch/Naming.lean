import LiveTree.Proofs.File.Listing
import LiveTree.Proofs.Viewer.Hearing
import LiveTree.Proofs.Web.Resolve
import LiveTree.Proofs.Web.Source
import LiveTree.Watch

namespace LiveTree

open LiveTree.Path

namespace Web.Asset

theorem resolve_ofNames {disk : File.Disk} {root : Text} (hroot : root ≠ []) {names : List Text}
    (h : ∀ name ∈ names, IsName name) (hne : names ≠ []) {content : Except Text Octets}
    (hfind : disk.find? (append root (ofNames names)) = some (.file content)) :
    resolve disk root (ofNames names) = .ok ⟨append root (ofNames names), content⟩ := by
  have htrim : trim (· == slash) (ofNames names) = ofNames names := by
    apply trim_of_ends (isAbsolute_ofNames h)
    rw [ofNames, if_neg hne]
    exact getLast?_ofSegments h
  have hnames := ofNames_ne_nil h
  have hbelow := below?_of_inner (inner_ofNames h) hnames hroot
  have hlook : look disk root (ofNames names) =
      .ended (.ok ⟨append root (ofNames names), content⟩) := by
    rw [look_of_some htrim hnames hbelow, lookAt, hfind]
  exact ((Resolves.ended hlook).unique (resolves_resolve hroot disk _)).symm

end Web.Asset

theorem Event.sendable_fileMod {p : Text} (h : Json.hasSurrogate p = false) :
    Event.Sendable (Event.fileMod, .text p) := by
  have hfileMod : Json.hasSurrogate Event.fileMod = false := by decide
  have hclear : (Event.fileMod :: (Json.text p).texts).any Json.hasSurrogate = false := by
    rw [Json.texts, List.any_cons, List.any_cons, List.any_nil, hfileMod, h]
    rfl
  exact ⟨Json.any_hasSurrogate_eq_false.mp hclear, by simp [Json.Readable]⟩

namespace Viewer

variable {ω R : Type} [Measure R]

/-- A change of a file is worth one fetch to the viewer of that file, if the name has octets. -/
theorem fetched_fileMod {h : Event.Handle} {c : Event.Channel (Listener (Observed ω) R)}
    (hears : Hears h c) (callbacks : Callbacks ω R) {p : Text} (hne : p ≠ []) :
    let s := c.world.session
    (c.broadcast (Listener.asStreams callbacks.observed) Event.fileMod
        (.text p)).2.world.session.world.fetched =
      s.world.fetched ++
        if p = s.controller.file ∧ Json.hasSurrogate p = false then [s.selection] else [] := by
  intro s
  have hmod : Event.fileMod ≠ Event.reload ∧ Event.fileMod ≠ Event.programMod := by decide
  cases hplain : Json.hasSurrogate p with
  | true =>
    have hencode := Event.encode_text_of_hasSurrogate Event.fileMod hplain
    rw [Event.Channel.broadcast_of_error _ _ hencode, if_neg (by simp), List.append_nil]
  | false =>
    have sendable := Event.sendable_fileMod hplain
    have fits : Event.Fits (Event.fileMod, .text p) := Nat.zero_lt_succ _
    have hconcerns : Event.Concerns s.controller.file (Event.fileMod, .text p) ↔
        p = s.controller.file := by
      rw [Event.Concerns]
      simp only [hmod, false_or, true_and, Json.text.injEq]
      exact and_iff_right_of_imp fun h => h ▸ hne
    have hsession := session_broadcast hears callbacks.observed sendable fits
    have hfetched := Session.fetched_handleEvent callbacks Event.fileMod (.text p) s
    rw [hsession]
    simp only [hconcerns] at hfetched
    simpa using hfetched

theorem fetched_hear {h : Event.Handle} {c : Event.Channel (Listener (Observed ω) R)}
    (hears : Hears h c) (callbacks : Callbacks ω R) {site : Site} {notice : Notice} {q : Text}
    (hq : notice.changed? = some q) {p : Text} (hne : p ≠ [])
    (hannounced : Watch.sources.announcement site q = (Event.fileMod, .text p)) :
    let s := c.world.session
    (Watch.sources.hear site (Listener.asStreams callbacks.observed) notice
        c).2.world.session.world.fetched =
      s.world.fetched ++
        if p = s.controller.file ∧ Json.hasSurrogate p = false then [s.selection] else [] := by
  rw [Watch.hear, hq]
  simp only [hannounced]
  have hnoted : Hears h (c.note (Watch.sources.record site q)) := ⟨hears.live, hears.opened⟩
  exact fetched_fileMod hnoted callbacks hne

end Viewer

namespace Site

/-- All that name a source file mean the same file by a path: where it is parsed from, the path in
the event that announces a change of it, and what is served under it. -/
structure Agrees (site : Site) (p : Text) (content : Except Text Octets) : Prop where
  found : site.disk.find? (append site.options.root p) = some (.file content)
  location : site.disk.absolute (append site.options.root p) = append site.root p
  joined : below? site.root p = some (append site.root p)
  same : site.disk.find? (append site.root p) = some (.file content)
  parsed : ∀ launch rule, ∃ report arguments, (site.parseFile launch p rule).report = some report ∧
    report.command = some (arguments ++ ["-input=" ++ append site.root p])
  announced : ∀ q, site.disk.absolute q = append site.root p →
    fromRoot site.disk.workdir site.options.root q = p ∧
      Watch.sources.announcement site q = (Event.fileMod, .text p)
  resolved : Web.Asset.resolve site.disk site.options.root p =
    .ok ⟨append site.options.root p, content⟩

/-- A change of a file is worth one fetch to the viewer of that file, and none to the viewer of any
other; but a name without octets reaches no viewer. -/
def Refetches (site : Site) (p : Text) : Prop :=
  ∀ (ω R : Type) [Viewer.Measure R] (callbacks : Viewer.Callbacks ω R) (h : Event.Handle)
    (c : Event.Channel (Viewer.Listener (Viewer.Observed ω) R)) (notice : Notice) (q : Text),
    Viewer.Hears h c → notice.changed? = some q → site.disk.absolute q = append site.root p →
    let s := c.world.session
    let streams := Viewer.Listener.asStreams callbacks.observed
    (Watch.sources.hear site streams notice c).2.world.session.world.fetched =
      s.world.fetched ++
        if p = s.controller.file ∧ Json.hasSurrogate p = false then [s.selection] else []

theorem Agrees.refetches {site : Site} {p : Text} {content : Except Text Octets}
    (agrees : site.Agrees p content) (hne : p ≠ []) : site.Refetches p := by
  intro ω R _ callbacks h c notice q hears hq habsolute
  exact Viewer.fetched_hear hears callbacks hq hne (agrees.announced q habsolute).2

section Naming

variable {site : Site} (hworkdir : isAbsolute site.disk.workdir = true)

include hworkdir

theorem fromRoot_eq {names : List Text} (h : ∀ name ∈ names, IsName name) (hne : names ≠ [])
    {q : Text} (hq : site.disk.absolute q = append site.root (ofNames names)) :
    fromRoot site.disk.workdir site.options.root q = ofNames names ∧
      Watch.sourceName site q = ofNames names := by
  have hrelative : relative site.root (append site.root (ofNames names)) = ofNames names :=
    relative_append_names hworkdir site.options.root h hne
  have hroot : absolute site.disk.workdir site.root = site.root :=
    absolute_absolute hworkdir site.options.root
  constructor
  · rw [fromRoot, show absolute site.disk.workdir q = _ from hq]
    exact hrelative
  · rw [Watch.sourceName, fromRoot, hroot, show absolute site.disk.workdir q = _ from hq]
    exact hrelative

/-- What a path of names leads to from the root, it means everywhere. -/
theorem agrees_ofNames {names : List Text} (h : ∀ name ∈ names, IsName name) (hne : names ≠ [])
    (hroot : site.options.root ≠ []) {content : Except Text Octets}
    (hfind : site.disk.find? (append site.options.root (ofNames names)) = some (.file content)) :
    site.Agrees (ofNames names) content := by
  have hsome : site.root ≠ [] := absolute_ne_nil _ _
  have hlocation : site.disk.absolute (append site.options.root (ofNames names)) =
      append site.root (ofNames names) := absolute_append hworkdir site.options.root h hne
  have hsame := File.Disk.find?_absolute hworkdir hfind
  rw [hlocation] at hsame
  have hjoined := below?_of_inner (inner_ofNames h) (ofNames_ne_nil h) hsome
  have hfile : site.disk.isFile (append site.root (ofNames names)) = true := by
    rw [File.Disk.isFile, hsame]
    rfl
  have hsource : site.source? (ofNames names) = some (append site.root (ofNames names)) := by
    rw [source?, hjoined, Option.filter_some, if_pos hfile]
  refine ⟨hfind, hlocation, hjoined, hsame, fun launch rule => ?_, fun q hq => ?_, ?_⟩
  · have habsolute : absolute site.disk.workdir (append site.root (ofNames names)) = _ :=
      absolute_append_names hworkdir site.options.root h hne
    have hcommand := Parser.command_file site.program site.disk.workdir site.options.timeout
      (append site.root (ofNames names)) (site.entry rule)
    rw [parseFile_of_some launch hsource, report_parsedOf]
    rw [Parser.arguments_file _ _ _ (append_ne_nil _ (ofNames_ne_nil h)) habsolute] at hcommand
    exact ⟨_, _, rfl, hcommand _⟩
  · obtain ⟨hfromRoot, hname⟩ := fromRoot_eq hworkdir h hne hq
    refine ⟨hfromRoot, ?_⟩
    rw [Watch.announcement, hname]
  · exact Web.Asset.resolve_ofNames hroot h hne hfind

/-- The files of a folder are listed once, in the order of their code points, and each is meant by
its path wherever a file is named. -/
theorem names_agree (hproper : site.disk.tree.Proper) {entries : List (Text × File.Tree)}
    (hroot : site.disk.find? site.options.root = some (.folder entries)) :
    ∃ files, site.disk.list site.options.root = .ok files ∧
      files.Pairwise (fun p q => Text.le p q = true ∧ p ≠ q) ∧
      (∀ p, p ∈ files ↔ (∀ segment ∈ segments p, segment ∉ [[], ".", ".."]) ∧
        site.disk.isFile (append site.options.root p) = true) ∧
      ∀ p ∈ files, (∃ content, site.Agrees p content) ∧ site.Refetches p := by
  obtain ⟨files, hlist, hincreasing, hmem⟩ := File.Disk.exists_list hproper hroot
  refine ⟨files, hlist, hincreasing, fun p => ?_, fun p hp => ?_⟩
  · rw [hmem]
    apply and_congr_left
    intro
    apply forall₂_congr
    intro segment hsegment
    exact and_iff_left (slash_notMem_of_mem_segments hsegment)
  · obtain ⟨hnames, hfile⟩ := (hmem p).mp hp
    obtain ⟨tree, hfind, htree⟩ := (Option.any_eq_true _ _).mp hfile
    cases tree with
    | folder below => cases htree
    | file content =>
      rw [← ofNames_segments p] at hfind ⊢
      have hagrees := agrees_ofNames hworkdir hnames (segments_ne_nil p)
        (File.Disk.ne_nil_of_find? hroot) hfind
      exact ⟨⟨content, hagrees⟩, hagrees.refetches (ofNames_ne_nil hnames)⟩

end Naming

/-- What the viewer of a file makes of a notice. -/
def told (site : Site) (notice : Notice) (file rule : Text) :
    Except Fault Nat × Event.Channel (Viewer.Listener (Viewer.Observed Unit) Rat) :=
  Watch.sources.hear site (Viewer.Listener.asStreams Viewer.Session.echo.observed) notice
    (Viewer.tuned file rule)

section Told

variable {site : Site} {p : Text} {notice : Notice} {q : Text} (hq : notice.changed? = some q)
  (habsolute : site.disk.absolute q = append site.root p) (rule : Text)

include hq habsolute

theorem fetched_told (refetches : site.Refetches p) :
    (site.told notice p rule).2.world.session.world.fetched =
      if Json.hasSurrogate p = false then [(p, rule)] else [] := by
  have hfetched := refetches Unit Rat Viewer.Session.echo 0 (Viewer.tuned p rule) notice q
    (Viewer.hears_tuned p rule) hq habsolute
  rw [told, hfetched, Viewer.tuned, Viewer.Session.initial]
  simp [Viewer.Session.selection]

theorem told_of_hasSurrogate {content : Except Text Octets} (agrees : site.Agrees p content)
    (h : Json.hasSurrogate p = true) : (site.told notice p rule).1 = .error .unencodable := by
  have hannounced := (agrees.announced q habsolute).2
  have hencode := Event.encode_text_of_hasSurrogate Event.fileMod h
  rw [told, Watch.hear, hq]
  simp only [hannounced]
  rw [Event.Channel.broadcast_of_error _ _ hencode]
  rfl

end Told

/-- A site of two files, one with a name that is not UTF-8; its folder is spelled in a roundabout
way. -/
def misnamed : Site where
  options := { lua := "lua", main := "main.lua", root := "./src//b/.." }
  assets := []
  disk :=
    { tree := .folder [("src", .folder [("b", .folder [("a.x", .file (.ok []))]),
        ([.ofNat 0xDCFF], .file (.ok []))])]
      workdir := "/" }

theorem isAbsolute_misnamed : isAbsolute misnamed.disk.workdir = true := by decide

theorem proper_misnamed : misnamed.disk.tree.Proper := by
  simp only [misnamed, File.Tree.Proper, File.Tree.ProperEntries]
  decide +kernel

theorem find?_misnamed : misnamed.disk.find? misnamed.options.root =
    some (.folder [("b", .folder [("a.x", .file (.ok []))]), ([.ofNat 0xDCFF], .file (.ok []))]) :=
  rfl

/-- A file is moved into place, and the viewer of it fetches. -/
theorem names_agree_misnamed :
    let p : Text := "b/a.x"
    let q : Text := "/src/../src/b//a.x"
    let selection : Text × Text := (p, "r")
    isAbsolute misnamed.disk.workdir = true ∧ misnamed.disk.tree.Proper ∧
      (∃ files, misnamed.disk.list misnamed.options.root = .ok files ∧ p ∈ files) ∧
      misnamed.disk.absolute q = append misnamed.root p ∧
      (misnamed.told ⟨"/new", .moved q, false⟩ p "r").2.world.session.world.fetched =
        [selection] := by
  intro p q selection
  obtain ⟨files, hlist, -, hmem, hagree⟩ :=
    names_agree isAbsolute_misnamed proper_misnamed find?_misnamed
  have hlisted : p ∈ files := (hmem p).mpr ⟨by decide +kernel, by decide +kernel⟩
  have habsolute : misnamed.disk.absolute q = append misnamed.root p := by decide +kernel
  have hplain : Json.hasSurrogate p = false := by decide +kernel
  refine ⟨isAbsolute_misnamed, proper_misnamed, ⟨files, hlist, hlisted⟩, habsolute, ?_⟩
  rw [fetched_told rfl habsolute "r" (hagree p hlisted).2, if_pos hplain]

/-- The viewer of a file whose name is not UTF-8 is not told of a change of it. -/
theorem misnamed_not_heard :
    let p : Text := [.ofNat 0xDCFF]
    let q : Text := "/src/" ++ p
    (∃ files, misnamed.disk.list misnamed.options.root = .ok files ∧ p ∈ files) ∧
      misnamed.disk.absolute q = append misnamed.root p ∧
      (misnamed.told ⟨q, .modified, false⟩ p "r").1 ≠ .ok 1 ∧
      (misnamed.told ⟨q, .modified, false⟩ p "r").2.world.session.world.fetched = [] := by
  intro p q
  have hname : ∀ segment ∈ segments p, IsName segment := by decide +kernel
  have habsolute : misnamed.disk.absolute q = append misnamed.root p := by decide +kernel
  have hsurrogate : Json.hasSurrogate p = true := by decide +kernel
  obtain ⟨files, hlist, -, hmem⟩ := File.Disk.exists_list proper_misnamed find?_misnamed
  have hagrees : misnamed.Agrees p (.ok []) :=
    agrees_ofNames isAbsolute_misnamed hname (segments_ne_nil p) (by decide +kernel) rfl
  have hne : p ≠ [] := List.cons_ne_nil _ _
  refine ⟨⟨files, hlist, (hmem p).mpr ⟨hname, by decide +kernel⟩⟩, habsolute, ?_, ?_⟩
  · rw [told_of_hasSurrogate rfl habsolute "r" hagrees hsurrogate]
    exact nofun
  · rw [fetched_told rfl habsolute "r" (hagrees.refetches hne), if_neg (by simp [hsurrogate])]

end Site

end LiveTree
