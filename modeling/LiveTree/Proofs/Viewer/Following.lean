import LiveTree.Console
import LiveTree.Proofs.File.Relative
import LiveTree.Proofs.Viewer.Hearing
import LiveTree.Proofs.Web.Source
import LiveTree.Watch

namespace LiveTree

open LiveTree.Path (append isAbsolute rootSlashes)
open LiveTree.Viewer (Session)

namespace Console

/-- The absolute path of the file that is printed. -/
def target (site : Site) (file : Text) : Text := site.disk.absolute (append site.options.root file)

/-- The command line that parses it. -/
def command (site : Site) (file : Text) : List Text :=
  [site.options.lua, Path.normalise site.options.main, "-mode=parse"] ++
    Parser.flag "-entry=" site.options.entry ++ ["-input=" ++ target site file]

/-- The name that it is selected by. -/
def selected (site : Site) (file : Text) : Text :=
  Path.fromRoot site.disk.workdir site.options.root (append site.options.root file)

/-- A console viewer of a file has that file selected, and every parse it had made was of it. -/
structure Follows (site : Site) (file : Text) (s : Session Console Float) : Prop where
  selection : s.selection = (selected site file, site.options.entry.getD [])
  commands : ∀ report ∈ s.world.reports, report.command = some (command site file)

/-- One parse more, of the file that is printed. -/
def Reparses (site : Site) (file : Text) (s after : Session Console Float) : Prop :=
  ∃ report, after.world.reports = s.world.reports ++ [report] ∧
    report.command = some (command site file)

/-- What a console viewer is made to do. -/
inductive Turn where
  | refresh
  | event (event : Event)

/-- One turn, with a parser that starts as `launch` tells this time. -/
def take (site : Site) (launch : Parser.Request → Parser.Launch) (s : Session Console Float) :
    Turn → Session Console Float
  | .refresh => (s.refresh (callbacks site launch)).2
  | .event event => (s.handleEvent (callbacks site launch) event).2

def run (site : Site) (s : Session Console Float)
    (turns : List ((Parser.Request → Parser.Launch) × Turn)) : Session Console Float :=
  turns.foldl (fun s turn => take site turn.1 s turn.2) s

theorem reports_render (node : Display.Node) (console : Console) :
    (render node console).2.reports = console.reports := by
  rw [render]
  cases node.draw with
  | error fault => rfl
  | ok drawing => rfl

theorem follows_session (site : Site) (file : Text) : Follows site file (session site file) := by
  refine ⟨?_, fun _ h => absurd h List.not_mem_nil⟩
  rw [Session.selection, session, selected]

/-- A rule that is empty means the configured one, so it may as well be that. -/
theorem entry_getD (entry : Option Text) :
    (if (entry.getD []).isEmpty then entry else some (entry.getD [])) = entry := by
  cases entry with
  | none => rfl
  | some rule =>
    cases rule with
    | nil => rfl
    | cons c rule => rfl

section Following

variable {site : Site} {file : Text} (hworkdir : isAbsolute site.disk.workdir = true)
  (hsingle : ∀ path ∈ [site.disk.workdir, site.options.root, file], rootSlashes path ≠ 2)

include hworkdir hsingle

theorem absolute_selected :
    Path.absolute site.disk.workdir (append site.options.root (selected site file)) =
      target site file := by
  have hroot : rootSlashes site.options.root ≠ 2 := hsingle _ (by simp)
  have hfile : rootSlashes file ≠ 2 := hsingle _ (by simp)
  rw [selected, Path.absolute_append_fromRoot hworkdir (hsingle _ (by simp)) hroot
    (Path.rootSlashes_append_ne_two hroot hfile)]
  rfl

theorem command_parse (launch : Parser.Request → Parser.Launch) :
    (site.parse launch (request site (selected site file)
      (site.options.entry.getD []))).command = some (command site file) := by
  have hne : append site.options.root (selected site file) ≠ [] :=
    Path.append_ne_nil _ (Path.fromRoot_ne_nil hworkdir _ _)
  have htarget := absolute_selected hworkdir hsingle
  rw [Site.parse, request, entry_getD, Parser.command_file, Parser.arguments_path _ _ _ hne,
    htarget]
  rfl

variable {s : Session Console Float} (follows : Follows site file s)

include follows

theorem reparses_refresh (launch : Parser.Request → Parser.Launch) :
    Reparses site file s (s.refresh (callbacks site launch)).2 := by
  obtain ⟨hfile, hrule⟩ := Prod.mk.inj follows.selection
  have hne : s.controller.file ≠ [] := by
    rw [hfile]
    exact Path.fromRoot_ne_nil hworkdir _ _
  have hreports : (s.refresh (callbacks site launch)).2.world.reports =
      ((callbacks site launch).fetch s.controller.file s.controller.rule s.world).2.reports :=
    Session.view_refresh Console.reports reports_render hne
  rw [hfile, hrule] at hreports
  exact ⟨_, hreports, command_parse hworkdir hsingle launch⟩

omit hworkdir hsingle in
/-- One parse more of the same file keeps to it. -/
theorem Follows.of_reparses {after : Session Console Float}
    (hselection : after.selection = s.selection) (reparses : Reparses site file s after) :
    Follows site file after := by
  obtain ⟨report, hreports, hcommand⟩ := reparses
  refine ⟨hselection.trans follows.selection, fun r hr => ?_⟩
  rw [hreports, List.mem_append, List.mem_singleton] at hr
  rcases hr with hr | rfl
  · exact follows.commands r hr
  · exact hcommand

theorem follows_refresh (launch : Parser.Request → Parser.Launch) :
    Follows site file (s.refresh (callbacks site launch)).2 :=
  follows.of_reparses (Session.selection_refresh s)
    (reparses_refresh hworkdir hsingle follows launch)

theorem follows_take (launch : Parser.Request → Parser.Launch) (turn : Turn) :
    Follows site file (take site launch s turn) := by
  cases turn with
  | refresh => exact follows_refresh hworkdir hsingle follows launch
  | event event =>
    rw [take]
    obtain ⟨-, h⟩ | ⟨-, log, h⟩ := Session.handleEvent_cases (callbacks site launch) event s
    · rw [h]
      exact follows_refresh hworkdir hsingle follows launch
    · rw [h]
      exact ⟨follows.selection, follows.commands⟩

theorem follows_run (turns : List ((Parser.Request → Parser.Launch) × Turn)) :
    Follows site file (run site s turns) := by
  induction turns generalizing s with
  | nil => exact follows
  | cons turn turns ih => exact ih (follows_take hworkdir hsingle follows turn.1 turn.2)

/-- An event names the file that is printed only if it is that file that changed. -/
theorem calls_iff {q : Text} (hq : rootSlashes q ≠ 2) :
    Watch.sourceName site q = s.controller.file ↔ site.disk.absolute q = target site file := by
  have hroot : rootSlashes site.options.root ≠ 2 := hsingle _ (by simp)
  have hfile : rootSlashes file ≠ 2 := hsingle _ (by simp)
  have hsame : Watch.sourceName site q =
      Path.fromRoot site.disk.workdir site.options.root q := by
    have habsolute : Path.absolute site.disk.workdir site.root = site.root :=
      Path.absolute_absolute hworkdir site.options.root
    rw [Watch.sourceName, Path.fromRoot, habsolute]
    rfl
  obtain ⟨hselected, -⟩ := Prod.mk.inj follows.selection
  rw [hsame, hselected, selected, Path.fromRoot_inj hworkdir (hsingle _ (by simp)) hroot hq
    (Path.rootSlashes_append_ne_two hroot hfile)]
  rfl

theorem handleEvent_sourceName (launch : Parser.Request → Parser.Launch) {q : Text}
    (hq : rootSlashes q ≠ 2) :
    let step := s.handleEvent (callbacks site launch)
      ⟨.text Event.fileMod, .text (Watch.sourceName site q)⟩
    if site.disk.absolute q = target site file then Reparses site file s step.2
    else step = (.ok false, s) := by
  intro step
  have hmod : ¬(Event.fileMod = Event.reload ∨ Event.fileMod = Event.programMod) := by decide
  have hcalls : Event.calls? s.controller.file
      ⟨.text Event.fileMod, .text (Watch.sourceName site q)⟩ =
        some (Watch.sourceName site q == s.controller.file) := by
    simp only [Event.calls?, if_neg hmod, if_pos]
  have hiff := calls_iff hworkdir hsingle follows hq
  split
  · rename_i h
    have hname : (Watch.sourceName site q == s.controller.file) = true := by
      rw [beq_iff_eq, hiff, h]
    have hstep : step = s.refresh (callbacks site launch) := by
      simp only [step, Session.handleEvent, hcalls, hname]
    rw [hstep]
    exact reparses_refresh hworkdir hsingle follows launch
  · rename_i h
    have hname : (Watch.sourceName site q == s.controller.file) = false := by
      rw [beq_eq_false_iff_ne, ne_eq, hiff]
      exact h
    simp only [step, Session.handleEvent, hcalls, hname]

end Following

/-- The viewer of a file on a console parses that file and no other, whatever it is told, and asks
again exactly on a change of it, however the changed path is spelled. -/
theorem follows_printed_file {site : Site} {file : Text}
    (hworkdir : isAbsolute site.disk.workdir = true)
    (hsingle : ∀ path ∈ [site.disk.workdir, site.options.root, file], rootSlashes path ≠ 2)
    (turns : List ((Parser.Request → Parser.Launch) × Turn)) :
    let s := run site (session site file) turns
    (∀ report ∈ s.world.reports, report.command = some (command site file)) ∧
      ∀ launch, Reparses site file s (s.refresh (callbacks site launch)).2 ∧
        ∀ q, rootSlashes q ≠ 2 →
          let step := s.handleEvent (callbacks site launch)
            ⟨.text Event.fileMod, .text (Watch.sourceName site q)⟩
          if site.disk.absolute q = target site file then Reparses site file s step.2
          else step = (.ok false, s) := by
  intro s
  have follows : Follows site file s :=
    follows_run hworkdir hsingle (follows_session site file) turns
  exact ⟨follows.commands, fun launch => ⟨reparses_refresh hworkdir hsingle follows launch,
    fun q hq => handleEvent_sourceName hworkdir hsingle follows launch hq⟩⟩

/-- A site whose folder of sources lies beside the working directory. -/
def beside : Site where
  options := { lua := "lua", main := "./main.lua", root := "../src/b//..", entry := some "r" }
  assets := []
  disk := ⟨.folder [], "/w"⟩

/-- The file is given by a path that climbs above the root of all, and changes under a name with
three slashes. -/
theorem follows_printed_file_beside :
    let file : Text := "../.././../out/a.x"
    let q : Text := "///out//b/../a.x"
    let launch : Parser.Request → Parser.Launch := fun _ => .refused "busy"
    let turns := [(launch, Turn.refresh), (launch, .event ⟨.text Event.reload, .null⟩)]
    let s := run beside (session beside file) turns
    let change (path : Text) : Event := ⟨.text Event.fileMod, .text (Watch.sourceName beside path)⟩
    isAbsolute beside.disk.workdir = true ∧
      (∀ path ∈ [beside.disk.workdir, beside.options.root, file, q], rootSlashes path ≠ 2) ∧
      command beside file = ["lua", "main.lua", "-mode=parse", "-entry=r", "-input=/out/a.x"] ∧
      Reparses beside file s (s.handleEvent (callbacks beside launch) (change q)).2 ∧
      s.handleEvent (callbacks beside launch) (change "a.x") = (.ok false, s) := by
  intro file q launch turns s change
  have hworkdir : isAbsolute beside.disk.workdir = true := by decide
  have hsingle : ∀ path ∈ [beside.disk.workdir, beside.options.root, file, q],
      rootSlashes path ≠ 2 := by decide +kernel
  have hnamed : ∀ path ∈ [beside.disk.workdir, beside.options.root, file],
      rootSlashes path ≠ 2 := fun path h => hsingle path (List.mem_append_left [q] h)
  obtain ⟨-, hevents⟩ := follows_printed_file hworkdir hnamed turns
  have hchanged := (hevents launch).2 q (hsingle q (by simp))
  have hother := (hevents launch).2 "a.x" (by decide +kernel)
  have htarget : beside.disk.absolute q = target beside file := by decide +kernel
  have hnot : beside.disk.absolute "a.x" ≠ target beside file := by decide +kernel
  simp only [htarget, if_true] at hchanged
  simp only [hnot, if_false] at hother
  exact ⟨hworkdir, hsingle, by decide +kernel, hchanged, hother⟩

end Console

end LiveTree
