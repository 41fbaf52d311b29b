import LiveTree.Proofs.Viewer.Bounds
import LiveTree.Proofs.Viewer.Latest

namespace LiveTree.Viewer

namespace Viewport

/-- The content is a drawing of some size, zoomed. -/
structure Shows (v : Viewport Rat) (size : Rat × Rat) : Prop where
  zoom_pos : 0 < v.zoom
  width : v.contentWidth = v.zoom * size.1
  height : v.contentHeight = v.zoom * size.2

variable {v w : Viewport Rat} {size : Rat × Rat}

theorem Shows.scrollTo (shown : v.Shows size) (x y : Rat) : (v.scrollTo x y).Shows size :=
  ⟨shown.zoom_pos, shown.width, shown.height⟩

theorem Shows.resizeContent (hzoom : 0 < v.zoom) (width height : Rat) :
    (v.resizeContent (width * v.zoom) (height * v.zoom)).Shows (width, height) :=
  ⟨hzoom, mul_comm _ _, mul_comm _ _⟩

/-- Turning the wheel takes the content along: it was zoomed before, and the ratio of both zooms
makes up for it. -/
theorem Shows.zoomBy (shown : v.Shows size) {delta : Rat} (h : v.zoomBy? delta = some w) :
    w.Shows size := by
  have hpos : 0 < w.zoom := by
    have htenth : (0 : Rat) < 0.1 := by norm_num
    exact htenth.trans_le (zoom_zoomBy_bounds h).1
  have hne : v.zoom ≠ 0 := shown.zoom_pos.ne'
  have hratio (length : Rat) :
      v.zoom * length * (w.zoom / v.zoom) = w.zoom * length := by
    field_simp
  have hcontent : w.contentWidth = v.contentWidth * (w.zoom / v.zoom) ∧
      w.contentHeight = v.contentHeight * (w.zoom / v.zoom) := by
    have hzoom := zoom_zoomBy h
    unfold zoomBy? at h
    split_ifs at h
    rw [hzoom, ← Option.some.inj h]
    exact ⟨rfl, rfl⟩
  refine ⟨hpos, ?_, ?_⟩
  · rw [hcontent.1, shown.width, hratio]
  · rw [hcontent.2, shown.height, hratio]

theorem Shows.gesture (shown : v.Shows size) {g : Gesture Rat} (h : v.gesture? g = some w) :
    w.Shows size := by
  cases g with
  | scrollTo x y =>
    obtain rfl := Option.some.inj h
    exact shown.scrollTo x y
  | drag start dx dy =>
    obtain rfl := Option.some.inj h
    exact shown.scrollTo _ _
  | zoomBy delta => exact shown.zoomBy h

theorem frame_gesture {g : Gesture Rat} (h : v.gesture? g = some w) :
    w.width = v.width ∧ w.height = v.height := by
  cases g with
  | zoomBy delta =>
    simp only [gesture?, zoomBy?] at h
    split_ifs at h
    rw [← Option.some.inj h]
    exact ⟨rfl, rfl⟩
  | _ => exact Option.some.inj h ▸ ⟨rfl, rfl⟩

end Viewport

/-- What comes to a viewer: calls from its program, and gestures on its viewport. -/
inductive Input (R : Type) where
  | call (call : Call)
  | gesture (gesture : Gesture R)

namespace Session

section Inputs

variable {ω R : Type} [Measure R] (callbacks : Callbacks ω R)

/-- A viewer after an input. A gesture that raises a fault leaves it as it was. -/
def take (s : Session ω R) : Input R → Session ω R
  | .call c => s.call callbacks c
  | .gesture g =>
    { s with controller := { s.controller with
      viewport := (s.controller.viewport.gesture? g).getD s.controller.viewport } }

def takeAll (s : Session ω R) (inputs : List (Input R)) : Session ω R :=
  inputs.foldl (take callbacks) s

/-- The size that an act was told by drawing the tree that it displays. -/
def size? (m : Session ω R × Act) : Option (R × R) :=
  match m.2 with
  | .complete sequence payload =>
    match (m.1.complete callbacks sequence payload).1, payload.node with
    | .ok true, .ok (some tree) => (callbacks.render tree m.1.world).1.toOption
    | _, _ => none
  | _ => none

/-- The sizes of all trees displayed while inputs are taken. -/
def sizes (s : Session ω R) : List (Input R) → List (R × R)
  | [] => []
  | .call c :: inputs =>
    (s.actMoments callbacks (s.acts callbacks c)).filterMap (size? callbacks) ++
      sizes (s.take callbacks (.call c)) inputs
  | .gesture g :: inputs => sizes (s.take callbacks (.gesture g)) inputs

/-- Completing a request displays a tree and fits the viewport to its size, or it leaves the
viewport alone. -/
theorem viewport_complete (s : Session ω R) (sequence : Int) (payload : Payload) :
    (∃ width height, size? callbacks (s, .complete sequence payload) = some (width, height) ∧
        (s.complete callbacks sequence payload).2.controller.viewport =
          s.controller.viewport.resizeContent (width * s.controller.viewport.zoom)
            (height * s.controller.viewport.zoom)) ∨
      size? callbacks (s, .complete sequence payload) = none ∧
        (s.complete callbacks sequence payload).2.controller.viewport =
          s.controller.viewport := by
  by_cases hsequence : sequence = s.controller.sequence
  · subst hsequence
    rcases hread : payload.node with _ | _ | tree
    · refine .inr ⟨?_, ?_⟩
      · simp [size?, hread]
      · simp [complete, hread]
    · obtain ⟨log, hfail⟩ := fail_latest (s := s) rfl (.noTree s.controller.file)
      refine .inr ⟨?_, ?_⟩
      · simp [size?, hread]
      · simp [complete, hread, hfail]
    · rcases hrender : callbacks.render tree s.world with ⟨fault | ⟨width, height⟩, world⟩
      · refine .inr ⟨?_, ?_⟩
        · simp [size?, complete, hread, hrender]
        · simp [complete, hread, hrender]
      · refine .inl ⟨width, height, ?_, ?_⟩
        · simp [size?, complete, hread, hrender, Except.toOption]
        · simp [complete, hread, hrender]
  · rw [complete_stale hsequence]
    refine .inr ⟨?_, rfl⟩
    simp [size?, complete_stale hsequence]

/-- Only completing a request changes the viewport. -/
theorem viewport_act (s : Session ω R) {a : Act} (h : ∀ n payload, a ≠ .complete n payload) :
    size? callbacks (s, a) = none ∧
      (s.act callbacks a).controller.viewport = s.controller.viewport := by
  cases a with
  | complete n payload => exact absurd rfl (h n payload)
  | fail n fault =>
    refine ⟨rfl, ?_⟩
    rw [act, fail]
    split_ifs <;> rfl
  | _ => exact ⟨rfl, rfl⟩

end Inputs

/-- The last of what came, or else what was there. -/
theorem getLast_append_getD {α : Type} (front back : List α) (default : α) :
    (front ++ back).getLast?.getD default =
      back.getLast?.getD (front.getLast?.getD default) := by
  rw [List.getLast?_append]
  cases back.getLast? <;> rfl

section Shown

variable {ω : Type} (callbacks : Callbacks ω Rat)

/-- The viewport of a session shows what was displayed last, in the window that it had. -/
structure Shown (view : Viewport Rat) (size : Rat × Rat) (s : Session ω Rat) : Prop where
  shows : s.controller.viewport.Shows size
  width : s.controller.viewport.width = view.width
  height : s.controller.viewport.height = view.height

variable {view : Viewport Rat} {size : Rat × Rat} {s : Session ω Rat}

theorem Shown.of_viewport {t : Session ω Rat} (shown : s.Shown view size)
    (h : t.controller.viewport = s.controller.viewport) : t.Shown view size := by
  obtain ⟨hshows, hwidth, hheight⟩ := shown
  rw [← h] at hshows hwidth hheight
  exact ⟨hshows, hwidth, hheight⟩

/-- What an act displays is shown after it, and what was shown before it otherwise. -/
theorem Shown.act (shown : s.Shown view size) (a : Act) :
    (s.act callbacks a).Shown view ((size? callbacks (s, a)).getD size) := by
  have hkept (h : size? callbacks (s, a) = none ∧
      (s.act callbacks a).controller.viewport = s.controller.viewport) :
      (s.act callbacks a).Shown view ((size? callbacks (s, a)).getD size) := by
    rw [h.1]
    exact shown.of_viewport h.2
  cases a with
  | complete sequence payload =>
    obtain ⟨width, height, hsize, hviewport⟩ | h :=
      viewport_complete callbacks s sequence payload
    · rw [hsize]
      refine ⟨?_, ?_, ?_⟩
      · rw [Session.act, hviewport]
        exact Viewport.Shows.resizeContent shown.shows.zoom_pos width height
      · rw [Session.act, hviewport, ← shown.width]
        rfl
      · rw [Session.act, hviewport, ← shown.height]
        rfl
    · exact hkept h
  | _ =>
    refine hkept (viewport_act callbacks s fun n payload h => ?_)
    cases h

theorem Shown.perform (shown : s.Shown view size) (acts : List Act) :
    (s.perform callbacks acts).Shown view
      (((s.actMoments callbacks acts).filterMap (size? callbacks)).getLast?.getD size) := by
  induction acts generalizing s size with
  | nil => exact shown
  | cons a acts ih =>
    have hrest := ih (shown.act callbacks a)
    rw [actMoments, List.filterMap_cons]
    cases hsize : size? callbacks (s, a) with
    | none =>
      rw [hsize] at hrest
      exact hrest
    | some drawn =>
      rw [hsize] at hrest
      rw [List.getLast?_cons]
      exact hrest

theorem Shown.gesture (shown : s.Shown view size) (g : Gesture Rat) :
    (s.take callbacks (.gesture g)).Shown view size := by
  cases hg : s.controller.viewport.gesture? g with
  | none =>
    apply shown.of_viewport
    rw [take, hg]
    rfl
  | some v =>
    have hframe := Viewport.frame_gesture hg
    rw [take, hg]
    exact ⟨shown.shows.gesture hg, hframe.1.trans shown.width, hframe.2.trans shown.height⟩

theorem Shown.takeAll (shown : s.Shown view size) (inputs : List (Input Rat)) :
    (s.takeAll callbacks inputs).Shown view ((s.sizes callbacks inputs).getLast?.getD size) := by
  induction inputs generalizing s size with
  | nil => exact shown
  | cons input inputs ih =>
    cases input with
    | call c =>
      have hcall := shown.perform callbacks (s.acts callbacks c)
      rw [perform_acts] at hcall
      rw [sizes, getLast_append_getD]
      exact ih hcall
    | gesture g => exact ih (shown.gesture callbacks g)

end Shown

/-- The content of a viewport is as large as what was displayed last, zoomed, after any sequence of
calls and gestures, whatever the callbacks return or raise: neither zooming, however often and
against whichever limit, nor fetching again lets it drift. The window keeps its size. A viewport as
it is at first shows a drawing of no size. -/
theorem content_eq_zoom_mul_size {ω : Type} (callbacks : Callbacks ω Rat) (s : Session ω Rat)
    (size : Rat × Rat) (zoom_pos : 0 < s.controller.viewport.zoom)
    (width : s.controller.viewport.contentWidth = s.controller.viewport.zoom * size.1)
    (height : s.controller.viewport.contentHeight = s.controller.viewport.zoom * size.2)
    (inputs : List (Input Rat)) :
    let last := (s.sizes callbacks inputs).getLast?.getD size
    let v := (s.takeAll callbacks inputs).controller.viewport
    v.contentWidth = v.zoom * last.1 ∧ v.contentHeight = v.zoom * last.2 ∧
      v.width = s.controller.viewport.width ∧ v.height = s.controller.viewport.height := by
  have shown : s.Shown s.controller.viewport size := ⟨⟨zoom_pos, width, height⟩, rfl, rfl⟩
  obtain ⟨hshows, hwidth, hheight⟩ := shown.takeAll callbacks inputs
  exact ⟨hshows.width, hshows.height, hwidth, hheight⟩

/-- Fetches a tree that shows the name of the file, and draws it as wide as its tag is long. -/
def wide : Callbacks Unit Rat where
  fetch file _ _ := ({ result := .ok (.tree { Display.placeholder file with tag := .text file }) }, ())
  render tree w := (.ok (match tree.tag with | .text s => s.length | _ => 0, 1), w)

/-- The wheel is turned past both limits while two files are displayed in turn. -/
theorem content_eq_zoom_mul_size_turned :
    let s : Session Unit Rat := initial "ab" [] Viewport.initial ()
    let inputs : List (Input Rat) := [.call .refresh, .gesture (.zoomBy (-5000)),
      .call (.select (some "abc") none), .gesture (.zoomBy 5000), .call (.fail 2 .unencodable),
      .gesture (.drag Viewport.initial 1 2), .gesture (.zoomBy (-300))]
    let v := (s.takeAll wide inputs).controller.viewport
    0 < s.controller.viewport.zoom ∧ s.sizes wide inputs = [(2, 1), (3, 1)] ∧
      v.contentWidth = v.zoom * 3 ∧ v.contentHeight = v.zoom * 1 := by
  intro s inputs v
  have hzoom : 0 < s.controller.viewport.zoom := by decide +kernel
  have hsizes : s.sizes wide inputs = [(2, 1), (3, 1)] := by decide +kernel
  have hcontent := content_eq_zoom_mul_size wide s (0, 0) hzoom (by decide +kernel)
    (by decide +kernel) inputs
  simp only [hsizes] at hcontent
  exact ⟨hzoom, hsizes, hcontent.1, hcontent.2.1⟩

end Session

end LiveTree.Viewer
