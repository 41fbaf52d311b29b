import LiveTree.Proofs.Decimal.Comparison
import LiveTree.Viewer.Viewport

namespace LiveTree.Viewer

/-- Of two numbers one is less or they are in order. What is no number is in no order, not even
with itself. -/
class Measure.Ordered (R : Type) [Measure R] [LE R] : Prop where
  le_of_less {a b : R} : less a b = true → a ≤ b
  self_of_le {a b : R} : a ≤ b → a ≤ a ∧ b ≤ b
  less_or_le {a b : R} : a ≤ a → b ≤ b → less b a = true ∨ a ≤ b
  zero : (0.0 : R) ≤ 0.0
  zooms : (0.1 : R) ≤ 2.0

instance : Measure.Ordered Float where
  le_of_less h := Binary64.le_of_lt (of_decide_eq_true h)
  self_of_le h :=
    have hnumbers := Binary64.isNaN_of_le h
    ⟨Binary64.le_self hnumbers.1, Binary64.le_self hnumbers.2⟩
  less_or_le ha hb :=
    (Binary64.lt_or_le (Binary64.isNaN_of_le ha).1 (Binary64.isNaN_of_le hb).1).imp_left
      decide_eq_true
  zero := by decide +kernel
  zooms := by decide +kernel

instance : Measure.Ordered Rat where
  le_of_less h := (of_decide_eq_true h).le
  self_of_le _ := ⟨le_rfl, le_rfl⟩
  less_or_le _ _ := (lt_or_ge _ _).imp_left decide_eq_true
  zero := by decide +kernel
  zooms := by decide +kernel

section Clamp

variable {R : Type} [Measure R]

theorem greater_cases (a b : R) :
    greater a b = b ∧ Measure.less a b = true ∨ greater a b = a := by
  unfold greater
  split_ifs with h
  · exact .inl ⟨rfl, h⟩
  · exact .inr rfl

@[simp] theorem greater_self (a : R) : greater a a = a := ite_self a

@[simp] theorem lesser_self (a : R) : lesser a a = a := ite_self a

@[simp] theorem greater_greater (a b : R) : greater a (greater a b) = greater a b := by
  obtain ⟨hb, -⟩ | ha := greater_cases a b
  · rw [hb, hb]
  · rw [ha, greater_self]

/-- Clamping once is enough, if the upper bound is the lower one or greater. -/
theorem clamp_clamp {low high : R} (h : greater low high = high) (x : R) :
    clamp (clamp x low high) low high = clamp x low high := by
  unfold clamp
  by_cases hhigh : Measure.less high (greater low x) = true
  · have hlesser : lesser (greater low x) high = high := if_pos hhigh
    rw [hlesser, h, lesser_self]
  · have hlesser : lesser (greater low x) high = greater low x := if_neg hhigh
    rw [hlesser, greater_greater, hlesser]

variable [LE R] [Measure.Ordered R]

theorem le_greater {low : R} (h : low ≤ low) (x : R) : low ≤ greater low x := by
  obtain ⟨hx, hless⟩ | hx := greater_cases low x
  · rw [hx]
    exact Measure.Ordered.le_of_less hless
  · rw [hx]
    exact h

theorem clamp_bounds {low high : R} (h : low ≤ high) (x : R) :
    low ≤ clamp x low high ∧ clamp x low high ≤ high := by
  obtain ⟨hlow, hhigh⟩ := Measure.Ordered.self_of_le h
  have hfloor : low ≤ greater low x := le_greater hlow x
  have hnumber : greater low x ≤ greater low x := (Measure.Ordered.self_of_le hfloor).2
  unfold clamp lesser
  split_ifs with hless
  · exact ⟨h, hhigh⟩
  · exact ⟨hfloor, (Measure.Ordered.less_or_le hnumber hhigh).resolve_left hless⟩

end Clamp

/-- What a pointer does to a viewport. -/
inductive Gesture (R : Type) where
  | scrollTo (x y : R)
  | drag (start : Viewport R) (dx dy : R)
  | zoomBy (delta : R)

/-- What a viewport is asked to do. -/
inductive Move (R : Type) where
  | gesture (gesture : Gesture R)
  | clampScroll
  | resizeContent (width height : R)

namespace Viewport

section Moves

variable {R : Type} [Measure R]

def gesture? (v : Viewport R) : Gesture R → Option (Viewport R)
  | .scrollTo x y => some (v.scrollTo x y)
  | .drag start dx dy => some (v.drag start dx dy)
  | .zoomBy delta => v.zoomBy? delta

def move? (v : Viewport R) : Move R → Option (Viewport R)
  | .gesture gesture => v.gesture? gesture
  | .clampScroll => some v.clampScroll
  | .resizeContent width height => some (v.resizeContent width height)

/-- The viewport after some moves, none if one of them raised a fault. -/
def moveAll? (v : Viewport R) (moves : List (Move R)) : Option (Viewport R) :=
  moves.foldlM move? v

theorem zoomBy_eq_none {v : Viewport R} {delta : R} :
    v.zoomBy? delta = none ↔ (v.zoom == 0.0) = true := by
  unfold zoomBy?
  split_ifs with h <;> simp [h]

/-- The zoom after the wheel was turned. -/
theorem zoom_zoomBy {v w : Viewport R} {delta : R} (h : v.zoomBy? delta = some w) :
    w.zoom = clampZoom (v.zoom - delta / zoomStep) := by
  unfold zoomBy? at h
  split_ifs at h
  rw [← Option.some.inj h]
  rfl

/-- Only turning the wheel changes the zoom. -/
theorem zoom_move {v w : Viewport R} {m : Move R} (h : v.move? m = some w) :
    w.zoom = v.zoom ∨ ∃ delta, m = .gesture (.zoomBy delta) := by
  cases m with
  | gesture gesture =>
    cases gesture with
    | zoomBy delta => exact .inr ⟨delta, rfl⟩
    | _ => exact .inl (Option.some.inj h ▸ rfl)
  | _ => exact .inl (Option.some.inj h ▸ rfl)

/-- Every move ends with scrolling. -/
theorem exists_scrollTo {v w : Viewport R} {m : Move R} (h : v.move? m = some w) :
    ∃ (u : Viewport R) (x y : R), w = u.scrollTo x y := by
  cases m with
  | gesture gesture =>
    cases gesture with
    | zoomBy delta =>
      simp only [move?, gesture?, zoomBy?] at h
      split_ifs at h
      exact ⟨_, _, _, (Option.some.inj h).symm⟩
    | _ => exact ⟨_, _, _, (Option.some.inj h).symm⟩
  | _ => exact ⟨_, _, _, (Option.some.inj h).symm⟩

theorem clampScroll_scrollTo (v : Viewport R) (x y : R) :
    (v.scrollTo x y).clampScroll = v.scrollTo x y := by
  have hx : greater 0.0 v.maxScrollX = v.maxScrollX := greater_greater _ _
  have hy : greater 0.0 v.maxScrollY = v.maxScrollY := greater_greater _ _
  change v.scrollTo (clamp x 0.0 v.maxScrollX) (clamp y 0.0 v.maxScrollY) = v.scrollTo x y
  simp only [scrollTo, clamp_clamp hx, clamp_clamp hy]

variable [LE R]

/-- The scroll is within its bounds, and to clamp it changes nothing. -/
structure Bounded (v : Viewport R) : Prop where
  left : 0.0 ≤ v.scrollX
  right : v.scrollX ≤ v.maxScrollX
  top : 0.0 ≤ v.scrollY
  bottom : v.scrollY ≤ v.maxScrollY
  clamped : v.clampScroll = v

variable [Measure.Ordered R]

theorem bounded_scrollTo (v : Viewport R) (x y : R) : (v.scrollTo x y).Bounded := by
  have hzero : (0.0 : R) ≤ 0.0 := Measure.Ordered.zero
  obtain ⟨hleft, hright⟩ := clamp_bounds (le_greater hzero (v.contentWidth - v.width)) x
  obtain ⟨htop, hbottom⟩ := clamp_bounds (le_greater hzero (v.contentHeight - v.height)) y
  exact ⟨hleft, hright, htop, hbottom, clampScroll_scrollTo v x y⟩

/-- Every move leaves the scroll within its bounds, whatever it was before. -/
theorem bounded_move {v w : Viewport R} {m : Move R} (h : v.move? m = some w) : w.Bounded := by
  obtain ⟨u, x, y, rfl⟩ := exists_scrollTo h
  exact bounded_scrollTo u x y

theorem zoom_zoomBy_bounds {v w : Viewport R} {delta : R} (h : v.zoomBy? delta = some w) :
    0.1 ≤ w.zoom ∧ w.zoom ≤ 2.0 := by
  rw [zoom_zoomBy h]
  exact clamp_bounds Measure.Ordered.zooms _

end Moves

theorem beq_zero_of_move_eq_none {v : Viewport Float} {m : Move Float} (h : v.move? m = none) :
    (∃ delta, m = .gesture (.zoomBy delta)) ∧ (v.zoom == 0.0) = true := by
  cases m with
  | gesture gesture =>
    cases gesture with
    | zoomBy delta => exact ⟨⟨delta, rfl⟩, zoomBy_eq_none.mp h⟩
    | _ => cases h
  | _ => cases h

theorem not_beq_zero_of_bounds {zoom : Float} (h : 0.1 ≤ zoom) : (zoom == 0.0) = false := by
  rw [← Bool.not_eq_true, Binary64.beq_zero_iff]
  rintro (rfl | rfl)
  · exact absurd h (by decide +kernel)
  · exact absurd h (by decide +kernel)

/-- A zoom that is not zero stays so. -/
theorem zoom_move_ne_zero {v w : Viewport Float} {m : Move Float} (h : v.move? m = some w)
    (hv : (v.zoom == 0.0) = false) : (w.zoom == 0.0) = false := by
  obtain hzoom | ⟨delta, rfl⟩ := zoom_move h
  · rw [hzoom, hv]
  · exact not_beq_zero_of_bounds (zoom_zoomBy_bounds h).1

theorem exists_moveAll {v : Viewport Float} (hv : (v.zoom == 0.0) = false)
    (moves : List (Move Float)) :
    ∃ w, v.moveAll? moves = some w ∧ (moves ≠ [] → w.Bounded) := by
  induction moves generalizing v with
  | nil => exact ⟨v, rfl, fun h => absurd rfl h⟩
  | cons m moves ih =>
    cases hm : v.move? m with
    | none =>
      obtain ⟨-, hzero⟩ := beq_zero_of_move_eq_none hm
      rw [hv] at hzero
      cases hzero
    | some u =>
      obtain ⟨w, hw, hbounded⟩ := ih (zoom_move_ne_zero hm hv)
      refine ⟨w, ?_, fun _ => ?_⟩
      · rw [moveAll?, List.foldlM_cons, hm]
        exact hw
      · cases moves with
        | nil =>
          obtain rfl := Option.some.inj hw
          exact bounded_move hm
        | cons m' moves => exact hbounded (List.cons_ne_nil _ _)

/-- Whatever numbers a viewport holds and whatever it is asked to do, and be they infinite or no
numbers at all, its scroll ends within bounds that are numbers, where clamping it changes nothing,
and turning the wheel ends with a zoom between a tenth and two. Only a zoom of zero makes a turn of
the wheel raise a fault, so no run of moves raises one if the zoom is not zero at first. -/
theorem moves_bounded (v : Viewport Float) :
    (∀ m, v.move? m = none ↔
      (∃ delta, m = .gesture (.zoomBy delta)) ∧ (v.zoom = 0.0 ∨ v.zoom = -0.0)) ∧
    (∀ m w, v.move? m = some w →
      (w.Bounded ∧ w.scrollX.isNaN = false ∧ w.maxScrollX.isNaN = false ∧
        w.scrollY.isNaN = false ∧ w.maxScrollY.isNaN = false) ∧
      ((∃ delta, m = .gesture (.zoomBy delta)) → 0.1 ≤ w.zoom ∧ w.zoom ≤ 2.0)) ∧
    (¬(v.zoom = 0.0 ∨ v.zoom = -0.0) → ∀ moves, ∃ w, v.moveAll? moves = some w ∧
      (moves ≠ [] → w.Bounded)) := by
  refine ⟨fun m => ⟨fun h => ?_, ?_⟩, fun m w h => ⟨?_, ?_⟩, fun hv moves => ?_⟩
  · obtain ⟨hm, hzero⟩ := beq_zero_of_move_eq_none h
    exact ⟨hm, Binary64.beq_zero_iff.mp hzero⟩
  · rintro ⟨⟨delta, rfl⟩, hzero⟩
    exact zoomBy_eq_none.mpr (Binary64.beq_zero_iff.mpr hzero)
  · have hbounded : w.Bounded := bounded_move h
    obtain ⟨hx, hmaxX⟩ := Binary64.isNaN_of_le hbounded.right
    obtain ⟨hy, hmaxY⟩ := Binary64.isNaN_of_le hbounded.bottom
    exact ⟨hbounded, hx, hmaxX, hy, hmaxY⟩
  · rintro ⟨delta, rfl⟩
    exact zoom_zoomBy_bounds h
  · rw [← Binary64.beq_zero_iff, Bool.not_eq_true] at hv
    exact exists_moveAll hv moves

/-- A viewport of infinities and of what is no number, its zoom among it. -/
def boundless : Viewport Float where
  width := 0.0 / 0.0
  height := 1.0
  contentWidth := 1.0 / 0.0
  contentHeight := 1.0 / 0.0
  scrollX := 0.0 / 0.0
  scrollY := -1.0 / 0.0
  zoom := 0.0 / 0.0

theorem moves_bounded_boundless :
    let turn : Move Float := .gesture (.zoomBy (1.0 / 0.0))
    let moves := [.resizeContent (1.0 / 0.0) (0.0 / 0.0), turn, .gesture (.drag boundless 1.0 0.0)]
    ¬(boundless.zoom = 0.0 ∨ boundless.zoom = -0.0) ∧
      (∃ w, boundless.moveAll? moves = some w ∧ w.Bounded) ∧
      ∃ w, boundless.move? turn = some w ∧ w.Bounded ∧ 0.1 ≤ w.zoom ∧ w.zoom ≤ 2.0 := by
  intro turn moves
  obtain ⟨-, hmoves, hruns⟩ := moves_bounded boundless
  have hzoom : ¬(boundless.zoom = 0.0 ∨ boundless.zoom = -0.0) := by decide +kernel
  refine ⟨hzoom, ?_, ?_⟩
  · obtain ⟨w, hw, hbounded⟩ := hruns hzoom moves
    exact ⟨w, hw, hbounded (List.cons_ne_nil _ _)⟩
  · have hsome : (boundless.move? turn).isSome = true := by decide +kernel
    obtain ⟨w, hw⟩ := Option.isSome_iff_exists.mp hsome
    obtain ⟨⟨hbounded, -⟩, hturn⟩ := hmoves turn w hw
    exact ⟨w, hw, hbounded, hturn ⟨_, rfl⟩⟩

end Viewport

end LiveTree.Viewer
