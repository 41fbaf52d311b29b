import LiveTree.Proofs.Viewer.Bounds

namespace LiveTree.Viewer

section Clamp

variable {low high : Rat}

theorem clamp_eq_min_max (x low high : Rat) : clamp x low high = min (max low x) high := by
  have hgreater : greater low x = max low x := by
    rw [max_def_lt]
    simp only [greater, Measure.less, decide_eq_true_eq]
  have hlesser (a b : Rat) : lesser a b = min a b := by
    rw [min_comm, min_def_lt]
    simp only [lesser, Measure.less, decide_eq_true_eq]
  rw [clamp, hgreater, hlesser]

theorem clamp_of_mem {x : Rat} (h : x ∈ Set.Icc low high) : clamp x low high = x := by
  rw [clamp_eq_min_max, max_eq_right h.1, min_eq_left h.2]

/-- The point of a range that is nearest to a target: all others are further away. -/
structure Nearest (low high target point : Rat) : Prop where
  mem : point ∈ Set.Icc low high
  closest : ∀ other ∈ Set.Icc low high, other ≠ point → |point - target| < |other - target|

theorem nearest_clamp (h : low ≤ high) (target : Rat) :
    Nearest low high target (clamp target low high) := by
  rcases lt_or_ge target low with hbelow | hlow
  · have hclamp : clamp target low high = low := by
      rw [clamp_eq_min_max, max_eq_left hbelow.le, min_eq_left h]
    rw [hclamp]
    refine ⟨Set.left_mem_Icc.mpr h, fun other hother hne => ?_⟩
    have hlt : low < other := lt_of_le_of_ne hother.1 hne.symm
    rw [abs_of_pos (by linarith), abs_of_pos (by linarith)]
    linarith
  rcases lt_or_ge high target with habove | hhigh
  · have hclamp : clamp target low high = high := by
      rw [clamp_eq_min_max, max_eq_right hlow, min_eq_right habove.le]
    rw [hclamp]
    refine ⟨Set.right_mem_Icc.mpr h, fun other hother hne => ?_⟩
    have hlt : other < high := lt_of_le_of_ne hother.2 hne
    rw [abs_of_neg (by linarith), abs_of_neg (by linarith)]
    linarith
  · rw [clamp_of_mem ⟨hlow, hhigh⟩]
    refine ⟨⟨hlow, hhigh⟩, fun other _ hne => ?_⟩
    rw [sub_self, abs_zero]
    exact abs_pos.mpr (sub_ne_zero.mpr hne)

end Clamp

namespace Viewport

/-- How far to scroll for the centre of a view to stay in place while the content grows by a
ratio. -/
def aim (scroll size ratio : Rat) : Rat := (scroll + size / 2.0) * ratio - size / 2.0

theorem aim_aim {ratio back : Rat} (h : ratio * back = 1) (scroll size : Rat) :
    aim (aim scroll size ratio) size back = scroll := by
  have hcentre : aim scroll size ratio + size / 2.0 = (scroll + size / 2.0) * ratio := by
    rw [aim, sub_add_cancel]
  rw [aim, hcentre, mul_assoc, h, mul_one, add_sub_cancel_right]

/-- A scroll as it was aimed at leaves the centre of the view above the same point of the content,
which is measured without its zoom. -/
theorem aim_centre {zoom other : Rat} (hother : other ≠ 0) (scroll size : Rat) :
    (aim scroll size (other / zoom) + size / 2.0) / other = (scroll + size / 2.0) / zoom := by
  rw [aim, sub_add_cancel, mul_div_assoc, div_div_cancel_left' hother]
  exact (div_eq_mul_inv _ _).symm

/-- All that turning the wheel by `delta` does to a viewport. -/
structure Turned (v : Viewport Rat) (delta : Rat) (w : Viewport Rat) : Prop where
  zoom : w.zoom = clampZoom (v.zoom - delta / zoomStep)
  width : w.width = v.width
  height : w.height = v.height
  contentWidth : w.contentWidth = v.contentWidth * (w.zoom / v.zoom)
  contentHeight : w.contentHeight = v.contentHeight * (w.zoom / v.zoom)
  scrollX : w.scrollX = clamp (aim v.scrollX v.width (w.zoom / v.zoom)) 0.0 w.maxScrollX
  scrollY : w.scrollY = clamp (aim v.scrollY v.height (w.zoom / v.zoom)) 0.0 w.maxScrollY

variable {v w : Viewport Rat} {delta : Rat}

theorem turned_of_zoomBy (h : v.zoomBy? delta = some w) : v.Turned delta w := by
  unfold zoomBy? at h
  split_ifs at h
  obtain rfl := Option.some.inj h
  exact ⟨rfl, rfl, rfl, rfl, rfl, rfl, rfl⟩

theorem Turned.unique {u : Viewport Rat} (hu : v.Turned delta u) (hw : v.Turned delta w) :
    u = w := by
  have hzoom : u.zoom = w.zoom := hu.zoom.trans hw.zoom.symm
  have hwidth : u.width = w.width := hu.width.trans hw.width.symm
  have hheight : u.height = w.height := hu.height.trans hw.height.symm
  have hcontentWidth : u.contentWidth = w.contentWidth := by
    rw [hu.contentWidth, hw.contentWidth, hzoom]
  have hcontentHeight : u.contentHeight = w.contentHeight := by
    rw [hu.contentHeight, hw.contentHeight, hzoom]
  have hscrollX : u.scrollX = w.scrollX := by
    rw [hu.scrollX, hw.scrollX, maxScrollX, maxScrollX, hcontentWidth, hwidth, hzoom]
  have hscrollY : u.scrollY = w.scrollY := by
    rw [hu.scrollY, hw.scrollY, maxScrollY, maxScrollY, hcontentHeight, hheight, hzoom]
  cases u
  cases w
  exact (mk.injEq ..).mpr
    ⟨hwidth, hheight, hcontentWidth, hcontentHeight, hscrollX, hscrollY, hzoom⟩

theorem exists_zoomBy (hzoom : v.zoom ≠ 0) (delta : Rat) :
    ∃ w, v.zoomBy? delta = some w ∧ v.Turned delta w := by
  cases hturn : v.zoomBy? delta with
  | some w => exact ⟨w, rfl, turned_of_zoomBy hturn⟩
  | none =>
    have hzero : v.zoom = 0.0 := beq_iff_eq.mp (zoomBy_eq_none.mp hturn)
    norm_num at hzero
    exact absurd hzero hzoom

theorem zoomBy_of_turned (hzoom : v.zoom ≠ 0) (turned : v.Turned delta w) :
    v.zoomBy? delta = some w := by
  obtain ⟨u, hu, hturned⟩ := exists_zoomBy hzoom delta
  rw [hu, hturned.unique turned]

theorem Turned.zoom_pos (turned : v.Turned delta w) : 0 < w.zoom := by
  have hbound : (0.1 : Rat) ≤ w.zoom := by
    rw [turned.zoom]
    exact (clamp_bounds Measure.Ordered.zooms _).1
  linarith

theorem zero_le_limit (length : Rat) : 0.0 ≤ greater 0.0 length :=
  le_greater Measure.Ordered.zero length

/-- A turn that met no limit is undone by turning the wheel back. -/
theorem Turned.back (turned : v.Turned delta w) (hzoom : v.zoom ∈ Set.Icc 0.1 2.0)
    (hscrollX : v.scrollX ∈ Set.Icc 0.0 v.maxScrollX)
    (hscrollY : v.scrollY ∈ Set.Icc 0.0 v.maxScrollY)
    (zoom_free : v.zoom - delta / zoomStep ∈ Set.Icc 0.1 2.0)
    (scrollX_free : aim v.scrollX v.width (w.zoom / v.zoom) ∈ Set.Icc 0.0 w.maxScrollX)
    (scrollY_free : aim v.scrollY v.height (w.zoom / v.zoom) ∈ Set.Icc 0.0 w.maxScrollY) :
    w.Turned (-delta) v := by
  have hv : v.zoom ≠ 0 := by
    have hlow := hzoom.1
    exact (show 0 < v.zoom by linarith).ne'
  have hw : w.zoom ≠ 0 := turned.zoom_pos.ne'
  have hratio : w.zoom / v.zoom * (v.zoom / w.zoom) = 1 := by field_simp
  have hcontent (length : Rat) : length = length * (w.zoom / v.zoom) * (v.zoom / w.zoom) := by
    rw [mul_assoc, hratio, mul_one]
  refine ⟨?_, turned.width.symm, turned.height.symm, ?_, ?_, ?_, ?_⟩
  · have hback : w.zoom - -delta / zoomStep = v.zoom := by
      rw [turned.zoom, clampZoom, clamp_of_mem zoom_free, neg_div, sub_neg_eq_add, sub_add_cancel]
    rw [hback]
    exact (clamp_of_mem hzoom).symm
  · rw [turned.contentWidth]
    exact hcontent _
  · rw [turned.contentHeight]
    exact hcontent _
  · rw [turned.scrollX, clamp_of_mem scrollX_free, turned.width, aim_aim hratio]
    exact (clamp_of_mem hscrollX).symm
  · rw [turned.scrollY, clamp_of_mem scrollY_free, turned.height, aim_aim hratio]
    exact (clamp_of_mem hscrollY).symm

/-- Turning the wheel takes the zoom as near as its limits allow to what was asked for, and the
content with it. The scroll ends as near as it can to where the centre of the view stays in place:
if that is in range, the centre is above the same point of the content as before, measured without
its zoom. A turn that meets no limit is undone by turning the wheel back. -/
theorem zoomBy_keeps_centre {v : Viewport Rat} (hzoom : v.zoom ≠ 0) (delta : Rat) :
    ∃ w, v.zoomBy? delta = some w ∧
      let ratio := w.zoom / v.zoom
      let aimX := aim v.scrollX v.width ratio
      let aimY := aim v.scrollY v.height ratio
      Nearest 0.1 2.0 (v.zoom - delta / 1000.0) w.zoom ∧
      (w.contentWidth = v.contentWidth * ratio ∧ w.contentHeight = v.contentHeight * ratio) ∧
      (Nearest 0.0 w.maxScrollX aimX w.scrollX ∧ Nearest 0.0 w.maxScrollY aimY w.scrollY) ∧
      (aimX ∈ Set.Icc 0.0 w.maxScrollX →
        (w.scrollX + w.width / 2.0) / w.zoom = (v.scrollX + v.width / 2.0) / v.zoom) ∧
      (aimY ∈ Set.Icc 0.0 w.maxScrollY →
        (w.scrollY + w.height / 2.0) / w.zoom = (v.scrollY + v.height / 2.0) / v.zoom) ∧
      (v.zoom ∈ Set.Icc 0.1 2.0 → v.scrollX ∈ Set.Icc 0.0 v.maxScrollX →
        v.scrollY ∈ Set.Icc 0.0 v.maxScrollY → v.zoom - delta / 1000.0 ∈ Set.Icc 0.1 2.0 →
        aimX ∈ Set.Icc 0.0 w.maxScrollX → aimY ∈ Set.Icc 0.0 w.maxScrollY →
        w.zoomBy? (-delta) = some v) := by
  obtain ⟨w, hw, turned⟩ := exists_zoomBy hzoom delta
  have hpos : w.zoom ≠ 0 := turned.zoom_pos.ne'
  refine ⟨w, hw, ?_, ⟨turned.contentWidth, turned.contentHeight⟩, ⟨?_, ?_⟩, ?_, ?_, ?_⟩
  · rw [turned.zoom]
    exact nearest_clamp Measure.Ordered.zooms _
  · rw [turned.scrollX]
    exact nearest_clamp (zero_le_limit _) _
  · rw [turned.scrollY]
    exact nearest_clamp (zero_le_limit _) _
  · intro hmem
    rw [turned.scrollX, clamp_of_mem hmem, turned.width]
    exact aim_centre hpos _ _
  · intro hmem
    rw [turned.scrollY, clamp_of_mem hmem, turned.height]
    exact aim_centre hpos _ _
  · intro hrange hscrollX hscrollY zoom_free scrollX_free scrollY_free
    exact zoomBy_of_turned hpos
      (turned.back hrange hscrollX hscrollY zoom_free scrollX_free scrollY_free)

/-- The wheel is turned and turned back above the middle of a drawing. -/
theorem zoomBy_keeps_centre_middle :
    let v : Viewport Rat := ⟨200, 100, 2000, 1000, 400, 200, 1⟩
    let w : Viewport Rat := ⟨200, 100, 3000, 1500, 650, 325, 1.5⟩
    v.zoom ≠ 0 ∧ v.zoomBy? (-500) = some w ∧ Nearest 0.0 w.maxScrollX 650 w.scrollX ∧
      (w.scrollX + w.width / 2.0) / w.zoom = (v.scrollX + v.width / 2.0) / v.zoom ∧
      w.zoomBy? 500 = some v := by
  intro v w
  have hzoom : v.zoom ≠ 0 := one_ne_zero
  have turned : v.Turned (-500) w := by
    refine ⟨?_, rfl, rfl, ?_, ?_, ?_, ?_⟩ <;> decide +kernel
  have hturn : v.zoomBy? (-500) = some w := zoomBy_of_turned hzoom turned
  obtain ⟨u, hu, -, -, ⟨hnearest, -⟩, hcentre, -, hback⟩ := zoomBy_keeps_centre hzoom (-500)
  obtain rfl := Option.some.inj (hturn.symm.trans hu)
  have haimX : aim v.scrollX v.width (w.zoom / v.zoom) = 650 := by decide +kernel
  have haimY : aim v.scrollY v.height (w.zoom / v.zoom) = 325 := by decide +kernel
  have hrangeX : (650 : Rat) ∈ Set.Icc 0.0 w.maxScrollX := ⟨by decide +kernel, by decide +kernel⟩
  have hrangeY : (325 : Rat) ∈ Set.Icc 0.0 w.maxScrollY := ⟨by decide +kernel, by decide +kernel⟩
  rw [haimX] at hnearest hcentre
  rw [haimX, haimY, neg_neg] at hback
  refine ⟨hzoom, hu, hnearest, hcentre hrangeX, ?_⟩
  refine hback ⟨?_, ?_⟩ ⟨?_, ?_⟩ ⟨?_, ?_⟩ ⟨?_, ?_⟩ hrangeX hrangeY <;> decide +kernel

end Viewport

end LiveTree.Viewer
