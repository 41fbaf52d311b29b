namespace LiveTree.Viewer

/-- Numbers that a viewport is measured in. -/
class Measure (R : Type) extends Add R, Sub R, Mul R, Div R, BEq R, OfScientific R where
  less : R → R → Bool

instance : Measure Float where
  less a b := a < b

instance : Measure Rat where
  less a b := a < b

variable {R : Type} [Measure R]

/-- The first of two numbers unless the second is greater. -/
def greater (a b : R) : R := if Measure.less a b then b else a

/-- The first of two numbers unless the second is less. -/
def lesser (a b : R) : R := if Measure.less b a then b else a

def clamp (value low high : R) : R := lesser (greater low value) high

def clampZoom (zoom : R) : R := clamp zoom 0.1 2.0

/-- The wheel movement that changes the zoom by one. -/
def zoomStep : R := 1000.0

inductive Button where
  | left
  | right
  | other
  deriving DecidableEq, Repr

/-- The left button pans on the background only, the right one everywhere. -/
def shouldPan : Button → (onBackground : Bool) → Bool
  | .left, onBackground => onBackground
  | .right, _ => true
  | .other, _ => false

/-- A window onto a drawing. -/
structure Viewport (R : Type) where
  width : R
  height : R
  contentWidth : R
  contentHeight : R
  scrollX : R
  scrollY : R
  zoom : R

namespace Viewport

def initial : Viewport R := ⟨0.0, 0.0, 0.0, 0.0, 0.0, 0.0, 1.0⟩

def maxScrollX (v : Viewport R) : R := greater 0.0 (v.contentWidth - v.width)

def maxScrollY (v : Viewport R) : R := greater 0.0 (v.contentHeight - v.height)

def scrollTo (v : Viewport R) (x y : R) : Viewport R :=
  { v with scrollX := clamp x 0.0 v.maxScrollX, scrollY := clamp y 0.0 v.maxScrollY }

def clampScroll (v : Viewport R) : Viewport R := v.scrollTo v.scrollX v.scrollY

/-- Takes a new content size and keeps the scroll where it still fits. -/
def resizeContent (v : Viewport R) (width height : R) : Viewport R :=
  { v with contentWidth := width, contentHeight := height }.clampScroll

/-- Pans by the movement since the pointer went down at `start`. -/
def drag (v start : Viewport R) (dx dy : R) : Viewport R :=
  v.scrollTo (start.scrollX - dx) (start.scrollY - dy)

/-- Turns the wheel by `delta` and keeps the centre of the view in place. A zoom of zero cannot
change by any ratio. -/
def zoomBy? (v : Viewport R) (delta : R) : Option (Viewport R) :=
  let zoom := clampZoom (v.zoom - delta / zoomStep)
  if v.zoom == 0.0 then none
  else
    let ratio := zoom / v.zoom
    let zoomed := { v with
      zoom
      contentWidth := v.contentWidth * ratio
      contentHeight := v.contentHeight * ratio }
    some (zoomed.scrollTo
      ((v.scrollX + v.width / 2.0) * ratio - v.width / 2.0)
      ((v.scrollY + v.height / 2.0) * ratio - v.height / 2.0))

@[simp] theorem zoom_scrollTo (v : Viewport R) (x y : R) : (v.scrollTo x y).zoom = v.zoom := rfl

@[simp] theorem contentWidth_scrollTo (v : Viewport R) (x y : R) :
    (v.scrollTo x y).contentWidth = v.contentWidth := rfl

@[simp] theorem contentHeight_scrollTo (v : Viewport R) (x y : R) :
    (v.scrollTo x y).contentHeight = v.contentHeight := rfl

@[simp] theorem width_scrollTo (v : Viewport R) (x y : R) : (v.scrollTo x y).width = v.width := rfl

@[simp] theorem height_scrollTo (v : Viewport R) (x y : R) :
    (v.scrollTo x y).height = v.height := rfl

end Viewport

end LiveTree.Viewer
