import PicHost.Lib.Run
import Mathlib.Algebra.Order.Field.Rat
import Mathlib.Algebra.Order.Field.Basic
import Mathlib.Tactic.FieldSimp
import Mathlib.Tactic.Linarith
import Mathlib.Tactic.NormNum
import Mathlib.Tactic.Ring

/-!
# Zooming an image

The state of `useImageZoom` in exact arithmetic. The image hangs on the offset of its center from
the center of the viewport.
-/

namespace PicHost.Web.ImageZoom

open LabelledRun

def maxZoom : ℚ := 8

def minScale : ℚ := 1 / 4

/-- `EPS`. -/
def eps : ℚ := 1 / 10 ^ 9

structure ZoomState where
  scale : ℚ
  offsetX : ℚ
  offsetY : ℚ
  fitScale : ℚ
  viewportW : ℚ
  viewportH : ℚ
  naturalW : ℚ
  naturalH : ℚ

def clamp (v lo hi : ℚ) : ℚ := min hi (max lo v)

/-- How far the image may be moved from the center along one axis. -/
def maxOffset (natural viewport scale : ℚ) : ℚ := max 0 ((natural * scale - viewport) / 2)

namespace ZoomState

def clampOffset (z : ZoomState) (scale offsetX offsetY : ℚ) : ZoomState :=
  let maxX := maxOffset z.naturalW z.viewportW scale
  let maxY := maxOffset z.naturalH z.viewportH scale
  { z with
    scale
    offsetX := clamp offsetX (-maxX) maxX
    offsetY := clamp offsetY (-maxY) maxY }

def init : ZoomState := ⟨1, 0, 0, 1, 0, 0, 0, 0⟩

/-- `open`. -/
def openImage (naturalW naturalH viewportW viewportH : ℚ) : ZoomState :=
  let fitScale :=
    if 0 < naturalW ∧ 0 < naturalH ∧ 0 < viewportW ∧ 0 < viewportH then
      min (min (viewportW / naturalW) (viewportH / naturalH)) 1
    else 1
  { scale := fitScale
    offsetX := 0
    offsetY := 0
    fitScale, viewportW, viewportH, naturalW, naturalH }

def nextScale (z : ZoomState) (factor : ℚ) : ℚ := clamp (z.scale * factor) minScale maxZoom

/-- The offset that keeps what is under the anchor in its place. -/
def rawOffset (z : ZoomState) (factor anchor offset : ℚ) : ℚ :=
  anchor - (anchor - offset) * (z.nextScale factor / z.scale)

def zoomAt (z : ZoomState) (factor anchorX anchorY : ℚ) : ZoomState :=
  z.clampOffset (z.nextScale factor) (z.rawOffset factor anchorX z.offsetX)
    (z.rawOffset factor anchorY z.offsetY)

def zoomBy (z : ZoomState) (factor : ℚ) : ZoomState :=
  let ratio := z.nextScale factor / z.scale
  z.clampOffset (z.nextScale factor) (z.offsetX * ratio) (z.offsetY * ratio)

def panBy (z : ZoomState) (dx dy : ℚ) : ZoomState :=
  z.clampOffset z.scale (z.offsetX + dx) (z.offsetY + dy)

def reset (z : ZoomState) : ZoomState := { z with scale := z.fitScale, offsetX := 0, offsetY := 0 }

def toggleFit (z : ZoomState) : ZoomState :=
  if |z.scale - z.fitScale| < eps then z.clampOffset (min 1 maxZoom) z.offsetX z.offsetY
  else z.reset

end ZoomState

abbrev Positive := {x : ℚ // 0 < x}

inductive Action
  | openImage (naturalW naturalH viewportW viewportH : Positive)
  | zoomAt (factor : Positive) (anchorX anchorY : ℚ)
  | zoomBy (factor : Positive)
  | panBy (dx dy : ℚ)
  | toggleFit
  | reset

def step (z : ZoomState) : Action → ZoomState
  | .openImage naturalW naturalH viewportW viewportH =>
    .openImage naturalW naturalH viewportW viewportH
  | .zoomAt factor anchorX anchorY => z.zoomAt factor anchorX anchorY
  | .zoomBy factor => z.zoomBy factor
  | .panBy dx dy => z.panBy dx dy
  | .toggleFit => z.toggleFit
  | .reset => z.reset

/-- The factor of a step that zooms. -/
def Action.factor : Action → Option ℚ
  | .zoomAt factor _ _ => some factor
  | .zoomBy factor => some factor
  | _ => none

structure InBounds (z : ZoomState) : Prop where
  offsetX : |z.offsetX| ≤ maxOffset z.naturalW z.viewportW z.scale
  offsetY : |z.offsetY| ≤ maxOffset z.naturalH z.viewportH z.scale
  low : min minScale z.fitScale ≤ z.scale
  high : z.scale ≤ maxZoom

/-- The point of the image, from its center, that a point of the viewport shows. -/
def shown (anchor offset scale : ℚ) : ℚ := (anchor - offset) / scale

/-- A factor less than 1 makes nothing larger and one over 1 nothing smaller, and what is under
the anchor of `zoomAt` stays there unless something is clamped. -/
structure StepLaw (z : ZoomState) (a : Action) : Prop where
  shrinks : ∀ factor ∈ a.factor, factor < 1 → (step z a).scale ≤ z.scale
  grows : ∀ factor ∈ a.factor, 1 < factor → z.scale ≤ (step z a).scale
  anchored : ∀ factor anchorX anchorY, a = .zoomAt factor anchorX anchorY →
    (step z a).scale = z.scale * factor →
    (step z a).offsetX = z.rawOffset factor anchorX z.offsetX →
    (step z a).offsetY = z.rawOffset factor anchorY z.offsetY →
      shown anchorX (step z a).offsetX (step z a).scale = shown anchorX z.offsetX z.scale ∧
        shown anchorY (step z a).offsetY (step z a).scale = shown anchorY z.offsetY z.scale

/-- Zooming out starts from the least scale or above. -/
def FromAbove (z : ZoomState) (a : Action) : Prop :=
  ∀ factor ∈ a.factor, factor < 1 → minScale ≤ z.scale

/-! ## What every step keeps -/

theorem abs_clamp_le {v m : ℚ} (hm : 0 ≤ m) : |clamp v (-m) m| ≤ m := by
  rw [abs_le, clamp]
  exact ⟨le_min (by linarith) (le_max_left _ _), min_le_left _ _⟩

theorem maxOffset_nonneg (natural viewport scale : ℚ) : 0 ≤ maxOffset natural viewport scale :=
  le_max_left _ _

/-- The fit scale, and with it every scale, is positive. -/
structure Tracked (z : ZoomState) : Prop extends InBounds z where
  fit_pos : 0 < z.fitScale
  fit_le : z.fitScale ≤ 1

section Steps

variable {z : ZoomState}

theorem Tracked.scale_pos (h : Tracked z) : 0 < z.scale :=
  (lt_min (by norm_num [minScale]) h.fit_pos).trans_le h.low

theorem Tracked.clampOffset (h : Tracked z) {scale : ℚ} (hlow : min minScale z.fitScale ≤ scale)
    (hhigh : scale ≤ maxZoom) (offsetX offsetY : ℚ) :
    Tracked (z.clampOffset scale offsetX offsetY) where
  offsetX := abs_clamp_le (maxOffset_nonneg _ _ _)
  offsetY := abs_clamp_le (maxOffset_nonneg _ _ _)
  low := hlow
  high := hhigh
  fit_pos := h.fit_pos
  fit_le := h.fit_le

theorem nextScale_bounds (z : ZoomState) (factor : ℚ) :
    minScale ≤ z.nextScale factor ∧ z.nextScale factor ≤ maxZoom :=
  ⟨le_min (by norm_num [minScale, maxZoom]) (le_max_left _ _), min_le_left _ _⟩

theorem Tracked.zoom (h : Tracked z) (factor offsetX offsetY : ℚ) :
    Tracked (z.clampOffset (z.nextScale factor) offsetX offsetY) :=
  h.clampOffset ((min_le_left _ _).trans (nextScale_bounds z factor).1)
    (nextScale_bounds z factor).2 _ _

theorem Tracked.reset (h : Tracked z) : Tracked z.reset where
  offsetX := abs_zero.trans_le (maxOffset_nonneg _ _ _)
  offsetY := abs_zero.trans_le (maxOffset_nonneg _ _ _)
  low := min_le_right _ _
  high := h.fit_le.trans (by norm_num [maxZoom])
  fit_pos := h.fit_pos
  fit_le := h.fit_le

theorem tracked_openImage (naturalW naturalH viewportW viewportH : ℚ) :
    Tracked (.openImage naturalW naturalH viewportW viewportH) := by
  have hfit : 0 < (ZoomState.openImage naturalW naturalH viewportW viewportH).fitScale ∧
      (ZoomState.openImage naturalW naturalH viewportW viewportH).fitScale ≤ 1 := by
    rw [ZoomState.openImage]
    dsimp only
    split
    · rename_i hpos
      obtain ⟨hw, hh, hvw, hvh⟩ := hpos
      exact ⟨lt_min (lt_min (div_pos hvw hw) (div_pos hvh hh)) one_pos, min_le_right _ _⟩
    · exact ⟨one_pos, le_rfl⟩
  exact {
    offsetX := abs_zero.trans_le (maxOffset_nonneg _ _ _)
    offsetY := abs_zero.trans_le (maxOffset_nonneg _ _ _)
    low := min_le_right _ _
    high := hfit.2.trans (by norm_num [maxZoom])
    fit_pos := hfit.1
    fit_le := hfit.2 }

theorem tracked_step (z : ZoomState) (a : Action) (h : Tracked z) : Tracked (step z a) := by
  cases a with
  | openImage naturalW naturalH viewportW viewportH => exact tracked_openImage ..
  | zoomAt factor anchorX anchorY => exact h.zoom ..
  | zoomBy factor => exact h.zoom ..
  | panBy dx dy => exact h.clampOffset h.low h.high _ _
  | toggleFit =>
    change Tracked z.toggleFit
    unfold ZoomState.toggleFit
    split
    · -- One pixel for one is between the least scale and the greatest.
      refine h.clampOffset ?_ (min_le_right _ _) _ _
      exact (min_le_left _ _).trans (by norm_num [minScale, maxZoom])
    · exact h.reset
  | reset => exact h.reset

theorem tracked_init : Tracked .init where
  offsetX := abs_zero.trans_le (maxOffset_nonneg _ _ _)
  offsetY := abs_zero.trans_le (maxOffset_nonneg _ _ _)
  low := min_le_right _ _
  high := by norm_num [ZoomState.init, maxZoom]
  fit_pos := by norm_num [ZoomState.init]
  fit_le := le_rfl

/-! ## Zooming -/

/-- Both ways of zooming come to the same scale. -/
theorem scale_step {a : Action} {factor : ℚ} (h : factor ∈ a.factor) :
    (step z a).scale = z.nextScale factor ∧ 0 < factor := by
  cases a with
  | zoomAt factor' anchorX anchorY =>
    obtain rfl := Option.some.inj h
    exact ⟨rfl, factor'.2⟩
  | zoomBy factor' =>
    obtain rfl := Option.some.inj h
    exact ⟨rfl, factor'.2⟩
  | openImage => cases h
  | panBy => cases h
  | toggleFit => cases h
  | reset => cases h

theorem le_nextScale (h : Tracked z) {factor : ℚ} (hfactor : 1 < factor) :
    z.scale ≤ z.nextScale factor := by
  refine le_min h.high (le_max_of_le_right ?_)
  exact le_mul_of_one_le_right h.scale_pos.le hfactor.le

/-- Below the least scale a step out is a step in. -/
theorem nextScale_le_iff (h : Tracked z) {factor : ℚ} (hfactor : factor < 1) :
    z.nextScale factor ≤ z.scale ↔ minScale ≤ z.scale := by
  have hless : z.scale * factor < z.scale := mul_lt_of_lt_one_right h.scale_pos hfactor
  constructor
  · -- The scale that comes next is never below the least.
    exact (nextScale_bounds z factor).1.trans
  · exact fun hlow => (min_le_right _ _).trans (max_le hlow hless.le)

theorem shown_rawOffset (h : Tracked z) {factor : ℚ} (hfactor : 0 < factor) (anchor offset : ℚ)
    (hscale : z.nextScale factor = z.scale * factor) :
    shown anchor (z.rawOffset factor anchor offset) (z.scale * factor) =
      shown anchor offset z.scale := by
  -- Without the clamp the ratio of the scales is the factor.
  have hpos := h.scale_pos
  rw [shown, shown, ZoomState.rawOffset, hscale]
  field_simp
  ring

theorem stepLaw_iff (h : Tracked z) (a : Action) : StepLaw z a ↔ FromAbove z a := by
  constructor
  · intro hlaw factor hfactor hless
    have hshrinks := hlaw.shrinks factor hfactor hless
    rw [(scale_step hfactor).1] at hshrinks
    exact (nextScale_le_iff h hless).mp hshrinks
  · intro habove
    refine ⟨fun factor hfactor hless => ?_, fun factor hfactor hmore => ?_, ?_⟩
    · rw [(scale_step hfactor).1]
      exact (nextScale_le_iff h hless).mpr (habove factor hfactor hless)
    · rw [(scale_step hfactor).1]
      exact le_nextScale h hmore
    · rintro factor anchorX anchorY rfl hscale hoffsetX hoffsetY
      rw [hoffsetX, hoffsetY, hscale]
      exact ⟨shown_rawOffset h factor.2 anchorX _ hscale,
        shown_rawOffset h factor.2 anchorY _ hscale⟩

end Steps

/-- Every state is in bounds, and the steps keep their law exactly if none of them zooms out from
below the least scale. -/
theorem zoomLaw_iff (as : List Action) :
    (AllStates step InBounds .init as ∧ AllSteps step StepLaw .init as) ↔
      AllSteps step FromAbove .init as := by
  have hbounds : AllStates step InBounds .init as :=
    AllStates.imp_of_invariant tracked_step (fun _ h _ => h.toInBounds) tracked_init
      (AllStates.of_forall (P := fun _ => True) (fun _ => trivial) _ as)
  rw [and_iff_right hbounds]
  exact allSteps_congr tracked_step (fun z a h => stepLaw_iff h a) tracked_init as

/-- The button for zooming out, on an image that fits at a twentieth of its size. -/
def zoomOutLarge : List Action :=
  [.openImage ⟨10000, by norm_num⟩ ⟨10000, by norm_num⟩ ⟨500, by norm_num⟩ ⟨500, by norm_num⟩,
    .zoomBy ⟨4 / 5, by norm_num⟩]

/-- The image comes up five times as large. -/
theorem zoomOut_enlarges : ¬ ∀ as : List Action,
    AllStates step InBounds .init as ∧ AllSteps step StepLaw .init as := by
  intro h
  have hlaw := (h zoomOutLarge).2.2.1
  have hshrinks := hlaw.shrinks (4 / 5) rfl (by norm_num)
  exact absurd hshrinks (by decide +kernel)

end PicHost.Web.ImageZoom
