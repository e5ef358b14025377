import PicHost.Web.ImageProcessor
import Mathlib.Algebra.Order.Group.Pointwise.Interval
import Mathlib.Data.Rat.Floor
import Mathlib.Data.Set.Prod
import Mathlib.Tactic.FieldSimp
import Mathlib.Tactic.Linarith

/-!
# What is drawn on the canvas

The arithmetic is exact. A point of the picture is drawn where `drawImage` puts it in its
rectangle, after the rotation and the translation of the context.
-/

namespace PicHost.Web.CanvasGeometry

structure Size where
  width : ℚ
  height : ℚ

structure Source extends Size where
  width_pos : 0 < width
  height_pos : 0 < height

structure ResizePrefs where
  enabled : Bool
  maxWidth : ℚ
  maxHeight : ℚ
  maxWidth_pos : 0 < maxWidth
  maxHeight_pos : 0 < maxHeight

structure Prefs where
  resize : ResizePrefs
  rotate : RotatePrefs

/-- `Math.round`. -/
def round (x : ℚ) : ℤ := ⌊x + 1 / 2⌋

def scaleDimensions (src : Size) (maxW maxH : ℚ) : Size :=
  if src.width ≤ maxW ∧ src.height ≤ maxH then src
  else
    let ratio := min (maxW / src.width) (maxH / src.height)
    ⟨round (src.width * ratio), round (src.height * ratio)⟩

def swapDimensions (rotate : RotatePrefs) : Bool :=
  match rotate.degrees with
  | .quarter | .threeQuarter => rotate.enabled
  | .none | .half => false

/-- The source as it stands after the rotation. -/
def rotated (src : Source) (prefs : Prefs) : Size :=
  if swapDimensions prefs.rotate then ⟨src.height, src.width⟩ else src.toSize

def target (src : Source) (prefs : Prefs) : Size :=
  if prefs.resize.enabled then
    scaleDimensions (rotated src prefs) prefs.resize.maxWidth prefs.resize.maxHeight
  else rotated src prefs

/-- A canvas has a whole number of pixels either way. -/
def canvas (src : Source) (prefs : Prefs) : ℤ × ℤ :=
  (⌊(target src prefs).width⌋, ⌊(target src prefs).height⌋)

/-- `prefs.rotate.enabled && prefs.rotate.degrees !== 0`. -/
def turns (rotate : RotatePrefs) : Bool :=
  match rotate.degrees with
  | .none => false
  | .quarter | .half | .threeQuarter => rotate.enabled

/-- `translate` and `rotate`, which turns clockwise. -/
def transform (t : Size) (degrees : Degrees) (p : ℚ × ℚ) : ℚ × ℚ :=
  match degrees with
  | .none => p
  | .quarter => (t.width - p.2, p.1)
  | .half => (t.width - p.1, t.height - p.2)
  | .threeQuarter => (p.2, t.height - p.1)

/-- Where a point of the source comes to in the rectangle from the origin. -/
def drawImage (src rect : Size) (p : ℚ × ℚ) : ℚ × ℚ :=
  (p.1 * (rect.width / src.width), p.2 * (rect.height / src.height))

/-- Where a point of the source is drawn. -/
def drawn (src : Source) (prefs : Prefs) (p : ℚ × ℚ) : ℚ × ℚ :=
  let t := target src prefs
  if turns prefs.rotate then
    -- `srcW` and `srcH`, not the target's sides.
    transform t prefs.rotate.degrees (drawImage src.toSize src.toSize p)
  else drawImage src.toSize t p

def rectangle (width height : ℚ) : Set (ℚ × ℚ) := Set.Icc 0 width ×ˢ Set.Icc 0 height

def Covers (src : Source) (prefs : Prefs) : Prop :=
  drawn src prefs '' rectangle src.width src.height =
    rectangle (canvas src prefs).1 (canvas src prefs).2

structure GeometryLaw (src : Source) (prefs : Prefs) : Prop where
  positive : 1 ≤ (canvas src prefs).1 ∧ 1 ≤ (canvas src prefs).2
  withinLimits : prefs.resize.enabled = true →
    (canvas src prefs).1 ≤ prefs.resize.maxWidth ∧ (canvas src prefs).2 ≤ prefs.resize.maxHeight
  notLarger : (canvas src prefs).1 ≤ (rotated src prefs).width ∧
    (canvas src prefs).2 ≤ (rotated src prefs).height
  covers : Covers src prefs

/-- The rotated source is larger than the limits. -/
def Scaled (src : Source) (prefs : Prefs) : Prop :=
  prefs.resize.enabled = true ∧ ¬ ((rotated src prefs).width ≤ prefs.resize.maxWidth ∧
    (rotated src prefs).height ≤ prefs.resize.maxHeight)

/-- The side is rounded up to one pixel or more, and not beyond the bound. -/
def Rounds (side bound : ℚ) : Prop := 1 / 2 ≤ side ∧ side < ⌊bound⌋ + 1 / 2

def Whole (x : ℚ) : Prop := x ≤ ⌊x⌋

/-- Without scaling the sides are whole. With it the picture is not turned, and each scaled side
rounds within its limit and within the side of the source. -/
structure Fits (src : Source) (prefs : Prefs) : Prop where
  whole : ¬ Scaled src prefs → Whole src.width ∧ Whole src.height
  unturned : Scaled src prefs → turns prefs.rotate = false
  width : Scaled src prefs →
    Rounds (min prefs.resize.maxWidth (prefs.resize.maxHeight * src.width / src.height))
      (min prefs.resize.maxWidth src.width)
  height : Scaled src prefs →
    Rounds (min prefs.resize.maxHeight (prefs.resize.maxWidth * src.height / src.width))
      (min prefs.resize.maxHeight src.height)

/-! ## Numbers -/

theorem one_le_round_iff {x : ℚ} : 1 ≤ round x ↔ 1 / 2 ≤ x := by
  rw [round, Int.le_floor, Int.cast_one]
  constructor
  · intro h
    linarith
  · intro h
    linarith

theorem round_le_iff {x bound : ℚ} : (round x : ℚ) ≤ bound ↔ x < ⌊bound⌋ + 1 / 2 := by
  rw [← Int.le_floor, round, ← Int.lt_add_one_iff, Int.floor_lt, Int.cast_add, Int.cast_one]
  constructor
  · intro h
    linarith
  · intro h
    linarith

theorem rounds_iff {side limit bound : ℚ} : Rounds side (min limit bound) ↔
    1 ≤ round side ∧ (round side : ℚ) ≤ limit ∧ (round side : ℚ) ≤ bound := by
  rw [Rounds, one_le_round_iff, ← round_le_iff, le_min_iff]

theorem mul_ratio_left {w h maxW maxH : ℚ} (hw : 0 < w) :
    w * min (maxW / w) (maxH / h) = min maxW (maxH * w / h) := by
  rw [mul_min_of_nonneg _ _ hw.le, mul_div_cancel₀ _ hw.ne', mul_div_assoc', mul_comm w]

theorem mul_ratio_right {w h maxW maxH : ℚ} (hh : 0 < h) :
    h * min (maxW / w) (maxH / h) = min maxH (maxW * h / w) := by
  rw [min_comm, mul_ratio_left hh]

/-! ## Rectangles -/

theorem mem_rectangle {p : ℚ × ℚ} {w h : ℚ} :
    p ∈ rectangle w h ↔ (0 ≤ p.1 ∧ p.1 ≤ w) ∧ 0 ≤ p.2 ∧ p.2 ≤ h := Iff.rfl

theorem image_drawImage (src : Source) {rect : Size} (hw : 0 ≤ rect.width)
    (hh : 0 ≤ rect.height) : drawImage src.toSize rect '' rectangle src.width src.height =
      rectangle rect.width rect.height := by
  have hwidth : (· * (rect.width / src.width)) '' Set.Icc 0 src.width = Set.Icc 0 rect.width := by
    rw [Set.image_mul_right_Icc src.width_pos.le (div_nonneg hw src.width_pos.le), zero_mul,
      mul_div_cancel₀ _ src.width_pos.ne']
  have hheight : (· * (rect.height / src.height)) '' Set.Icc 0 src.height =
      Set.Icc 0 rect.height := by
    rw [Set.image_mul_right_Icc src.height_pos.le (div_nonneg hh src.height_pos.le), zero_mul,
      mul_div_cancel₀ _ src.height_pos.ne']
  rw [rectangle, rectangle, ← hwidth, ← hheight, Set.prod_image_image_eq]
  rfl

theorem image_sub (x : ℚ) : (fun y => x - y) '' Set.Icc 0 x = Set.Icc 0 x := by
  rw [Set.image_const_sub_Icc, sub_self, sub_zero]

/-- A rotated picture of the size of the canvas is drawn on all of it. -/
theorem image_transform (w h : ℚ) :
    transform ⟨h, w⟩ .quarter '' rectangle w h = rectangle h w ∧
      transform ⟨w, h⟩ .half '' rectangle w h = rectangle w h ∧
      transform ⟨h, w⟩ .threeQuarter '' rectangle w h = rectangle h w := by
  refine ⟨?_, ?_, ?_⟩
  -- A turn is a reflection along the axes, after the axes are swapped for quarters.
  · have hcomp : transform ⟨h, w⟩ .quarter =
        (fun p : ℚ × ℚ => ((fun y => h - y) p.1, id p.2)) ∘ Prod.swap := rfl
    rw [hcomp, Set.image_comp, rectangle, Set.image_swap_prod, ← Set.prod_image_image_eq,
      image_sub, Set.image_id]
    rfl
  · have hcomp : transform ⟨w, h⟩ .half =
        fun p : ℚ × ℚ => ((fun x => w - x) p.1, (fun y => h - y) p.2) := rfl
    rw [hcomp, rectangle, ← Set.prod_image_image_eq, image_sub, image_sub]
  · have hcomp : transform ⟨h, w⟩ .threeQuarter =
        (fun p : ℚ × ℚ => (id p.1, (fun x => w - x) p.2)) ∘ Prod.swap := rfl
    rw [hcomp, Set.image_comp, rectangle, Set.image_swap_prod, ← Set.prod_image_image_eq,
      image_sub, Set.image_id]
    rfl

/-! ## The target -/

section Target

variable {src : Source} {prefs : Prefs}

theorem target_of_not_scaled (h : ¬ Scaled src prefs) : target src prefs = rotated src prefs := by
  unfold target
  split
  · rename_i henabled
    rw [Scaled, not_and, not_not] at h
    rw [scaleDimensions, if_pos (h henabled)]
  · rfl

theorem target_of_scaled (h : Scaled src prefs) : target src prefs =
    ⟨round ((rotated src prefs).width * min (prefs.resize.maxWidth / (rotated src prefs).width)
        (prefs.resize.maxHeight / (rotated src prefs).height)),
      round ((rotated src prefs).height * min (prefs.resize.maxWidth / (rotated src prefs).width)
        (prefs.resize.maxHeight / (rotated src prefs).height))⟩ := by
  rw [target, if_pos h.1, scaleDimensions, if_neg h.2]

theorem rotated_of_not_turns (h : turns prefs.rotate = false) :
    rotated src prefs = src.toSize := by
  have hswap : swapDimensions prefs.rotate = false := by
    unfold turns at h
    unfold swapDimensions
    cases hdegrees : prefs.rotate.degrees with
    | none => rfl
    | half => rfl
    | quarter =>
      rw [hdegrees] at h
      exact h
    | threeQuarter =>
      rw [hdegrees] at h
      exact h
  rw [rotated, hswap]
  rfl

/-- What a picture that is turned by `degrees` is drawn as. -/
theorem turned_cases (h : turns prefs.rotate = true) :
    (drawn src prefs = transform (target src prefs) .quarter ∧
        rotated src prefs = ⟨src.height, src.width⟩) ∨
      (drawn src prefs = transform (target src prefs) .half ∧ rotated src prefs = src.toSize) ∨
      (drawn src prefs = transform (target src prefs) .threeQuarter ∧
        rotated src prefs = ⟨src.height, src.width⟩) := by
  have hdrawn : drawn src prefs = transform (target src prefs) prefs.rotate.degrees := by
    funext p
    rw [drawn, if_pos h, drawImage, div_self src.width_pos.ne', div_self src.height_pos.ne',
      mul_one, mul_one]
  rw [hdrawn, rotated, swapDimensions]
  unfold turns at h
  cases hdegrees : prefs.rotate.degrees with
  | none =>
    rw [hdegrees] at h
    cases h
  | quarter =>
    rw [hdegrees] at h
    exact .inl ⟨rfl, if_pos h⟩
  | half => exact .inr (.inl ⟨rfl, rfl⟩)
  | threeQuarter =>
    rw [hdegrees] at h
    exact .inr (.inr ⟨rfl, if_pos h⟩)

theorem drawn_of_not_turns (h : turns prefs.rotate = false) :
    drawn src prefs = drawImage src.toSize (target src prefs) := by
  funext p
  rw [drawn, h]
  rfl

/-! ## Corners -/

theorem drawn_mem (h : Covers src prefs) {p : ℚ × ℚ}
    (hp : p ∈ rectangle src.width src.height) :
    drawn src prefs p ∈ rectangle (canvas src prefs).1 (canvas src prefs).2 :=
  h ▸ Set.mem_image_of_mem _ hp

/-- A picture that is turned is drawn in its own size. -/
theorem rotated_le_canvas (hturns : turns prefs.rotate = true) (h : Covers src prefs) :
    (rotated src prefs).width ≤ (canvas src prefs).1 ∧
      (rotated src prefs).height ≤ (canvas src prefs).2 := by
  have hw := src.width_pos.le
  have hh := src.height_pos.le
  have horigin := drawn_mem h (p := (0, 0)) ⟨⟨le_rfl, hw⟩, le_rfl, hh⟩
  have hright := drawn_mem h (p := (src.width, 0)) ⟨⟨hw, le_rfl⟩, le_rfl, hh⟩
  have hbelow := drawn_mem h (p := (0, src.height)) ⟨⟨le_rfl, hw⟩, hh, le_rfl⟩
  have hcorner := drawn_mem h (p := (src.width, src.height)) ⟨⟨hw, le_rfl⟩, hh, le_rfl⟩
  -- The corners are drawn as far apart as the sides of the source are long.
  rcases turned_cases hturns with ⟨hdrawn, hrot⟩ | ⟨hdrawn, hrot⟩ | ⟨hdrawn, hrot⟩
  · rw [hdrawn, mem_rectangle] at horigin hright hbelow
    rw [hrot]
    simp only [transform] at horigin hright hbelow
    exact ⟨by linarith [horigin.1.2, hbelow.1.1], hright.2.2⟩
  · rw [hdrawn, mem_rectangle] at horigin hcorner
    rw [hrot]
    simp only [transform] at horigin hcorner
    exact ⟨by linarith [horigin.1.2, hcorner.1.1], by linarith [horigin.2.2, hcorner.2.1]⟩
  · rw [hdrawn, mem_rectangle] at horigin hright hbelow
    rw [hrot]
    simp only [transform] at horigin hright hbelow
    exact ⟨hbelow.1.2, by linarith [horigin.2.2, hright.2.1]⟩

theorem target_le_canvas (hturns : turns prefs.rotate = false) (h : Covers src prefs) :
    (target src prefs).width ≤ (canvas src prefs).1 ∧
      (target src prefs).height ≤ (canvas src prefs).2 := by
  have hcorner := drawn_mem h (p := (src.width, src.height))
    ⟨⟨src.width_pos.le, le_rfl⟩, src.height_pos.le, le_rfl⟩
  rw [drawn_of_not_turns hturns, drawImage, mul_div_cancel₀ _ src.width_pos.ne',
    mul_div_cancel₀ _ src.height_pos.ne', mem_rectangle] at hcorner
  exact ⟨hcorner.1.2, hcorner.2.2⟩

/-! ## Without scaling -/

theorem whole_rotated_iff : Whole (rotated src prefs).width ∧ Whole (rotated src prefs).height ↔
    Whole src.width ∧ Whole src.height := by
  unfold rotated
  split
  · exact and_comm
  · exact Iff.rfl

theorem Whole.floor_eq {x : ℚ} (h : Whole x) : (⌊x⌋ : ℚ) = x := le_antisymm (Int.floor_le x) h

theorem whole_of_covers (hscaled : ¬ Scaled src prefs) (h : Covers src prefs) :
    Whole src.width ∧ Whole src.height := by
  rw [← @whole_rotated_iff src prefs, ← target_of_not_scaled hscaled]
  cases hturns : turns prefs.rotate with
  | false => exact target_le_canvas hturns h
  | true =>
    have hle := rotated_le_canvas hturns h
    rwa [← target_of_not_scaled hscaled] at hle

theorem law_of_whole (hscaled : ¬ Scaled src prefs) (hwhole : Whole src.width ∧ Whole src.height) :
    GeometryLaw src prefs := by
  have htarget := target_of_not_scaled hscaled
  have hrot := (@whole_rotated_iff src prefs).mpr hwhole
  have hcanvas : ((canvas src prefs).1 : ℚ) = (rotated src prefs).width ∧
      ((canvas src prefs).2 : ℚ) = (rotated src prefs).height := by
    rw [canvas, htarget]
    exact ⟨hrot.1.floor_eq, hrot.2.floor_eq⟩
  have hpos : 0 < (rotated src prefs).width ∧ 0 < (rotated src prefs).height := by
    unfold rotated
    split
    · exact ⟨src.height_pos, src.width_pos⟩
    · exact ⟨src.width_pos, src.height_pos⟩
  refine ⟨?_, ?_, ⟨hcanvas.1.le, hcanvas.2.le⟩, ?_⟩
  · rw [← hcanvas.1, ← hcanvas.2, Int.cast_pos, Int.cast_pos] at hpos
    exact hpos
  · intro henabled
    rw [Scaled, not_and, not_not] at hscaled
    rw [hcanvas.1, hcanvas.2]
    exact hscaled henabled
  · rw [Covers, hcanvas.1, hcanvas.2]
    cases hturns : turns prefs.rotate with
    | false =>
      rw [drawn_of_not_turns hturns, htarget]
      exact image_drawImage src hpos.1.le hpos.2.le
    | true =>
      obtain ⟨hquarter, hhalf, hthree⟩ := image_transform src.width src.height
      rcases turned_cases hturns with ⟨hdrawn, hsize⟩ | ⟨hdrawn, hsize⟩ | ⟨hdrawn, hsize⟩
      · rw [hdrawn, htarget, hsize]
        exact hquarter
      · rw [hdrawn, htarget, hsize]
        exact hhalf
      · rw [hdrawn, htarget, hsize]
        exact hthree

/-! ## With scaling -/

/-- A picture that is turned and scaled is cropped, or the canvas is larger than the limits. -/
theorem not_turns_of_law (hscaled : Scaled src prefs) (h : GeometryLaw src prefs) :
    turns prefs.rotate = false := by
  by_contra hturns
  rw [Bool.not_eq_false] at hturns
  have hle := rotated_le_canvas hturns h.covers
  have hlimits := h.withinLimits hscaled.1
  exact hscaled.2 ⟨hle.1.trans hlimits.1, hle.2.trans hlimits.2⟩

theorem scaled_law_iff (hscaled : Scaled src prefs) (hturns : turns prefs.rotate = false) :
    GeometryLaw src prefs ↔
      Rounds (min prefs.resize.maxWidth (prefs.resize.maxHeight * src.width / src.height))
          (min prefs.resize.maxWidth src.width) ∧
        Rounds (min prefs.resize.maxHeight (prefs.resize.maxWidth * src.height / src.width))
          (min prefs.resize.maxHeight src.height) := by
  have hsize := @rotated_of_not_turns src prefs hturns
  have htarget := target_of_scaled hscaled
  rw [hsize, mul_ratio_left src.width_pos, mul_ratio_right src.height_pos] at htarget
  have hcanvas : canvas src prefs =
      (round (min prefs.resize.maxWidth (prefs.resize.maxHeight * src.width / src.height)),
        round (min prefs.resize.maxHeight (prefs.resize.maxWidth * src.height / src.width))) := by
    rw [canvas, htarget, Int.floor_intCast, Int.floor_intCast]
  rw [rounds_iff, rounds_iff]
  constructor
  · intro h
    have hpositive := h.positive
    have hlimits := h.withinLimits hscaled.1
    have hlarger := h.notLarger
    rw [hcanvas] at hpositive hlimits hlarger
    rw [hsize] at hlarger
    exact ⟨⟨hpositive.1, hlimits.1, hlarger.1⟩, hpositive.2, hlimits.2, hlarger.2⟩
  · rintro ⟨⟨hwidth, hwlimit, hwside⟩, hheight, hhlimit, hhside⟩
    refine ⟨?_, fun _ => ?_, ?_, ?_⟩
    · rw [hcanvas]
      exact ⟨hwidth, hheight⟩
    · rw [hcanvas]
      exact ⟨hwlimit, hhlimit⟩
    · rw [hcanvas, hsize]
      exact ⟨hwside, hhside⟩
    · -- Drawn to the target, the picture covers it whatever it is rounded to.
      have hw : (0 : ℚ) ≤ round (min prefs.resize.maxWidth
          (prefs.resize.maxHeight * src.width / src.height)) :=
        Int.cast_nonneg (zero_le_one.trans hwidth)
      have hh : (0 : ℚ) ≤ round (min prefs.resize.maxHeight
          (prefs.resize.maxWidth * src.height / src.width)) :=
        Int.cast_nonneg (zero_le_one.trans hheight)
      rw [Covers, drawn_of_not_turns hturns, hcanvas, htarget]
      exact image_drawImage src hw hh

end Target

/-- The whole picture is drawn on the whole canvas exactly if it is not both turned and scaled
down, and no side is rounded to nothing or beyond what bounds it. -/
theorem geometryLaw_iff (src : Source) (prefs : Prefs) :
    GeometryLaw src prefs ↔ Fits src prefs := by
  by_cases hscaled : Scaled src prefs
  · constructor
    · intro h
      have hturns := not_turns_of_law hscaled h
      have hrounds := (scaled_law_iff hscaled hturns).mp h
      exact ⟨fun hnot => absurd hscaled hnot, fun _ => hturns, fun _ => hrounds.1,
        fun _ => hrounds.2⟩
    · intro h
      exact (scaled_law_iff hscaled (h.unturned hscaled)).mpr ⟨h.width hscaled, h.height hscaled⟩
  · constructor
    · intro h
      exact ⟨fun _ => whole_of_covers hscaled h.covers, fun hyes => absurd hyes hscaled,
        fun hyes => absurd hyes hscaled, fun hyes => absurd hyes hscaled⟩
    · exact fun h => law_of_whole hscaled (h.whole hscaled)

def photo : Source := ⟨⟨100, 50⟩, by norm_num, by norm_num⟩

/-- Upright, and no larger than 50 pixels either way. -/
def upright : Prefs := ⟨⟨true, 50, 50, by norm_num, by norm_num⟩, ⟨true, .quarter⟩⟩

/-- The picture is drawn in its size on a canvas of half of it. -/
theorem photo_cropped : ¬ ∀ (src : Source) (prefs : Prefs), GeometryLaw src prefs := by
  intro h
  have hscaled : Scaled photo upright := by
    refine ⟨rfl, fun hfits => ?_⟩
    have hheight : (100 : ℚ) ≤ 50 := hfits.2
    norm_num at hheight
  exact absurd (not_turns_of_law hscaled (h photo upright)) (by decide)

end PicHost.Web.CanvasGeometry
