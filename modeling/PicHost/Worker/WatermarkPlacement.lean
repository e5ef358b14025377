import PicHost.Worker.Watermark

/-!
# Where the watermark is drawn

The origins that `calculate_position` and `draw_tiled` choose, against the edges a position names
and the grid of a tiling.
-/

namespace PicHost.WatermarkPlacement

open Watermark CountedLoop FloatCast SignificantBits

/-- The edge of one axis that a position names. -/
inductive Edge where
  | near
  | far
  | middle
deriving DecidableEq

/-- The edges of both axes, for a position that draws the text once. -/
def edges : WatermarkPosition → Option (Edge × Edge)
  | .topLeft => some (.near, .near)
  | .topRight => some (.far, .near)
  | .bottomLeft => some (.near, .far)
  | .bottomRight => some (.far, .far)
  | .center => some (.middle, .middle)
  | .tile => none

/-- The origin keeps the margin from the edge; in the middle, what is left over on the two sides
differs by at most a pixel. -/
def Edge.Keeps (extent text margin : ℕ) (origin : ℤ) : Edge → Prop
  | .near => origin = margin
  | .far => origin + text + margin = extent
  | .middle => |origin - (extent - (origin + text))| ≤ 1

/-- The text lies inside, at the requested distance. -/
def Edge.Placed (edge : Edge) (extent text margin : ℕ) (origin : ℤ) : Prop :=
  0 ≤ origin ∧ origin + text ≤ extent ∧ edge.Keeps extent text margin origin

/-- The text box with the margins fits in the image. -/
def BoxFits (imgW imgH textW textH marginX marginY : UInt32) : Prop :=
  textW.toNat + marginX.toNat ≤ imgW.toNat ∧ textH.toNat + marginY.toNat ≤ imgH.toNat

variable {Pixels Font : Type} (imaging : Imaging Pixels Font)

def PlacedAsAsked (imgW imgH : UInt32) (text : String) (fontSize : Float32) (font : Font)
    (position : WatermarkPosition) (marginX marginY : UInt32) : Prop :=
  let textW := (imaging.textSize fontSize font text).1
  let textH := ceilToUInt32 fontSize
  ∀ h v, edges position = some (h, v) → BoxFits imgW imgH textW textH marginX marginY →
    ∃ x y, calculatePosition imaging imgW imgH text fontSize font position marginX marginY =
        .returned (x, y) ∧
      h.Placed imgW.toNat textW.toNat marginX.toNat x.toInt ∧
      v.Placed imgH.toNat textH.toNat marginY.toNat y.toInt

/-- The casts to `i32` that the origin on this axis is computed from do no harm. -/
def Edge.Exact (extent text margin : UInt32) : Edge → Prop
  | .near => margin.toNat < 2 ^ 31
  | .far => extent.toNat < 2 ^ 31 ∨ 2 ^ 31 ≤ text.toNat ∨ 2 ^ 31 ≤ margin.toNat
  | .middle => extent.toNat < 2 ^ 31 ∨ 2 ^ 31 ≤ text.toNat

/-- The drawing library that keeps, for its pixels, where texts were drawn. -/
def recording : Imaging (List (Int32 × Int32)) Font where
  tryFromVec := imaging.tryFromVec
  toRgba8 := id
  textSize := imaging.textSize
  drawTextMut drawn _ x y _ _ _ := drawn ++ [(x, y)]

/-- A multiple of the step inside the image, on one axis. -/
def OnAxis (step extent : ℕ) (x : ℤ) : Prop := 0 ≤ x ∧ x < extent ∧ (step : ℤ) ∣ x

def TiledAsAsked (canvas : Watermark.Image Pixels) (font : Font) (text : String)
    (fontSize : Float32) (color : Rgba) : Prop :=
  let textW := (imaging.textSize fontSize font text).1
  let textH := ceilToUInt32 fontSize
  ∃ fuel drawn, drawTiled (recording imaging) fuel { canvas with pixels := [] } font text fontSize
      color = .returned { canvas with pixels := drawn } ∧
    ∀ x y : ℤ, (∃ p ∈ drawn, p.1.toInt = x ∧ p.2.toInt = y) ↔
      OnAxis (3 * textW.toNat) canvas.width.toNat x ∧
        OnAxis (5 * textH.toNat) canvas.height.toNat y

/-- The step between tiles that a text of `n` pixels leads to: cast to single precision, multiplied
and cast back. -/
def tileStep (c n : ℕ) : ℕ := min (nearest 24 (c * nearest 24 n)) (UInt32.size - 1)

/-- The step on this axis is right wherever the image shows it: there is one, no tile lies beyond
the range of `i32`, and the step is a single-precision number or, rounded or not, at least as long
as the image. -/
def AxisExact (c : ℕ) (extent text : UInt32) : Prop :=
  text ≠ 0 ∧
  (∀ m, m * (c * text.toNat) < extent.toNat → m * (c * text.toNat) < 2 ^ 31) ∧
  (Representable 24 (c * text.toNat) ∨ extent.toNat ≤ c * text.toNat ∧
    extent.toNat ≤ nearest 24 (c * nearest 24 text.toNat))

/-- A tiling of an image without rows, of one whose rows are empty and end, or with exact steps. -/
def TilingExact (imgW imgH textW textH : UInt32) : Prop :=
  imgH = 0 ∨ imgW = 0 ∧ CoversFrom counterBound imgH.toNat (tileStep 5 textH.toNat) 0 ∨
    AxisExact 3 imgW textW ∧ AxisExact 5 imgH textH

/-- The text of a watermark is drawn where its position says, in an image that has room for it. -/
def DrawnAsAsked (canvas : Watermark.Image Pixels) (text : String) (fontSize : Float32)
    (font : Font) (color : Rgba) (position : WatermarkPosition) (marginX marginY : UInt32) : Prop :=
  PlacedAsAsked imaging canvas.width canvas.height text fontSize font position marginX marginY ∧
    (position = .tile → TiledAsAsked imaging canvas font text fontSize color)

def PlacementExact (imgW imgH textW textH marginX marginY : UInt32)
    (position : WatermarkPosition) : Prop :=
  (∀ h v, edges position = some (h, v) → BoxFits imgW imgH textW textH marginX marginY →
    h.Exact imgW textW marginX ∧ v.Exact imgH textH marginY) ∧
  (position = .tile → TilingExact imgW imgH textW textH)

/-! ## One axis of a position -/

/-- The origin on one axis as the code computes it. -/
def Edge.origin (extent text margin : UInt32) : Edge → Run Int32
  | .near => .returned margin.toInt32
  | .far => (subI32 extent.toInt32 text.toInt32).andThen fun x => subI32 x margin.toInt32
  | .middle => (subI32 extent.toInt32 text.toInt32).andThen fun x => .returned (x / 2)

theorem toInt_toInt32 (n : UInt32) :
    n.toInt32.toInt = if n.toNat < 2 ^ 31 then (n.toNat : ℤ) else n.toNat - 2 ^ 32 := by
  show n.toBitVec.toInt = _
  rw [BitVec.toInt_eq_toNat_cond, UInt32.toNat_toBitVec]
  by_cases h : n.toNat < 2 ^ 31
  · rw [if_pos h, if_pos (by omega)]
  · rw [if_neg h, if_neg (by omega)]
    push_cast
    ring

theorem calculatePosition_eq {imgW imgH : UInt32} {text : String} {fontSize : Float32}
    {font : Font} {position : WatermarkPosition} {marginX marginY : UInt32} {h v : Edge}
    (hedges : edges position = some (h, v)) :
    calculatePosition imaging imgW imgH text fontSize font position marginX marginY =
      (h.origin imgW (imaging.textSize fontSize font text).1 marginX).andThen fun x =>
        (v.origin imgH (ceilToUInt32 fontSize) marginY).andThen fun y => .returned (x, y) := by
  have hassoc : ∀ {α β γ : Type} (r : Run α) (f : α → Run β) (g : β → Run γ),
      (r.andThen f).andThen g = r.andThen fun a => (f a).andThen g := by
    intro α β γ r f g
    cases r <;> rfl
  cases position <;> cases hedges <;> simp [calculatePosition, Edge.origin, hassoc]

theorem far_returned (extent text margin : UInt32) (P : ℤ → Prop) :
    (∃ o, Edge.far.origin extent text margin = .returned o ∧ P o.toInt) ↔
      AxisFits extent text margin ∧
        P (extent.toInt32.toInt - text.toInt32.toInt - margin.toInt32.toInt) := by
  simp only [Edge.origin, Run.andThen_returned, subI32_returned, AxisFits]
  constructor
  · rintro ⟨o, ⟨x, ⟨h1, rfl⟩, h2, rfl⟩, hP⟩
    rw [toInt_sub h2, toInt_sub h1] at hP
    rw [toInt_sub h1] at h2
    exact ⟨⟨h1, h2⟩, hP⟩
  · rintro ⟨⟨h1, h2⟩, hP⟩
    rw [← toInt_sub h1] at h2 hP
    rw [← toInt_sub h2] at hP
    exact ⟨_, ⟨_, ⟨h1, rfl⟩, h2, rfl⟩, hP⟩

/-- Division of an `i32` by two truncates towards zero. -/
def halved (d : ℤ) : ℤ := if 0 ≤ d then d / 2 else -(-d / 2)

theorem toInt_half (a : Int32) : (a / 2).toInt = halved a.toInt := by
  have hlow := a.le_toInt
  have hhigh := a.toInt_lt
  have hdiv : a.toInt.tdiv 2 = halved a.toInt := by
    unfold halved
    split
    · rename_i h
      exact Int.tdiv_eq_ediv_of_nonneg h
    · rename_i h
      rw [← Int.tdiv_eq_ediv_of_nonneg (a := -a.toInt) (by omega), Int.neg_tdiv, neg_neg]
  rw [Int32.toInt_div, show (2 : Int32).toInt = 2 from rfl, hdiv]
  refine Int.bmod_eq_of_le ?_ ?_ <;> unfold halved <;> split <;> omega

theorem middle_returned (extent text margin : UInt32) (P : ℤ → Prop) :
    (∃ o, Edge.middle.origin extent text margin = .returned o ∧ P o.toInt) ↔
      InI32 (extent.toInt32.toInt - text.toInt32.toInt) ∧
        P (halved (extent.toInt32.toInt - text.toInt32.toInt)) := by
  simp only [Edge.origin, Run.andThen_returned, subI32_returned, Run.returned.injEq]
  constructor
  · rintro ⟨o, ⟨x, ⟨h1, rfl⟩, rfl⟩, hP⟩
    rw [toInt_half, toInt_sub h1] at hP
    exact ⟨h1, hP⟩
  · rintro ⟨h1, hP⟩
    rw [← toInt_sub h1, ← toInt_half] at hP
    exact ⟨_, ⟨_, ⟨h1, rfl⟩, rfl⟩, hP⟩

theorem origin_placed_iff {extent text margin : UInt32}
    (hfit : text.toNat + margin.toNat ≤ extent.toNat) (edge : Edge) :
    (∃ o, edge.origin extent text margin = .returned o ∧
      edge.Placed extent.toNat text.toNat margin.toNat o.toInt) ↔
      edge.Exact extent text margin := by
  have he := extent.toNat_lt
  have ht := text.toNat_lt
  have hm := margin.toNat_lt
  cases edge with
  | near =>
    simp only [Edge.origin, Run.returned.injEq, exists_eq_left', Edge.Placed, Edge.Keeps,
      Edge.Exact, toInt_toInt32]
    split <;> omega
  | far =>
    -- both subtractions stay in range and their result is the exact one, or neither
    rw [far_returned]
    simp only [Edge.Placed, Edge.Keeps, Edge.Exact, AxisFits, InI32, toInt_toInt32]
    split <;> split <;> split <;> omega
  | middle =>
    rw [middle_returned]
    simp only [Edge.Placed, Edge.Keeps, Edge.Exact, InI32, toInt_toInt32, abs_le, halved]
    split <;> split <;> split <;> omega

theorem placedAsAsked_iff (imgW imgH : UInt32) (text : String) (fontSize : Float32) (font : Font)
    (position : WatermarkPosition) (marginX marginY : UInt32) :
    PlacedAsAsked imaging imgW imgH text fontSize font position marginX marginY ↔
      ∀ h v, edges position = some (h, v) →
        BoxFits imgW imgH (imaging.textSize fontSize font text).1 (ceilToUInt32 fontSize) marginX
          marginY →
        h.Exact imgW (imaging.textSize fontSize font text).1 marginX ∧
          v.Exact imgH (ceilToUInt32 fontSize) marginY := by
  refine forall_congr' fun h => forall_congr' fun v => imp_congr_right fun hedges =>
    imp_congr_right fun hfit => ?_
  rw [← origin_placed_iff hfit.1 h, ← origin_placed_iff hfit.2 v]
  rw [calculatePosition_eq imaging hedges]
  simp only [Run.andThen_returned, Run.returned.injEq, Prod.mk.injEq]
  constructor
  · rintro ⟨x, y, ⟨x', hx, y', hy, rfl, rfl⟩, hh, hv⟩
    exact ⟨⟨x', hx, hh⟩, ⟨y', hy, hv⟩⟩
  · rintro ⟨⟨x, hx, hh⟩, ⟨y, hy, hv⟩⟩
    exact ⟨x, y, ⟨x, hx, y, hy, rfl, rfl⟩, hh, hv⟩

/-! ## One axis of a tiling -/

/-- Where the counter of a loop draws, as the cast to `i32` has it. -/
def DrawnAt (step extent : ℕ) (x : ℤ) : Prop :=
  ∃ m, m * step < extent ∧ (UInt32.ofNat (m * step)).toInt32.toInt = x

theorem toInt_counter {n : ℕ} (hn : n < 2 ^ 32) :
    (UInt32.ofNat n).toInt32.toInt = if n < 2 ^ 31 then (n : ℤ) else n - 2 ^ 32 := by
  rw [toInt_toInt32, UInt32.toNat_ofNat', Nat.mod_eq_of_lt hn]

theorem onAxis_iff {step extent : ℕ} {x : ℤ} :
    OnAxis step extent x ↔ ∃ m, m * step < extent ∧ ((m * step : ℕ) : ℤ) = x := by
  constructor
  · rintro ⟨hpos, hlt, k, rfl⟩
    rcases Nat.eq_zero_or_pos step with rfl | hstep
    · exact ⟨0, by simpa using hlt, by simp⟩
    · have hk : 0 ≤ k := by
        by_contra hneg
        have := mul_neg_of_pos_of_neg (Int.natCast_pos.mpr hstep) (not_le.mp hneg)
        omega
      obtain ⟨m, rfl⟩ := Int.eq_ofNat_of_zero_le hk
      refine ⟨m, ?_, by push_cast; ring⟩
      rw [mul_comm]
      exact_mod_cast hlt
  · rintro ⟨m, hm, rfl⟩
    exact ⟨by positivity, by exact_mod_cast hm, by push_cast; exact dvd_mul_left _ _⟩

/-- The first multiple past the image is at most a step beyond one the image has. -/
theorem covers_of_low {s extent : ℕ} (hs : s ≠ 0) (hs' : s < 2 ^ 32)
    (hlow : ∀ m, m * s < extent → m * s < 2 ^ 31) : CoversFrom counterBound extent s 0 := by
  rcases Nat.eq_zero_or_pos extent with rfl | hpos
  · exact ⟨0, by omega, by rw [counterBound]; omega⟩
  · have hbelow := Nat.div_mul_le_self (extent - 1) s
    have habove := Nat.lt_div_mul_add (a := extent - 1) (Nat.pos_of_ne_zero hs)
    have hlast := hlow ((extent - 1) / s) (by omega)
    generalize (extent - 1) / s = q at hbelow habove hlast
    refine ⟨q + 1, by rw [Nat.succ_mul]; omega, ?_⟩
    rw [Nat.succ_mul, counterBound]
    rcases Nat.eq_zero_or_pos q with rfl | hq
    · omega
    · have := Nat.le_mul_of_pos_left s hq
      omega

theorem step_le {s t extent : ℕ} (ht0 : t ≠ 0) (h : ∃ m, m * s < extent ∧ m * s = t) : s ≤ t := by
  obtain ⟨m, -, rfl⟩ := h
  refine Nat.le_mul_of_pos_left s (Nat.pos_of_ne_zero ?_)
  rintro rfl
  exact ht0 (zero_mul s)

/-- Steps with the same multiples inside the image are equal, or the image shows neither. -/
theorem same_multiples {s t extent : ℕ} (hs : s ≠ 0) (ht : t ≠ 0)
    (hsame : ∀ n, (∃ m, m * t < extent ∧ m * t = n) ↔ ∃ m, m * s < extent ∧ m * s = n) :
    t = s ∨ extent ≤ s ∧ extent ≤ t := by
  have hst : t < extent → s ≤ t := fun h =>
    step_le ht ((hsame t).mp ⟨1, by rwa [one_mul], one_mul t⟩)
  have hts : s < extent → t ≤ s := fun h =>
    step_le hs ((hsame s).mpr ⟨1, by rwa [one_mul], one_mul s⟩)
  omega

theorem eq_zero_of_step_ge {s extent m : ℕ} (hs : extent ≤ s) (hm : m * s < extent) : m = 0 := by
  by_contra hm0
  have := Nat.le_mul_of_pos_left s (Nat.pos_of_ne_zero hm0)
  omega

/-- The loop ends and draws at every multiple of `s` inside the image, when its step is `t`. -/
theorem axis_iff {s t extent : ℕ} (hpos : 0 < extent) (hext : extent < 2 ^ 32) (ht : t < 2 ^ 32)
    (hzero : s = 0 → t = 0) :
    (CoversFrom counterBound extent t 0 ∧ ∀ x, DrawnAt t extent x ↔ OnAxis s extent x) ↔
      s ≠ 0 ∧ (∀ m, m * s < extent → m * s < 2 ^ 31) ∧
        (t = s ∨ extent ≤ s ∧ extent ≤ t) := by
  constructor
  · rintro ⟨⟨k, hk, -⟩, hsame⟩
    have ht0 : t ≠ 0 := by
      rintro rfl
      omega
    have hs0 : s ≠ 0 := fun h => ht0 (hzero h)
    -- a counter from `2 ^ 31` on is drawn at a negative place
    have hlow : ∀ m, m * t < extent → m * t < 2 ^ 31 := by
      intro m hm
      by_contra hbig
      have hon := (hsame _).mp ⟨m, hm, rfl⟩
      rw [toInt_counter (hm.trans hext), if_neg hbig] at hon
      have := hon.1
      omega
    have hdrawn : ∀ n, (∃ m, m * t < extent ∧ m * t = n) ↔ ∃ m, m * s < extent ∧ m * s = n := by
      intro n
      have h := hsame n
      rw [onAxis_iff] at h
      simp only [Nat.cast_inj] at h
      rw [← h]
      refine exists_congr fun m => and_congr_right fun hm => ?_
      rw [toInt_counter (hm.trans hext), if_pos (hlow m hm), Nat.cast_inj]
    refine ⟨hs0, fun m hm => ?_, same_multiples hs0 ht0 hdrawn⟩
    obtain ⟨m', hm', heq⟩ := (hdrawn (m * s)).mpr ⟨m, hm, rfl⟩
    exact heq ▸ hlow m' hm'
  · rintro ⟨hs0, hlow, hstep⟩
    rcases hstep with rfl | ⟨hs, ht'⟩
    · refine ⟨covers_of_low hs0 ht hlow, fun x => ?_⟩
      rw [onAxis_iff]
      refine exists_congr fun m => and_congr_right fun hm => ?_
      rw [toInt_counter (hm.trans hext), if_pos (hlow m hm)]
    · -- only the tile at the origin is inside
      refine ⟨⟨1, by omega, by rw [counterBound]; omega⟩, fun x => ?_⟩
      rw [onAxis_iff]
      constructor
      · rintro ⟨m, hm, rfl⟩
        obtain rfl := eq_zero_of_step_ge ht' hm
        exact ⟨0, by omega, by simp⟩
      · rintro ⟨m, hm, rfl⟩
        obtain rfl := eq_zero_of_step_ge hs hm
        exact ⟨0, by omega, by simp⟩

theorem tileStep_lt (c n : ℕ) : tileStep c n < 2 ^ 32 :=
  lt_of_le_of_lt (min_le_right _ _) (by decide)

/-- In the terms of the text: the step is right when no rounding loses a bit of it. -/
theorem tileStep_iff {c extent n : ℕ} (hc : c % 2 = 1) (hext : extent < 2 ^ 32) :
    (tileStep c n = c * n ∨ extent ≤ c * n ∧ extent ≤ tileStep c n) ↔
      (Representable 24 (c * n) ∨ extent ≤ c * n ∧ extent ≤ nearest 24 (c * nearest 24 n)) := by
  have hmax : extent ≤ UInt32.size - 1 := by
    rw [UInt32.size]
    omega
  have hround := representable_nearest (p := 24) (by norm_num) (c * nearest 24 n)
  constructor
  · rintro (heq | ⟨hn, hstep⟩)
    · -- a step equal to the wanted one is a rounded number, or the cast stopped at the largest one
      rcases le_total (nearest 24 (c * nearest 24 n)) (UInt32.size - 1) with h | h
      · rw [tileStep, min_eq_left h] at heq
        exact .inl (heq ▸ hround)
      · rw [tileStep, min_eq_right h] at heq
        exact .inr ⟨heq ▸ hmax, hmax.trans h⟩
    · exact .inr ⟨hn, hstep.trans (min_le_left _ _)⟩
  · rintro (hrep | ⟨hn, hnear⟩)
    · have hexact : nearest 24 (c * nearest 24 n) = c * n := by
        rw [(nearest_eq_self_iff (by norm_num)).mpr (hrep.of_mul hc),
          (nearest_eq_self_iff (by norm_num)).mpr hrep]
      rw [tileStep, hexact]
      rcases le_total (c * n) (UInt32.size - 1) with h | h
      · exact .inl (min_eq_left h)
      · exact .inr ⟨hmax.trans h, by rwa [min_eq_right h]⟩
    · exact .inr ⟨hn, le_min hnear hmax⟩

theorem axisExact_iff {c : ℕ} {extent : UInt32} (text : UInt32) (hc : c % 2 = 1)
    (hpos : extent ≠ 0) :
    (CoversFrom counterBound extent.toNat (tileStep c text.toNat) 0 ∧
      ∀ x, DrawnAt (tileStep c text.toNat) extent.toNat x ↔
        OnAxis (c * text.toNat) extent.toNat x) ↔ AxisExact c extent text := by
  have hpos' : 0 < extent.toNat := Nat.pos_of_ne_zero fun h => hpos (UInt32.toNat_inj.mp h)
  have hzero : c * text.toNat = 0 ↔ text = 0 := by
    rw [mul_eq_zero, or_iff_right (by omega), ← UInt32.toNat_inj, UInt32.toNat_zero]
  rw [axis_iff hpos' extent.toNat_lt (tileStep_lt c text.toNat), tileStep_iff hc extent.toNat_lt,
    AxisExact, ne_eq, hzero]
  intro h
  rw [hzero.mp h]
  simp [tileStep]

/-! ## A tiling -/

theorem tileW_eq (n : UInt32) : (n.toFloat32 * 3).toUInt32.toNat = tileStep 3 n.toNat := by
  rw [toUInt32_scaled three_valued (by norm_num) (by decide), tileStep, mul_comm]

theorem tileH_eq (n : UInt32) : (n.toFloat32 * 5).toUInt32.toNat = tileStep 5 n.toNat := by
  rw [toUInt32_scaled five_valued (by norm_num) (by decide), tileStep, mul_comm]

/-- A tiling draws the text at the places that the recording one lists, in their order. -/
theorem drawTiled_replays (fuel : ℕ) (canvas : Watermark.Image Pixels) (font : Font)
    (text : String) (fontSize : Float32) (color : Rgba) :
    drawTiled imaging fuel canvas font text fontSize color =
      (drawTiled (recording imaging) fuel { canvas with pixels := [] } font text fontSize
        color).andThen fun r => .returned { canvas with
          pixels := r.pixels.foldl (fun pixels p =>
            imaging.drawTextMut pixels color p.1 p.2 fontSize font text) canvas.pixels } := by
  -- the recording loop runs in step with the drawing one, row by row
  let replay (drawn : List (Int32 × Int32)) : Pixels :=
    drawn.foldl (fun pixels p => imaging.drawTextMut pixels color p.1 p.2 fontSize font text)
      canvas.pixels
  unfold drawTiled
  simp only [recording]
  generalize (((imaging.textSize fontSize font text).1).toFloat32 * 3).toUInt32.toNat = tileW
  generalize ((ceilToUInt32 fontSize).toFloat32 * 5).toUInt32.toNat = tileH
  have hrow : ∀ y drawn, whileBelow counterBound canvas.width.toNat tileW (fun x pixels =>
        .returned (imaging.drawTextMut pixels color (UInt32.ofNat x).toInt32
          (UInt32.ofNat y).toInt32 fontSize font text)) fuel 0 (replay drawn) =
      (whileBelow counterBound canvas.width.toNat tileW (fun x drawn =>
        .returned (drawn ++ [((UInt32.ofNat x).toInt32, (UInt32.ofNat y).toInt32)])) fuel 0
          drawn).andThen fun drawn => .returned (replay drawn) :=
    fun y drawn => whileBelow_map replay fun x drawn => by simp [replay]
  show (whileBelow _ _ _ _ fuel 0 (replay [])).andThen _ = _
  rw [whileBelow_map replay hrow]
  cases whileBelow _ _ _ _ fuel 0 ([] : List (Int32 × Int32)) <;> rfl

/-- Where a tiling that returns has drawn: at every pair of counters of the two loops. -/
theorem mem_drawn {fuel : ℕ} {canvas r : Watermark.Image (List (Int32 × Int32))} {font : Font}
    {text : String} {fontSize : Float32} {color : Rgba} (hpixels : canvas.pixels = [])
    (h : drawTiled (recording imaging) fuel canvas font text fontSize color = .returned r)
    (x y : ℤ) : (∃ p ∈ r.pixels, p.1.toInt = x ∧ p.2.toInt = y) ↔
      DrawnAt (tileStep 3 (imaging.textSize fontSize font text).1.toNat) canvas.width.toNat x ∧
        DrawnAt (tileStep 5 (ceilToUInt32 fontSize).toNat) canvas.height.toNat y := by
  unfold drawTiled at h
  simp only [tileW_eq, tileH_eq, recording] at h
  obtain ⟨drawn, hloop, heq⟩ := Run.andThen_returned.mp h
  obtain rfl := Run.returned.inj heq
  have hdraws := holds_of_returned (A := fun drawn => ∃ p ∈ drawn, p.1.toInt = x ∧ p.2.toInt = y)
    (fun row s s' _ hrow => holds_of_returned
      (A := fun drawn => ∃ p ∈ drawn, p.1.toInt = x ∧ p.2.toInt = y)
      (P := fun col => (UInt32.ofNat col).toInt32.toInt = x ∧ (UInt32.ofNat row).toInt32.toInt = y)
      (fun col s s' _ hcol => by
        obtain rfl := Run.returned.inj hcol
        simp only [List.mem_append, List.mem_singleton, or_and_right, exists_or, exists_eq_left])
      hrow) hloop
  simp only [hpixels, List.not_mem_nil, false_and, exists_false, false_or, zero_add] at hdraws
  rw [hdraws]
  constructor
  · rintro ⟨j, hj, i, hi, hx, hy⟩
    exact ⟨⟨i, hi, hx⟩, ⟨j, hj, hy⟩⟩
  · rintro ⟨⟨i, hi, hx⟩, ⟨j, hj, hy⟩⟩
    exact ⟨j, hj, i, hi, hx, hy⟩

theorem tiledAsAsked_iff_ends (canvas : Watermark.Image Pixels) {font : Font} {text : String}
    {fontSize : Float32} (color : Rgba) {textW textH : UInt32}
    (hW : (imaging.textSize fontSize font text).1 = textW) (hH : ceilToUInt32 fontSize = textH) :
    TiledAsAsked imaging canvas font text fontSize color ↔
      TilesEnd canvas.width canvas.height textW textH ∧
      ∀ x y, DrawnAt (tileStep 3 textW.toNat) canvas.width.toNat x ∧
          DrawnAt (tileStep 5 textH.toNat) canvas.height.toNat y ↔
        OnAxis (3 * textW.toNat) canvas.width.toNat x ∧
          OnAxis (5 * textH.toNat) canvas.height.toNat y := by
  subst hW hH
  have hends := drawTiled_returned (recording imaging) { canvas with pixels := [] } font text
    fontSize color
  constructor
  · rintro ⟨fuel, drawn, hrun, hgrid⟩
    refine ⟨hends.mp ⟨fuel, _, hrun⟩, fun x y => ?_⟩
    rw [← hgrid x y, ← mem_drawn imaging rfl hrun x y]
  · rintro ⟨hend, hgrid⟩
    obtain ⟨fuel, r, hrun⟩ := hends.mpr hend
    have hr : r = { canvas with pixels := r.pixels } := by
      obtain ⟨drawn, -, heq⟩ := Run.andThen_returned.mp hrun
      exact Run.returned.inj heq ▸ rfl
    refine ⟨fuel, r.pixels, hrun.trans (congrArg _ hr), fun x y => ?_⟩
    rw [mem_drawn imaging rfl hrun x y]
    exact hgrid x y

theorem drawnAt_zero {step extent : ℕ} (h : 0 < extent) : DrawnAt step extent 0 :=
  ⟨0, by omega, by simp⟩

theorem onAxis_zero {step extent : ℕ} (h : 0 < extent) : OnAxis step extent 0 :=
  ⟨le_rfl, by exact_mod_cast h, dvd_zero _⟩

theorem not_drawnAt_empty {step : ℕ} {x : ℤ} : ¬ DrawnAt step 0 x := by
  rintro ⟨m, hm, -⟩
  omega

theorem not_onAxis_empty {step : ℕ} {x : ℤ} : ¬ OnAxis step 0 x := by
  rintro ⟨h0, hx, -⟩
  omega

/-- Two rectangles with the origin are the same when their sides are. -/
theorem sides_iff {A B C D : ℤ → Prop} (hA : A 0) (hB : B 0) (hC : C 0) (hD : D 0) :
    (∀ x y, A x ∧ B y ↔ C x ∧ D y) ↔ (∀ x, A x ↔ C x) ∧ ∀ y, B y ↔ D y := by
  constructor
  · intro h
    refine ⟨fun x => ?_, fun y => ?_⟩
    · simpa [hB, hD] using h x 0
    · simpa [hA, hC] using h 0 y
  · rintro ⟨hx, hy⟩ x y
    rw [hx, hy]

theorem tiledAsAsked_iff (canvas : Watermark.Image Pixels) (font : Font) (text : String)
    (fontSize : Float32) (color : Rgba) :
    TiledAsAsked imaging canvas font text fontSize color ↔
      TilingExact canvas.width canvas.height (imaging.textSize fontSize font text).1
        (ceilToUInt32 fontSize) := by
  rw [tiledAsAsked_iff_ends imaging canvas color rfl rfl, TilesEnd, TilingExact, tileW_eq, tileH_eq]
  generalize (imaging.textSize fontSize font text).1 = textW
  generalize ceilToUInt32 fontSize = textH
  have hnat : ∀ n : UInt32, n.toNat = 0 ↔ n = 0 := fun n => UInt32.toNat_inj (b := 0)
  by_cases hh : canvas.height = 0
  · simp [hh, not_drawnAt_empty, not_onAxis_empty]
  · have hhpos : 0 < canvas.height.toNat := Nat.pos_of_ne_zero fun h => hh ((hnat _).mp h)
    rw [hnat, or_iff_right hh, or_iff_right hh,
      ← axisExact_iff (c := 5) textH (by norm_num) hh]
    by_cases hw : canvas.width = 0
    · have hcover : CoversFrom counterBound 0 (tileStep 3 textW.toNat) 0 :=
        ⟨0, by omega, by rw [counterBound]; omega⟩
      rw [hw, UInt32.toNat_zero]
      simp only [not_drawnAt_empty, not_onAxis_empty, false_and, iff_self, implies_true, and_true,
        hcover, true_and]
      exact ⟨.inl, fun h => h.elim id fun h => h.2.1⟩
    · have hwpos : 0 < canvas.width.toNat := Nat.pos_of_ne_zero fun h => hw ((hnat _).mp h)
      rw [sides_iff (drawnAt_zero hwpos) (drawnAt_zero hhpos) (onAxis_zero hwpos)
        (onAxis_zero hhpos), ← axisExact_iff (c := 3) textW (by norm_num) hw]
      simp only [hw, false_and, false_or]
      exact and_and_and_comm

theorem drawnAsAsked_iff (canvas : Watermark.Image Pixels) (text : String) (fontSize : Float32)
    (font : Font) (color : Rgba) (position : WatermarkPosition) (marginX marginY : UInt32) :
    DrawnAsAsked imaging canvas text fontSize font color position marginX marginY ↔
      PlacementExact canvas.width canvas.height (imaging.textSize fontSize font text).1
        (ceilToUInt32 fontSize) marginX marginY position :=
  and_congr (placedAsAsked_iff imaging _ _ _ _ _ _ _ _)
    (imp_congr_right fun _ => tiledAsAsked_iff imaging _ _ _ _ _)

/-- Up to `2 ^ 24` pixels the only wrong step is an empty one. -/
theorem axisExact_small {c : ℕ} {extent text : UInt32} (hc : c % 2 = 1)
    (hext : extent.toNat ≤ 2 ^ 24) : AxisExact c extent text ↔ text ≠ 0 := by
  refine ⟨And.left, fun htext => ⟨htext, fun m hm => by omega, ?_⟩⟩
  rcases Nat.lt_or_ge (c * text.toNat) (2 ^ 24) with hlt | hge
  · exact .inl ⟨c * text.toNat, 0, by simp, hlt⟩
  · refine .inr ⟨hext.trans hge, hext.trans (pow_le_nearest (by norm_num) ?_)⟩
    rcases Nat.lt_or_ge text.toNat (2 ^ 24) with ht | ht
    · rwa [(nearest_eq_self_iff (by norm_num)).mpr ⟨text.toNat, 0, by simp, ht⟩]
    · exact (pow_le_nearest (by norm_num) ht).trans (Nat.le_mul_of_pos_left _ (by omega))

/-- An image of at most `2 ^ 24` pixels a side shows the watermark where it was asked for, unless
it is tiled with a text that has no width or no height. -/
theorem placementExact_small {imgW imgH textW textH marginX marginY : UInt32}
    {position : WatermarkPosition} (hw : imgW.toNat ≤ 2 ^ 24) (hh : imgH.toNat ≤ 2 ^ 24)
    (hempty : imgW ≠ 0 ∧ imgH ≠ 0) :
    PlacementExact imgW imgH textW textH marginX marginY position ↔
      (position = .tile → textW ≠ 0 ∧ textH ≠ 0) := by
  have hedge : ∀ {edge : Edge} {extent text margin : UInt32}, extent.toNat ≤ 2 ^ 24 →
      text.toNat + margin.toNat ≤ extent.toNat → edge.Exact extent text margin := by
    intro edge extent text margin hext hfit
    cases edge with
    | near => exact show margin.toNat < 2 ^ 31 by omega
    | far => exact .inl (by omega)
    | middle => exact .inl (by omega)
  rw [PlacementExact, and_iff_right fun h v _ hfit => ⟨hedge hw hfit.1, hedge hh hfit.2⟩,
    TilingExact, axisExact_small (by norm_num) hw, axisExact_small (by norm_num) hh]
  simp only [hempty.1, hempty.2, false_or, false_and]

/-! ## Three watermarks that are not where they should be -/

/-- Every font loads and each character is as wide as the font is high. -/
def squareFont : Imaging Unit Unit where
  tryFromVec _ := some ()
  toRgba8 := id
  textSize fontSize _ text :=
    (ceilToUInt32 fontSize * UInt32.ofNat text.length, ceilToUInt32 fontSize)
  drawTextMut _ _ _ _ _ _ _ := ()

def whiteColor : Rgba := ⟨255, 255, 255, 127⟩

def wideImage : Watermark.Image Unit := ⟨16777300, 150, ()⟩

def widestImage : Watermark.Image Unit := ⟨4294967295, 150, ()⟩

/-- The rows of a tiling by a text without height are not apart; the second column of a very wide
text is drawn a pixel early; a margin of half the range of `u32` is cast to a negative one. -/
theorem misplaced :
    ¬ DrawnAsAsked squareFont smallImage "pichost" 0 () whiteColor .tile 20 20 ∧
    ¬ DrawnAsAsked squareFont wideImage "a" 5592407 () whiteColor .tile 20 20 ∧
    ¬ DrawnAsAsked squareFont widestImage "pichost" 20 () whiteColor .topLeft 2147483648 20 := by
  refine ⟨?_, ?_, ?_⟩
  · rintro ⟨-, htile⟩
    have hflat : ceilToUInt32 0 = 0 := by decide +kernel
    have hexact := (tiledAsAsked_iff squareFont smallImage () "pichost" 0 whiteColor).mp (htile rfl)
    rcases hexact with hh | ⟨hw, -⟩ | ⟨-, hy, -⟩
    · exact absurd hh (by decide)
    · exact absurd hw (by decide)
    · exact hy hflat
  · rintro ⟨-, htile⟩
    have hwide : (squareFont.textSize 5592407 () "a").1.toNat = 5592407 := by decide +kernel
    have hexact := (tiledAsAsked_iff squareFont wideImage () "a" 5592407 whiteColor).mp (htile rfl)
    rcases hexact with hh | ⟨hw, -⟩ | ⟨⟨-, -, hx⟩, -⟩
    · exact absurd hh (by decide)
    · exact absurd hw (by decide)
    · rw [hwide, ← nearest_eq_self_iff (by norm_num)] at hx
      revert hx
      decide +kernel
  · rintro ⟨hplaced, -⟩
    have hexact := (placedAsAsked_iff squareFont _ _ _ _ _ _ _ _).mp hplaced .near .near rfl
      ⟨by decide +kernel, by decide +kernel⟩
    have hmargin : (2147483648 : UInt32).toNat < 2 ^ 31 := hexact.1
    exact absurd hmargin (by decide)

end PicHost.WatermarkPlacement
