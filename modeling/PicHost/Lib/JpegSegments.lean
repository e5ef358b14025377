import Mathlib.Data.List.Basic

/-!
# JPEG as a sequence of marker segments

Start of image, segments with a length field, then the scan: the bytes from its marker to the
end of the file.
-/

namespace JpegSegments

def soi : UInt8 := 0xD8

def eoi : UInt8 := 0xD9

def sos : UInt8 := 0xDA

def app1 : UInt8 := 0xE1

/-- Markers that a length field follows and that do not start the scan. -/
def Sized (marker : UInt8) : Prop :=
  0x01 < marker ∧ marker ≠ 0xFF ∧ (marker < 0xD0 ∨ sos < marker)

instance (marker : UInt8) : Decidable (Sized marker) :=
  inferInstanceAs (Decidable (_ ∧ _ ∧ (_ ∨ _)))

structure Segment where
  marker : UInt8
  payload : List UInt8
  sized : Sized marker
  fits : payload.length + 2 < 0x10000

namespace Segment

variable (s : Segment)

/-- The length field counts its own two bytes. -/
def length : ℕ := s.payload.length + 2

def body : List UInt8 :=
  UInt8.ofNat (s.length / 256) :: UInt8.ofNat (s.length % 256) :: s.payload

def encode : List UInt8 := 0xFF :: s.marker :: s.body

theorem length_body : s.body.length = s.length := rfl

theorem lengthField :
    (UInt8.ofNat (s.length / 256)).toNat * 256 + (UInt8.ofNat (s.length % 256)).toNat =
      s.length := by
  have hfits : s.length < 256 * 256 := s.fits
  have hhi : s.length / 256 < UInt8.size := Nat.div_lt_of_lt_mul hfits
  have hlo : s.length % 256 < UInt8.size := Nat.mod_lt _ (by decide)
  rw [UInt8.toNat_ofNat_of_lt' hhi, UInt8.toNat_ofNat_of_lt' hlo]
  exact Nat.div_add_mod' s.length 256

theorem marker_ne_sos : s.marker ≠ sos := by
  intro h
  have hsized := s.sized
  rw [h] at hsized
  exact absurd hsized (by decide)

end Segment

structure Jpeg where
  segments : List Segment
  /-- What follows the scan's marker. -/
  scan : List UInt8

/-- The segments and the scan behind them. -/
def tail (segments : List Segment) (scan : List UInt8) : List UInt8 :=
  segments.flatMap Segment.encode ++ 0xFF :: sos :: scan

theorem tail_cons (s : Segment) (segments : List Segment) (scan : List UInt8) :
    tail (s :: segments) scan = s.encode ++ tail segments scan := by
  simp only [tail, List.flatMap_cons, List.append_assoc]

/-- Whatever follows a segment starts with the first byte of a marker. -/
theorem exists_tail (segments : List Segment) (scan : List UInt8) :
    ∃ rest, tail segments scan = 0xFF :: rest := by
  cases segments with
  | nil => exact ⟨sos :: scan, rfl⟩
  | cons s segments => exact ⟨_, tail_cons s segments scan⟩

namespace Jpeg

def encode (jpeg : Jpeg) : List UInt8 := 0xFF :: soi :: tail jpeg.segments jpeg.scan

/-- The same file without the segments of one marker. -/
def without (marker : UInt8) (jpeg : Jpeg) : Jpeg :=
  { jpeg with segments := jpeg.segments.filter fun s => s.marker != marker }

end Jpeg

end JpegSegments
