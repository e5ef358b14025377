import PicHost.Lib.JpegSegments
import PicHost.Web.ImageProcessor

/-!
# Stripping EXIF from a JPEG

`stripExifFromJpeg` looks for markers at every byte, so the pair `FF E1` or `FF DA` inside another
segment is read as one. From `FF DA` on it pushes the rest of the file in one call. The file loses
exactly its APP1 segments unless a pair is read too early or that call has too many arguments.
-/

namespace PicHost.Web.ExifStrip

open JpegSegments

/-- The first of the two markers the scanner looks for, at any byte. -/
def firstMark : Bytes → Option UInt8
  | byte :: marker :: rest =>
    if byte = 0xFF ∧ (marker = app1 ∨ marker = sos) then some marker
    else firstMark (marker :: rest)
  | _ => none

/-- The bytes from the first of the two markers on. -/
def fromMark : Bytes → Bytes
  | byte :: marker :: rest =>
    if byte = 0xFF ∧ (marker = app1 ∨ marker = sos) then byte :: marker :: rest
    else fromMark (marker :: rest)
  | _ => []

/-- Outside APP1, the first marker read inside a segment is SOS and behind every APP1. -/
def Readable : List Segment → Prop
  | [] => True
  | s :: rest =>
    if s.marker = app1 then Readable rest
    else if firstMark s.body = none then Readable rest
    else firstMark s.body = some sos ∧ ∀ t ∈ rest, t.marker ≠ app1

/-! ## What the loop keeps and what it spreads -/

/-- The bytes that `stripLoop` pushes. -/
def kept : ℕ → Bytes → Bytes
  | 0, _ | _, [] => []
  | fuel + 1, byte :: rest =>
    match rest with
    | [] => [byte]
    | marker :: segment =>
      if byte = 0xFF ∧ marker = 0xE1 then
        match segment with
        | hi :: lo :: _ => kept fuel (segment.drop (hi.toNat * 256 + lo.toNat))
        | _ => kept fuel segment
      else if byte = 0xFF ∧ marker = 0xDA then byte :: rest
      else byte :: kept fuel rest

/-- The bytes that it pushes in one call. -/
def spread : ℕ → Bytes → Bytes
  | 0, _ | _, [] => []
  | fuel + 1, byte :: rest =>
    match rest with
    | [] => []
    | marker :: segment =>
      if byte = 0xFF ∧ marker = 0xE1 then
        match segment with
        | hi :: lo :: _ => spread fuel (segment.drop (hi.toNat * 256 + lo.toNat))
        | _ => spread fuel segment
      else if byte = 0xFF ∧ marker = 0xDA then byte :: rest
      else spread fuel rest

/-- The loop throws when it spreads too many bytes, and else returns what it keeps. -/
theorem stripLoop_eq (engine : Engine) (fuel : ℕ) (bytes : Bytes) :
    stripLoop engine fuel bytes =
      (engine.spread (spread fuel bytes)).map fun _ => kept fuel bytes := by
  have hnil : engine.spread [] = .ok [] := if_pos (Nat.zero_le _)
  fun_induction stripLoop engine fuel bytes with
  | case1 => rw [spread, hnil]; rfl
  | case2 => simp only [spread, kept, hnil, Except.map]
  | case3 => simp only [spread, kept, hnil, Except.map]
  | case4 fuel byte marker hmark hi lo rest ih =>
    simp only [spread, kept, if_pos hmark, ih]
  | case5 fuel byte marker segment hmark hshort ih =>
    simp only [spread, kept, if_pos hmark, ih]
  | case6 fuel byte marker segment happ1 hsos =>
    simp only [spread, kept, if_neg happ1, if_pos hsos, Engine.spread]
    split <;> rfl
  | case7 fuel byte marker segment happ1 hsos ih =>
    simp only [spread, kept, if_neg happ1, if_neg hsos, ih]
    cases engine.spread (spread fuel (marker :: segment)) <;> rfl

/-! ## The scanner's loop -/

theorem kept_app1 (fuel : ℕ) (hi lo : UInt8) (rest : Bytes) :
    kept (fuel + 1) (0xFF :: app1 :: hi :: lo :: rest) =
      kept fuel ((hi :: lo :: rest).drop (hi.toNat * 256 + lo.toNat)) := rfl

theorem kept_sos (fuel : ℕ) (rest : Bytes) :
    kept (fuel + 1) (0xFF :: sos :: rest) = 0xFF :: sos :: rest := rfl

/-- A byte that starts neither marker is copied. -/
theorem kept_copy (fuel : ℕ) {byte marker : UInt8} (rest : Bytes)
    (h : ¬ (byte = 0xFF ∧ (marker = app1 ∨ marker = sos))) :
    kept (fuel + 1) (byte :: marker :: rest) =
      byte :: kept fuel (marker :: rest) := by
  have happ1 : ¬ (byte = 0xFF ∧ marker = 0xE1) := fun hm => h ⟨hm.1, .inl hm.2⟩
  have hsos : ¬ (byte = 0xFF ∧ marker = 0xDA) := fun hm => h ⟨hm.1, .inr hm.2⟩
  simp only [kept, if_neg happ1, if_neg hsos]

theorem spread_copy (fuel : ℕ) {byte marker : UInt8} (rest : Bytes)
    (h : ¬ (byte = 0xFF ∧ (marker = app1 ∨ marker = sos))) :
    spread (fuel + 1) (byte :: marker :: rest) = spread fuel (marker :: rest) := by
  have happ1 : ¬ (byte = 0xFF ∧ marker = 0xE1) := fun hm => h ⟨hm.1, .inl hm.2⟩
  have hsos : ¬ (byte = 0xFF ∧ marker = 0xDA) := fun hm => h ⟨hm.1, .inr hm.2⟩
  simp only [spread, if_neg happ1, if_neg hsos]

theorem spread_sos (fuel : ℕ) (rest : Bytes) :
    spread (fuel + 1) (0xFF :: sos :: rest) = 0xFF :: sos :: rest := rfl

theorem length_kept_le (fuel : ℕ) (bytes : Bytes) :
    (kept fuel bytes).length ≤ bytes.length := by
  fun_induction kept fuel bytes with
  | case1 => exact Nat.zero_le _
  | case2 => exact Nat.zero_le _
  | case3 => exact le_rfl
  | case4 fuel byte marker hmark hi lo rest ih =>
    simp only [List.length_drop, List.length_cons] at ih ⊢
    omega
  | case5 fuel byte marker segment hmark hshort ih =>
    simp only [List.length_cons]
    omega
  | case6 => exact le_rfl
  | case7 fuel byte marker segment happ1 hsos ih =>
    simp only [List.length_cons] at ih ⊢
    omega

/-- A scan that loses no byte changes none. -/
theorem kept_eq_self (fuel : ℕ) (bytes : Bytes)
    (h : (kept fuel bytes).length = bytes.length) : kept fuel bytes = bytes := by
  fun_induction kept fuel bytes with
  | case1 bytes => exact (List.length_eq_zero_iff.mp h.symm).symm
  | case2 => rfl
  | case3 => rfl
  | case4 fuel byte marker hmark hi lo rest ih =>
    have hle := length_kept_le fuel ((hi :: lo :: rest).drop (hi.toNat * 256 + lo.toNat))
    simp only [List.length_drop, List.length_cons] at h hle
    omega
  | case5 fuel byte marker segment hmark hshort ih =>
    have hle := length_kept_le fuel segment
    simp only [List.length_cons] at h
    omega
  | case6 => rfl
  | case7 fuel byte marker segment happ1 hsos ih =>
    rw [ih (Nat.succ.inj h)]

theorem suffix_of_cons {a b c : UInt8} {l : Bytes} (h : [a, b] <:+ c :: l)
    (hl : 2 ≤ l.length) : [a, b] <:+ l :=
  List.suffix_of_suffix_length_le h (List.suffix_cons c l) hl

/-- A scan that loses two bytes has met an empty length field, not the end of the file. -/
theorem eoi_of_lost_two (fuel : ℕ) (bytes : Bytes) (hfuel : bytes.length ≤ fuel)
    (h : (kept fuel bytes).length + 2 = bytes.length) (hend : [0xFF, eoi] <:+ bytes) :
    [0xFF, eoi] <:+ kept fuel bytes := by
  fun_induction kept fuel bytes with
  | case1 bytes =>
    rw [Nat.le_zero.mp hfuel] at h
    cases h
  | case2 => cases h
  | case3 => cases h
  | case4 fuel byte marker hmark hi lo rest ih =>
    have hle := length_kept_le fuel ((hi :: lo :: rest).drop (hi.toNat * 256 + lo.toNat))
    simp only [List.length_drop, List.length_cons] at h hle
    have hzero : hi.toNat * 256 + lo.toNat = 0 := by omega
    rw [hzero, List.drop_zero, kept_eq_self fuel (hi :: lo :: rest)]
    · refine suffix_of_cons (suffix_of_cons hend ?_) ?_ <;>
        · simp only [List.length_cons]
          omega
    · rw [hzero, List.drop_zero] at h
      simp only [List.length_cons]
      omega
  | case5 fuel byte marker segment hmark hshort ih =>
    have hsame : kept fuel segment = segment :=
      kept_eq_self fuel segment (by simpa using h)
    cases segment with
    | nil =>
      rw [List.suffix_iff_eq_drop] at hend
      simp [hmark.2, eoi] at hend
    | cons a segment =>
      cases segment with
      | nil =>
        rw [List.suffix_iff_eq_drop] at hend
        simp [hmark.2] at hend
      | cons b segment => exact absurd rfl (hshort a b segment)
  | case6 fuel byte marker segment =>
    simp only [List.length_cons] at h
    omega
  | case7 fuel byte marker segment happ1 hsos ih =>
    simp only [List.length_cons] at h hfuel ih
    refine (ih (by omega) (by omega) (suffix_of_cons hend ?_)).trans (List.suffix_cons ..)
    simp only [List.length_cons]
    omega

/-! ## One segment -/

theorem firstMark_append_of_some {bytes : Bytes} {marker : UInt8} (rest : Bytes)
    (h : firstMark bytes = some marker) : firstMark (bytes ++ rest) = some marker := by
  fun_induction firstMark bytes with
  | case1 byte m bytes hm =>
    rw [List.cons_append, List.cons_append, firstMark, if_pos hm, h]
  | case2 byte m bytes hm ih =>
    rw [List.cons_append, List.cons_append, firstMark, if_neg hm]
    exact ih h
  | case3 => cases h

/-- Bytes without either marker are copied, also when a marker begins right after them. -/
theorem kept_of_unmarked (fuel : ℕ) {bytes : Bytes} (rest : Bytes)
    (h : firstMark bytes = none) :
    kept (fuel + bytes.length) (bytes ++ 0xFF :: rest) =
      bytes ++ kept fuel (0xFF :: rest) := by
  fun_induction firstMark bytes with
  | case1 => cases h
  | case2 byte marker bytes hm ih =>
    change kept (fuel + (marker :: bytes).length + 1)
      (byte :: marker :: (bytes ++ 0xFF :: rest)) = _
    rw [kept_copy _ _ hm]
    exact congrArg (byte :: ·) (ih h)
  | case3 bytes hshort =>
    cases bytes with
    | nil => rfl
    | cons byte bytes =>
      cases bytes with
      | nil => exact kept_copy fuel rest fun hm => absurd hm.2 (by decide)
      | cons marker bytes => exact absurd rfl (hshort byte marker bytes)

/-- They are not spread. -/
theorem spread_of_unmarked (fuel : ℕ) {bytes : Bytes} (rest : Bytes)
    (h : firstMark bytes = none) :
    spread (fuel + bytes.length) (bytes ++ 0xFF :: rest) = spread fuel (0xFF :: rest) := by
  fun_induction firstMark bytes with
  | case1 => cases h
  | case2 byte marker bytes hm ih =>
    change spread (fuel + (marker :: bytes).length + 1)
      (byte :: marker :: (bytes ++ 0xFF :: rest)) = _
    rw [spread_copy _ _ hm]
    exact ih h
  | case3 bytes hshort =>
    cases bytes with
    | nil => rfl
    | cons byte bytes =>
      cases bytes with
      | nil => exact spread_copy fuel rest fun hm => absurd hm.2 (by decide)
      | cons marker bytes => exact absurd rfl (hshort byte marker bytes)

theorem fromMark_of_unmarked {bytes : Bytes} (rest : Bytes) (h : firstMark bytes = none) :
    fromMark (bytes ++ 0xFF :: rest) = fromMark (0xFF :: rest) := by
  fun_induction firstMark bytes with
  | case1 => cases h
  | case2 byte marker bytes hm ih =>
    rw [List.cons_append, List.cons_append, fromMark, if_neg hm]
    exact ih h
  | case3 bytes hshort =>
    cases bytes with
    | nil => rfl
    | cons byte bytes =>
      cases bytes with
      | nil => exact if_neg fun hm => absurd hm.2 (by decide)
      | cons marker bytes => exact absurd rfl (hshort byte marker bytes)

/-- From the marker of the scan on everything is copied, in one call. -/
theorem kept_of_sos (fuel : ℕ) {bytes : Bytes} (hfuel : bytes.length ≤ fuel)
    (h : firstMark bytes = some sos) :
    kept fuel bytes = bytes ∧ spread fuel bytes = fromMark bytes := by
  fun_induction firstMark bytes generalizing fuel with
  | case1 byte marker rest hm =>
    obtain ⟨fuel, rfl⟩ := Nat.exists_eq_add_of_le' hfuel
    rw [fromMark, if_pos hm, hm.1, Option.some.inj h]
    exact ⟨kept_sos (fuel + (rest.length + 1)) rest, spread_sos (fuel + (rest.length + 1)) rest⟩
  | case2 byte marker rest hm ih =>
    cases fuel with
    | zero => cases hfuel
    | succ fuel =>
      obtain ⟨hkept, hspread⟩ := ih fuel (Nat.le_of_succ_le_succ hfuel) h
      rw [kept_copy fuel rest hm, spread_copy fuel rest hm, fromMark, if_neg hm, hkept]
      exact ⟨rfl, hspread⟩
  | case3 => cases h

/-- An APP1 marker is lost, and its length field may take more. -/
theorem length_kept_app1_le (fuel : ℕ) (rest : Bytes) :
    (kept (fuel + 1) (0xFF :: app1 :: rest)).length ≤ rest.length := by
  cases rest with
  | nil => exact length_kept_le fuel []
  | cons hi rest =>
    cases rest with
    | nil => exact length_kept_le fuel [hi]
    | cons lo rest =>
      rw [kept_app1]
      exact (length_kept_le fuel _).trans (List.drop_sublist _ _).length_le

theorem length_kept_of_app1 (fuel : ℕ) {bytes : Bytes} (h : firstMark bytes = some app1) :
    (kept fuel bytes).length < bytes.length := by
  fun_induction firstMark bytes generalizing fuel with
  | case1 byte marker rest hm =>
    rw [hm.1, Option.some.inj h]
    cases fuel with
    | zero => exact Nat.succ_pos _
    | succ fuel => exact Nat.lt_succ_of_lt (Nat.lt_succ_of_le (length_kept_app1_le fuel rest))
  | case2 byte marker rest hm ih =>
    cases fuel with
    | zero => exact Nat.succ_pos _
    | succ fuel =>
      rw [kept_copy fuel rest hm]
      exact Nat.succ_lt_succ (ih fuel h)
  | case3 => cases h

/-! ## The segments of a file -/

theorem firstMark_encode {s : Segment} (h : s.marker ≠ app1) :
    firstMark s.encode = firstMark s.body := by
  have hmarker : ¬ ((0xFF : UInt8) = 0xFF ∧ (s.marker = app1 ∨ s.marker = sos)) := by
    rintro ⟨-, happ1 | hsos⟩
    · exact h happ1
    · exact s.marker_ne_sos hsos
  have hbyte (b : UInt8) : ¬ (s.marker = 0xFF ∧ (b = app1 ∨ b = sos)) :=
    fun hm => s.sized.2.1 hm.1
  rw [Segment.encode, firstMark, if_neg hmarker, Segment.body, firstMark, if_neg (hbyte _)]

theorem firstMark_eq (bytes : Bytes) :
    firstMark bytes = none ∨ firstMark bytes = some app1 ∨ firstMark bytes = some sos := by
  fun_induction firstMark bytes with
  | case1 byte marker rest hm =>
    rcases hm.2 with rfl | rfl
    · exact .inr (.inl rfl)
    · exact .inr (.inr rfl)
  | case2 byte marker rest hm ih => exact ih
  | case3 => exact .inl rfl

variable (scan : Bytes)

/-- An APP1 segment is left out by its length field. -/
theorem kept_app1_segment {s : Segment} (h : s.marker = app1) (fuel : ℕ)
    (segments : List Segment) :
    kept (fuel + 1) (tail (s :: segments) scan) = kept fuel (tail segments scan) := by
  rw [tail_cons, Segment.encode, h]
  change kept fuel ((s.body ++ tail segments scan).drop _) = _
  rw [s.lengthField, ← s.length_body, List.drop_left]

theorem spread_app1_segment {s : Segment} (h : s.marker = app1) (fuel : ℕ)
    (segments : List Segment) :
    spread (fuel + 1) (tail (s :: segments) scan) = spread fuel (tail segments scan) := by
  rw [tail_cons, Segment.encode, h]
  change spread fuel ((s.body ++ tail segments scan).drop _) = _
  rw [s.lengthField, ← s.length_body, List.drop_left]

/-- Another segment is copied when no marker is read inside it. -/
theorem kept_segment {s : Segment} (h : s.marker ≠ app1) (hbody : firstMark s.body = none)
    (fuel : ℕ) (segments : List Segment) :
    kept (fuel + s.encode.length) (tail (s :: segments) scan) =
      s.encode ++ kept fuel (tail segments scan) := by
  obtain ⟨rest, hrest⟩ := exists_tail segments scan
  rw [tail_cons, hrest]
  exact kept_of_unmarked fuel rest ((firstMark_encode h).trans hbody)

theorem spread_segment {s : Segment} (h : s.marker ≠ app1) (hbody : firstMark s.body = none)
    (fuel : ℕ) (segments : List Segment) :
    spread (fuel + s.encode.length) (tail (s :: segments) scan) =
      spread fuel (tail segments scan) := by
  obtain ⟨rest, hrest⟩ := exists_tail segments scan
  rw [tail_cons, hrest]
  exact spread_of_unmarked fuel rest ((firstMark_encode h).trans hbody)

theorem fromMark_segment {s : Segment} (h : s.marker ≠ app1) (hbody : firstMark s.body = none)
    (segments : List Segment) :
    fromMark (tail (s :: segments) scan) = fromMark (tail segments scan) := by
  obtain ⟨rest, hrest⟩ := exists_tail segments scan
  rw [tail_cons, hrest]
  exact fromMark_of_unmarked rest ((firstMark_encode h).trans hbody)

theorem length_tail_cons (s : Segment) (segments : List Segment) :
    (tail (s :: segments) scan).length = s.encode.length + (tail segments scan).length := by
  rw [tail_cons, List.length_append]

/-- A marker read inside a segment is the first one read from there on. -/
theorem firstMark_tail {s : Segment} (h : s.marker ≠ app1) {marker : UInt8}
    (hbody : firstMark s.body = some marker) (segments : List Segment) :
    firstMark (tail (s :: segments) scan) = some marker := by
  rw [tail_cons]
  exact firstMark_append_of_some _ ((firstMark_encode h).trans hbody)

theorem filter_cons_app1 {s : Segment} (h : s.marker = app1) (segments : List Segment) :
    (s :: segments).filter (fun s => s.marker != app1) =
      segments.filter fun s => s.marker != app1 :=
  List.filter_cons_of_neg (by simp [h])

theorem filter_cons_other {s : Segment} (h : s.marker ≠ app1) (segments : List Segment) :
    (s :: segments).filter (fun s => s.marker != app1) =
      s :: segments.filter fun s => s.marker != app1 :=
  List.filter_cons_of_pos (bne_iff_ne.mpr h)

theorem filter_eq_self {segments : List Segment} (h : ∀ s ∈ segments, s.marker ≠ app1) :
    segments.filter (fun s => s.marker != app1) = segments :=
  List.filter_eq_self.mpr fun s hs => bne_iff_ne.mpr (h s hs)

/-- `Readable` files lose their APP1 segments. -/
theorem kept_tail {segments : List Segment} (h : Readable segments) (fuel : ℕ)
    (hfuel : (tail segments scan).length ≤ fuel) :
    kept fuel (tail segments scan) =
      tail (segments.filter fun s => s.marker != app1) scan := by
  induction segments generalizing fuel with
  | nil =>
    obtain ⟨fuel, rfl⟩ := Nat.exists_eq_add_of_le' (Nat.succ_le_of_lt hfuel)
    exact kept_sos _ scan
  | cons s segments ih =>
    rw [length_tail_cons] at hfuel
    obtain ⟨fuel, rfl⟩ := Nat.exists_eq_add_of_le' (le_of_add_le_left hfuel)
    by_cases happ1 : s.marker = app1
    · rw [Readable, if_pos happ1] at h
      rw [filter_cons_app1 happ1]
      have hpos : s.encode.length = s.body.length + 1 + 1 := rfl
      rw [hpos, ← add_assoc, kept_app1_segment scan happ1]
      exact ih h _ (by omega)
    rw [Readable, if_neg happ1] at h
    rw [filter_cons_other happ1, tail_cons s (segments.filter _)]
    by_cases hbody : firstMark s.body = none
    · rw [if_pos hbody] at h
      rw [kept_segment scan happ1 hbody, ih h fuel (by omega)]
    · -- the scan seems to start inside `s`, and no APP1 follows
      rw [if_neg hbody] at h
      rw [filter_eq_self h.2, ← tail_cons]
      refine (kept_of_sos _ ?_ (firstMark_tail scan happ1 h.1 segments)).1
      rw [length_tail_cons]
      omega

/-- What is spread of them is what follows the first marker read outside APP1. -/
theorem spread_tail {segments : List Segment} (h : Readable segments) (fuel : ℕ)
    (hfuel : (tail segments scan).length ≤ fuel) :
    spread fuel (tail segments scan) =
      fromMark (tail (segments.filter fun s => s.marker != app1) scan) := by
  induction segments generalizing fuel with
  | nil =>
    obtain ⟨fuel, rfl⟩ := Nat.exists_eq_add_of_le' (Nat.succ_le_of_lt hfuel)
    exact spread_sos _ scan
  | cons s segments ih =>
    rw [length_tail_cons] at hfuel
    obtain ⟨fuel, rfl⟩ := Nat.exists_eq_add_of_le' (le_of_add_le_left hfuel)
    by_cases happ1 : s.marker = app1
    · rw [Readable, if_pos happ1] at h
      rw [filter_cons_app1 happ1]
      have hpos : s.encode.length = s.body.length + 1 + 1 := rfl
      rw [hpos, ← add_assoc, spread_app1_segment scan happ1]
      exact ih h _ (by omega)
    rw [Readable, if_neg happ1] at h
    rw [filter_cons_other happ1]
    by_cases hbody : firstMark s.body = none
    · rw [if_pos hbody] at h
      rw [spread_segment scan happ1 hbody, ih h fuel (by omega), fromMark_segment scan happ1 hbody]
    · rw [if_neg hbody] at h
      rw [filter_eq_self h.2]
      refine (kept_of_sos _ ?_ (firstMark_tail scan happ1 h.1 segments)).2
      rw [length_tail_cons]
      omega

/-- A file without APP1 that the scanner does not change has no APP1 marker read in it. -/
theorem readable_of_fixed {segments : List Segment} (h : ∀ s ∈ segments, s.marker ≠ app1)
    (fuel : ℕ) (hfuel : (tail segments scan).length ≤ fuel)
    (hfixed : kept fuel (tail segments scan) = tail segments scan) : Readable segments := by
  induction segments generalizing fuel with
  | nil => trivial
  | cons s segments ih =>
    obtain ⟨happ1, hrest⟩ := List.forall_mem_cons.mp h
    rw [Readable, if_neg happ1]
    rcases firstMark_eq s.body with hbody | hbody | hbody
    · rw [if_pos hbody]
      rw [length_tail_cons] at hfuel
      obtain ⟨fuel, rfl⟩ := Nat.exists_eq_add_of_le' (le_of_add_le_left hfuel)
      rw [kept_segment scan happ1 hbody, tail_cons] at hfixed
      exact ih hrest fuel (by omega) (List.append_cancel_left hfixed)
    · have hlost := length_kept_of_app1 fuel (firstMark_tail scan happ1 hbody segments)
      rw [hfixed] at hlost
      exact absurd hlost (lt_irrefl _)
    · rw [if_neg (by rw [hbody]; simp)]
      exact ⟨hbody, hrest⟩

theorem length_tail_filter_le (segments : List Segment) :
    (tail (segments.filter fun s => s.marker != app1) scan).length ≤
      (tail segments scan).length := by
  induction segments with
  | nil => exact le_rfl
  | cons s segments ih =>
    by_cases happ1 : s.marker = app1
    · rw [filter_cons_app1 happ1, length_tail_cons]
      omega
    · rw [filter_cons_other happ1, length_tail_cons, length_tail_cons]
      omega

/-- Only a file without APP1 is as long as without APP1. -/
theorem no_app1_of_length {segments : List Segment}
    (h : (tail segments scan).length ≤
      (tail (segments.filter fun s => s.marker != app1) scan).length) :
    ∀ s ∈ segments, s.marker ≠ app1 := by
  induction segments with
  | nil => simp
  | cons s segments ih =>
    have hle := length_tail_filter_le scan segments
    by_cases happ1 : s.marker = app1
    · have hpos : s.encode.length = s.body.length + 1 + 1 := rfl
      rw [filter_cons_app1 happ1, length_tail_cons] at h
      omega
    · rw [filter_cons_other happ1, length_tail_cons, length_tail_cons] at h
      exact List.forall_mem_cons.mpr ⟨happ1, ih (by omega)⟩

/-- A scan that leaves no more than the file without APP1 has read every APP1 segment. -/
theorem readable_of_filter {segments : List Segment}
    (h : Readable (segments.filter fun s => s.marker != app1)) (fuel : ℕ)
    (hfuel : (tail segments scan).length ≤ fuel)
    (hlen : (kept fuel (tail segments scan)).length ≤
      (tail (segments.filter fun s => s.marker != app1) scan).length) : Readable segments := by
  induction segments generalizing fuel with
  | nil => trivial
  | cons s segments ih =>
    have htail := length_tail_cons scan s segments
    rw [htail] at hfuel
    by_cases happ1 : s.marker = app1
    · have hpos : s.encode.length = s.body.length + 1 + 1 := rfl
      obtain ⟨fuel, rfl⟩ := Nat.exists_eq_add_of_le' (show 1 ≤ fuel by omega)
      rw [filter_cons_app1 happ1] at h hlen
      rw [kept_app1_segment scan happ1] at hlen
      rw [Readable, if_pos happ1]
      exact ih h fuel (by omega) hlen
    rw [filter_cons_other happ1] at h hlen
    rw [Readable, if_neg happ1] at h ⊢
    by_cases hbody : firstMark s.body = none
    · rw [if_pos hbody] at h ⊢
      obtain ⟨fuel, rfl⟩ := Nat.exists_eq_add_of_le' (le_of_add_le_left hfuel)
      rw [kept_segment scan happ1 hbody, List.length_append, length_tail_cons] at hlen
      exact ih h fuel (by omega) (by omega)
    · rw [if_neg hbody] at h ⊢
      rw [(kept_of_sos fuel (htail ▸ hfuel) (firstMark_tail scan happ1 h.1 segments)).1,
        length_tail_cons, length_tail_cons] at hlen
      exact ⟨h.1, no_app1_of_length scan (by omega)⟩

theorem Readable.filter {segments : List Segment} (h : Readable segments) :
    Readable (segments.filter fun s => s.marker != app1) := by
  induction segments with
  | nil => trivial
  | cons s segments ih =>
    by_cases happ1 : s.marker = app1
    · rw [Readable, if_pos happ1] at h
      rw [filter_cons_app1 happ1]
      exact ih h
    rw [filter_cons_other happ1]
    rw [Readable, if_neg happ1] at h ⊢
    by_cases hbody : firstMark s.body = none
    · rw [if_pos hbody] at h ⊢
      exact ih h
    · rw [if_neg hbody] at h ⊢
      rwa [filter_eq_self h.2]

/-! ## The whole file -/

theorem kept_encode (jpeg : Jpeg) :
    kept jpeg.encode.length jpeg.encode =
      0xFF :: soi :: kept (tail jpeg.segments jpeg.scan).length
        (tail jpeg.segments jpeg.scan) := by
  obtain ⟨rest, hrest⟩ := exists_tail jpeg.segments jpeg.scan
  change kept ((tail jpeg.segments jpeg.scan).length + 1 + 1)
    (0xFF :: soi :: tail jpeg.segments jpeg.scan) = _
  rw [kept_copy _ _ (by decide), hrest, kept_copy _ _ (by decide)]

theorem spread_encode (jpeg : Jpeg) :
    spread jpeg.encode.length jpeg.encode =
      spread (tail jpeg.segments jpeg.scan).length (tail jpeg.segments jpeg.scan) := by
  obtain ⟨rest, hrest⟩ := exists_tail jpeg.segments jpeg.scan
  change spread ((tail jpeg.segments jpeg.scan).length + 1 + 1)
    (0xFF :: soi :: tail jpeg.segments jpeg.scan) = _
  rw [spread_copy _ _ (by decide), hrest, spread_copy _ _ (by decide)]

theorem fromMark_encode (jpeg : Jpeg) :
    fromMark jpeg.encode = fromMark (tail jpeg.segments jpeg.scan) := by
  obtain ⟨rest, hrest⟩ := exists_tail jpeg.segments jpeg.scan
  rw [Jpeg.encode, hrest]
  exact @fromMark_of_unmarked [0xFF, soi] rest (by decide)

/-- The bytes kept, with an end of image if the file had one and they have none. -/
def mended (jpeg : Jpeg) : Bytes :=
  if [0xFF, eoi] <:+ jpeg.encode ∧ ¬ [0xFF, eoi] <:+ kept jpeg.encode.length jpeg.encode then
    kept jpeg.encode.length jpeg.encode ++ [0xFF, eoi]
  else kept jpeg.encode.length jpeg.encode

variable {engine : Engine} {jpeg : Jpeg}

theorem stripExif_encode :
    stripExifFromJpeg engine jpeg.encode =
      (engine.spread (spread jpeg.encode.length jpeg.encode)).map fun _ => mended jpeg := by
  rw [stripExifFromJpeg, if_pos ⟨tail jpeg.segments jpeg.scan, rfl⟩, stripLoop_eq]
  cases engine.spread (spread jpeg.encode.length jpeg.encode) <;> rfl

theorem mended_of_ok {bytes : Bytes} (h : stripExifFromJpeg engine jpeg.encode = .ok bytes) :
    mended jpeg = bytes ∧ (spread jpeg.encode.length jpeg.encode).length ≤ engine.maxArguments := by
  rw [stripExif_encode, Engine.spread] at h
  split at h
  · rename_i hfits
    exact ⟨Except.ok.inj h, hfits⟩
  · cases h

theorem length_kept_le_mended :
    (kept jpeg.encode.length jpeg.encode).length ≤ (mended jpeg).length := by
  unfold mended
  split
  · exact (List.prefix_append _ _).length_le
  · exact le_rfl

/-- The scan's bytes decide how a file ends. -/
theorem eoi_encode_iff (jpeg : Jpeg) :
    [0xFF, eoi] <:+ jpeg.encode ↔ [0xFF, eoi] <:+ 0xFF :: sos :: jpeg.scan := by
  have hscan : 0xFF :: sos :: jpeg.scan <:+ jpeg.encode :=
    ⟨0xFF :: soi :: jpeg.segments.flatMap Segment.encode, rfl⟩
  exact ⟨fun h => List.suffix_of_suffix_length_le h hscan (Nat.le_add_left 2 _),
    fun h => h.trans hscan⟩

theorem mended_readable (h : Readable jpeg.segments) :
    mended jpeg = (jpeg.without app1).encode := by
  have hkept : kept jpeg.encode.length jpeg.encode = (jpeg.without app1).encode := by
    rw [kept_encode, kept_tail jpeg.scan h _ le_rfl]
    rfl
  rw [mended, hkept]
  exact if_neg fun hend => hend.2 ((eoi_encode_iff _).mpr ((eoi_encode_iff jpeg).mp hend.1))

theorem spread_readable (h : Readable jpeg.segments) :
    spread jpeg.encode.length jpeg.encode = fromMark (jpeg.without app1).encode := by
  rw [spread_encode, spread_tail jpeg.scan h _ le_rfl, fromMark_encode]
  rfl

theorem stripExif_readable (h : Readable jpeg.segments)
    (hfits : (fromMark (jpeg.without app1).encode).length ≤ engine.maxArguments) :
    stripExifFromJpeg engine jpeg.encode = .ok (jpeg.without app1).encode := by
  rw [stripExif_encode, spread_readable h, Engine.spread, if_pos hfits, mended_readable h]
  rfl

/-- A photo whose scan is too long for one call is not stripped at all. -/
theorem stripExif_too_long (h : Readable jpeg.segments)
    (hlong : engine.maxArguments < (fromMark (jpeg.without app1).encode).length) :
    stripExifFromJpeg engine jpeg.encode = .error (.error engine.rangeError) := by
  rw [stripExif_encode, spread_readable h, Engine.spread, if_neg (Nat.not_le.mpr hlong)]
  rfl

/-- Nothing is appended to a file that comes back as it was. -/
theorem kept_of_fixed (h : mended jpeg = jpeg.encode) :
    kept jpeg.encode.length jpeg.encode = jpeg.encode := by
  unfold mended at h
  split at h
  · rename_i hend
    have hlen := congrArg List.length h
    rw [List.length_append] at hlen
    exact absurd (eoi_of_lost_two _ _ le_rfl hlen hend.1) hend.2
  · exact h

/-- A file that loses exactly its APP1 segments, and nothing more a second time, has had none of
its markers read too early. -/
theorem readable_of_exact (hexact : mended jpeg = (jpeg.without app1).encode)
    (hfixed : mended (jpeg.without app1) = (jpeg.without app1).encode) :
    Readable jpeg.segments := by
  have hwithout := kept_of_fixed hfixed
  rw [kept_encode] at hwithout
  have hreadable : Readable (jpeg.without app1).segments := by
    refine readable_of_fixed jpeg.scan (fun s hs => ?_) _ le_rfl
      (List.cons.inj (List.cons.inj hwithout).2).2
    exact bne_iff_ne.mp (List.mem_filter.mp hs).2
  have hlen := @length_kept_le_mended jpeg
  rw [hexact, kept_encode] at hlen
  exact readable_of_filter jpeg.scan hreadable _ le_rfl
    (Nat.le_of_succ_le_succ (Nat.le_of_succ_le_succ hlen))

theorem without_without (jpeg : Jpeg) : (jpeg.without app1).without app1 = jpeg.without app1 :=
  congrArg (fun segments => (⟨segments, jpeg.scan⟩ : Jpeg))
    (filter_eq_self fun _ hs => bne_iff_ne.mp (List.mem_filter.mp hs).2)

/-- The scanner removes the APP1 segments of a JPEG and nothing else, and finds nothing more to
remove in the result, exactly when no marker is read too early and the rest of the file can be
spread; other bytes stay as they are. -/
theorem strips_app1_iff (engine : Engine) (bytes : Bytes) (jpeg : Jpeg) :
    (¬ [0xFF, 0xD8] <+: bytes → stripExifFromJpeg engine bytes = .ok bytes) ∧
    ((stripExifFromJpeg engine jpeg.encode = .ok (jpeg.without app1).encode ∧
        stripExifFromJpeg engine jpeg.encode >>= stripExifFromJpeg engine =
          stripExifFromJpeg engine jpeg.encode) ↔
      Readable jpeg.segments ∧
        (fromMark (jpeg.without app1).encode).length ≤ engine.maxArguments) := by
  refine ⟨fun hbytes => if_neg hbytes, ?_, ?_⟩
  · rintro ⟨hexact, hfixed⟩
    rw [hexact] at hfixed
    obtain ⟨hmended, hfits⟩ := mended_of_ok hexact
    have hreadable := readable_of_exact hmended (mended_of_ok hfixed).1
    rw [spread_readable hreadable] at hfits
    exact ⟨hreadable, hfits⟩
  · rintro ⟨hreadable, hfits⟩
    have hexact := stripExif_readable hreadable hfits
    have hagain := @stripExif_readable engine (jpeg.without app1) hreadable.filter
      (by rwa [without_without])
    rw [without_without] at hagain
    rw [hexact]
    exact ⟨rfl, hagain⟩

/-- A comment whose text holds the two bytes of an APP1 marker. -/
def commented : Jpeg where
  segments := [⟨0xFE, [0xFF, 0xE1, 0x00, 0x04], by decide, by decide⟩,
    ⟨0xDB, [0x00, 0x10], by decide, by decide⟩]
  scan := [0x00, 0x02, 0x5A, 0xFF, 0xD9]

def largeCalls : Engine := ⟨100000, "Maximum call stack size exceeded"⟩

/-- Its comment and the head of its next segment are lost. -/
theorem commented_cut :
    ¬ ((∀ bytes : Bytes, ¬ [0xFF, 0xD8] <+: bytes →
        stripExifFromJpeg largeCalls bytes = .ok bytes) ∧
    ∀ jpeg : Jpeg, stripExifFromJpeg largeCalls jpeg.encode = .ok (jpeg.without app1).encode ∧
        stripExifFromJpeg largeCalls jpeg.encode >>= stripExifFromJpeg largeCalls =
          stripExifFromJpeg largeCalls jpeg.encode) :=
  fun h => absurd (mended_of_ok (h.2 commented).1).1 (by decide)

end PicHost.Web.ExifStrip
