import PicHost.Lib.Radix
import Mathlib.Data.Nat.ModEq

/-!
# Timestamps as texts

Instants are nanoseconds since the epoch, which a clock never shows less than. The two
formatters agree on `%Y-%m-%dT%H:%M:` and differ in `%f`: chrono writes the nanoseconds of the
second, SQLite the second and its milliseconds.
-/

namespace PicHost.Timestamps

open Radix

def secondNanos : ℕ := 1000000000

def minuteNanos : ℕ := 60 * secondNanos

/-- The day of the epoch, counted from the first day of the year 0. -/
def epochDay : ℕ := 719528

def isLeapYear (y : ℕ) : Bool := y % 4 = 0 && (y % 100 ≠ 0 || y % 400 = 0)

/-- The days of the years before `y`. -/
def daysBeforeYear (y : ℕ) : ℕ := 365 * y + (y + 3) / 4 + (y + 399) / 400 - (y + 99) / 100

/-- The year of a day: 146097 days are 400 years, and the guess is off by one at most. -/
def yearOf (d : ℕ) : ℕ :=
  let guess := 400 * d / 146097
  if daysBeforeYear (guess + 1) ≤ d then guess + 1
  else if d < daysBeforeYear guess then guess - 1
  else guess

/-- The days of the year before each month. -/
def monthStarts (leap : Bool) : List ℕ :=
  let l := if leap then 1 else 0
  [0, 31, 59 + l, 90 + l, 120 + l, 151 + l, 181 + l, 212 + l, 243 + l, 273 + l, 304 + l, 334 + l]

/-- The month of a day of the year. -/
def monthOf (leap : Bool) (r : ℕ) : ℕ := (monthStarts leap).countP (· ≤ r)

def monthStart (leap : Bool) (m : ℕ) : ℕ := (monthStarts leap).getD (m - 1) 0

/-- `%Y`: four digits, or as many as it takes after a sign. -/
def yearText (y : ℕ) : List Char :=
  if y < 10000 then decimal.encode 4 y else '+' :: Nat.toDigits 10 y

/-- `%m-%d`. -/
def monthDayText (leap : Bool) (r : ℕ) : List Char :=
  let m := monthOf leap r
  decimal.encode 2 m ++ '-' :: decimal.encode 2 (r - monthStart leap m + 1)

/-- `%H:%M`. -/
def clockText (m : ℕ) : List Char :=
  decimal.encode 2 (m / 60) ++ ':' :: decimal.encode 2 (m % 60)

/-- `%Y-%m-%d` for a day since the year 0. -/
def dateText (d : ℕ) : List Char :=
  let y := yearOf d
  yearText y ++ '-' :: monthDayText (isLeapYear y) (d - daysBeforeYear y)

/-- `%Y-%m-%dT%H:%M:` for a minute since the epoch. -/
def minuteText (minute : ℕ) : List Char :=
  dateText (minute / 1440 + epochDay) ++ 'T' :: (clockText (minute % 1440) ++ [':'])

/-- The instant the year 10000 begins. -/
def year10000 : ℕ := (daysBeforeYear 10000 - epochDay) * (1440 * minuteNanos)

/-- `t.format("%Y-%m-%dT%H:%M:%fZ")` of chrono. -/
def chronoFormat (t : ℕ) : List Char :=
  minuteText (t / minuteNanos) ++ (decimal.encode 9 (t % secondNanos) ++ ['Z'])

/-- `strftime('%Y-%m-%dT%H:%M:%fZ','now')` of SQLite: `NULL` past the year 9999. -/
def strftime (t : ℕ) : Option (List Char) :=
  if t < year10000 then
    some (minuteText (t / minuteNanos) ++ (decimal.encode 2 (t / secondNanos % 60) ++
      '.' :: (decimal.encode 3 (t / 1000000 % 1000) ++ ['Z'])))
  else none

theorem ceilDiv_succ {n : ℕ} (hn : 0 < n) (y : ℕ) :
    (y + 1 + (n - 1)) / n = (y + (n - 1)) / n + if y % n = 0 then 1 else 0 := by
  have hsum : y + 1 + (n - 1) = y + n := by omega
  have hsucc : y + (n - 1) + 1 = y + n := by omega
  have hdvd : n ∣ y + n ↔ y % n = 0 := by
    rw [Nat.dvd_add_left (dvd_refl n)]
    exact Nat.dvd_iff_mod_eq_zero
  rw [hsum, ← hsucc, Nat.succ_div, hsucc]
  simp only [hdvd]

theorem daysBeforeYear_succ (y : ℕ) :
    daysBeforeYear (y + 1) = daysBeforeYear y + if isLeapYear y then 366 else 365 := by
  have h4 := ceilDiv_succ (n := 4) (by decide) y
  have h100 := ceilDiv_succ (n := 100) (by decide) y
  have h400 := ceilDiv_succ (n := 400) (by decide) y
  have hle : (y + 99) / 100 ≤ (y + 3) / 4 := by omega
  have hmod : y % 400 = 0 → y % 100 = 0 := fun h => by omega
  have hmod' : y % 100 = 0 → y % 4 = 0 := fun h => by omega
  simp only [Nat.reduceSub] at h4 h100 h400
  simp only [daysBeforeYear, h4, h100, h400, isLeapYear, Bool.and_eq_true, Bool.or_eq_true,
    decide_eq_true_eq]
  by_cases hy4 : y % 4 = 0
  · by_cases hy100 : y % 100 = 0
    · by_cases hy400 : y % 400 = 0
      · rw [if_pos hy4, if_pos hy100, if_pos hy400, if_pos ⟨hy4, .inr hy400⟩]
        omega
      · rw [if_pos hy4, if_pos hy100, if_neg hy400, if_neg fun h => h.2.elim (· hy100) hy400]
        omega
    · rw [if_pos hy4, if_neg hy100, if_neg (mt hmod hy100), if_pos ⟨hy4, .inl hy100⟩]
      omega
  · rw [if_neg hy4, if_neg (mt hmod' hy4), if_neg (mt hmod (mt hmod' hy4)), if_neg fun h => hy4 h.1]
    omega

theorem daysBeforeYear_mono {y y' : ℕ} (h : y ≤ y') : daysBeforeYear y ≤ daysBeforeYear y' :=
  monotone_nat_of_le_succ (fun y => by rw [daysBeforeYear_succ]; exact Nat.le_add_right _ _) h

/-- The average year has 365.2425 days. -/
theorem daysBeforeYear_bounds (y : ℕ) :
    400 * daysBeforeYear y ≤ 146097 * y + 699 ∧ 146097 * y ≤ 400 * daysBeforeYear y + 396 := by
  simp only [daysBeforeYear]
  omega

/-- A day lies in its year. -/
theorem yearOf_spec (d : ℕ) :
    daysBeforeYear (yearOf d) ≤ d ∧ d < daysBeforeYear (yearOf d + 1) := by
  have hhigh : d < daysBeforeYear (400 * d / 146097 + 2) := by
    have hbound := (daysBeforeYear_bounds (400 * d / 146097 + 2)).2
    omega
  simp only [yearOf]
  split
  · rename_i h
    exact ⟨h, hhigh⟩
  · split
    · rename_i h h'
      have hpos : 400 * d / 146097 ≠ 0 := by
        intro h0
        rw [h0] at h'
        exact absurd h' (by simp [daysBeforeYear])
      have hbound := (daysBeforeYear_bounds (400 * d / 146097 - 1)).1
      refine ⟨by omega, ?_⟩
      rwa [Nat.sub_add_cancel (Nat.one_le_iff_ne_zero.mpr hpos)]
    · rename_i h h'
      exact ⟨Nat.le_of_not_lt h', Nat.lt_of_not_le h⟩

theorem yearOf_mono {d d' : ℕ} (h : d ≤ d') : yearOf d ≤ yearOf d' := by
  by_contra hlt
  have hyear := daysBeforeYear_mono (show yearOf d' + 1 ≤ yearOf d from Nat.lt_of_not_le hlt)
  have hd := (yearOf_spec d).1
  have hd' := (yearOf_spec d').2
  omega

/-- The day of its year. -/
theorem dayOfYear_lt (d : ℕ) : d - daysBeforeYear (yearOf d) < 366 := by
  obtain ⟨hlow, hhigh⟩ := yearOf_spec d
  rw [daysBeforeYear_succ] at hhigh
  split at hhigh <;> omega

theorem monthOf_lt (leap : Bool) (r : ℕ) : monthOf leap r < 100 :=
  Nat.lt_of_le_of_lt List.countP_le_length (by cases leap <;> decide)

theorem monthOf_mono (leap : Bool) {r r' : ℕ} (h : r ≤ r') : monthOf leap r ≤ monthOf leap r' :=
  List.countP_mono_left fun s _ hs => by
    rw [decide_eq_true_eq] at hs ⊢
    exact hs.trans h

theorem monthStart_le : ∀ leap, ∀ r < 366,
    monthStart leap (monthOf leap r) ≤ r ∧ r - monthStart leap (monthOf leap r) < 32 := by
  decide +kernel

/-- Texts that begin with a month and a day are in the order of the days of the year. -/
theorem monthDayText_append_lt (leap : Bool) {r r' : ℕ} (hr : r < 366) (hr' : r' < 366)
    (x y : List Char) :
    monthDayText leap r ++ x < monthDayText leap r' ++ y ↔ r < r' ∨ r = r' ∧ x < y := by
  obtain ⟨hs, hd⟩ := monthStart_le leap r hr
  obtain ⟨hs', hd'⟩ := monthStart_le leap r' hr'
  simp only [monthDayText, List.append_assoc, List.cons_append]
  rw [decimal.encode_append_lt (monthOf_lt leap r) (monthOf_lt leap r'), List.cons_lt_cons_iff,
    decimal.encode_append_lt (by omega) (by omega)]
  simp only [Char.lt_irrefl, false_or, true_and]
  refine lex_iff (fun h => ?_) (fun h => ?_) fun h => ?_
  · rcases Nat.lt_or_eq_of_le (monthOf_mono leap h.le) with hm | hm
    · exact .inl hm
    · rw [hm] at hs ⊢
      exact .inr ⟨rfl, by omega⟩
  · rcases Nat.lt_or_eq_of_le (monthOf_mono leap h.le) with hm | hm
    · exact .inl hm
    · rw [hm] at hs' ⊢
      exact .inr ⟨rfl, by omega⟩
  · subst h
    exact ⟨rfl, rfl⟩

theorem clockText_append_lt {m m' : ℕ} (hm : m < 1440) (hm' : m' < 1440) (x y : List Char) :
    clockText m ++ x < clockText m' ++ y ↔ m < m' ∨ m = m' ∧ x < y := by
  simp only [clockText, List.append_assoc, List.cons_append]
  rw [decimal.encode_append_lt (by omega) (by omega), List.cons_lt_cons_iff,
    decimal.encode_append_lt (by omega) (by omega)]
  simp only [Char.lt_irrefl, false_or, true_and]
  refine lex_iff (fun h => ?_) (fun h => ?_) fun h => ?_ <;> omega

/-- Before the year 10000 the year has four digits. -/
theorem yearOf_lt {d : ℕ} (h : d < daysBeforeYear 10000) : yearOf d < 10000 := by
  by_contra hle
  have hyear := daysBeforeYear_mono (Nat.le_of_not_lt hle)
  have hd := (yearOf_spec d).1
  omega

theorem dateText_append_lt {d d' : ℕ} (hd : d < daysBeforeYear 10000)
    (hd' : d' < daysBeforeYear 10000) (x y : List Char) :
    dateText d ++ x < dateText d' ++ y ↔ d < d' ∨ d = d' ∧ x < y := by
  have hy := yearOf_lt hd
  have hy' := yearOf_lt hd'
  have hspec := (yearOf_spec d).1
  have hspec' := (yearOf_spec d').1
  simp only [dateText, yearText, hy, hy', if_true, List.append_assoc, List.cons_append]
  rw [decimal.encode_append_lt hy hy', List.cons_lt_cons_iff]
  simp only [Char.lt_irrefl, false_or, true_and]
  rcases Nat.lt_trichotomy (yearOf d) (yearOf d') with hlt | heq | hgt
  · have hdd : d < d' := Nat.lt_of_not_le fun h => absurd (yearOf_mono h) (by omega)
    exact iff_of_true (.inl hlt) (.inl hdd)
  · -- within one year the day of the year decides
    rw [heq] at hspec ⊢
    have hr := dayOfYear_lt d
    rw [heq] at hr
    simp only [Nat.lt_irrefl, false_or, true_and]
    rw [monthDayText_append_lt _ hr (dayOfYear_lt d')]
    have hsub : d - daysBeforeYear (yearOf d') = d' - daysBeforeYear (yearOf d') ↔ d = d' := by
      omega
    have hsub' : d - daysBeforeYear (yearOf d') < d' - daysBeforeYear (yearOf d') ↔ d < d' := by
      omega
    rw [hsub, hsub']
  · have hdd : d' < d := Nat.lt_of_not_le fun h => absurd (yearOf_mono h) (by omega)
    refine iff_of_false ?_ ?_ <;> omega

theorem day_lt {m : ℕ} (h : m * minuteNanos < year10000) :
    m / 1440 + epochDay < daysBeforeYear 10000 := by
  have hyear : daysBeforeYear 10000 = 3652425 := by decide
  simp only [minuteNanos, secondNanos, year10000, epochDay, hyear] at h ⊢
  omega

/-- Before the year 10000 texts that begin with a minute are in the order of the minutes. -/
theorem minuteText_append_lt {m m' : ℕ} (hm : m * minuteNanos < year10000)
    (hm' : m' * minuteNanos < year10000) (x y : List Char) :
    minuteText m ++ x < minuteText m' ++ y ↔ m < m' ∨ m = m' ∧ x < y := by
  simp only [minuteText, List.append_assoc, List.cons_append, List.nil_append]
  rw [dateText_append_lt (day_lt hm) (day_lt hm'), List.cons_lt_cons_iff,
    clockText_append_lt (Nat.mod_lt _ (by decide)) (Nat.mod_lt _ (by decide)),
    List.cons_lt_cons_iff]
  simp only [Char.lt_irrefl, false_or, true_and]
  refine lex_iff (fun h => ?_) (fun h => ?_) fun h => ?_ <;> omega

/-- SQLite's text of now against chrono's text of an expiry: within one minute the second of
now is compared with the hundredths of a second of the expiry. -/
theorem strftime_lt_chronoFormat_iff {t e : ℕ} {now : List Char} (hnow : strftime t = some now)
    (he : e < year10000) :
    now < chronoFormat e ↔ t / minuteNanos < e / minuteNanos ∨
      t / minuteNanos = e / minuteNanos ∧ t / secondNanos % 60 ≤ e % secondNanos / 10 ^ 7 := by
  unfold strftime at hnow
  split at hnow
  · rename_i ht
    cases hnow
    have hcenti : e % secondNanos / 10 ^ 7 < 10 ^ 2 := by
      simp only [secondNanos]
      omega
    -- the third character is a point here and a digit there
    have hpoint : ∀ x y : List Char, '.' :: x < decimal.encode 7 (e % secondNanos) ++ y :=
      decimal.cons_lt_encode_append (by decide) 6 _
    rw [chronoFormat, minuteText_append_lt (lt_of_le_of_lt (Nat.div_mul_le_self _ _) ht)
        (lt_of_le_of_lt (Nat.div_mul_le_self _ _) he), decimal.encode_add 2 7, List.append_assoc,
      decimal.encode_append_lt (by omega) hcenti]
    simp only [hpoint, and_true, Nat.le_iff_lt_or_eq]
  · cases hnow

/-- From the year 10000 on it has more. -/
theorem le_yearOf {d : ℕ} (h : daysBeforeYear 10000 ≤ d) : 10000 ≤ yearOf d := by
  by_contra hlt
  have hyear := daysBeforeYear_mono (show yearOf d + 1 ≤ 10000 from Nat.lt_of_not_le hlt)
  have hd := (yearOf_spec d).2
  omega

/-- A date from then on begins with a sign, which is below every digit. -/
theorem dateText_append_lt_of_late {d d' : ℕ} (hd : daysBeforeYear 10000 ≤ d)
    (hd' : d' < daysBeforeYear 10000) (x y : List Char) : dateText d ++ x < dateText d' ++ y := by
  have hsign : ∀ n x y, '+' :: x < decimal.encode 4 n ++ y :=
    decimal.cons_lt_encode_append (by decide) 3
  simp only [dateText, yearText, Nat.not_lt.mpr (le_yearOf hd), yearOf_lt hd', if_true, if_false,
    List.cons_append, List.append_assoc]
  exact hsign _ _ _

theorem le_day {t : ℕ} (h : year10000 ≤ t) :
    daysBeforeYear 10000 ≤ t / minuteNanos / 1440 + epochDay := by
  have hyear : daysBeforeYear 10000 = 3652425 := by decide
  simp only [minuteNanos, secondNanos, year10000, epochDay, hyear] at h ⊢
  omega

theorem not_strftime_lt_chronoFormat {t e : ℕ} {now : List Char} (hnow : strftime t = some now)
    (he : year10000 ≤ e) : ¬ now < chronoFormat e := by
  unfold strftime at hnow
  split at hnow
  · rename_i ht
    cases hnow
    have hday := day_lt (lt_of_le_of_lt (Nat.div_mul_le_self t minuteNanos) ht)
    simp only [chronoFormat, minuteText, List.append_assoc]
    exact List.lt_asymm (dateText_append_lt_of_late (le_day he) hday _ _)
  · cases hnow

end PicHost.Timestamps
