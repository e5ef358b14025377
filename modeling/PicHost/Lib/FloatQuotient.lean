import PicHost.Lib.FloatCast

/-!
# The ceiling of a quotient of integers in double precision

Rounding moves a quotient by less than its distance from the integers, as long as it is not large.
-/

namespace FloatQuotient

open Float.Model Float.Model.UnpackedFloat FloatCast

/-- `x.ceil() as u32`. -/
def ceilToUInt32 : UnpackedFloat → UInt32
  | .finite .positive m e _ =>
    .ofNatClamp ((m <<< e.toNat + 2 ^ (-e).toNat - 1) / 2 ^ (-e).toNat)
  | .infinity .positive => .ofNatClamp UInt32.size
  | _ => 0

theorem targetExponent_eq {x : ℤ} (h : -1000 ≤ x) : Format.binary64.targetExponent x = x - 53 := by
  simp only [Format.targetExponent, Format.mantissaBits, Format.minExponent]
  norm_num
  omega

/-- A mantissa of full length needs no shift. -/
theorem shift_full {m : ℕ} {e : ℤ} (hlog : m.log2 = 52) (he : -1000 ≤ e) :
    shiftToTargetExponent .binary64 m e .exact = (⟨m, false, false⟩, e) := by
  have hamount : ((52 : ℕ) + 1 + e - 53 - e).toNat = 0 := by omega
  rw [shiftToTargetExponent, totalExponent, targetExponent_eq (by omega), hlog, shiftToExponent]
  simp only [hamount, Nat.cast_zero, add_zero]
  rfl

theorem round_full {m : ℕ} {e : ℤ} (hm : 0 < m) (hlog : m.log2 = 52) (he : -1000 ≤ e) :
    roundWithAccuracy .binary64 .positive m e .exact = .finite .positive m e hm := by
  rw [roundWithAccuracy, shift_full hlog he]
  simp only [ExtendedMantissa.roundedMantissa, ExtendedMantissa.accuracy,
    Accuracy.roundToNearestEven, shift_full hlog he, dif_neg hm.ne']

theorem ofInt_eq {n : ℕ} (hn : 0 < n) (hlog : n.log2 ≤ 52) :
    ∃ h, UnpackedFloat.ofInt .binary64 n =
      .finite .positive (n * 2 ^ (52 - n.log2)) (n.log2 - 52) h := by
  have hgt : compare (n : ℤ) 0 = .gt := by
    rw [compare_gt_iff_gt]
    omega
  have hpos : 0 < n * 2 ^ (52 - n.log2) := by positivity
  have hamount : (0 - ((n.log2 : ℤ) + 1 + 0 - 53)).toNat = 52 - n.log2 := by omega
  have hexp : (0 : ℤ) - ((52 - n.log2 : ℕ) : ℤ) = n.log2 - 52 := by omega
  refine ⟨hpos, ?_⟩
  rw [UnpackedFloat.ofInt, UnpackedFloat.normalize]
  simp only [hgt, Int.toNat_natCast]
  rw [UnpackedFloat.round, totalExponent, targetExponent_eq (by omega), decreaseExponent]
  simp only [hamount, Nat.shiftLeft_eq, hexp]
  exact round_full hpos (by rw [log2_mul_pow hn]; omega) (by omega)

theorem divCore_full {m m' : ℕ} {e e' : ℤ} (hm : m.log2 = 52) (hm' : m'.log2 = 52)
    (he : -900 ≤ e - e') : divCore .binary64 m e m' e' =
      (m * 2 ^ 53 / m', e - e' - 53, accuracyOfFraction (m * 2 ^ 53 % m') m') := by
  have htarget : Format.binary64.targetExponent (totalExponent m e - totalExponent m' e') =
      e - e' - 53 := by
    rw [totalExponent, totalExponent, hm, hm', targetExponent_eq (by omega)]
    omega
  have hamount : (e - e' - (e - e' - 53)).toNat = 53 := by omega
  simp only [divCore, htarget, min_eq_right (show e - e' - 53 ≤ e - e' by omega), hamount,
    Nat.shiftLeft_eq]

theorem repeat_exact {m k : ℕ} (h : 2 ^ k ∣ m) :
    k.repeat ExtendedMantissa.shiftRightOne ⟨m, false, false⟩ = ⟨m / 2 ^ k, false, false⟩ := by
  induction k with
  | zero => simp [Nat.repeat]
  | succ k ih =>
    have hk : 2 ^ k ∣ m := (pow_dvd_pow 2 k.le_succ).trans h
    have heven : m / 2 ^ k % 2 = 0 := by
      rw [pow_succ] at h
      exact Nat.mod_eq_zero_of_dvd (Nat.dvd_div_of_mul_dvd h)
    show (k.repeat ExtendedMantissa.shiftRightOne _).shiftRightOne = _
    rw [ih hk, ExtendedMantissa.shiftRightOne, pow_succ, ← Nat.div_div_eq_div_mul]
    simp [heven]

/-- Rounding a mantissa of up to one bit too many: `r` is the rounded one, which may carry. -/
theorem round_quotient {q k : ℕ} {e : ℤ} (acc : Accuracy) (hlog : q.log2 = 52 + k)
    (he : -900 ≤ e) : ∃ (r m : ℕ) (e' : ℤ) (h : 0 < m),
      roundWithAccuracy .binary64 .positive q e acc = .finite .positive m e' h ∧
      q / 2 ^ k ≤ r ∧ r ≤ q / 2 ^ k + 1 ∧ (acc = .exact → 2 ^ k ∣ q → r = q / 2 ^ k) ∧
      (m = r ∧ e' = e + k ∨ 2 * m = r ∧ e' = e + k + 1) := by
  have hq : q ≠ 0 := by
    rintro rfl
    rw [Nat.log2_zero] at hlog
    omega
  let em := k.repeat ExtendedMantissa.shiftRightOne (.ofMantissaAndAccuracy q acc)
  have hfirst : shiftToTargetExponent .binary64 q e acc = (em, e + k) := by
    have hamount : ((52 + k : ℕ) + 1 + e - 53 - e).toNat = k := by omega
    rw [shiftToTargetExponent, totalExponent, targetExponent_eq (by omega), hlog, shiftToExponent]
    simp only [hamount]
    rfl
  have hem : em.mantissa = q / 2 ^ k := by
    rw [mantissa_repeat]
    cases acc with
    | exact => rfl
    | inexact o => cases o <;> rfl
  have hexact : acc = .exact → 2 ^ k ∣ q → em.roundedMantissa = q / 2 ^ k := by
    rintro rfl hk
    have h : em = ⟨q / 2 ^ k, false, false⟩ := repeat_exact hk
    rw [h]
    rfl
  have hlow := le_roundedMantissa em
  have hhigh := roundedMantissa_le em
  rw [hem] at hlow hhigh
  have hsize : 2 ^ 52 ≤ q / 2 ^ k ∧ q / 2 ^ k < 2 ^ 53 := by
    obtain ⟨h, h'⟩ := (Nat.log2_eq_iff hq).mp hlog
    rw [Nat.le_div_iff_mul_le (by positivity), Nat.div_lt_iff_lt_mul (by positivity), ← pow_add,
      ← pow_add]
    exact ⟨h, by rwa [show 53 + k = 52 + k + 1 by omega]⟩
  rw [roundWithAccuracy, hfirst]
  rcases Nat.lt_or_ge em.roundedMantissa (2 ^ 53) with hr | hr
  · have hfull : em.roundedMantissa.log2 = 52 :=
      (Nat.log2_eq_iff (by omega)).mpr ⟨hsize.1.trans hlow, hr⟩
    have hpos : 0 < em.roundedMantissa := by omega
    refine ⟨em.roundedMantissa, em.roundedMantissa, e + k, hpos, ?_, hlow, hhigh, hexact,
      .inl ⟨rfl, rfl⟩⟩
    simp only [shift_full hfull (show -1000 ≤ e + (k : ℤ) by omega), dif_neg hpos.ne']
  · have hcarry : em.roundedMantissa = 2 ^ 53 := by omega
    have hsecond : shiftToTargetExponent .binary64 (2 ^ 53) (e + k) .exact =
        (⟨2 ^ 53 / 2 ^ 1, false, false⟩, e + k + 1) := by
      have hamount : ((53 : ℕ) + 1 + (e + k) - 53 - (e + k)).toNat = 1 := by omega
      rw [shiftToTargetExponent, totalExponent, Nat.log2_two_pow, targetExponent_eq (by omega),
        shiftToExponent]
      simp only [hamount]
      rfl
    refine ⟨em.roundedMantissa, 2 ^ 53 / 2 ^ 1, e + k + 1, by norm_num, ?_, hlow, hhigh, hexact,
      .inr ⟨by rw [hcarry]; norm_num, rfl⟩⟩
    simp only [hcarry, hsecond]
    rw [dif_neg (by norm_num)]

theorem ceil_div_eq {m p c : ℕ} (hp : 0 < p) (hlow : c * p < m) (hhigh : m ≤ (c + 1) * p) :
    (m + p - 1) / p = c + 1 := by
  rw [Nat.add_mul] at hhigh
  apply Nat.div_eq_of_lt_le
  · rw [Nat.add_mul]
    omega
  · rw [Nat.succ_mul, Nat.add_mul]
    omega

/-- A multiple of `1 / 2 ^ s` that is above `c` and at most `c + 1`. -/
theorem ceilToUInt32_finite {m s c : ℕ} (hm : 0 < m) (hlow : c * 2 ^ s < m)
    (hhigh : m ≤ (c + 1) * 2 ^ s) (hc : c + 1 < UInt32.size) :
    (ceilToUInt32 (.finite .positive m (-s) hm)).toNat = c + 1 := by
  have hs : (-(-(s : ℤ))).toNat = s := by omega
  have hz : (-(s : ℤ)).toNat = 0 := by omega
  rw [ceilToUInt32, hs, hz, Nat.shiftLeft_zero, ceil_div_eq (by positivity) hlow hhigh,
    UInt32.ofNatClamp, dif_pos hc]
  rfl

theorem quotient_log2 {m m' : ℕ} (hm : 0 < m) (hm' : 0 < m') (hlog : m.log2 = 52)
    (hlog' : m'.log2 = 52) : ∃ k ≤ 1, (m * 2 ^ 53 / m').log2 = 52 + k := by
  obtain ⟨hlow, hhigh⟩ := (Nat.log2_eq_iff hm.ne').mp hlog
  obtain ⟨hlow', hhigh'⟩ := (Nat.log2_eq_iff hm'.ne').mp hlog'
  have hq : 2 ^ 52 ≤ m * 2 ^ 53 / m' := by
    rw [Nat.le_div_iff_mul_le hm']
    calc 2 ^ 52 * m' ≤ 2 ^ 52 * 2 ^ 53 := Nat.mul_le_mul_left _ hhigh'.le
      _ ≤ m * 2 ^ 53 := Nat.mul_le_mul_right _ hlow
  have hq' : m * 2 ^ 53 / m' < 2 ^ 54 := by
    rw [Nat.div_lt_iff_lt_mul hm']
    calc m * 2 ^ 53 < 2 ^ 53 * 2 ^ 53 := Nat.mul_lt_mul_of_pos_right hhigh (by norm_num)
      _ = 2 ^ 54 * 2 ^ 52 := by norm_num
      _ ≤ 2 ^ 54 * m' := Nat.mul_le_mul_left _ hlow'
  have hne : m * 2 ^ 53 / m' ≠ 0 := by omega
  have := (Nat.le_log2 hne).mpr hq
  have := (Nat.log2_lt hne).mpr hq'
  exact ⟨(m * 2 ^ 53 / m').log2 - 52, by omega, by omega⟩

/-- Above `c` the scaled quotient is by a whole unit, once the divisor fits in one. -/
theorem lt_scaled_div {n d c s : ℕ} (hd : 0 < d) (hunit : d ≤ 2 ^ s) (hlow : c * d < n) :
    c * 2 ^ s < n * 2 ^ s / d := by
  rw [← Nat.succ_le_iff, Nat.le_div_iff_mul_le hd]
  calc (c * 2 ^ s + 1) * d = c * d * 2 ^ s + d := by ring
    _ ≤ (c * d + 1) * 2 ^ s := by rw [add_mul, one_mul]; exact Nat.add_le_add_left hunit _
    _ ≤ n * 2 ^ s := Nat.mul_le_mul_right _ hlow

/-- The scaled quotient of the core of the division is the one of the integers. -/
theorem core_quotient {n d a b s k : ℕ} (hs : s + (b + k) = a + 53) :
    n * 2 ^ a * 2 ^ 53 / (d * 2 ^ b) / 2 ^ k = n * 2 ^ s / d := by
  rw [Nat.div_div_eq_div_mul, mul_assoc, ← pow_add, ← hs, mul_assoc d, ← pow_add, pow_add _ s,
    ← mul_assoc, Nat.mul_div_mul_right _ _ (by positivity)]

/-- Where the quotient is the integer itself, the core divides without a rest. -/
theorem core_whole {d a b s k c : ℕ} (hd : 0 < d) (hs : s + (b + k) = a + 53) :
    (c * d * 2 ^ a * 2 ^ 53) / (d * 2 ^ b) = c * 2 ^ s * 2 ^ k ∧
      accuracyOfFraction (c * d * 2 ^ a * 2 ^ 53 % (d * 2 ^ b)) (d * 2 ^ b) = .exact := by
  have hwhole : c * d * 2 ^ a * 2 ^ 53 = c * 2 ^ s * 2 ^ k * (d * 2 ^ b) := by
    rw [mul_assoc, ← pow_add, ← hs, pow_add, pow_add]
    ring
  rw [hwhole]
  refine ⟨Nat.mul_div_cancel _ (by positivity), ?_⟩
  rw [Nat.mul_mod_left]
  rfl

/-- The ceiling is the same when rounding has carried into a further bit. -/
theorem ceilToUInt32_rounded {r m s c : ℕ} {e : ℤ} (hm : 0 < m) (hs : 0 < s)
    (hlow : c * 2 ^ s < r) (hhigh : r ≤ (c + 1) * 2 ^ s) (hc : c + 1 < UInt32.size)
    (hcarry : m = r ∧ e = -s ∨ 2 * m = r ∧ e = -s + 1) :
    (ceilToUInt32 (.finite .positive m e hm)).toNat = c + 1 := by
  obtain ⟨rfl, rfl⟩ | ⟨rfl, rfl⟩ := hcarry
  · exact ceilToUInt32_finite hm hlow hhigh hc
  · obtain ⟨s, rfl⟩ := Nat.exists_eq_succ_of_ne_zero hs.ne'
    have he : -((s + 1 : ℕ) : ℤ) + 1 = -s := by omega
    rw [Nat.succ_eq_add_one, pow_succ, ← mul_assoc] at hlow hhigh
    simp only [Nat.succ_eq_add_one, he]
    exact ceilToUInt32_finite hm (by omega) (by omega) hc

/-- The ceiling of a quotient of integers, of moderate size, is the one of exact division. -/
theorem ceilToUInt32_div {n d c : ℕ} (hd : 0 < d) (hsize : n < 2 ^ 40)
    (hsmall : d ≤ 2 ^ 7) (hlow : c * d < n) (hhigh : n ≤ (c + 1) * d) (hc : c + 1 < UInt32.size) :
    (ceilToUInt32 (UnpackedFloat.div .binary64 (.ofInt .binary64 n) (.ofInt .binary64 d))).toNat =
      c + 1 := by
  have hn : 0 < n := by omega
  have hnlog : n.log2 ≤ 39 := by
    have := (Nat.log2_lt hn.ne').mpr hsize
    omega
  have hdlog : d.log2 ≤ 7 := by
    have := (Nat.log2_lt hd.ne').mpr (show d < 2 ^ 8 by omega)
    omega
  obtain ⟨hm, hnum⟩ := ofInt_eq hn (show n.log2 ≤ 52 by omega)
  obtain ⟨hm', hden⟩ := ofInt_eq hd (show d.log2 ≤ 52 by omega)
  generalize ha : 52 - n.log2 = a at *
  generalize hb : 52 - d.log2 = b at *
  have hlog : (n * 2 ^ a).log2 = 52 := by rw [log2_mul_pow hn]; omega
  have hlog' : (d * 2 ^ b).log2 = 52 := by rw [log2_mul_pow hd]; omega
  obtain ⟨k, hk, hqlog⟩ := quotient_log2 hm hm' hlog hlog'
  -- the rounded quotient counts units of `1 / 2 ^ s`
  obtain ⟨s, hs⟩ : ∃ s, s + (b + k) = a + 53 := ⟨a + 53 - (b + k), by omega⟩
  obtain ⟨r, m, e, hpos, hround, hrlow, hrhigh, hrexact, hcarry⟩ :=
    @round_quotient _ _ ((n.log2 - 52 : ℤ) - (d.log2 - 52) - 53)
      (accuracyOfFraction (n * 2 ^ a * 2 ^ 53 % (d * 2 ^ b)) (d * 2 ^ b)) hqlog (by omega)
  rw [core_quotient hs] at hrlow hrhigh hrexact
  have hr : c * 2 ^ s < r :=
    (lt_scaled_div hd (hsmall.trans (Nat.pow_le_pow_right (by norm_num) (by omega))) hlow).trans_le
      hrlow
  have hr' : r ≤ (c + 1) * 2 ^ s := by
    rcases Nat.lt_or_ge (n * 2 ^ s / d) ((c + 1) * 2 ^ s) with h | h
    · omega
    · -- the quotient is the integer itself, and nothing was rounded
      rw [ge_iff_le, Nat.le_div_iff_mul_le hd, mul_right_comm] at h
      obtain rfl : n = (c + 1) * d := hhigh.antisymm (Nat.le_of_mul_le_mul_right h (by positivity))
      obtain ⟨hquotient, hexact⟩ := core_whole (c := c + 1) hd hs
      rw [hrexact hexact (hquotient ▸ Nat.dvd_mul_left _ _), ← core_quotient hs, hquotient,
        Nat.mul_div_cancel _ (by positivity)]
  have hdiv : UnpackedFloat.div .binary64 (.ofInt .binary64 n) (.ofInt .binary64 d) =
      .finite .positive m e hpos := by
    rw [hnum, hden, UnpackedFloat.div, divCore_full hlog hlog' (by omega)]
    exact hround
  have he : (n.log2 - 52 : ℤ) - (d.log2 - 52) - 53 + k = -s := by omega
  rw [he] at hcarry
  rw [hdiv]
  exact ceilToUInt32_rounded hpos (by omega) hr hr' hc hcarry

end FloatQuotient
