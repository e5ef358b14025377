import PicHost.Lib.FloatCast

/-!
# Integers in single precision

An integer rounded to its leading bits, ties to even, and what the core library's floats do with
integers in those terms: a cast rounds, and so does a product.
-/

namespace SignificantBits

open Float.Model Float.Model.UnpackedFloat FloatCast

/-- `n / 2 ^ k` to the nearest integer, a tie to the even one. -/
def quotientToEven (k n : ℕ) : ℕ :=
  if 2 * (n % 2 ^ k) < 2 ^ k ∨ 2 * (n % 2 ^ k) = 2 ^ k ∧ n / 2 ^ k % 2 = 0 then n / 2 ^ k
  else n / 2 ^ k + 1

/-- `n` rounded to its `p` leading bits. -/
def nearest (p n : ℕ) : ℕ := quotientToEven (n.log2 + 1 - p) n * 2 ^ (n.log2 + 1 - p)

/-- At most `p` significant bits. -/
def Representable (p n : ℕ) : Prop := ∃ m k, n = m * 2 ^ k ∧ m < 2 ^ p

theorem quotientToEven_mul_pow (k n j : ℕ) :
    quotientToEven (k + j) (n * 2 ^ j) = quotientToEven k n := by
  have hdiv : n * 2 ^ j / 2 ^ (k + j) = n / 2 ^ k := by
    rw [pow_add, Nat.mul_div_mul_right _ _ (by positivity)]
  have hmod : n * 2 ^ j % 2 ^ (k + j) = n % 2 ^ k * 2 ^ j := by
    rw [pow_add, Nat.mul_mod_mul_right]
  have hlt : 2 * (n % 2 ^ k * 2 ^ j) < 2 ^ (k + j) ↔ 2 * (n % 2 ^ k) < 2 ^ k := by
    rw [← mul_assoc, pow_add, Nat.mul_lt_mul_right (by positivity)]
  have heq : 2 * (n % 2 ^ k * 2 ^ j) = 2 ^ (k + j) ↔ 2 * (n % 2 ^ k) = 2 ^ k := by
    rw [← mul_assoc, pow_add, Nat.mul_left_inj (by positivity)]
  simp only [quotientToEven, hdiv, hmod, hlt, heq]

theorem quotientToEven_exact (k m : ℕ) : quotientToEven k (m * 2 ^ k) = m := by
  have h := quotientToEven_mul_pow 0 m k
  rw [Nat.zero_add] at h
  rw [h, quotientToEven, if_pos (.inl (by simp [Nat.mod_one]))]
  simp

theorem le_quotientToEven (k n : ℕ) : n / 2 ^ k ≤ quotientToEven k n := by
  unfold quotientToEven
  split <;> omega

theorem quotientToEven_le (k n : ℕ) : quotientToEven k n ≤ n / 2 ^ k + 1 := by
  unfold quotientToEven
  split <;> omega

theorem nearest_of_lt {p n : ℕ} (h : n.log2 < p) : nearest p n = n := by
  have hk : n.log2 + 1 - p = 0 := by omega
  have hq := quotientToEven_exact 0 n
  rw [pow_zero, mul_one] at hq
  rw [nearest, hk, hq, pow_zero, mul_one]

@[simp] theorem nearest_zero (p : ℕ) : nearest p 0 = 0 := by
  have hq := quotientToEven_exact (Nat.log2 0 + 1 - p) 0
  rw [zero_mul] at hq
  rw [nearest, hq, zero_mul]

/-- Rounding does not see a power of two. -/
theorem nearest_mul_pow (p n j : ℕ) : nearest p (n * 2 ^ j) = nearest p n * 2 ^ j := by
  rcases Nat.eq_zero_or_pos n with rfl | hn
  · simp
  · have hlog := log2_mul_pow (k := j) hn
    rcases Nat.lt_or_ge n.log2 p with h | h
    · -- the shift that is left, if any, is one of added zeros
      obtain ⟨i, hi⟩ : ∃ i, j = i + ((n * 2 ^ j).log2 + 1 - p) :=
        ⟨j - ((n * 2 ^ j).log2 + 1 - p), by omega⟩
      have hsplit : n * 2 ^ j = n * 2 ^ i * 2 ^ ((n * 2 ^ j).log2 + 1 - p) := by
        rw [mul_assoc, ← pow_add, ← hi]
      have hq := quotientToEven_exact ((n * 2 ^ j).log2 + 1 - p) (n * 2 ^ i)
      rw [← hsplit] at hq
      rw [nearest_of_lt h, nearest, hq, ← hsplit]
    · have hk : (n * 2 ^ j).log2 + 1 - p = n.log2 + 1 - p + j := by omega
      rw [nearest, hk, quotientToEven_mul_pow, nearest, pow_add, mul_assoc]

theorem nearest_of_dvd {p n k : ℕ} (hlt : n < 2 ^ (p + k)) (hdvd : 2 ^ k ∣ n) :
    nearest p n = n := by
  obtain ⟨m, rfl⟩ := hdvd
  rw [mul_comm, nearest_mul_pow]
  rcases Nat.eq_zero_or_pos m with rfl | hm
  · simp
  · rw [pow_add, mul_comm (2 ^ p), Nat.mul_lt_mul_left (by positivity)] at hlt
    rw [nearest_of_lt ((Nat.log2_lt hm.ne').mpr hlt)]

/-- The rounded mantissa has full length, unless it carried to the next power of two. -/
theorem quotient_size {n k b : ℕ} (hlog : n.log2 = b + k) (hn : n ≠ 0) :
    2 ^ b ≤ quotientToEven k n ∧ quotientToEven k n ≤ 2 ^ (b + 1) := by
  obtain ⟨hlow, hhigh⟩ := (Nat.log2_eq_iff hn).mp hlog
  have hge : 2 ^ b ≤ n / 2 ^ k := by
    rw [Nat.le_div_iff_mul_le (by positivity), ← pow_add]
    exact hlow
  have hlt : n / 2 ^ k < 2 ^ (b + 1) := by
    rw [Nat.div_lt_iff_lt_mul (by positivity), ← pow_add, add_right_comm]
    exact hhigh
  exact ⟨hge.trans (le_quotientToEven k n), (quotientToEven_le k n).trans hlt⟩

theorem nearest_nearest {p : ℕ} (hp : 0 < p) (n : ℕ) : nearest p (nearest p n) = nearest p n := by
  rcases Nat.lt_or_ge n.log2 p with h | h
  · rw [nearest_of_lt h, nearest_of_lt h]
  · have hn : n ≠ 0 := by
      rintro rfl
      simp at h
      omega
    obtain ⟨b, rfl⟩ : ∃ b, p = b + 1 := ⟨p - 1, by omega⟩
    have hsize := quotient_size (k := n.log2 + 1 - (b + 1)) (b := b) (by omega) hn
    have hval : nearest (b + 1) n =
      quotientToEven (n.log2 + 1 - (b + 1)) n * 2 ^ (n.log2 + 1 - (b + 1)) := rfl
    rw [hval, nearest_mul_pow]
    rcases hsize.2.lt_or_eq with hlt | heq
    · rw [nearest_of_lt ((Nat.log2_lt (by have := Nat.two_pow_pos b; omega)).mpr hlt)]
    · rw [heq, nearest_of_dvd (k := b + 1) (Nat.pow_lt_pow_right (by norm_num) (by omega)) dvd_rfl]

theorem nearest_eq_self_iff {p n : ℕ} (hp : 0 < p) : nearest p n = n ↔ Representable p n := by
  constructor
  · intro h
    rcases Nat.lt_or_ge n.log2 p with hlog | hlog
    · refine ⟨n, 0, by simp, ?_⟩
      exact Nat.lt_log2_self.trans_le (Nat.pow_le_pow_right (by norm_num) hlog)
    · have hn : n ≠ 0 := by
        rintro rfl
        simp at hlog
        omega
      obtain ⟨b, rfl⟩ : ∃ b, p = b + 1 := ⟨p - 1, by omega⟩
      have hsize := quotient_size (k := n.log2 + 1 - (b + 1)) (b := b) (by omega) hn
      rw [nearest] at h
      rcases hsize.2.lt_or_eq with hlt | heq
      · exact ⟨_, _, h.symm, hlt⟩
      · refine ⟨1, b + 1 + (n.log2 + 1 - (b + 1)), ?_, Nat.one_lt_two_pow (by omega)⟩
        rw [one_mul, pow_add, ← heq]
        exact h.symm
  · rintro ⟨m, k, rfl, hm⟩
    refine nearest_of_dvd (k := k) ?_ (dvd_mul_left _ _)
    rw [pow_add]
    exact Nat.mul_lt_mul_of_pos_right hm (by positivity)

theorem representable_nearest {p : ℕ} (hp : 0 < p) (n : ℕ) : Representable p (nearest p n) :=
  (nearest_eq_self_iff hp).mp (nearest_nearest hp n)

/-- A factor of a representable integer is representable when what is left of it is odd. -/
theorem Representable.of_mul {p c n : ℕ} (hc : c % 2 = 1) (h : Representable p (c * n)) :
    Representable p n := by
  obtain ⟨m, k, heq, hm⟩ := h
  have hcop : Nat.Coprime (2 ^ k) c :=
    Nat.Coprime.pow_left k ((Nat.coprime_two_left).mpr (Nat.odd_iff.mpr hc))
  obtain ⟨q, rfl⟩ := hcop.dvd_of_dvd_mul_left (heq ▸ dvd_mul_left (2 ^ k) m)
  have hq : c * q = m :=
    Nat.eq_of_mul_eq_mul_right (Nat.two_pow_pos k) (by linarith)
  refine ⟨q, k, mul_comm _ _, lt_of_le_of_lt ?_ hm⟩
  rw [← hq]
  exact Nat.le_mul_of_pos_left q (by omega)

/-! ## Single precision -/

/-- A normal float in canonical form whose value is the integer `v`. -/
def Valued (f : UnpackedFloat) (v : ℕ) : Prop :=
  ∃ (m : ℕ) (e : ℤ) (h : 0 < m), f = .finite .positive m e h ∧ m.log2 = 23 ∧ -23 ≤ e ∧
    m * 2 ^ (e + 23).toNat = v * 2 ^ 23

theorem Valued.log2_eq {f : UnpackedFloat} {v : ℕ} (h : Valued f v) :
    ∃ (m : ℕ) (h : 0 < m), f = .finite .positive m (v.log2 - 23) h ∧ m.log2 = 23 := by
  obtain ⟨m, e, hm, rfl, hlog, hlow, hval⟩ := h
  have hv : 0 < v := by
    have hpos : 0 < m * 2 ^ (e + 23).toNat := by positivity
    rw [hval] at hpos
    exact Nat.pos_of_mul_pos_right hpos
  have hlogs := congrArg Nat.log2 hval
  rw [log2_mul_pow hm, log2_mul_pow hv] at hlogs
  obtain rfl : e = v.log2 - 23 := by omega
  exact ⟨m, hm, rfl, hlog⟩

theorem Valued.sized {f : UnpackedFloat} {v : ℕ} (h : Valued f v) : Sized (v.log2 - 23) f := by
  obtain ⟨m, hm, rfl, hlog⟩ := h.log2_eq
  exact ⟨m, _, hm, rfl, hlog, by omega, le_rfl⟩

/-- The round and sticky bits after a shift compare what was shifted out with one half. -/
theorem repeat_bits (k m : ℕ) :
    k.repeat ExtendedMantissa.shiftRightOne ⟨m, false, false⟩ =
      ⟨m / 2 ^ k, decide (2 ^ k ≤ 2 * (m % 2 ^ k)),
        decide (2 * (m % 2 ^ k) ≠ 0 ∧ 2 * (m % 2 ^ k) ≠ 2 ^ k)⟩ := by
  induction k with
  | zero => simp [Nat.repeat, Nat.mod_one]
  | succ k ih =>
    have hmod : m % 2 ^ (k + 1) = m % 2 ^ k + 2 ^ k * (m / 2 ^ k % 2) := Nat.mod_pow_succ
    have hlt : m % 2 ^ k < 2 ^ k := Nat.mod_lt _ (by positivity)
    have hdiv : m / 2 ^ (k + 1) = m / 2 ^ k / 2 := by rw [Nat.div_div_eq_div_mul, pow_succ]
    show (k.repeat ExtendedMantissa.shiftRightOne _).shiftRightOne = _
    rw [ih, ExtendedMantissa.shiftRightOne, hmod, hdiv, pow_succ]
    generalize m % 2 ^ k = r at *
    generalize m / 2 ^ k = q
    generalize 2 ^ k = d at *
    rcases Nat.mod_two_eq_zero_or_one q with hbit | hbit
    · simp only [hbit, ExtendedMantissa.mk.injEq, true_and]
      constructor
      · rw [Bool.eq_iff_iff]
        simp
        omega
      · rw [Bool.eq_iff_iff]
        simp
        omega
    · simp only [hbit, ExtendedMantissa.mk.injEq, true_and]
      constructor
      · rw [Bool.eq_iff_iff]
        simp
        omega
      · rw [Bool.eq_iff_iff]
        simp
        omega

theorem roundedMantissa_shifted (k m : ℕ) :
    (k.repeat ExtendedMantissa.shiftRightOne ⟨m, false, false⟩).roundedMantissa =
      quotientToEven k m := by
  rw [repeat_bits, quotientToEven]
  generalize m / 2 ^ k = q
  generalize 2 * (m % 2 ^ k) = r
  generalize hd : 2 ^ k = d
  have hpos : 0 < d := hd ▸ Nat.two_pow_pos k
  -- below a half, a tie, above a half
  rcases Nat.lt_trichotomy r d with h | rfl | h
  · by_cases hz : r = 0
    · simp [hz, hpos, hpos.ne', ExtendedMantissa.roundedMantissa, ExtendedMantissa.accuracy,
        Accuracy.roundToNearestEven]
    · simp [hz, h, h.ne, Nat.not_le.mpr h, ExtendedMantissa.roundedMantissa,
        ExtendedMantissa.accuracy, Accuracy.roundToNearestEven]
  · rcases Nat.mod_two_eq_zero_or_one q with hq | hq <;>
      simp [hq, ExtendedMantissa.roundedMantissa, ExtendedMantissa.accuracy,
        Accuracy.roundToNearestEven]
  · simp [h.le, h.ne', h.not_gt, (hpos.trans h).ne', ExtendedMantissa.roundedMantissa,
      ExtendedMantissa.accuracy, Accuracy.roundToNearestEven]

theorem shiftToTargetExponent_eq {m : ℕ} {e : ℤ} (hbits : 23 ≤ m.log2)
    (hone : -23 ≤ (m.log2 : ℤ) + e) : shiftToTargetExponent .binary32 m e .exact =
      ((m.log2 - 23).repeat ExtendedMantissa.shiftRightOne ⟨m, false, false⟩,
        e + (m.log2 - 23 : ℕ)) := by
  have hamount : ((m.log2 : ℤ) + e - 23 - e).toNat = m.log2 - 23 := by omega
  rw [shiftToTargetExponent, targetExponent_eq hone, shiftToExponent]
  simp only [hamount]
  rfl

/-- Rounding a mantissa of at least full length rounds the integer it is. -/
theorem roundWithAccuracy_eq {m : ℕ} {e : ℤ} (hbits : 23 ≤ m.log2)
    (hone : 0 ≤ (m.log2 : ℤ) + e) : ∃ (r j : ℕ) (h : 0 < r),
      roundWithAccuracy .binary32 .positive m e .exact = .finite .positive r (e + j) h ∧
      r.log2 = 23 ∧ r * 2 ^ j = nearest 24 m := by
  have hm : m ≠ 0 := by
    rintro rfl
    simp at hbits
  have hk : m.log2 + 1 - 24 = m.log2 - 23 := by omega
  obtain ⟨hlow, hhigh⟩ := quotient_size (b := 23) (k := m.log2 - 23) (by omega) hm
  rw [roundWithAccuracy, shiftToTargetExponent_eq hbits (by omega)]
  simp only [roundedMantissa_shifted]
  rw [nearest, hk]
  rcases hhigh.lt_or_eq with hlt | hcarry
  · have hlog : (quotientToEven (m.log2 - 23) m).log2 = 23 :=
      (Nat.log2_eq_iff (by omega)).mpr ⟨hlow, hlt⟩
    have hsecond : shiftToTargetExponent .binary32 (quotientToEven (m.log2 - 23) m)
        (e + (m.log2 - 23 : ℕ)) .exact =
        (⟨quotientToEven (m.log2 - 23) m, false, false⟩, e + (m.log2 - 23 : ℕ)) := by
      rw [shiftToTargetExponent_eq hlog.ge (by omega), hlog]
      simp [Nat.repeat]
    simp only [hsecond]
    exact ⟨_, m.log2 - 23, by omega, by rw [dif_neg (by omega)], hlog, rfl⟩
  · -- the rounding carried, and the mantissa is halved
    have hsecond : shiftToTargetExponent .binary32 (2 ^ (23 + 1)) (e + (m.log2 - 23 : ℕ)) .exact =
        (⟨2 ^ 23, false, false⟩, e + (m.log2 - 23 + 1 : ℕ)) := by
      rw [shiftToTargetExponent_eq (by rw [Nat.log2_two_pow]; norm_num)
        (by rw [Nat.log2_two_pow]; omega), Nat.log2_two_pow, repeat_bits]
      simp [add_assoc]
    simp only [hcarry, hsecond]
    refine ⟨2 ^ 23, m.log2 - 23 + 1, by norm_num, by rw [dif_neg (by norm_num)],
      Nat.log2_two_pow, ?_⟩
    rw [← pow_add, ← pow_add]
    congr 1
    omega

/-- Rounding the integer `v`, given as a mantissa and an exponent of at least `-t`. -/
theorem valued_round {m v a t : ℕ} (hbits : 23 ≤ m.log2) (hv : 0 < v) (ht : 23 ≤ t)
    (hval : m * 2 ^ a = v * 2 ^ t) :
    Valued (roundWithAccuracy .binary32 .positive m ((a : ℤ) - t) .exact) (nearest 24 v) := by
  have hm : 0 < m := by
    apply Nat.pos_of_ne_zero
    rintro rfl
    simp at hbits
  have hlogs := congrArg Nat.log2 hval
  rw [log2_mul_pow hm, log2_mul_pow hv] at hlogs
  obtain ⟨r, j, hr, hround, hlog, hnear⟩ :=
    roundWithAccuracy_eq (e := (a : ℤ) - t) hbits (by omega)
  -- rounding the mantissa rounds the value, since they differ by powers of two
  have hnear' : r * 2 ^ (j + a) = nearest 24 v * 2 ^ t := by
    rw [pow_add, ← mul_assoc, hnear, ← nearest_mul_pow, hval, nearest_mul_pow]
  have hpos : 0 < nearest 24 v := by
    have h : 0 < r * 2 ^ (j + a) := by positivity
    rw [hnear'] at h
    exact Nat.pos_of_mul_pos_right h
  have hlogs' := congrArg Nat.log2 hnear'
  rw [log2_mul_pow hr, log2_mul_pow hpos] at hlogs'
  refine ⟨r, (a : ℤ) - t + j, hr, hround, hlog, by omega, ?_⟩
  apply Nat.eq_of_mul_eq_mul_right (Nat.two_pow_pos (t - 23))
  have hexp : ((a : ℤ) - t + j + 23).toNat + (t - 23) = j + a := by omega
  rw [mul_assoc, ← pow_add, hexp, hnear', mul_assoc, ← pow_add]
  congr 2
  omega

theorem valued_mul {f g : UnpackedFloat} {v w : ℕ} (hf : Valued f v) (hg : Valued g w)
    (hpos : 0 < v * w) : Valued (UnpackedFloat.mul .binary32 f g) (nearest 24 (v * w)) := by
  obtain ⟨m, e, hm, rfl, hml, hel, hmv⟩ := hf
  obtain ⟨n, d, hn, rfl, hnl, hdl, hnw⟩ := hg
  have hge := log2_mul_ge hm.ne' hn.ne'
  have hval : m * n * 2 ^ ((e + 23).toNat + (d + 23).toNat) = v * w * 2 ^ 46 := by
    rw [pow_add]
    calc m * n * (2 ^ (e + 23).toNat * 2 ^ (d + 23).toNat)
        = (m * 2 ^ (e + 23).toNat) * (n * 2 ^ (d + 23).toNat) := by ring
      _ = (v * 2 ^ 23) * (w * 2 ^ 23) := by rw [hmv, hnw]
      _ = v * w * 2 ^ 46 := by ring
  have hround := valued_round (by omega) hpos (by norm_num) hval
  have hexp : (((e + 23).toNat + (d + 23).toNat : ℕ) : ℤ) - (46 : ℕ) = e + d := by omega
  rwa [hexp] at hround

theorem valued_ofUInt32 {n : UInt32} (hn : n ≠ 0) :
    Valued (UnpackedFloat.ofUInt32 .binary32 n) (nearest 24 n.toNat) := by
  have hpos : 0 < n.toNat := Nat.pos_of_ne_zero fun h => hn (UInt32.toNat_inj.mp h)
  rw [ofUInt32_eq hn]
  rcases le_total 23 n.toNat.log2 with h | h
  · have hz : 23 - n.toNat.log2 = 0 := by omega
    rw [hz]
    exact valued_round (a := 23) (t := 23) (by simpa using h) hpos le_rfl (by simp)
  · have hval : n.toNat * 2 ^ (23 - n.toNat.log2) * 2 ^ n.toNat.log2 = n.toNat * 2 ^ 23 := by
      rw [mul_assoc, ← pow_add, Nat.sub_add_cancel h]
    have hexp : ((n.toNat.log2 : ℕ) : ℤ) - (23 : ℕ) = -((23 - n.toNat.log2 : ℕ) : ℤ) := by omega
    have hround := valued_round (by rw [log2_mul_pow hpos]; omega) hpos le_rfl hval
    rwa [hexp] at hround

theorem toNat_ofNatClamp (n : ℕ) : (UInt32.ofNatClamp n).toNat = min n (UInt32.size - 1) := by
  unfold UInt32.ofNatClamp
  split
  · rename_i h
    rw [min_eq_left (by omega)]
    rfl
  · rename_i h
    rw [min_eq_right (by omega)]
    rfl

/-- The cast to an integer has nothing to truncate. -/
theorem Valued.toUInt32 {f : UnpackedFloat} {v : ℕ} (h : Valued f v) :
    f.toUInt32.toNat = min v (UInt32.size - 1) := by
  obtain ⟨m, e, hm, rfl, -, hlow, hval⟩ := h
  rw [UnpackedFloat.toUInt32, toNat_ofNatClamp]
  simp only [UnpackedFloat.toInt, roundToInt, decreaseExponent, Sign.apply, shiftToExponent_fst,
    Int.toNat_natCast, sub_zero, zero_sub]
  congr 1
  rcases le_total 0 e with he | he
  · have hz : (-(e - (e.toNat : ℤ))).toNat = 0 := by omega
    have hexp : (e + 23).toNat = e.toNat + 23 := by omega
    rw [hexp, pow_add, ← mul_assoc] at hval
    rw [hz, pow_zero, Nat.div_one, Nat.shiftLeft_eq]
    exact Nat.eq_of_mul_eq_mul_right (by norm_num) hval
  · have hz : e.toNat = 0 := by omega
    have hk : (-(e - ((0 : ℕ) : ℤ))).toNat = (-e).toNat := by omega
    have hexp : 23 = (-e).toNat + (e + 23).toNat := by omega
    rw [hexp, pow_add, ← mul_assoc] at hval
    rw [hz, Nat.shiftLeft_zero, hk]
    apply Nat.div_eq_of_eq_mul_left (by positivity)
    apply Nat.eq_of_mul_eq_mul_right (Nat.two_pow_pos (e + 23).toNat)
    simpa using hval

/-- Rounding keeps the leading bit. -/
theorem pow_log2_le_nearest {p n : ℕ} (hp : 0 < p) (hn : 0 < n) : 2 ^ n.log2 ≤ nearest p n := by
  rcases Nat.lt_or_ge n.log2 p with h | h
  · rw [nearest_of_lt h]
    exact Nat.log2_self_le hn.ne'
  · obtain ⟨b, rfl⟩ : ∃ b, p = b + 1 := ⟨p - 1, by omega⟩
    have hlow := (quotient_size (k := n.log2 + 1 - (b + 1)) (b := b) (by omega) hn.ne').1
    calc 2 ^ n.log2 = 2 ^ b * 2 ^ (n.log2 + 1 - (b + 1)) := by rw [← pow_add]; congr 1; omega
      _ ≤ nearest (b + 1) n := Nat.mul_le_mul_right _ hlow

theorem nearest_pos {p n : ℕ} (hp : 0 < p) (hn : 0 < n) : 0 < nearest p n :=
  (Nat.two_pow_pos _).trans_le (pow_log2_le_nearest hp hn)

theorem pow_le_nearest {p n k : ℕ} (hp : 0 < p) (h : 2 ^ k ≤ n) : 2 ^ k ≤ nearest p n := by
  have hn : 0 < n := (Nat.two_pow_pos k).trans_le h
  refine le_trans (Nat.pow_le_pow_right (by norm_num) ?_) (pow_log2_le_nearest hp hn)
  exact (Nat.le_log2 hn.ne').mpr h

theorem log2_nearest_le (n : ℕ) (hn : 0 < n) : (nearest 24 n).log2 ≤ n.log2 + 1 := by
  rcases Nat.lt_or_ge n.log2 24 with h | h
  · rw [nearest_of_lt h]
    omega
  · have hhigh := (quotient_size (k := n.log2 + 1 - 24) (b := 23) (by omega) hn.ne').2
    have hle : nearest 24 n ≤ 2 ^ (n.log2 + 1) := by
      calc nearest 24 n ≤ 2 ^ (23 + 1) * 2 ^ (n.log2 + 1 - 24) := Nat.mul_le_mul_right _ hhigh
        _ = 2 ^ (n.log2 + 1) := by rw [← pow_add]; congr 1; omega
    exact (Nat.log2_lt (nearest_pos (by norm_num) hn).ne').mpr
      (hle.trans_lt (Nat.pow_lt_pow_right (by norm_num) (by omega))) |> Nat.lt_succ_iff.mp

/-- A packed integer is unpacked again. -/
theorem Valued.unpack_pack {f : UnpackedFloat} {v : ℕ} (h : Valued f v) (hv : v.log2 ≤ 127) :
    (Float32.Model.pack f).unpack = f :=
  FloatCast.unpack_pack h.sized (by omega)

/-- An integer cast to single precision, times an integer constant, cast back. -/
theorem toUInt32_scaled {c : Float32} {k : ℕ} (hc : Valued c.toModel.unpack k) (hk : 0 < k)
    (hsmall : k.log2 ≤ 64) (n : UInt32) : (n.toFloat32 * c).toUInt32.toNat =
      min (nearest 24 (nearest 24 n.toNat * k)) (UInt32.size - 1) := by
  by_cases hn : n = 0
  · obtain ⟨m, hm, hunpack, -⟩ := hc.log2_eq
    have hzero : (Float32.Model.pack (UnpackedFloat.ofUInt32 .binary32 0)).unpack =
      .zero .positive := rfl
    subst hn
    show (Float32.Model.pack (UnpackedFloat.mul .binary32 (Float32.Model.pack
      (UnpackedFloat.ofUInt32 .binary32 0)).unpack c.toModel.unpack)).unpack.toUInt32.toNat = _
    have hproduct : UnpackedFloat.mul .binary32 (.zero .positive)
      (.finite .positive m (k.log2 - 23) hm) = .zero .positive := rfl
    rw [hunpack, hzero, hproduct, UInt32.toNat_zero, nearest_zero, zero_mul, nearest_zero]
    rfl
  · have hpos : 0 < n.toNat := Nat.pos_of_ne_zero fun h => hn (UInt32.toNat_inj.mp h)
    have hcast := valued_ofUInt32 hn
    have hcpos := nearest_pos (p := 24) (by norm_num) hpos
    have hmul := valued_mul hcast hc (Nat.mul_pos hcpos hk)
    have hlog : n.toNat.log2 ≤ 31 := by
      have := (Nat.log2_lt hpos.ne').mpr (show n.toNat < 2 ^ 32 from n.toNat_lt)
      omega
    have hcastlog := log2_nearest_le n.toNat hpos
    have hprodlog := log2_mul_le hcpos.ne' hk.ne'
    have hmullog := log2_nearest_le _ (Nat.mul_pos hcpos hk)
    show (Float32.Model.pack (UnpackedFloat.mul .binary32
      (Float32.Model.pack (UnpackedFloat.ofUInt32 .binary32 n)).unpack
      c.toModel.unpack)).unpack.toUInt32.toNat = _
    rw [hcast.unpack_pack (by omega), hmul.unpack_pack (by omega), hmul.toUInt32]

theorem scaled_eq_zero_iff {c : Float32} {k : ℕ} (hc : Valued c.toModel.unpack k) (hk : 0 < k)
    (hsmall : k.log2 ≤ 64) (n : UInt32) : (n.toFloat32 * c).toUInt32 = 0 ↔ n = 0 := by
  have hp : 0 < 24 := by norm_num
  rw [← UInt32.toNat_inj, toUInt32_scaled hc hk hsmall, ← UInt32.toNat_inj, UInt32.toNat_zero]
  constructor
  · intro h
    by_contra hn
    have hpos := nearest_pos hp (Nat.mul_pos (nearest_pos hp (Nat.pos_of_ne_zero hn)) hk)
    have hmin := lt_min hpos (show 0 < UInt32.size - 1 by decide)
    omega
  · intro h
    rw [h, nearest_zero, zero_mul, nearest_zero, Nat.zero_min]

end SignificantBits
