import Mathlib

/-!
# Casts between floating-point widths and integers

The casts the core library has no logical model of, over the unpacked form of its floats, and the
normal values from one up, which packing and unpacking leave as they are.
-/

namespace FloatCast

open Float.Model Float.Model.UnpackedFloat

/-- The value in another format. -/
def rerounded (spec : Format) : UnpackedFloat → UnpackedFloat
  | .finite s m e _ => UnpackedFloat.round spec s m e
  | f => f

def widen (f : Float32) : Float := .ofModel (.pack (rerounded .binary64 f.toModel.unpack))

def narrow (f : Float) : Float32 := .ofModel (.pack (rerounded .binary32 f.toModel.unpack))

/-- The least integer not below the value, cast with saturation. -/
def ceilToUInt32 (f : Float32) : UInt32 :=
  let n := f.toUInt32
  if n.toFloat32 < f ∧ n < 4294967295 then n + 1 else n

/-- A normal value of at least one, in canonical form, with its exponent bounded. -/
def Sized (bound : ℤ) (f : UnpackedFloat) : Prop :=
  ∃ (m : ℕ) (e : ℤ) (h : 0 < m), f = .finite .positive m e h ∧ m.log2 = 23 ∧ -23 ≤ e ∧ e ≤ bound

theorem mantissa_repeat (k : ℕ) (em : ExtendedMantissa) :
    (k.repeat ExtendedMantissa.shiftRightOne em).mantissa = em.mantissa / 2 ^ k := by
  induction k with
  | zero => simp [Nat.repeat]
  | succ k ih =>
    show (k.repeat ExtendedMantissa.shiftRightOne em).mantissa / 2 = _
    rw [ih, Nat.div_div_eq_div_mul, pow_succ]

theorem shiftToExponent_fst (m : ℕ) (e t : ℤ) :
    (shiftToExponent m e .exact t).1.mantissa = m / 2 ^ (t - e).toNat :=
  mantissa_repeat _ _

theorem le_roundedMantissa (em : ExtendedMantissa) : em.mantissa ≤ em.roundedMantissa := by
  obtain ⟨m, round, sticky⟩ := em
  cases round <;> cases sticky <;>
    simp [ExtendedMantissa.roundedMantissa, ExtendedMantissa.accuracy, Accuracy.roundToNearestEven]

theorem roundedMantissa_le (em : ExtendedMantissa) :
    em.roundedMantissa ≤ em.mantissa + 1 := by
  obtain ⟨m, round, sticky⟩ := em
  cases round <;> cases sticky <;>
    simp [ExtendedMantissa.roundedMantissa, ExtendedMantissa.accuracy,
      Accuracy.roundToNearestEven]
  omega

/-- The exponent a single-precision value of at least `2 ^ (-23)` has in canonical form. -/
theorem targetExponent_eq {m : ℕ} {e : ℤ} (h : -23 ≤ (m.log2 : ℤ) + e) :
    Format.binary32.targetExponent (totalExponent m e) = m.log2 + e - 23 := by
  simp only [Format.targetExponent, totalExponent, Format.mantissaBits, Format.minExponent]
  norm_num
  omega

theorem log2_mul_pow {n k : ℕ} (hn : 0 < n) : (n * 2 ^ k).log2 = n.log2 + k := by
  rw [Nat.log2_eq_iff (mul_ne_zero hn.ne' (by positivity)), pow_add, add_right_comm, pow_add]
  exact ⟨Nat.mul_le_mul_right _ (Nat.log2_self_le hn.ne'),
    Nat.mul_lt_mul_of_pos_right Nat.lt_log2_self (by positivity)⟩

theorem log2_mul_ge {m n : ℕ} (hm : m ≠ 0) (hn : n ≠ 0) : m.log2 + n.log2 ≤ (m * n).log2 := by
  rw [Nat.le_log2 (mul_ne_zero hm hn), pow_add]
  exact Nat.mul_le_mul (Nat.log2_self_le hm) (Nat.log2_self_le hn)

theorem log2_mul_le {m n : ℕ} (hm : m ≠ 0) (hn : n ≠ 0) :
    (m * n).log2 ≤ m.log2 + n.log2 + 1 := by
  have h : m * n < 2 ^ (m.log2 + n.log2 + 2) := by
    calc m * n < 2 ^ (m.log2 + 1) * 2 ^ (n.log2 + 1) :=
          Nat.mul_lt_mul'' Nat.lt_log2_self Nat.lt_log2_self
      _ = 2 ^ (m.log2 + n.log2 + 2) := by rw [← pow_add]; congr 1; omega
  exact Nat.lt_succ_iff.mp ((Nat.log2_lt (mul_ne_zero hm hn)).mpr h)

theorem unpackSign_packComponents {spec : Format} {sign exponent mantissa} :
    unpackSign (packComponents spec sign exponent mantissa) = sign.toBitVec := by
  ext i hi
  obtain rfl : i = 0 := by omega
  simp [unpackSign, packComponents, BitVec.getLsbD_eq_getElem, BitVec.getLsbD_append,
    BitVec.getElem_append]

/-- Packing keeps a normal value. -/
theorem unpack_pack {bound : ℤ} {f : UnpackedFloat} (hf : Sized bound f) (hb : bound ≤ 104) :
    (Float32.Model.pack f).unpack = f := by
  obtain ⟨m, e, hm, rfl, hlog, hlow, hhigh⟩ := hf
  have hm2 := (Nat.log2_eq_iff hm.ne').mp hlog
  have hbias : (e + (Format.binary32.exponentBias : ℤ) + (23 : ℕ)).toNat = (e + 150).toNat := by
    simp only [Format.exponentBias]
    norm_num
    omega
  have hfits : ¬ 2 ^ Format.binary32.exponentBits ≤ (e + 150).toNat + 1 := by
    norm_num
    omega
  have hpack : UnpackedFloat.pack .binary32 (.finite .positive m e hm) =
      packComponents .binary32 .positive (BitVec.ofNat _ (e + 150).toNat) (BitVec.ofNat _ m) := by
    simp only [UnpackedFloat.pack]
    rw [hbias, if_neg hfits, if_pos (by rw [hlog]; rfl)]
  show UnpackedFloat.unpack .binary32
    (UnpackedFloat.pack .binary32 (.finite .positive m e hm)) = _
  rw [hpack]
  simp only [UnpackedFloat.unpack, unpackExponent_packComponents, unpackMantissa_packComponents]
  have hexp : (BitVec.ofNat 8 (e + 150).toNat).toNat = (e + 150).toNat := by
    rw [BitVec.toNat_ofNat, Nat.mod_eq_of_lt (by omega)]
  have hones : BitVec.ofNat 8 (e + 150).toNat ≠ -1#8 := by
    intro h
    have := congrArg BitVec.toNat h
    rw [hexp] at this
    simp at this
    omega
  have hzero : BitVec.ofNat 8 (e + 150).toNat ≠ 0#8 := by
    intro h
    have := congrArg BitVec.toNat h
    rw [hexp] at this
    simp at this
    omega
  have hmant : (1#1 ++ BitVec.ofNat 23 m).toNat = m := by
    rw [BitVec.toNat_append, BitVec.toNat_ofNat, BitVec.toNat_ofNat, ← Nat.shiftLeft_add_eq_or_of_lt
      (Nat.mod_lt _ (by norm_num)), Nat.shiftLeft_eq]
    omega
  rw [if_neg hones, if_neg hzero, unpackSign_packComponents]
  simp only [hexp, hmant]
  congr 1
  simp only [Format.exponentBias]
  norm_num
  omega

/-- An integer is shifted to full length before it is rounded. -/
theorem ofUInt32_eq {n : UInt32} (hn : n ≠ 0) : UnpackedFloat.ofUInt32 .binary32 n =
    roundWithAccuracy .binary32 .positive (n.toNat * 2 ^ (23 - n.toNat.log2))
      (-((23 - n.toNat.log2 : ℕ) : ℤ)) .exact := by
  have hpos : n.toNat ≠ 0 := fun h => hn (UInt32.toNat_inj.mp h)
  have hgt : compare (n.toNat : ℤ) 0 = .gt := by
    rw [compare_gt_iff_gt]
    omega
  have hamount : (-((n.toNat.log2 : ℤ) + 0 - 23)).toNat = 23 - n.toNat.log2 := by omega
  rw [UnpackedFloat.ofUInt32, UnpackedFloat.ofNat, UnpackedFloat.ofInt, UnpackedFloat.normalize]
  simp only [hgt, Int.toNat_natCast]
  rw [UnpackedFloat.round, targetExponent_eq (by omega)]
  simp only [decreaseExponent, zero_sub, hamount, Nat.shiftLeft_eq]

/-- What truncates to a positive integer is positive. -/
theorem zero_lt_of_toUInt32 {f : Float32} (h : f.toUInt32 ≠ 0) : (0 : Float32) < f := by
  have hcast : f.toModel.unpack.toUInt32 ≠ 0 := h
  refine decide_eq_true (show UnpackedFloat.lt (Float32.toModel 0).unpack f.toModel.unpack = true
    from ?_)
  rw [show (0 : Float32).toModel.unpack = .zero .positive from rfl]
  generalize f.toModel.unpack = u at hcast
  match u, hcast with
  | .notANumber, hcast => exact absurd rfl hcast
  | .zero _, hcast => exact absurd rfl hcast
  | .infinity .positive, _ => rfl
  | .infinity .negative, hcast => exact absurd rfl hcast
  | .finite .positive _ _ _, _ => rfl
  | .finite .negative m e hm, hcast =>
    refine absurd ?_ hcast
    have hneg : (roundToInt .negative m e).toNat = 0 := by
      simp [roundToInt, Sign.apply]
    rw [UnpackedFloat.toUInt32, UnpackedFloat.toInt, hneg]
    rfl

theorem ceilToUInt32_ne_zero_iff (f : Float32) : ceilToUInt32 f ≠ 0 ↔ (0 : Float32) < f := by
  unfold ceilToUInt32
  by_cases hn : f.toUInt32 = 0
  · simp only [hn, show (0 : UInt32).toFloat32 = 0 from by decide]
    by_cases hf : (0 : Float32) < f
    · simp [hf]
    · simp [hf]
  · refine iff_of_true ?_ (zero_lt_of_toUInt32 hn)
    simp only
    split
    · intro h
      have hval := congrArg UInt32.toNat h
      rename_i hlt
      have := UInt32.lt_iff_toNat_lt.mp hlt.2
      rw [UInt32.toNat_add] at hval
      simp at hval this
      omega
    · exact hn

end FloatCast
