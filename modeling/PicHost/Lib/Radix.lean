import Mathlib.Data.Char
import Mathlib.Data.List.Basic
import Mathlib.Data.List.Lex
import Mathlib.Order.Basic
import Mathlib.Tactic.NormNum
import Mathlib.Tactic.Ring

/-!
# Fixed-width numerals

The numerals of a base, their reading, and their order. Texts are lists of characters in the
order of their code points, and a field of fixed width is compared before what follows it.
-/

/-- The digits of a base in the order of their values. -/
structure Radix (base : ℕ) where
  digit : ℕ → Char
  value : Char → Option ℕ
  value_digit : ∀ n < base, value (digit n) = some n
  digit_lt_digit : ∀ m < base, ∀ n < base, (digit m < digit n ↔ m < n)

namespace Radix

variable {base : ℕ} (r : Radix base)

/-- The `w` low digits of a number, most significant first. -/
def encode : ℕ → ℕ → List Char
  | 0, _ => []
  | w + 1, n => r.digit (n / base ^ w % base) :: encode w n

/-- The number a digit string denotes, after the digits that give `acc`. -/
def decodeFrom : ℕ → List Char → Option ℕ
  | acc, [] => some acc
  | acc, c :: cs => (r.value c).bind fun v => decodeFrom (base * acc + v) cs

def decode (cs : List Char) : Option ℕ := r.decodeFrom 0 cs

/-- Decimal numerals. -/
def decimal : Radix 10 where
  digit n := Char.ofNat (48 + n)
  value c := if '0' ≤ c ∧ c ≤ '9' then some (c.toNat - 48) else none
  value_digit := by decide
  digit_lt_digit := by decide

/-- Lower-case hexadecimal numerals, read in either case. -/
def hex : Radix 16 where
  digit n := if n < 10 then Char.ofNat (48 + n) else Char.ofNat (87 + n)
  value c :=
    if '0' ≤ c ∧ c ≤ '9' then some (c.toNat - 48)
    else if 'a' ≤ c ∧ c ≤ 'f' then some (c.toNat - 87)
    else if 'A' ≤ c ∧ c ≤ 'F' then some (c.toNat - 55)
    else none
  value_digit := by decide
  digit_lt_digit := by decide

theorem decimal_value (c : Char) :
    decimal.value c = if '0' ≤ c ∧ c ≤ '9' then some (c.toNat - 48) else none := rfl

theorem hex_value (c : Char) :
    hex.value c = if '0' ≤ c ∧ c ≤ '9' then some (c.toNat - 48)
      else if 'a' ≤ c ∧ c ≤ 'f' then some (c.toNat - 87)
      else if 'A' ≤ c ∧ c ≤ 'F' then some (c.toNat - 55)
      else none := rfl

/-! ## Digits -/

theorem digit_eq_digit {m n : ℕ} (hm : m < base) (hn : n < base) :
    r.digit m = r.digit n ↔ m = n := by
  refine ⟨fun h => ?_, congrArg _⟩
  have hvalue := congrArg r.value h
  rw [r.value_digit m hm, r.value_digit n hn] at hvalue
  exact Option.some.inj hvalue

@[simp] theorem length_encode (w n : ℕ) : (r.encode w n).length = w := by
  induction w with
  | zero => rfl
  | succ w ih => rw [encode, List.length_cons, ih]

/-- The low `w + 1` digits are one digit and the low `w`. -/
theorem mod_pow_succ (base w n : ℕ) :
    n % base ^ (w + 1) = base ^ w * (n / base ^ w % base) + n % base ^ w := by
  rw [pow_succ, Nat.mod_mul, Nat.add_comm]

/-- A numeral is its high digits and its low digits. -/
theorem encode_add (v w n : ℕ) :
    r.encode (v + w) n = r.encode v (n / base ^ w) ++ r.encode w n := by
  induction v with
  | zero => simp [encode]
  | succ v ih =>
    rw [Nat.add_right_comm, encode, ih, encode, List.cons_append, Nat.div_div_eq_div_mul, ← pow_add,
      Nat.add_comm w v]

variable [NeZero base]

/-- Every character of a numeral is a digit of the base. -/
theorem mem_encode {w n : ℕ} {c : Char} (h : c ∈ r.encode w n) : ∃ v < base, c = r.digit v := by
  induction w with
  | zero => cases h
  | succ w ih =>
    rw [encode, List.mem_cons] at h
    rcases h with rfl | h
    · exact ⟨_, Nat.mod_lt _ (NeZero.pos base), rfl⟩
    · exact ih h

/-- A character that is no digit does not occur in a numeral. -/
theorem not_mem_encode {c : Char} (hc : ∀ v < base, r.digit v ≠ c) (w n : ℕ) :
    c ∉ r.encode w n := by
  intro h
  obtain ⟨v, hv, rfl⟩ := r.mem_encode h
  exact hc v hv rfl

/-! ## Reading -/

theorem decodeFrom_encode (acc w n : ℕ) :
    r.decodeFrom acc (r.encode w n) = some (base ^ w * acc + n % base ^ w) := by
  induction w generalizing acc with
  | zero => simp [encode, decodeFrom, Nat.mod_one]
  | succ w ih =>
    have hd : n / base ^ w % base < base := Nat.mod_lt _ (NeZero.pos base)
    rw [encode, decodeFrom, r.value_digit _ hd, Option.bind_some, ih, mod_pow_succ, pow_succ]
    congr 1
    ring

/-- Reading back the digits of a number that fits the width. -/
theorem decode_encode {w n : ℕ} (h : n < base ^ w) : r.decode (r.encode w n) = some n := by
  rw [decode, decodeFrom_encode, Nat.mul_zero, Nat.zero_add, Nat.mod_eq_of_lt h]

theorem encode_inj {w m n : ℕ} (hm : m < base ^ w) (hn : n < base ^ w) :
    r.encode w m = r.encode w n ↔ m = n := by
  refine ⟨fun h => ?_, congrArg _⟩
  have hd := congrArg r.decode h
  rw [r.decode_encode hm, r.decode_encode hn] at hd
  exact Option.some.inj hd

/-! ## Order -/

/-- A more significant part outweighs what is below it. -/
theorem mul_add_lt_mul_add {p a b x y : ℕ} (ha : a < p) (hb : b < p) :
    p * x + a < p * y + b ↔ x < y ∨ x = y ∧ a < b := by
  rcases Nat.lt_trichotomy x y with hxy | rfl | hyx
  · have hmul := Nat.mul_le_mul_left p (Nat.succ_le_of_lt hxy)
    rw [Nat.mul_succ] at hmul
    omega
  · omega
  · have hmul := Nat.mul_le_mul_left p (Nat.succ_le_of_lt hyx)
    rw [Nat.mul_succ] at hmul
    omega

/-- Numerals of one width are in the order of the numbers. -/
theorem encode_lt_encode (w m n : ℕ) :
    r.encode w m < r.encode w n ↔ m % base ^ w < n % base ^ w := by
  induction w with
  | zero => simp [encode, Nat.mod_one]
  | succ w ih =>
    have hm : m / base ^ w % base < base := Nat.mod_lt _ (NeZero.pos base)
    have hn : n / base ^ w % base < base := Nat.mod_lt _ (NeZero.pos base)
    have hpos : 0 < base ^ w := Nat.pow_pos (NeZero.pos base)
    rw [encode, encode, List.cons_lt_cons_iff, r.digit_lt_digit _ hm _ hn,
      r.digit_eq_digit hm hn, ih, mod_pow_succ, mod_pow_succ base w n,
      mul_add_lt_mul_add (Nat.mod_lt _ hpos) (Nat.mod_lt _ hpos)]

/-- Texts that begin with fields of one length are compared by those first. -/
theorem append_lt_append {a b : List Char} (h : a.length = b.length) (x y : List Char) :
    a ++ x < b ++ y ↔ a < b ∨ a = b ∧ x < y := by
  induction a generalizing b with
  | nil =>
    have hb : b = [] := List.length_eq_zero_iff.mp h.symm
    subst hb
    simp
  | cons c a ih =>
    cases b with
    | nil => cases h
    | cons d b =>
      simp only [List.length_cons, Nat.add_right_cancel_iff] at h
      simp only [List.cons_append, List.cons_lt_cons_iff, ih h, List.cons.injEq]
      tauto

/-- A fixed-width number in front of a text. -/
theorem encode_append_lt {w m n : ℕ} (hm : m < base ^ w) (hn : n < base ^ w) (x y : List Char) :
    r.encode w m ++ x < r.encode w n ++ y ↔ m < n ∨ m = n ∧ x < y := by
  rw [append_lt_append (by simp), encode_lt_encode, Nat.mod_eq_of_lt hm, Nat.mod_eq_of_lt hn,
    r.encode_inj hm hn]

/-- A character below the digits is below every numeral. -/
theorem cons_lt_encode_append {c : Char} (hc : ∀ d < base, c < r.digit d) (w n : ℕ)
    (x y : List Char) : c :: x < r.encode (w + 1) n ++ y := by
  rw [encode, List.cons_append, List.cons_lt_cons_iff]
  exact .inl (hc _ (Nat.mod_lt _ (NeZero.pos base)))

/-- A number split into a leading and a following part that keep its order. -/
theorem lex_iff {m n a a' b b' : ℕ} {p : Prop} (hlt : m < n → a < a' ∨ a = a' ∧ b < b')
    (hgt : n < m → a' < a ∨ a' = a ∧ b' < b) (heq : m = n → a = a' ∧ b = b') :
    (a < a' ∨ a = a' ∧ (b < b' ∨ b = b' ∧ p)) ↔ m < n ∨ m = n ∧ p := by
  rcases Nat.lt_trichotomy m n with h | h | h
  · have hparts := hlt h
    simp only [h, true_or, iff_true]
    rcases hparts with ha | ⟨ha, hb⟩
    · exact .inl ha
    · exact .inr ⟨ha, .inl hb⟩
  · obtain ⟨rfl, rfl⟩ := heq h
    simp [h]
  · have hparts := hgt h
    simp only [Nat.lt_asymm h, Nat.ne_of_gt h, false_or, false_and, iff_false]
    rintro (ha | ⟨ha, hb | ⟨hb, -⟩⟩) <;> omega

end Radix
