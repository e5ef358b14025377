import Mathlib.Order.Basic
import PicHost.Lib.Radix

/-!
# Decimal texts of machine integers

A signed integer is written with the digits it needs. Reading takes a sign of either kind, leading
zeros, and no number out of range.
-/

namespace IntText

/-- The values of a signed integer of so many bits. -/
def Fits (bits : ℕ) (n : ℤ) : Prop := -2 ^ (bits - 1) ≤ n ∧ n < 2 ^ (bits - 1)

instance (bits : ℕ) (n : ℤ) : Decidable (Fits bits n) := inferInstanceAs (Decidable (_ ∧ _))

def render (n : ℤ) : List Char :=
  if n < 0 then '-' :: Nat.toDigits 10 n.natAbs else Nat.toDigits 10 n.natAbs

/-- One digit at least. -/
def digits (cs : List Char) : Option ℕ := if cs = [] then none else Radix.decimal.decode cs

def signed : List Char → Option ℤ
  | '-' :: cs => (digits cs).map fun n : ℕ => -(n : ℤ)
  | '+' :: cs => (digits cs).map fun n : ℕ => (n : ℤ)
  | cs => (digits cs).map fun n : ℕ => (n : ℤ)

/-- `from_str` of a signed integer. -/
def parse (bits : ℕ) (cs : List Char) : Option ℤ := (signed cs).filter (Fits bits)

theorem value_of_isDigit {c : Char} (h : c.isDigit = true) :
    Radix.decimal.value c = some (c.toNat - '0'.toNat) := by
  have hrange : '0' ≤ c ∧ c ≤ '9' := Char.isDigit_iff_toNat.mp h
  rw [Radix.decimal_value, if_pos hrange]
  rfl

theorem decodeFrom_of_isDigit {cs : List Char} (h : ∀ c ∈ cs, c.isDigit = true) (acc : ℕ) :
    Radix.decimal.decodeFrom acc cs = some (Nat.ofDigitChars 10 cs acc) := by
  induction cs generalizing acc with
  | nil => rw [Radix.decodeFrom, Nat.ofDigitChars_nil]
  | cons c cs ih =>
    obtain ⟨hc, hrest⟩ := List.forall_mem_cons.mp h
    rw [Radix.decodeFrom, value_of_isDigit hc, Option.bind_some, ih hrest,
      Nat.ofDigitChars_cons]

theorem digits_toDigits (n : ℕ) : digits (Nat.toDigits 10 n) = some n := by
  rw [digits, if_neg Nat.toDigits_ne_nil, Radix.decode,
    decodeFrom_of_isDigit fun c hc => Nat.isDigit_of_mem_toDigits (by decide) (by decide) hc,
    Nat.ofDigitChars_ten_toDigits]

/-- Digits have no sign before them. -/
theorem signed_of_isDigit {cs : List Char} (h : ∀ c ∈ cs, c.isDigit = true) :
    signed cs = (digits cs).map fun n : ℕ => (n : ℤ) := by
  unfold signed
  split
  · exact absurd (h '-' List.mem_cons_self) (by decide)
  · exact absurd (h '+' List.mem_cons_self) (by decide)
  · rfl

theorem signed_render (n : ℤ) : signed (render n) = some n := by
  have hdigits : ∀ c ∈ Nat.toDigits 10 n.natAbs, c.isDigit = true := fun c hc =>
    Nat.isDigit_of_mem_toDigits (by decide) (by decide) hc
  by_cases hn : n < 0
  · rw [render, if_pos hn, signed, digits_toDigits, Option.map_some,
      Int.ofNat_natAbs_of_nonpos hn.le, neg_neg]
  · rw [render, if_neg hn, signed_of_isDigit hdigits, digits_toDigits, Option.map_some,
      Int.natAbs_of_nonneg (not_lt.mp hn)]

theorem parse_render {bits : ℕ} {n : ℤ} (h : Fits bits n) : parse bits (render n) = some n := by
  rw [parse, signed_render, Option.filter_some, if_pos (decide_eq_true h)]

theorem render_ne_nil (n : ℤ) : render n ≠ [] := by
  unfold render
  split
  · exact List.cons_ne_nil _ _
  · exact Nat.toDigits_ne_nil

end IntText
