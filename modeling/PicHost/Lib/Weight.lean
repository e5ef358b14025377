import Mathlib.Algebra.BigOperators.Group.List.Basic
import Mathlib.Algebra.GroupWithZero.Nat
import Mathlib.Tactic.Common

/-! # Weights summed over a list -/

namespace Weighted

variable {α : Type*} (w : α → ℕ)

/-- The sum of the weights. -/
def total (l : List α) : ℕ := (l.map w).sum

@[simp] theorem total_nil : total w [] = 0 := rfl

@[simp] theorem total_cons (a : α) (l : List α) : total w (a :: l) = w a + total w l := by
  simp [total]

@[simp] theorem total_append (l l' : List α) : total w (l ++ l') = total w l + total w l' := by
  simp [total]

variable {l : List α} {i j : ℕ} {a b : α}

theorem total_eq_zero (h : ∀ a ∈ l, w a = 0) : total w l = 0 := by
  rw [total, List.sum_eq_zero]
  intro k hk
  obtain ⟨a, ha, rfl⟩ := List.mem_map.mp hk
  exact h a ha

/-- Replacing an element exchanges its weight. -/
theorem total_set (h : l[i]? = some a) (b : α) :
    total w (l.set i b) + w a = total w l + w b := by
  induction l generalizing i with
  | nil => cases h
  | cons c l ih =>
    cases i with
    | zero =>
      cases h
      simp only [List.set_cons_zero, total_cons]
      omega
    | succ i =>
      have := ih h
      simp only [List.set_cons_succ, total_cons]
      omega

/-- Something weightless in the place of an element. -/
theorem total_set_le (hb : w b = 0) (i : ℕ) : total w (l.set i b) ≤ total w l := by
  cases hi : l[i]? with
  | none =>
    have hout := List.set_eq_of_length_le (a := b) (List.getElem?_eq_none_iff.mp hi)
    exact Nat.le_of_eq (congrArg (total w) hout)
  | some a =>
    have := total_set w hi b
    omega

theorem le_total (h : l[i]? = some a) : w a ≤ total w l := by
  induction l generalizing i with
  | nil => cases h
  | cons c l ih =>
    rw [total_cons]
    cases i with
    | zero =>
      cases h
      omega
    | succ i =>
      have := ih h
      omega

/-- Two elements at different places weigh no more than the list. -/
theorem add_le_total (hi : l[i]? = some a) (hj : l[j]? = some b) (hij : i ≠ j) :
    w a + w b ≤ total w l := by
  induction l generalizing i j with
  | nil => cases hi
  | cons c l ih =>
    rw [total_cons]
    cases i with
    | zero =>
      cases j with
      | zero => exact absurd rfl hij
      | succ j =>
        cases hi
        have := le_total w (i := j) hj
        omega
    | succ i =>
      cases j with
      | zero =>
        cases hj
        have := le_total w (i := i) hi
        omega
      | succ j =>
        have := ih hi hj (by omega)
        omega

end Weighted
