import Mathlib.Data.List.Basic
import Mathlib.Data.List.Range

/-!
# Positional statement parameters

A statement text mentions its parameters as `$1, $2, …`; the values are bound one after
the other in a separate pass. A condition of the statement reads parameter `i` from the
list of bound values.
-/

namespace Placeholder

variable {β : Type*}

/-- `$first, …, ${first + n - 1}`. -/
def placeholders (first n : ℕ) : List ℕ := (List.range n).map fun i => first + i

/-- The value bound to `$i`. -/
def bound (binds : List β) (i : ℕ) : Option β := if i = 0 then none else binds[i - 1]?

/-- `column IN ($a, $b, …)`. -/
def inList [DecidableEq β] (binds : List β) (params : List ℕ) (x : β) : Bool :=
  params.any fun i => bound binds i == some x

theorem bound_succ (binds : List β) (i : ℕ) : bound binds (i + 1) = binds[i]? := rfl

/-- The parameters numbered from `pre.length + 1` on read the values bound after `pre`. -/
theorem bound_append (pre xs post : List β) {i : ℕ} (hi : i < xs.length) :
    bound (pre ++ xs ++ post) (pre.length + 1 + i) = xs[i]? := by
  have hs : pre.length + 1 + i = (pre.length + i) + 1 := by omega
  rw [hs, bound_succ, List.append_assoc, List.getElem?_append_right (by omega),
    Nat.add_sub_cancel_left, List.getElem?_append_left hi]

/-- An `IN` list over consecutive parameters holds exactly the values bound to them. -/
theorem inList_placeholders [DecidableEq β] (pre xs post : List β) (x : β) :
    inList (pre ++ xs ++ post) (placeholders (pre.length + 1) xs.length) x = true ↔ x ∈ xs := by
  have hmem : x ∈ xs ↔ ∃ i < xs.length, xs[i]? = some x := by
    rw [List.mem_iff_getElem?]
    constructor
    · rintro ⟨i, hi⟩
      exact ⟨i, (List.getElem?_eq_some_iff.mp hi).1, hi⟩
    · rintro ⟨i, -, hi⟩
      exact ⟨i, hi⟩
  simp only [inList, placeholders, List.any_map, List.any_eq_true, List.mem_range,
    Function.comp_apply, beq_iff_eq]
  rw [hmem]
  constructor
  · rintro ⟨i, hi, hb⟩
    exact ⟨i, hi, by rwa [bound_append pre xs post hi] at hb⟩
  · rintro ⟨i, hi, hx⟩
    exact ⟨i, hi, by rwa [bound_append pre xs post hi]⟩

/-- The first parameter after a block of bound values. -/
theorem bound_length (xs post : List β) :
    bound (xs ++ post) (xs.length + 1) = post[0]? := by
  rw [bound_succ, List.getElem?_append_right (le_refl _), Nat.sub_self]

/-- The second parameter after a block of bound values. -/
theorem bound_length_succ (xs post : List β) :
    bound (xs ++ post) (xs.length + 2) = post[1]? := by
  rw [bound_succ, List.getElem?_append_right (by omega)]
  congr 1
  omega

end Placeholder
