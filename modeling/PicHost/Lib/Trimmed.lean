import Mathlib.Data.List.DropRight

/-! # Lists without certain elements at their ends -/

namespace Trimmed

variable {α : Type*} (p : α → Bool)

/-- The list from its first to its last element that `p` rejects. -/
def trim (l : List α) : List α := (l.dropWhile p).rdropWhile p

variable {p}

/-- What is left of a list with a rejected head keeps the head. -/
theorem dropWhile_rdropWhile {l : List α} (h : l.dropWhile p = l) :
    (l.rdropWhile p).dropWhile p = l.rdropWhile p := by
  cases l with
  | nil => rfl
  | cons a l =>
    have ha : p a = false := by
      by_contra hpa
      rw [Bool.not_eq_false] at hpa
      rw [List.dropWhile_cons_of_pos hpa] at h
      have hlen := (List.dropWhile_suffix p (l := l)).length_le
      rw [h, List.length_cons] at hlen
      omega
    obtain ⟨rest, hrest⟩ := List.rdropWhile_prefix p (l := a :: l)
    cases hl : (a :: l).rdropWhile p with
    | nil => rfl
    | cons b l' =>
      rw [hl, List.cons_append] at hrest
      obtain ⟨rfl, -⟩ := List.cons.inj hrest
      exact List.dropWhile_cons_of_neg (by simp [ha])

theorem trim_eq_self {l : List α} (h : ∀ a ∈ l, p a = false) : trim p l = l := by
  have hdrop : l.dropWhile p = l := List.dropWhile_eq_self_iff.mpr fun hl =>
    Bool.eq_false_iff.mp (h _ (List.getElem_mem hl))
  rw [trim, hdrop]
  exact List.rdropWhile_eq_self_iff.mpr fun hl => Bool.eq_false_iff.mp (h _ (List.getLast_mem hl))

theorem trim_trim (l : List α) : trim p (trim p l) = trim p l := by
  have hdrop : (l.dropWhile p).dropWhile p = l.dropWhile p := List.dropWhile_idempotent ..
  unfold trim
  rw [dropWhile_rdropWhile hdrop, List.rdropWhile_idempotent]

/-- Trimming takes away only what `p` accepts. -/
theorem mem_trim {a : α} {l : List α} (ha : a ∈ l) (hp : p a = false) : a ∈ trim p l := by
  have hleft : a ∈ l.dropWhile p := by
    rw [← List.takeWhile_append_dropWhile (p := p) (l := l), List.mem_append] at ha
    apply ha.resolve_left
    intro htake
    rw [List.mem_takeWhile_imp htake] at hp
    cases hp
  rw [trim, List.rdropWhile, List.mem_reverse]
  rw [← List.mem_reverse, ← List.takeWhile_append_dropWhile (p := p) (l := (l.dropWhile p).reverse),
    List.mem_append] at hleft
  apply hleft.resolve_left
  intro htake
  rw [List.mem_takeWhile_imp htake] at hp
  cases hp

end Trimmed
