import Mathlib.Algebra.Order.BigOperators.Group.List
import Mathlib.Data.List.Pairwise
import Mathlib.Data.List.Sort
import Mathlib.Data.List.Count
import Mathlib.Data.List.Perm.Basic
import Mathlib.Tactic.Linarith

/-!
# Windows of a sorted list

A list is sorted anew for each window that is cut from it, and elements that tie may come in
another order each time. The windows together are the list exactly when they reach its end and
no tie spans two of them.
-/

namespace Paging

variable {α : Type*}

/-- The `k`-th `per` elements. -/
def window (per k : ℕ) (l : List α) : List α := (l.drop (k * per)).take per

/-- The first `n` windows, the `k`-th of them cut from `l k`. -/
def windows (per n : ℕ) (l : ℕ → List α) : List α :=
  (List.range n).flatMap fun k => window per k (l k)

/-- A sorted list of the same elements. -/
def Arrangement (le : α → α → Bool) (xs l : List α) : Prop :=
  l.Perm xs ∧ l.Pairwise fun a b => le a b = true

structure IsTotalPreorder (le : α → α → Bool) : Prop where
  trans : ∀ a b c, le a b = true → le b c = true → le a c = true
  total : ∀ a b, (le a b || le b a) = true

/-- How many elements come before `x` in every arrangement. -/
def before (le : α → α → Bool) (xs : List α) (x : α) : ℕ := xs.countP fun y => !le x y

/-- How many elements may come before `x`, itself included. -/
def upTo (le : α → α → Bool) (xs : List α) (x : α) : ℕ := xs.countP fun y => le y x

/-- The elements that tie with `x` are in one window. -/
def Together (le : α → α → Bool) (per : ℕ) (xs : List α) (x : α) : Prop :=
  before le xs x / per = (upTo le xs x - 1) / per

variable {le : α → α → Bool} {xs l : List α} {per n k i : ℕ} {x : α}

theorem IsTotalPreorder.refl (hle : IsTotalPreorder le) (a : α) : le a a = true := by
  have h := hle.total a a
  rwa [Bool.or_self] at h

theorem IsTotalPreorder.le_of_not (hle : IsTotalPreorder le) {a b : α} (h : le a b = false) :
    le b a = true := by
  have hab := hle.total a b
  rwa [h, Bool.false_or] at hab

theorem IsTotalPreorder.flip (hle : IsTotalPreorder le) : IsTotalPreorder fun a b => le b a where
  trans a b c hab hbc := hle.trans c b a hbc hab
  total a b := hle.total b a

theorem exists_arrangement (hle : IsTotalPreorder le) (xs : List α) :
    ∃ l, Arrangement le xs l :=
  ⟨xs.mergeSort le, List.mergeSort_perm xs le, List.pairwise_mergeSort hle.trans hle.total xs⟩

theorem mem_window (hper : 0 < per) : x ∈ window per k l ↔ ∃ i, l[i]? = some x ∧ i / per = k := by
  simp only [window, List.mem_iff_getElem?, List.getElem?_take, List.getElem?_drop]
  constructor
  · rintro ⟨j, hj⟩
    split at hj
    · refine ⟨_, hj, ?_⟩
      rw [Nat.add_comm, Nat.add_mul_div_right _ _ hper, Nat.div_eq_of_lt ‹_›, Nat.zero_add]
    · cases hj
  · rintro ⟨i, hi, rfl⟩
    refine ⟨i % per, ?_⟩
    rw [if_pos (Nat.mod_lt i hper), Nat.mul_comm, Nat.div_add_mod]
    exact hi

theorem mem_windows {l : ℕ → List α} :
    x ∈ windows per n l ↔ ∃ k < n, x ∈ window per k (l k) := by
  simp only [windows, List.mem_flatMap, List.mem_range]

theorem length_windows_le (l : ℕ → List α) : (windows per n l).length ≤ n * per := by
  rw [windows, List.length_flatMap]
  have h : ((List.range n).map fun k => (window per k (l k)).length).sum ≤
      ((List.range n).map fun k => (window per k (l k)).length).length • per := by
    refine List.sum_le_card_nsmul _ _ fun m hm => ?_
    obtain ⟨k, -, rfl⟩ := List.mem_map.mp hm
    rw [window, List.length_take]
    exact min_le_left _ _
  simpa using h

/-- Where an element is, in any arrangement. -/
theorem index_bounds (hle : IsTotalPreorder le) (h : Arrangement le xs l) (hi : l[i]? = some x) :
    before le xs x ≤ i ∧ i < upTo le xs x := by
  obtain ⟨hlt, hget⟩ := List.getElem?_eq_some_iff.mp hi
  have hsplit : l = l.take i ++ x :: l.drop (i + 1) := by
    rw [← hget, ← List.drop_eq_getElem_cons hlt, List.take_append_drop]
  have hlen : (l.take i).length = i := by
    rw [List.length_take]
    omega
  have hsorted := h.2
  rw [hsplit, List.pairwise_append, List.pairwise_cons] at hsorted
  obtain ⟨-, ⟨hafter, -⟩, hearlier⟩ := hsorted
  constructor
  · have hzero : (x :: l.drop (i + 1)).countP (fun y => !le x y) = 0 := by
      refine List.countP_eq_zero.mpr fun y hy => ?_
      rcases List.mem_cons.mp hy with rfl | hy
      · simp [hle.refl]
      · simp [hafter y hy]
    calc before le xs x = l.countP fun y => !le x y := (h.1.countP_eq _).symm
      _ = (l.take i).countP fun y => !le x y := by
          rw [hsplit, List.countP_append, hzero, ← hsplit, Nat.add_zero]
      _ ≤ i := List.countP_le_length.trans_eq hlen
  · have hall : (l.take i).countP (fun y => le y x) = i := by
      rw [← hlen]
      simp only [hlen]
      refine (List.countP_eq_length.mpr fun y hy => ?_).trans hlen
      exact hearlier y hy x List.mem_cons_self
    calc i < i + ((x :: l.drop (i + 1)).countP fun y => le y x) := by
          have hself := @List.countP_cons_of_pos _ (fun y => le y x) x (l.drop (i + 1)) (hle.refl x)
          omega
      _ = l.countP fun y => le y x := by
          rw [hsplit, List.countP_append, ← hsplit, hall]
      _ = upTo le xs x := h.1.countP_eq _

/-- Elements that share a place in every arrangement share a window. -/
theorem Together.window_eq (h : Together le per xs x) (hbefore : before le xs x ≤ i)
    (hupTo : i < upTo le xs x) : i / per = before le xs x / per := by
  have hlow : before le xs x / per ≤ i / per := Nat.div_le_div_right hbefore
  have hhigh : i / per ≤ (upTo le xs x - 1) / per := Nat.div_le_div_right (by omega)
  rw [Together] at h
  omega

/-- Windows of arrangements that need not agree on ties. -/
theorem windows_perm (hle : IsTotalPreorder le) (hper : 0 < per) (hnodup : xs.Nodup)
    (hreach : xs.length ≤ n * per) (htogether : ∀ x ∈ xs, Together le per xs x)
    {l : ℕ → List α} (hl : ∀ k, Arrangement le xs (l k)) : (windows per n l).Perm xs := by
  have hplace : ∀ k x, x ∈ window per k (l k) → x ∈ xs ∧ k = before le xs x / per := by
    intro k x hx
    obtain ⟨i, hi, rfl⟩ := (mem_window hper).mp hx
    have hmem : x ∈ xs := (hl _).1.mem_iff.mp (List.mem_of_getElem? hi)
    obtain ⟨hlow, hhigh⟩ := index_bounds hle (hl _) hi
    exact ⟨hmem, (htogether x hmem).window_eq hlow hhigh⟩
  have hdisjoint : (windows per n l).Nodup := by
    refine List.nodup_flatMap.mpr ⟨fun k _ => ?_, ?_⟩
    · exact (((hl k).1.nodup_iff.mpr hnodup).sublist (List.drop_sublist _ _)).sublist
        (List.take_sublist _ _)
    · refine List.nodup_range.imp fun {j k} hne => ?_
      intro x hj hk
      exact hne ((hplace j x hj).2.trans (hplace k x hk).2.symm)
  refine (List.perm_ext_iff_of_nodup hdisjoint hnodup).mpr fun x => ?_
  rw [mem_windows]
  constructor
  · rintro ⟨k, -, hx⟩
    exact (hplace k x hx).1
  · intro hx
    let k := before le xs x / per
    obtain ⟨i, hi⟩ := List.mem_iff_getElem?.mp ((hl k).1.mem_iff.mpr hx)
    obtain ⟨hlow, hhigh⟩ := index_bounds hle (hl k) hi
    have hwindow : i / per = k := (htogether x hx).window_eq hlow hhigh
    have hlast : i < n * per :=
      hhigh.trans_le (List.countP_le_length.trans hreach)
    refine ⟨k, ?_, (mem_window hper).mpr ⟨i, hi, hwindow⟩⟩
    rw [← hwindow]
    exact Nat.div_lt_of_lt_mul (by rwa [Nat.mul_comm])

/-! ## Breaking ties -/

/-- Ties go by a second key. -/
def refined (le : α → α → Bool) (key : α → ℕ) (a b : α) : Bool :=
  le a b && (!le b a || decide (key a ≤ key b))

theorem refined_iff {key : α → ℕ} {a b : α} :
    refined le key a b = true ↔ le a b = true ∧ (le b a = true → key a ≤ key b) := by
  rw [refined]
  cases le b a <;> simp

theorem IsTotalPreorder.refined (hle : IsTotalPreorder le) (key : α → ℕ) :
    IsTotalPreorder (refined le key) where
  trans a b c hab hbc := by
    obtain ⟨hab, hkey⟩ := refined_iff.mp hab
    obtain ⟨hbc, hkey'⟩ := refined_iff.mp hbc
    refine refined_iff.mpr ⟨hle.trans a b c hab hbc, fun hca => ?_⟩
    exact (hkey (hle.trans b c a hbc hca)).trans (hkey' (hle.trans c a b hca hab))
  total a b := by
    rw [Bool.or_eq_true, refined_iff, refined_iff]
    cases hab : le a b with
    | false => exact .inr ⟨hle.le_of_not hab, fun h => by cases h⟩
    | true =>
      cases hba : le b a with
      | false => exact .inl ⟨rfl, fun h => by cases h⟩
      | true =>
        rcases Nat.le_total (key a) (key b) with h | h
        · exact .inl ⟨rfl, fun _ => h⟩
        · exact .inr ⟨rfl, fun _ => h⟩

theorem Arrangement.of_refined {key : α → ℕ} (h : Arrangement (refined le key) xs l) :
    Arrangement le xs l :=
  ⟨h.1, h.2.imp fun hab => (refined_iff.mp hab).1⟩

variable [DecidableEq α]

theorem countP_of_nodup {p q : α → Bool} (hnodup : xs.Nodup) (hx : x ∈ xs) (hq : q x = true)
    (h : ∀ y ∈ xs, p y = (q y && decide (y ≠ x))) : xs.countP p + 1 = xs.countP q := by
  induction xs with
  | nil => cases hx
  | cons y xs ih =>
    obtain ⟨hy, hnodup⟩ := List.nodup_cons.mp hnodup
    have hrest : ∀ z ∈ xs, p z = (q z && decide (z ≠ x)) := fun z hz =>
      h z (List.mem_cons_of_mem _ hz)
    rw [List.countP_cons, List.countP_cons, h y List.mem_cons_self]
    by_cases hyx : y = x
    · subst hyx
      have hsame : xs.countP p = xs.countP q := List.countP_congr fun z hz => by
        have hne : z ≠ y := fun hzy => hy (hzy ▸ hz)
        rw [hrest z hz, decide_eq_true hne, Bool.and_true]
      simp [hq, hsame]
    · have := ih hnodup (List.mem_of_ne_of_mem (Ne.symm hyx) hx) hrest
      rw [decide_eq_true hyx, Bool.and_true]
      omega

/-- An arrangement with `x` before what it ties with. -/
theorem exists_first (hle : IsTotalPreorder le) (hnodup : xs.Nodup) (hx : x ∈ xs) :
    ∃ l, Arrangement le xs l ∧ l[before le xs x]? = some x := by
  let key := fun y => if y = x then 0 else 1
  have hkey := hle.refined key
  obtain ⟨l, hl⟩ := exists_arrangement hkey xs
  obtain ⟨i, hi⟩ := List.mem_iff_getElem?.mp (hl.1.mem_iff.mpr hx)
  obtain ⟨hlow, hhigh⟩ := index_bounds hkey hl hi
  have hbefore : before (refined le key) xs x = before le xs x := by
    refine List.countP_congr fun y _ => ?_
    simp [refined, key]
  have hupTo : before le xs x + 1 = upTo (refined le key) xs x := by
    refine countP_of_nodup hnodup hx (hkey.refl x) fun y _ => ?_
    by_cases hyx : y = x
    · simp [hyx, hle.refl]
    · cases hxy : le x y with
      | true => simp [refined, key, hyx, hxy]
      | false => simp [refined, hyx, hxy, hle.le_of_not hxy]
  have hindex : i = before le xs x := by omega
  exact ⟨l, hl.of_refined, hindex ▸ hi⟩

/-- An arrangement with `x` after what it ties with. -/
theorem exists_last (hle : IsTotalPreorder le) (hnodup : xs.Nodup) (hx : x ∈ xs) :
    ∃ l, Arrangement le xs l ∧ l[upTo le xs x - 1]? = some x := by
  let key := fun y => if y = x then 1 else 0
  have hkey := hle.refined key
  obtain ⟨l, hl⟩ := exists_arrangement hkey xs
  obtain ⟨i, hi⟩ := List.mem_iff_getElem?.mp (hl.1.mem_iff.mpr hx)
  obtain ⟨hlow, hhigh⟩ := index_bounds hkey hl hi
  have hupTo : upTo (refined le key) xs x = upTo le xs x := by
    refine List.countP_congr fun y _ => ?_
    by_cases hyx : y = x
    · simp [refined, key, hyx]
    · simp [refined, key, hyx]
  have hbefore : before (refined le key) xs x + 1 = upTo le xs x := by
    refine countP_of_nodup hnodup hx (hle.refl x) fun y _ => ?_
    by_cases hyx : y = x
    · simp [hyx, hkey.refl]
    · cases hxy : le x y with
      | true => simp [refined, key, hyx, hxy]
      | false => simp [refined, hyx, hxy, hle.le_of_not hxy]
  have hindex : i = upTo le xs x - 1 := by omega
  exact ⟨l, hl.of_refined, hindex ▸ hi⟩

/-- The windows of any arrangements are the list exactly when they reach its end and no tie spans
two of them. -/
theorem windows_perm_iff (hle : IsTotalPreorder le) (hper : 0 < per) (hnodup : xs.Nodup) :
    (∀ l : ℕ → List α, (∀ k, Arrangement le xs (l k)) → (windows per n l).Perm xs) ↔
      xs.length ≤ n * per ∧ ∀ x ∈ xs, Together le per xs x := by
  constructor
  · intro h
    have hreach : xs.length ≤ n * per := by
      obtain ⟨l, hl⟩ := exists_arrangement hle xs
      exact (h (fun _ => l) fun _ => hl).length_eq.symm.trans_le (length_windows_le _)
    refine ⟨hreach, fun x hx => ?_⟩
    obtain ⟨first, hfirst, hat⟩ := exists_first hle hnodup hx
    obtain ⟨last, hlast, hat'⟩ := exists_last hle hnodup hx
    by_contra hapart
    let l := fun k => if k = before le xs x / per then first else last
    have hl : ∀ k, Arrangement le xs (l k) := by
      intro k
      by_cases hk : k = before le xs x / per
      · simp only [l, if_pos hk]
        exact hfirst
      · simp only [l, if_neg hk]
        exact hlast
    -- the element is in two windows, and in the list once
    have honce : (windows per n l).Nodup := (h l hl).nodup_iff.mpr hnodup
    have hin : x ∈ window per (before le xs x / per) (l (before le xs x / per)) := by
      simp only [l, if_pos]
      exact (mem_window hper).mpr ⟨_, hat, rfl⟩
    have hin' : x ∈ window per ((upTo le xs x - 1) / per) (l ((upTo le xs x - 1) / per)) := by
      simp only [l]
      rw [if_neg fun h => hapart h.symm]
      exact (mem_window hper).mpr ⟨_, hat', rfl⟩
    have hrange : ∀ i, i < xs.length → i / per ∈ List.range n := by
      intro i hi
      rw [List.mem_range]
      exact Nat.div_lt_of_lt_mul (by rw [Nat.mul_comm]; omega)
    have hbound : before le xs x < xs.length := by
      rw [← hfirst.1.length_eq]
      exact (List.getElem?_eq_some_iff.mp hat).1
    have hbound' : upTo le xs x - 1 < xs.length := by
      rw [← hlast.1.length_eq]
      exact (List.getElem?_eq_some_iff.mp hat').1
    have hdisjoint := (List.nodup_flatMap.mp honce).2
    have hsymm : Std.Symm (Function.onFun List.Disjoint fun k => window per k (l k)) :=
      ⟨fun _ _ h x hx hx' => h hx' hx⟩
    exact hdisjoint.forall (hrange _ hbound) (hrange _ hbound') hapart hin hin'
  · rintro ⟨hreach, htogether⟩ l hl
    exact windows_perm hle hper hnodup hreach htogether hl

end Paging
