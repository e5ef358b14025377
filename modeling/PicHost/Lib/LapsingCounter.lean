import Mathlib.Data.List.Induction
import Mathlib.Data.List.Basic

/-!
# Counters that lapse

A hit before the deadline counts one more, and one from it on starts again at one. Either the
first hit sets the deadline, which makes windows of a fixed length, or every hit renews it.
-/

namespace LapsingCounter

structure Counter where
  count : ℕ
  deadline : ℕ
deriving DecidableEq

def live (now : ℕ) (c : Option Counter) : Option Counter := c.filter fun c => now < c.deadline

def hit (renew : Bool) (w now : ℕ) (c : Option Counter) : Counter :=
  (live now c).elim ⟨1, now + w⟩ fun c =>
    ⟨c.count + 1, if renew then now + w else c.deadline⟩

/-- After hits at these instants. -/
def after (renew : Bool) (w : ℕ) (hits : List ℕ) : Option Counter :=
  hits.foldl (fun c now => some (hit renew w now c)) none

/-- What is read at `now`: nothing from the deadline on. -/
def read (now : ℕ) (c : Option Counter) : ℕ := (live now c).elim 0 Counter.count

/-- The place of the last hit among those of its window. Windows are `w` long, and each starts
at the first hit after the one before it. -/
def place (w : ℕ) (hits : List ℕ) : ℕ := (after false w hits).elim 0 Counter.count

/-- The end of the window of the last hit. -/
def windowEnd (w : ℕ) (hits : List ℕ) : ℕ := (after false w hits).elim 0 Counter.deadline

/-- The hits since the last pause of `w`; none once `w` has passed since the last. -/
def sincePause (w now : ℕ) (hits : List ℕ) : ℕ := read now (after true w hits)

def within (w start : ℕ) (hits : List ℕ) : List ℕ := hits.filter fun t => start ≤ t ∧ t < start + w

/-- At most `n` hits in every interval of length `w`. -/
def Sparse (n w : ℕ) (hits : List ℕ) : Prop := ∀ start, (within w start hits).length ≤ n

theorem live_eq_some {now : ℕ} {c : Option Counter} {d : Counter} :
    live now c = some d ↔ c = some d ∧ now < d.deadline := by
  rw [live, Option.filter_eq_some_iff, decide_eq_true_eq]

theorem after_append (renew : Bool) (w : ℕ) (hits : List ℕ) (now : ℕ) :
    after renew w (hits ++ [now]) = some (hit renew w now (after renew w hits)) := by
  rw [after, List.foldl_append]
  rfl

theorem within_append {w start now : ℕ} (h : start ≤ now ∧ now < start + w) (hits : List ℕ) :
    within w start (hits ++ [now]) = within w start hits ++ [now] := by
  rw [within, List.filter_append, List.filter_cons_of_pos (by rwa [decide_eq_true_eq])]
  rfl

/-- A fixed window starts at a hit, and the hits counted after that one are in it. -/
theorem count_le_within {w : ℕ} {hits : List ℕ} (hsorted : hits.Pairwise (· ≤ ·)) {c : Counter}
    (h : after false w hits = some c) :
    ∃ start ∈ hits, c.deadline = start + w ∧ c.count ≤ max 1 (within w start hits).length := by
  induction hits using List.reverseRecOn generalizing c with
  | nil => cases h
  | append_singleton hits now ih =>
    rw [after_append, Option.some.injEq] at h
    rw [List.pairwise_append] at hsorted
    unfold hit at h
    cases hlive : live now (after false w hits) with
    | none =>
      rw [hlive] at h
      subst h
      exact ⟨now, List.mem_append_right _ (List.mem_singleton_self _), rfl, Nat.le_max_left _ _⟩
    | some d =>
      rw [hlive] at h
      subst h
      obtain ⟨hafter, hnow⟩ := live_eq_some.mp hlive
      obtain ⟨start, hmem, hdeadline, hcount⟩ := ih hsorted.1 hafter
      have hin : start ≤ now ∧ now < start + w :=
        ⟨hsorted.2.2 start hmem now (List.mem_singleton_self _), hdeadline ▸ hnow⟩
      -- the window has a length, so that its first hit is in it
      have hfirst : 0 < (within w start hits).length :=
        List.length_pos_of_mem (List.mem_filter.mpr ⟨hmem, decide_eq_true (by omega)⟩)
      refine ⟨start, List.mem_append_left _ hmem, hdeadline, ?_⟩
      rw [within_append hin, List.length_append, List.length_singleton]
      show d.count + 1 ≤ _
      omega

/-- A deadline that every hit renews is `w` after the last of them. -/
theorem deadline_renewed {w last : ℕ} {hits : List ℕ} (hlast : hits.getLast? = some last) :
    ∃ n, after true w hits = some ⟨n, last + w⟩ := by
  obtain ⟨hits, rfl⟩ := List.getLast?_eq_some_iff.mp hlast
  rw [after_append, hit]
  cases live last (after true w hits) with
  | none => exact ⟨_, rfl⟩
  | some c => exact ⟨_, rfl⟩

/-- A window is over `w` after the last hit at the latest. -/
theorem windowEnd_le {w last : ℕ} {hits : List ℕ} (hsorted : hits.Pairwise (· ≤ ·))
    (hlast : hits.getLast? = some last) : windowEnd w hits ≤ last + w := by
  obtain ⟨before, rfl⟩ := List.getLast?_eq_some_iff.mp hlast
  have hle : ∀ start ∈ before ++ [last], start ≤ last := by
    intro start hmem
    rcases List.mem_append.mp hmem with hmem | hmem
    · exact (List.pairwise_append.mp hsorted).2.2 start hmem last (List.mem_singleton_self _)
    · exact Nat.le_of_eq (List.mem_singleton.mp hmem)
  cases hafter : after false w (before ++ [last]) with
  | none =>
    rw [after_append] at hafter
    cases hafter
  | some c =>
    obtain ⟨start, hmem, hdeadline, -⟩ := count_le_within hsorted hafter
    have := hle start hmem
    simp only [windowEnd, hafter, Option.elim_some, hdeadline]
    omega

/-- The first hit after a window opens the next one. -/
theorem place_of_windowEnd_le {w now : ℕ} {hits : List ℕ} (h : windowEnd w hits ≤ now) :
    place w (hits ++ [now]) = 1 := by
  rw [place, after_append, hit]
  cases hlive : live now (after false w hits) with
  | none => rfl
  | some c =>
    obtain ⟨hafter, hnow⟩ := live_eq_some.mp hlive
    simp only [windowEnd, hafter, Option.elim_some] at h
    omega

theorem Sparse.of_sublist {n w : ℕ} {hits hits' : List ℕ} (h : Sparse n w hits)
    (hsub : hits'.Sublist hits) : Sparse n w hits' :=
  fun start => Nat.le_trans (hsub.filter _).length_le (h start)

/-- Among sparse hits each is one of the first of its window. -/
theorem Sparse.place_le {n w : ℕ} {hits : List ℕ} (h : Sparse n w hits) (hn : 1 ≤ n)
    (hsorted : hits.Pairwise (· ≤ ·)) : place w hits ≤ n := by
  unfold place
  cases hafter : after false w hits with
  | none => exact Nat.zero_le n
  | some c =>
    obtain ⟨start, -, -, hcount⟩ := count_le_within hsorted hafter
    exact Nat.le_trans hcount (Nat.max_le.mpr ⟨hn, h start⟩)

end LapsingCounter
