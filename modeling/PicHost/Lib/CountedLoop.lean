import Mathlib.Tactic.Linarith
import Mathlib.Tactic.Ring

/-!
# Counted loops on a machine integer

`while x < n { body; x += t }` with a counter below `bound`, whose addition is checked. A step of
zero never ends it.
-/

namespace CountedLoop

/-- How a computation ends within its fuel. -/
inductive Run (α : Type) where
  | outOfFuel
  | panicked
  | returned (a : α)
deriving DecidableEq

variable {α β σ : Type} {bound n t x fuel : ℕ} {s : σ} {body : ℕ → σ → Run σ}

def Run.andThen : Run α → (α → Run β) → Run β
  | .outOfFuel, _ => .outOfFuel
  | .panicked, _ => .panicked
  | .returned a, f => f a

@[simp] theorem Run.returned_andThen (a : α) (f : α → Run β) :
    (Run.returned a).andThen f = f a := rfl

@[simp] theorem Run.panicked_andThen (f : α → Run β) :
    (Run.panicked : Run α).andThen f = .panicked := rfl

theorem Run.andThen_returned {r : Run α} {f : α → Run β} {b : β} :
    r.andThen f = .returned b ↔ ∃ a, r = .returned a ∧ f a = .returned b := by
  cases r <;> simp [Run.andThen]

theorem Run.andThen_panicked {r : Run α} {f : α → β} :
    (r.andThen fun a => .returned (f a)) = .panicked ↔ r = .panicked := by
  cases r <;> simp [Run.andThen]

theorem Run.exists_returned {r : Run α} {f : α → β} :
    (∃ b, (r.andThen fun a => .returned (f a)) = .returned b) ↔ ∃ a, r = .returned a := by
  cases r <;> simp [Run.andThen]

def whileBelow (bound n t : ℕ) (body : ℕ → σ → Run σ) : ℕ → ℕ → σ → Run σ
  | 0, _, _ => .outOfFuel
  | fuel + 1, x, s =>
    if x < n then
      (body x s).andThen fun s' =>
        if x + t < bound then whileBelow bound n t body fuel (x + t) s' else .panicked
    else .returned s

/-- Some whole number of steps from `x` passes `n` before the counter overflows. -/
def CoversFrom (bound n t x : ℕ) : Prop := ∃ m, n ≤ x + m * t ∧ x + m * t < bound

/-- A loop that returns has stepped past its end. -/
theorem covers_of_returned {s' : σ} (hx : x < bound)
    (h : whileBelow bound n t body fuel x s = .returned s') : CoversFrom bound n t x := by
  induction fuel generalizing x s with
  | zero => simp [whileBelow] at h
  | succ fuel ih =>
    rw [whileBelow] at h
    split at h
    · obtain ⟨s₁, -, h⟩ := Run.andThen_returned.mp h
      split at h
      · rename_i hlt
        obtain ⟨m, hn, hb⟩ := ih hlt h
        exact ⟨m + 1, by linarith, by linarith⟩
      · cases h
    · exact ⟨0, by omega, by omega⟩

/-- A loop that returns and runs its body has run it to the end at its start. -/
theorem body_returned {s' : σ} (hx : x < n)
    (h : whileBelow bound n t body fuel x s = .returned s') : ∃ s₁, body x s = .returned s₁ := by
  cases fuel with
  | zero => simp [whileBelow] at h
  | succ fuel =>
    rw [whileBelow, if_pos hx] at h
    obtain ⟨s₁, hs, -⟩ := Run.andThen_returned.mp h
    exact ⟨s₁, hs⟩

theorem returned_of_covers {m : ℕ} (hbody : ∀ x s, ∃ s', body x s = .returned s')
    (hn : n ≤ x + m * t) (hb : x + m * t < bound) (hfuel : m < fuel) :
    ∃ s', whileBelow bound n t body fuel x s = .returned s' := by
  induction m generalizing x s fuel with
  | zero =>
    cases fuel with
    | zero => omega
    | succ fuel => exact ⟨s, by rw [whileBelow, if_neg (by omega)]⟩
  | succ m ih =>
    cases fuel with
    | zero => omega
    | succ fuel =>
      rw [whileBelow]
      split
      · obtain ⟨s₁, hs⟩ := hbody x s
        rw [hs, Run.andThen]
        have hstep : x + (m + 1) * t = x + t + m * t := by ring
        rw [hstep] at hn hb
        rw [if_pos (by omega)]
        exact ih hn hb (by omega)
      · exact ⟨s, rfl⟩

/-- What holds after a loop that only adds to its state: it did before, or some turn added it. -/
theorem holds_of_returned {s' : σ} {A : σ → Prop} {P : ℕ → Prop}
    (hbody : ∀ x s s', x < n → body x s = .returned s' → (A s' ↔ A s ∨ P x))
    (h : whileBelow bound n t body fuel x s = .returned s') :
    A s' ↔ A s ∨ ∃ m, x + m * t < n ∧ P (x + m * t) := by
  induction fuel generalizing x s with
  | zero => simp [whileBelow] at h
  | succ fuel ih =>
    rw [whileBelow] at h
    split at h
    · rename_i hx
      obtain ⟨s₁, hs, h⟩ := Run.andThen_returned.mp h
      split at h
      · rw [ih h, hbody x s s₁ hx hs, or_assoc]
        apply or_congr_right
        have hstep : ∀ m, x + t + m * t = x + (m + 1) * t := fun m => by ring
        constructor
        · rintro (hP | ⟨m, hm, hP⟩)
          · exact ⟨0, by omega, by simpa using hP⟩
          · exact ⟨m + 1, by rwa [hstep] at hm, by rwa [hstep] at hP⟩
        · rintro ⟨_ | m, hm, hP⟩
          · exact .inl (by simpa using hP)
          · exact .inr ⟨m, by rwa [hstep], by rwa [hstep]⟩
      · cases h
    · rename_i hx
      obtain rfl := Run.returned.inj h
      refine (or_iff_left ?_).symm
      rintro ⟨m, hm, -⟩
      omega

/-- Two loops in step: the state of the second is a function of the state of the first. -/
theorem whileBelow_map {τ : Type} {body' : ℕ → τ → Run τ} (f : σ → τ)
    (hbody : ∀ x s, body' x (f s) = (body x s).andThen fun s' => .returned (f s')) :
    whileBelow bound n t body' fuel x (f s) =
      (whileBelow bound n t body fuel x s).andThen fun s' => .returned (f s') := by
  induction fuel generalizing x s with
  | zero => rfl
  | succ fuel ih =>
    rw [whileBelow, whileBelow]
    split
    · rw [hbody]
      cases body x s with
      | outOfFuel => rfl
      | panicked => rfl
      | returned s₁ =>
        simp only [Run.returned_andThen]
        split
        · exact ih
        · rfl
    · rfl

/-- While the counter has room for twice the end, only a step of zero keeps a loop going. -/
theorem covers_iff (hn : 2 * n ≤ bound) (ht : t < bound) :
    CoversFrom bound n t 0 ↔ n = 0 ∨ t ≠ 0 := by
  constructor
  · rintro ⟨m, hle, -⟩
    by_contra hno
    rw [not_or, not_not] at hno
    rw [hno.2] at hle
    omega
  · rintro (rfl | h)
    · exact ⟨0, by omega, by omega⟩
    · rcases Nat.lt_or_ge t n with hnt | hnt
      · have habove := Nat.lt_div_mul_add (a := n) (Nat.pos_of_ne_zero h)
        have hbelow := Nat.div_mul_le_self n t
        exact ⟨n / t + 1, by linarith, by linarith⟩
      · exact ⟨1, by omega, by omega⟩

end CountedLoop
