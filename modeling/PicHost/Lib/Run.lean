import Mathlib.Logic.Function.Iterate

namespace LabelledRun

variable {S A : Type*} (step : S → A → S)

/-- `P` holds in the starting state and after every action of the run. -/
def AllStates (P : S → Prop) : S → List A → Prop
  | s, [] => P s
  | s, a :: as => P s ∧ AllStates P (step s a) as

/-- `G` holds of every action of the run in the state it is taken in. -/
def AllSteps (G : S → A → Prop) : S → List A → Prop
  | _, [] => True
  | s, a :: as => G s a ∧ AllSteps G (step s a) as

instance AllStates.decidable (P : S → Prop) [DecidablePred P] :
    ∀ (s : S) (as : List A), Decidable (AllStates step P s as)
  | s, [] => inferInstanceAs (Decidable (P s))
  | s, a :: as =>
    have := AllStates.decidable P (step s a) as
    inferInstanceAs (Decidable (_ ∧ _))

instance AllSteps.decidable (G : S → A → Prop) [∀ s, DecidablePred (G s)] :
    ∀ (s : S) (as : List A), Decidable (AllSteps step G s as)
  | _, [] => inferInstanceAs (Decidable True)
  | s, a :: as =>
    have := AllSteps.decidable G (step s a) as
    inferInstanceAs (Decidable (_ ∧ _))

variable {step} {P J : S → Prop} {G H : S → A → Prop}

theorem AllStates.start {s : S} {as : List A} (h : AllStates step P s as) : P s := by
  cases as with
  | nil => exact h
  | cons a as => exact h.1

/-- What holds of every state holds throughout every run. -/
theorem AllStates.of_forall (h : ∀ s, P s) (s : S) (as : List A) : AllStates step P s as := by
  induction as generalizing s with
  | nil => exact h s
  | cons a as ih => exact ⟨h s, ih (step s a)⟩

variable (step) in
/-- An invariant kept by every step holds at the end of every run. -/
theorem invariant (hstep : ∀ s a, J s → J (step s a)) {s : S} (hs : J s) (as : List A) :
    J (as.foldl step s) := by
  induction as generalizing s with
  | nil => exact hs
  | cons a as ih => exact ih (hstep s a hs)

theorem AllStates.mono (hPJ : ∀ s, P s → J s) {s : S} {as : List A} (h : AllStates step P s as) :
    AllStates step J s as := by
  induction as generalizing s with
  | nil => exact hPJ s h
  | cons a as ih => exact ⟨hPJ s h.1, ih h.2⟩

theorem AllStates.and {s : S} {as : List A} (hP : AllStates step P s as)
    (hJ : AllStates step J s as) : AllStates step (fun s => P s ∧ J s) s as := by
  induction as generalizing s with
  | nil => exact ⟨hP, hJ⟩
  | cons a as ih => exact ⟨⟨hP.1, hJ.1⟩, ih hP.2 hJ.2⟩

/-- Within an invariant a weaker property may be concluded state by state. -/
theorem AllStates.imp_of_invariant {Q : S → Prop} (hstep : ∀ s a, J s → J (step s a))
    (himp : ∀ s, J s → P s → Q s) {s : S} (hs : J s) {as : List A} (h : AllStates step P s as) :
    AllStates step Q s as := by
  induction as generalizing s with
  | nil => exact himp s hs h
  | cons a as ih => exact ⟨himp s hs h.1, ih (hstep s a hs) h.2⟩

/-- A run whose steps all meet the guard keeps what guarded steps keep. -/
theorem allStates_of_guarded (hstep : ∀ s a, J s → G s a → J (step s a)) {s : S} (hs : J s)
    {as : List A} (hg : AllSteps step G s as) : AllStates step J s as := by
  induction as generalizing s with
  | nil => exact hs
  | cons a as ih => exact ⟨hs, ih (hstep s a hs hg.1) hg.2⟩

/-- Guarded steps keep an invariant that contains `P`, and from it only guarded steps keep
`P`: then `P` holds in every state of a run exactly when every step is guarded. -/
theorem allStates_iff_of_guarded (hJP : ∀ s, J s → P s)
    (hstep : ∀ s a, J s → G s a → J (step s a)) (hback : ∀ s a, J s → P (step s a) → G s a)
    {s : S} (hs : J s) (as : List A) : AllStates step P s as ↔ AllSteps step G s as := by
  constructor
  · intro h
    induction as generalizing s with
    | nil => trivial
    | cons a as ih =>
      have hg : G s a := hback s a hs h.2.start
      exact ⟨hg, ih (hstep s a hs hg) h.2⟩
  · exact fun h => (allStates_of_guarded hstep hs h).mono hJP

/-- The last state of a run is one of its states. -/
theorem AllStates.last {s : S} {as : List A} (h : AllStates step P s as) :
    P (as.foldl step s) := by
  induction as generalizing s with
  | nil => exact h
  | cons a as ih => exact ih h.2

/-- The last action of a run is taken in the state that those before it lead to. -/
theorem AllSteps.last {s : S} {as : List A} {a : A} (h : AllSteps step G s (as ++ [a])) :
    G (as.foldl step s) a := by
  induction as generalizing s with
  | nil => exact h.1
  | cons b as ih => exact ih h.2

theorem allSteps_append {s : S} {as bs : List A} :
    AllSteps step G s (as ++ bs) ↔ AllSteps step G s as ∧ AllSteps step G (as.foldl step s) bs := by
  induction as generalizing s with
  | nil => exact (and_iff_right trivial).symm
  | cons a as ih =>
    show G s a ∧ AllSteps step G (step s a) (as ++ bs) ↔ _
    rw [ih, ← and_assoc]
    rfl

/-- Two step conditions that agree wherever the invariant holds agree on every run, if steps
that meet the second keep the invariant. -/
theorem allSteps_congr_of_guarded (hstep : ∀ s a, J s → H s a → J (step s a))
    (hGH : ∀ s a, J s → (G s a ↔ H s a)) {s : S} (hs : J s) (as : List A) :
    AllSteps step G s as ↔ AllSteps step H s as := by
  induction as generalizing s with
  | nil => exact Iff.rfl
  | cons a as ih =>
    have hhead := hGH s a hs
    constructor
    · intro h
      have hH := hhead.mp h.1
      exact ⟨hH, (ih (hstep s a hs hH)).mp h.2⟩
    · exact fun h => ⟨hhead.mpr h.1, (ih (hstep s a hs h.1)).mpr h.2⟩

/-- It is enough that all steps keep it. -/
theorem allSteps_congr (hstep : ∀ s a, J s → J (step s a)) (hGH : ∀ s a, J s → (G s a ↔ H s a))
    {s : S} (hs : J s) (as : List A) : AllSteps step G s as ↔ AllSteps step H s as :=
  allSteps_congr_of_guarded (fun s a hs _ => hstep s a hs) hGH hs as

/-- Step conditions that agree on every step of the run. -/
theorem allSteps_congr_of_allSteps {R : S → A → Prop} (hGH : ∀ s a, R s a → (G s a ↔ H s a))
    {s : S} {as : List A} (hR : AllSteps step R s as) :
    AllSteps step G s as ↔ AllSteps step H s as := by
  induction as generalizing s with
  | nil => exact Iff.rfl
  | cons a as ih => exact and_congr (hGH s a hR.1) (ih hR.2)

/-- A state property that each step keeps exactly when its guard is met holds in every
state of a run exactly when every guard of the run is met. -/
theorem allStates_iff_allSteps (hJ : ∀ s a, J s → J (step s a))
    (hPG : ∀ s a, J s → P s → (P (step s a) ↔ G s a)) {s : S} (hs : J s) (hP : P s)
    (as : List A) : AllStates step P s as ↔ AllSteps step G s as := by
  induction as generalizing s with
  | nil => exact iff_of_true hP trivial
  | cons a as ih =>
    constructor
    · intro h
      have hP' : P (step s a) := h.2.start
      exact ⟨(hPG s a hs hP).mp hP', (ih (hJ s a hs) hP').mp h.2⟩
    · intro h
      have hP' : P (step s a) := (hPG s a hs hP).mpr h.1
      exact ⟨hP, (ih (hJ s a hs) hP').mpr h.2⟩

/-- A history that has grown by one entry. -/
theorem getElem?_append_singleton {α : Type*} {l : List α} {a b : α} {i : Nat} :
    (l ++ [a])[i]? = some b ↔ l[i]? = some b ∨ i = l.length ∧ b = a := by
  rw [List.getElem?_append]
  split
  · rename_i hlt
    exact (or_iff_left fun h => Nat.ne_of_lt hlt h.1).symm
  · rename_i hge
    rw [List.getElem?_singleton, List.getElem?_eq_none (Nat.le_of_not_lt hge)]
    split
    · rename_i hzero
      rw [Option.some.injEq, eq_comm]
      exact ⟨fun h => .inr ⟨by omega, h⟩, fun h => h.elim (fun h => by cases h) And.right⟩
    · rename_i hpos
      exact iff_of_false (fun h => by cases h) fun h =>
        h.elim (fun h => by cases h) fun h => by omega

/-! A step without labels. -/

/-- Some number of steps leads from the one state to the other. -/
def Leads (f : S → S) (s s' : S) : Prop := ∃ n, f^[n] s = s'

namespace Leads

variable {f : S → S} {s s' s'' : S}

theorem refl (s : S) : Leads f s s := ⟨0, rfl⟩

theorem of_step (h : Leads f (f s) s') : Leads f s s' := by
  obtain ⟨n, hn⟩ := h
  exact ⟨n + 1, hn⟩

theorem trans (h : Leads f s s') (h' : Leads f s' s'') : Leads f s s'' := by
  obtain ⟨m, rfl⟩ := h
  obtain ⟨n, rfl⟩ := h'
  exact ⟨n + m, Function.iterate_add_apply ..⟩

end Leads

end LabelledRun
