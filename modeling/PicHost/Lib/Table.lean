import Mathlib.Data.List.Basic
import Mathlib.Data.List.Pairwise

/-!
# Tables with uniqueness constraints

A table is a list of rows no two of which clash, where `clash` compares the key columns
of two rows. Rows that clash cannot be stored together, so a state with a violated
constraint cannot be built.
-/

namespace KeyedTable

variable {α κ : Type*}

/-- Rows no two of which have clashing keys. -/
structure Table (key : α → κ) (clash : κ → κ → Prop) where
  rows : List α
  unique : rows.Pairwise fun a b => ¬ clash (key a) (key b)

variable {key : α → κ} {clash : κ → κ → Prop}

namespace Table

@[ext] theorem ext {t t' : Table key clash} (h : t.rows = t'.rows) : t = t' := by
  cases t
  cases t'
  congr

instance [DecidableEq α] : DecidableEq (Table key clash) := fun _ _ =>
  decidable_of_iff _ ⟨ext, congrArg rows⟩

/-- The table without rows. -/
def empty : Table key clash := ⟨[], List.Pairwise.nil⟩

instance : Inhabited (Table key clash) := ⟨empty⟩

/-- `SELECT … WHERE p`. -/
def select (t : Table key clash) (p : α → Bool) : List α := t.rows.filter p

/-- `SELECT EXISTS(SELECT 1 … WHERE p)`. -/
def anyRow (t : Table key clash) (p : α → Bool) : Bool := t.rows.any p

/-- `DELETE … WHERE p`. -/
def delete (t : Table key clash) (p : α → Bool) : Table key clash where
  rows := t.rows.filter fun a => !p a
  unique := t.unique.filter _

/-- `UPDATE … SET f WHERE p`, for an `f` that leaves the key columns alone. -/
def update (t : Table key clash) (p : α → Bool) (f : α → α) (hf : ∀ a, key (f a) = key a) :
    Table key clash where
  rows := t.rows.map fun a => if p a then f a else a
  unique := by
    refine List.Pairwise.map _ ?_ t.unique
    intro a b h
    have hk : ∀ c, key (if p c then f c else c) = key c := fun c => by split <;> simp [hf]
    rwa [hk, hk]

section Constrained

variable [DecidableRel clash]

/-- `UPDATE … SET f WHERE p`: refused when the new rows would clash. -/
def tryUpdate (t : Table key clash) (p : α → Bool) (f : α → α) : Option (Table key clash) :=
  if h : (t.rows.map fun a => if p a then f a else a).Pairwise
      fun a b => ¬ clash (key a) (key b) then some ⟨_, h⟩
  else none

theorem rows_of_tryUpdate {t t' : Table key clash} {p : α → Bool} {f : α → α}
    (h : t.tryUpdate p f = some t') : t'.rows = t.rows.map fun a => if p a then f a else a := by
  unfold tryUpdate at h
  split at h
  · cases h
    rfl
  · cases h

/-- `UPDATE … SET f WHERE p RETURNING …`, of one row: refused when there is none, too. -/
def updateReturning (t : Table key clash) (p : α → Bool) (f : α → α) :
    Option (α × Table key clash) :=
  match t.tryUpdate p f, (t.select p).head? with
  | some t', some a => some (f a, t')
  | _, _ => none

/-- What an update returns is one of the rows it has changed. -/
theorem row_of_updateReturning {t t' : Table key clash} {p : α → Bool} {f : α → α} {b : α}
    (h : t.updateReturning p f = some (b, t')) :
    (t'.rows = t.rows.map fun a => if p a then f a else a) ∧
      ∃ a ∈ t.rows, p a = true ∧ b = f a := by
  unfold updateReturning at h
  cases hupdate : t.tryUpdate p f with
  | none => simp [hupdate] at h
  | some t'' =>
    cases hrow : (t.select p).head? with
    | none => simp [hupdate, hrow] at h
    | some a =>
      simp only [hupdate, hrow] at h
      cases h
      have hmem := List.mem_filter.mp (List.mem_of_head? hrow)
      exact ⟨rows_of_tryUpdate hupdate, a, hmem.1, hmem.2, rfl⟩

theorem of_updateReturning {t t' : Table key clash} {p : α → Bool} {f : α → α} {b : α}
    (h : t.updateReturning p f = some (b, t')) :
    (t'.rows = t.rows.map fun a => if p a then f a else a) ∧ ∃ a ∈ t.rows, p a = true := by
  obtain ⟨hrows, a, ha, hp, -⟩ := row_of_updateReturning h
  exact ⟨hrows, a, ha, hp⟩

/-- An update of one row is taken when the new rows do not clash and there is such a row. -/
theorem updateReturning_isSome {t : Table key clash} {p : α → Bool} {f : α → α} :
    (t.updateReturning p f).isSome ↔
      ((t.rows.map fun a => if p a then f a else a).Pairwise
        fun a b => ¬ clash (key a) (key b)) ∧ ∃ a ∈ t.rows, p a = true := by
  have hrow : (t.select p).head?.isSome ↔ ∃ a ∈ t.rows, p a = true := by
    simp only [List.isSome_head?, select, ne_eq, List.filter_eq_nil_iff, not_forall, not_not,
      exists_prop]
  rw [← hrow]
  unfold updateReturning tryUpdate
  by_cases h : (t.rows.map fun a => if p a then f a else a).Pairwise
      fun a b => ¬ clash (key a) (key b)
  · rw [dif_pos h]
    simp only [h, true_and]
    cases (t.select p).head? <;> rfl
  · rw [dif_neg h]
    simp only [h, false_and, Option.isSome_none, Bool.false_eq_true]

/-- `INSERT`: refused when a stored row clashes with the new one. -/
def insert (t : Table key clash) (a : α) : Option (Table key clash) :=
  if h : ∃ b ∈ t.rows, clash (key b) (key a) then none
  else some
    { rows := t.rows ++ [a]
      unique := by
        refine List.pairwise_append.mpr ⟨t.unique, List.pairwise_singleton _ _, ?_⟩
        intro b hb c hc
        rw [List.mem_singleton] at hc
        subst hc
        exact fun hbc => h ⟨b, hb, hbc⟩ }

theorem insert_eq_none {t : Table key clash} {a : α} :
    t.insert a = none ↔ ∃ b ∈ t.rows, clash (key b) (key a) := by
  unfold insert
  split
  · simp only [true_iff]
    assumption
  · simp only [reduceCtorEq, false_iff]
    assumption

theorem insert_isSome {t : Table key clash} {a : α} :
    (t.insert a).isSome ↔ ∀ b ∈ t.rows, ¬ clash (key b) (key a) := by
  rw [← Option.ne_none_iff_isSome, ne_eq, insert_eq_none]
  simp only [not_exists, not_and]

theorem rows_of_insert {t t' : Table key clash} {a : α} (h : t.insert a = some t') :
    t'.rows = t.rows ++ [a] := by
  unfold insert at h
  split at h
  · cases h
  · cases h
    rfl

theorem not_clash_of_insert {t t' : Table key clash} {a : α} (h : t.insert a = some t') :
    ∀ b ∈ t.rows, ¬ clash (key b) (key a) := by
  rw [← insert_isSome, h]
  rfl

theorem mem_of_insert {t t' : Table key clash} {a : α} (h : t.insert a = some t') {b : α} :
    b ∈ t'.rows ↔ b ∈ t.rows ∨ b = a := by
  rw [rows_of_insert h, List.mem_append, List.mem_singleton]

end Constrained

@[simp] theorem mem_select {t : Table key clash} {p : α → Bool} {a : α} :
    a ∈ t.select p ↔ a ∈ t.rows ∧ p a = true := List.mem_filter

@[simp] theorem anyRow_iff {t : Table key clash} {p : α → Bool} :
    t.anyRow p = true ↔ ∃ a ∈ t.rows, p a = true := List.any_eq_true

theorem anyRow_eq_false {t : Table key clash} {p : α → Bool} :
    t.anyRow p = false ↔ ∀ a ∈ t.rows, p a = false := by
  simp [anyRow]

/-- The row a query for one row returns satisfies it. -/
theorem mem_of_select_head? {t : Table key clash} {p : α → Bool} {a : α}
    (h : (t.select p).head? = some a) : a ∈ t.rows ∧ p a = true :=
  mem_select.mp (List.mem_of_head? h)

/-- A query that one row satisfies returns it. -/
theorem select_head?_of_unique {t : Table key clash} {p : α → Bool} {a : α} (ha : a ∈ t.rows)
    (hp : p a = true) (hu : ∀ b ∈ t.rows, p b = true → b = a) :
    (t.select p).head? = some a := by
  have hmem : a ∈ t.select p := mem_select.mpr ⟨ha, hp⟩
  cases h : (t.select p).head? with
  | none =>
    rw [List.head?_eq_none_iff.mp h] at hmem
    cases hmem
  | some b =>
    obtain ⟨hb, hpb⟩ := mem_of_select_head? h
    rw [hu b hb hpb]

@[simp] theorem mem_delete {t : Table key clash} {p : α → Bool} {a : α} :
    a ∈ (t.delete p).rows ↔ a ∈ t.rows ∧ p a = false := by
  simp [delete]

@[simp] theorem mem_update {t : Table key clash} {p : α → Bool} {f : α → α}
    {hf : ∀ a, key (f a) = key a} {a : α} :
    a ∈ (t.update p f hf).rows ↔ ∃ b ∈ t.rows, (if p b then f b else b) = a := by
  simp [update]

/-- The rows after an update: the untouched ones and the images of the touched ones. -/
theorem mem_updated_iff {rows : List α} {p : α → Bool} {f : α → α} {a : α} :
    a ∈ rows.map (fun b => if p b then f b else b) ↔
      (a ∈ rows ∧ p a = false) ∨ ∃ b ∈ rows, p b = true ∧ f b = a := by
  rw [List.mem_map]
  constructor
  · rintro ⟨b, hb, rfl⟩
    cases hp : p b with
    | false => exact .inl ⟨by simpa using hb, by simpa using hp⟩
    | true => exact .inr ⟨b, hb, hp, by simp⟩
  · rintro (⟨ha, hp⟩ | ⟨b, hb, hp, rfl⟩)
    · exact ⟨a, ha, by simp [hp]⟩
    · exact ⟨b, hb, by simp [hp]⟩

theorem mem_update_iff {t : Table key clash} {p : α → Bool} {f : α → α}
    {hf : ∀ a, key (f a) = key a} {a : α} :
    a ∈ (t.update p f hf).rows ↔
      (a ∈ t.rows ∧ p a = false) ∨ ∃ b ∈ t.rows, p b = true ∧ f b = a :=
  mem_updated_iff

/-- Two rows of one table with clashing keys are one row. -/
theorem eq_of_clash {t : Table key clash} (hsymm : ∀ j k, clash j k → clash k j) {a b : α}
    (ha : a ∈ t.rows) (hb : b ∈ t.rows) (h : clash (key a) (key b)) : a = b := by
  by_contra hne
  have : Std.Symm fun a b : α => ¬ clash (key a) (key b) :=
    ⟨fun x y hxy hyx => hxy (hsymm _ _ hyx)⟩
  exact t.unique.forall ha hb hne h

end Table

end KeyedTable
