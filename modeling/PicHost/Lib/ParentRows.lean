import Mathlib.Data.List.Nodup
import Mathlib.Data.List.Perm.Basic

/-!
# Rows that point to their parents

Rows with an identifier, an owner and an optional parent, of which every parent is a row of
the same owner that has no parent itself: a forest of depth two.
-/

namespace ParentRows

variable {α κ ω : Type*} (id : α → κ) (owner : α → ω) (parent : α → Option κ)

/-- Every parent named is a row without a parent, of the same owner. -/
def TwoLevel (rows : List α) : Prop :=
  ∀ c ∈ rows, ∀ k, parent c = some k →
    ∃ p ∈ rows, id p = k ∧ parent p = none ∧ owner p = owner c

variable {id owner parent} {rows : List α}

theorem TwoLevel.nil : TwoLevel id owner parent [] := fun _ hc => (List.not_mem_nil hc).elim

/-- A new row under a row without a parent, or under none. -/
theorem TwoLevel.append (h : TwoLevel id owner parent rows) {c : α}
    (hc : ∀ k, parent c = some k → ∃ p ∈ rows, id p = k ∧ parent p = none ∧ owner p = owner c) :
    TwoLevel id owner parent (rows ++ [c]) := by
  intro d hd k hk
  have hold : ∃ p ∈ rows, id p = k ∧ parent p = none ∧ owner p = owner d := by
    rcases List.mem_append.mp hd with hd | hd
    · exact h d hd k hk
    · rw [List.mem_singleton.mp hd] at hk ⊢
      exact hc k hk
  obtain ⟨p, hp, hrest⟩ := hold
  exact ⟨p, List.mem_append_left _ hp, hrest⟩

/-- A change of other columns. -/
theorem TwoLevel.map (h : TwoLevel id owner parent rows) {f : α → α} (hid : ∀ c, id (f c) = id c)
    (howner : ∀ c, owner (f c) = owner c) (hparent : ∀ c, parent (f c) = parent c) :
    TwoLevel id owner parent (rows.map f) := by
  intro c hc k hk
  obtain ⟨d, hd, rfl⟩ := List.mem_map.mp hc
  rw [hparent] at hk
  obtain ⟨p, hp, rfl, hroot, hown⟩ := h d hd k hk
  exact ⟨f p, List.mem_map_of_mem hp, hid p, (hparent p).trans hroot, by rw [howner, howner, hown]⟩

/-- Rows kept together with their parents. -/
theorem TwoLevel.filter (h : TwoLevel id owner parent rows) {keep : α → Bool}
    (hkeep : ∀ c ∈ rows, keep c = true → ∀ d ∈ rows, parent c = some (id d) →
      parent d = none → owner d = owner c → keep d = true) :
    TwoLevel id owner parent (rows.filter keep) := by
  intro c hc k hk
  obtain ⟨hrow, hkept⟩ := List.mem_filter.mp hc
  obtain ⟨p, hp, rfl, hroot, hown⟩ := h c hrow k hk
  exact ⟨p, List.mem_filter.mpr ⟨hp, hkeep c hrow hkept p hp hk hroot hown⟩, rfl, hroot, hown⟩

variable [DecidableEq κ]

variable (parent) in
def roots (rows : List α) : List α := rows.filter fun c => parent c == none

variable (parent) in
def childrenOf (k : κ) (rows : List α) : List α := rows.filter fun c => parent c == some k

variable (id parent) in
/-- Every row without a parent, followed by the rows under it. -/
def blocks (rows : List α) : List α :=
  (roots parent rows).flatMap fun r => r :: childrenOf parent (id r) rows

theorem mem_blocks {c : α} (h : TwoLevel id owner parent rows) :
    c ∈ blocks id parent rows ↔ c ∈ rows := by
  simp only [blocks, roots, childrenOf, List.mem_flatMap, List.mem_cons, List.mem_filter,
    beq_iff_eq]
  constructor
  · rintro ⟨r, ⟨hr, -⟩, rfl | ⟨hc, -⟩⟩
    · exact hr
    · exact hc
  · intro hc
    cases hk : parent c with
    | none => exact ⟨c, ⟨hc, hk⟩, .inl rfl⟩
    | some k =>
      obtain ⟨p, hp, rfl, hroot, -⟩ := h c hc k hk
      exact ⟨p, ⟨hp, hroot⟩, .inr ⟨hc, rfl⟩⟩

/-- Of a forest of depth two the blocks have every row exactly once. -/
theorem blocks_perm (h : TwoLevel id owner parent rows) (hids : (rows.map id).Nodup) :
    (blocks id parent rows).Perm rows := by
  have hrows : rows.Nodup := hids.of_map
  refine (List.perm_ext_iff_of_nodup ?_ hrows).mpr fun c => mem_blocks h
  refine List.nodup_flatMap.mpr ⟨fun r hr => ?_, ?_⟩
  · have hroot : parent r = none := by simpa using (List.mem_filter.mp hr).2
    refine List.nodup_cons.mpr ⟨fun hmem => ?_, hrows.filter _⟩
    have hchild : parent r = some (id r) := by simpa using (List.mem_filter.mp hmem).2
    rw [hroot] at hchild
    cases hchild
  · refine (List.Pairwise.and_mem.mp (hrows.filter _)).imp ?_
    rintro r q ⟨hr, hq, hne⟩ c hcr hcq
    have hr' := List.mem_filter.mp hr
    have hq' := List.mem_filter.mp hq
    have hroot : ∀ {d e : α}, parent d = none → c = d → c ∈ childrenOf parent (id e) rows →
        False := by
      rintro d e hd rfl hmem
      have hsome : parent c = some (id e) := by simpa using (List.mem_filter.mp hmem).2
      rw [hd] at hsome
      cases hsome
    rcases List.mem_cons.mp hcr with hr | hr <;> rcases List.mem_cons.mp hcq with hq | hq
    · exact hne (hr.symm.trans hq)
    · exact hroot (by simpa using hr'.2) hr hq
    · exact hroot (by simpa using hq'.2) hq hr
    · have hpr : parent c = some (id r) := by simpa using (List.mem_filter.mp hr).2
      have hpq : parent c = some (id q) := by simpa using (List.mem_filter.mp hq).2
      exact hne (List.inj_on_of_nodup_map hids hr'.1 hq'.1 (Option.some.inj (hpr.symm.trans hpq)))

end ParentRows
