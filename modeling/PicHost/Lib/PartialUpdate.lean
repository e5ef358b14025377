import Mathlib.Data.List.Basic
import Mathlib.Logic.Function.Basic

/-!
# Partial updates

Rows with named fields. A request names some fields of a row; every field should have the value
it was given by the last request that named it.
-/

namespace PartialUpdate

variable {ι Row F : Type*} {V : F → Type*}

variable (V) in
/-- The values a request gives to the fields it names. -/
abbrev Patch := ∀ f, Option (V f)

/-- The value that the field was last given. -/
def lastNamed (f : F) (ps : List (Patch V)) : Option (V f) := (ps.filterMap (· f)).getLast?

theorem lastNamed_concat (f : F) (ps : List (Patch V)) (p : Patch V) :
    lastNamed f (ps ++ [p]) = (p f).or (lastNamed f ps) := by
  unfold lastNamed
  rw [List.filterMap_append]
  cases hp : p f with
  | none => simp [hp]
  | some v => simp [hp]

variable (ι V) in
/-- The requests for each row, the latest last. -/
abbrev History := ι → List (Patch V)

namespace History

variable [DecidableEq ι]

/-- A new row: all its fields are given. -/
def create (h : History ι V) (i : ι) (r : ∀ f, V f) : History ι V :=
  Function.update h i [fun f => some (r f)]

def name (h : History ι V) (i : ι) (p : Patch V) : History ι V :=
  Function.update h i (h i ++ [p])

@[simp] theorem create_self (h : History ι V) (i : ι) (r : ∀ f, V f) :
    h.create i r i = [fun f => some (r f)] := Function.update_self ..

theorem create_of_ne (h : History ι V) {i j : ι} (hij : j ≠ i) (r : ∀ f, V f) :
    h.create i r j = h j := Function.update_of_ne hij ..

@[simp] theorem name_self (h : History ι V) (i : ι) (p : Patch V) :
    h.name i p i = h i ++ [p] := Function.update_self ..

theorem name_of_ne (h : History ι V) {i j : ι} (hij : j ≠ i) (p : Patch V) :
    h.name i p j = h j := Function.update_of_ne hij ..

end History

variable (id : Row → ι) (column : Row → ∀ f, V f)

/-- Every field of every row has the value it was last given. -/
def Kept (h : History ι V) (rows : List Row) : Prop :=
  ∀ r ∈ rows, ∀ f, lastNamed f (h (id r)) = some (column r f)

variable {id column} {h : History ι V} {rows : List Row}

theorem Kept.filter (hk : Kept id column h rows) (p : Row → Bool) :
    Kept id column h (rows.filter p) :=
  fun r hr => hk r (List.mem_of_mem_filter hr)

/-- Where ids are unique, a condition that names an id and is met by some row picks the rows
with this id. -/
theorem hit_iff_of_unique {hit : Row → Bool} {i : ι}
    (hunique : ∀ a ∈ rows, ∀ b ∈ rows, id a = id b → a = b)
    (hhit : ∀ r, hit r = true → id r = i) (hsome : ∃ r ∈ rows, hit r = true) :
    ∀ r ∈ rows, hit r = true ↔ id r = i := by
  obtain ⟨a, ha, hit_a⟩ := hsome
  intro r hr
  refine ⟨hhit r, fun hri => ?_⟩
  rw [hunique r hr a ha (hri.trans (hhit a hit_a).symm)]
  exact hit_a

variable [DecidableEq ι]

theorem Kept.create (hk : Kept id column h rows) {a : Row} (hnew : ∀ r ∈ rows, id r ≠ id a) :
    Kept id column (h.create (id a) (column a)) (rows ++ [a]) := by
  intro r hr f
  rcases List.mem_append.mp hr with hr | hr
  · rw [History.create_of_ne h (hnew r hr)]
    exact hk r hr f
  · cases List.mem_singleton.mp hr
    rw [History.create_self]
    rfl

/-- A write that gives the named fields their values keeps what was given before exactly when
it leaves the other fields as they are. -/
theorem kept_name_iff (hk : Kept id column h rows) {i : ι} {p : Patch V} {hit : Row → Bool}
    {g : Row → Row} (hid : ∀ r, id (g r) = id r) (hhit : ∀ r ∈ rows, hit r = true ↔ id r = i)
    (hnamed : ∀ r f v, p f = some v → column (g r) f = v) :
    Kept id column (h.name i p) (rows.map fun r => if hit r then g r else r) ↔
      ∀ r ∈ rows, id r = i → ∀ f, p f = none → column (g r) f = column r f := by
  constructor
  · intro hkept r hr hri f hf
    have hmem : g r ∈ rows.map fun r => if hit r then g r else r :=
      List.mem_map.mpr ⟨r, hr, if_pos ((hhit r hr).mpr hri)⟩
    have hlast := hkept (g r) hmem f
    rw [hid, hri, History.name_self, lastNamed_concat, hf, Option.none_or] at hlast
    have hbefore := hk r hr f
    rw [hri, hlast] at hbefore
    exact Option.some.inj hbefore
  · intro hsame r' hr' f
    obtain ⟨r, hr, rfl⟩ := List.mem_map.mp hr'
    by_cases hri : id r = i
    · rw [if_pos ((hhit r hr).mpr hri), hid, hri, History.name_self, lastNamed_concat]
      cases hf : p f with
      | some v =>
        rw [Option.some_or, hnamed r f v hf]
      | none =>
        rw [Option.none_or, hsame r hr hri f hf, ← hri]
        exact hk r hr f
    · rw [if_neg fun hit => hri ((hhit r hr).mp hit), History.name_of_ne h hri]
      exact hk r hr f

end PartialUpdate
