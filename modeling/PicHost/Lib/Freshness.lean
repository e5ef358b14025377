import Mathlib.Data.List.Basic
import Mathlib.Data.List.ReduceOption

/-!
# Values from a position of a history on

Sources whose successive values are kept, the latest last. Each has a floor: the position from
which on its values may still be shown. A cache beside them is fresh if what it holds is so.
-/

namespace Freshness

variable {ι V : Type*}

/-- The successive values of each source; there is no value while a source is absent. -/
abbrev History (ι V : Type*) := ι → List (Option V)

/-- The source had the value at position `n` or later. -/
def Since (h : History ι V) (i : ι) (n : ℕ) (v : V) : Prop := some v ∈ (h i).drop n

/-- Everything cached is a value from the floor on. -/
def Fresh (h : History ι V) (floor : ι → ℕ) (cached : ι → Option V) : Prop :=
  ∀ i v, cached i = some v → Since h i (floor i) v

/-- The values that the sources have now are the last of their histories. -/
def Current (h : History ι V) (value : ι → Option V) : Prop :=
  ∀ i, (h i).getLast? = some (value i)

/-- The values of the sources that have changed are appended. -/
def note (h : History ι V) (changed : ι → Bool) (value : ι → Option V) : History ι V :=
  fun i => if changed i then h i ++ [value i] else h i

/-- A floor is raised where a higher one is given. -/
def raise (floor position : ι → ℕ) : ι → ℕ := fun i => max (floor i) (position i)

/-- The last position. -/
def top (h : History ι V) : ι → ℕ := fun i => (h i).length - 1

/-- The last value that the source had, whether or not it is there. -/
def lastHeld (h : History ι V) (i : ι) : Option V := (h i).reduceOption.getLast?

variable {h h' : History ι V} {floor floor' : ι → ℕ} {cached cached' : ι → Option V}
variable {value value' : ι → Option V} {changed : ι → Bool} {i : ι} {m n : ℕ} {v : V}

theorem Since.of_le (hs : Since h i n v) (hmn : m ≤ n) : Since h i m v :=
  (List.drop_sublist_drop_left (h i) hmn).subset hs

theorem prefix_note (h : History ι V) (changed : ι → Bool) (value : ι → Option V) (i : ι) :
    h i <+: note h changed value i := by
  unfold note
  split
  · exact List.prefix_append ..
  · exact List.prefix_rfl

theorem Since.extend (hs : Since h i n v) (hp : h i <+: h' i) : Since h' i n v := by
  obtain ⟨l, hl⟩ := hp
  unfold Since at hs ⊢
  rw [← hl, List.drop_append]
  exact List.mem_append_left _ hs

theorem Fresh.extend (hf : Fresh h floor cached) (hp : ∀ i, h i <+: h' i) :
    Fresh h' floor cached :=
  fun i v hv => (hf i v hv).extend (hp i)

/-- Nothing is cached that was not cached before. -/
theorem Fresh.of_subset (hf : Fresh h floor cached)
    (hsub : ∀ i v, cached' i = some v → cached i = some v) : Fresh h floor cached' :=
  fun i v hv => hf i v (hsub i v hv)

/-- A value is stored for one source. -/
theorem fresh_store_iff (hf : Fresh h floor cached) (hi : cached' i = some v)
    (hne : ∀ j, j ≠ i → cached' j = cached j) : Fresh h floor cached' ↔ Since h i (floor i) v := by
  constructor
  · exact fun hf' => hf' i v hi
  · intro hs j w hj
    by_cases hji : j = i
    · subst hji
      rw [hi] at hj
      cases hj
      exact hs
    · exact hf j w ((hne j hji).symm.trans hj)

theorem Current.note (hc : Current h value) (hsame : ∀ i, changed i = false → value' i = value i) :
    Current (note h changed value') value' := by
  intro i
  unfold Freshness.note
  cases hi : changed i with
  | true => simp
  | false =>
    rw [hsame i hi]
    exact hc i

/-- The value of now is from every position on that the history has. -/
theorem Current.since (hc : Current h value) (hv : value i = some v) (hn : n < (h i).length) :
    Since h i n v := by
  have hlast : some v ∈ ((h i).drop n).getLast? := by
    rw [List.getLast?_drop, if_neg (Nat.not_le.mpr hn), hc i, hv]
    rfl
  exact List.mem_of_getLast? hlast

theorem Current.length_pos (hc : Current h value) (i : ι) : 0 < (h i).length := by
  rw [List.length_pos_iff]
  intro hnil
  have hlast := hc i
  rw [hnil] at hlast
  cases hlast

theorem Current.top_lt (hc : Current h value) (i : ι) : top h i < (h i).length := by
  have hpos := hc.length_pos i
  unfold top
  omega

theorem lt_of_prefix (hp : h i <+: h' i) (hn : n < (h i).length) : n < (h' i).length :=
  Nat.lt_of_lt_of_le hn hp.length_le

/-! The last value of a source. -/

theorem lastHeld_note_same (hi : changed i = true → value i = none) :
    lastHeld (note h changed value) i = lastHeld h i := by
  unfold lastHeld note
  split
  · rename_i hchanged
    rw [hi hchanged, List.reduceOption_append]
    simp
  · rfl

theorem lastHeld_note (hi : changed i = true) (hv : value i = some v) :
    lastHeld (note h changed value) i = some v := by
  unfold lastHeld note
  rw [if_pos hi, hv, List.reduceOption_append]
  simp

/-- A source that had a value from a position on had its last value from there on. -/
theorem Since.lastHeld {w : V} (hs : Since h i n v) (hw : lastHeld h i = some w) :
    Since h i n w := by
  have hsplit : (h i).reduceOption =
      ((h i).take n).reduceOption ++ ((h i).drop n).reduceOption := by
    rw [← List.reduceOption_append, List.take_append_drop]
  have hne : ((h i).drop n).reduceOption ≠ [] :=
    List.ne_nil_of_mem (List.reduceOption_mem_iff.mpr hs)
  have hlast : (((h i).drop n).reduceOption).getLast? = some w := by
    unfold Freshness.lastHeld at hw
    rwa [hsplit, List.getLast?_append_of_ne_nil _ hne] at hw
  exact List.reduceOption_mem_iff.mp (List.mem_of_getLast? hlast)

end Freshness
