import Mathlib.Logic.Basic

/-!
# Settings in layers

A tree of settings keyed by strings. A layer put over another replaces its leaves and merges with
its dictionaries.
-/

inductive Layer (α : Type)
  | absent
  | leaf (a : α)
  | dict (entries : String → Layer α)

namespace Layer

variable {α : Type}

def get (key : String) : Layer α → Layer α
  | .dict entries => entries key
  | _ => .absent

def overlay : Layer α → Layer α → Layer α
  | base, .absent => base
  | .dict f, .dict g => .dict fun key => overlay (f key) (g key)
  | _, upper => upper

def empty : Layer α := .dict fun _ => .absent

/-- The dictionary with the given entries. -/
def ofList (entries : List (String × Layer α)) : Layer α :=
  .dict fun key => (entries.lookup key).getD .absent

/-- Dictionaries and what is absent: layers that no leaf of theirs hides. -/
def Open : Layer α → Prop
  | .leaf _ => False
  | _ => True

theorem overlay_absent (layer : Layer α) : overlay layer .absent = layer := by
  cases layer <;> rfl

theorem absent_overlay (layer : Layer α) : overlay .absent layer = layer := by
  cases layer <;> rfl

theorem get_overlay {upper : Layer α} (h : upper.Open) (base : Layer α) (key : String) :
    (overlay base upper).get key = overlay (base.get key) (upper.get key) := by
  cases upper with
  | absent =>
    change (overlay base .absent).get key = overlay (base.get key) .absent
    rw [overlay_absent, overlay_absent]
  | leaf a => exact h.elim
  | dict g =>
    cases base with
    | dict f => rfl
    | _ => exact (absent_overlay _).symm

theorem get_overlay_leaf (base : Layer α) (a : α) (key : String) :
    (overlay base (.leaf a)).get key = .absent := by
  cases base <;> rfl

/-- A layer that says nothing about a key between two others. -/
theorem get_overlay_overlay {middle : Layer α} (hopen : middle.Open) {key : String}
    (hsilent : middle.get key = .absent) (base upper : Layer α) :
    (overlay (overlay base middle) upper).get key = (overlay base upper).get key := by
  cases upper with
  | absent => rw [overlay_absent, overlay_absent, get_overlay hopen, hsilent, overlay_absent]
  | leaf a => rw [get_overlay_leaf, get_overlay_leaf]
  | dict g =>
    have hdict : (dict g).Open := trivial
    rw [get_overlay hdict, get_overlay hdict, get_overlay hopen, hsilent, overlay_absent]

end Layer
