import Mathlib.Data.List.Basic
import Mathlib.Data.Int.Notation
import Mathlib.Logic.Equiv.List
import Mathlib.Tactic.DeriveEncodable

/-! # Serialised forms -/

namespace Serialised

/-- A serialised form whose reader inverts its writer. The reader may refuse other input. -/
structure Codec (α β : Type*) where
  encode : α → β
  decode : β → Option α
  decode_encode : ∀ a, decode (encode a) = some a

namespace Codec

variable {α β : Type*}

attribute [simp] decode_encode

theorem encode_injective (c : Codec α β) : Function.Injective c.encode := by
  intro a b h
  have hd := congrArg c.decode h
  rw [c.decode_encode, c.decode_encode] at hd
  exact Option.some.inj hd

/-- The values as their own serialised form. -/
def self : Codec α α := ⟨id, some, fun _ => rfl⟩

/-- A form of which one value does not deserialise. -/
def orNone : Codec α (Option α) := ⟨some, id, fun _ => rfl⟩

end Codec

instance encodableChar : Encodable Char := Encodable.ofLeftInverse Char.toNat Char.ofNat Char.ofNat_toNat

instance encodableString : Encodable String :=
  Encodable.ofLeftInverse String.toList String.ofList fun _ => String.ofList_toList

/-- A scalar member of a JSON object. -/
inductive Scalar
  | null
  | bool (b : Bool)
  | num (n : ℤ)
  | str (s : String)
deriving DecidableEq, Encodable

/-- A JSON object without nested values. -/
abbrev Object := List (String × Scalar)

namespace Object

/-- The member of a given name; names are unique in what a serialiser writes. -/
def field (o : Object) (name : String) : Option Scalar := (o.find? (·.1 == name)).map (·.2)

/-- `object[name] = value`. -/
def set (o : Object) (name : String) (value : Scalar) : Object :=
  if (o.field name).isSome then o.map fun m => if m.1 == name then (name, value) else m
  else o ++ [(name, value)]

def str (o : Object) (name : String) : Option String :=
  match o.field name with
  | some (.str s) => some s
  | _ => none

/-- An unsigned number; negative numbers do not deserialise. -/
def nat (o : Object) (name : String) : Option ℕ :=
  match o.field name with
  | some (.num n) => if 0 ≤ n then some n.toNat else none
  | _ => none

def bool (o : Object) (name : String) : Option Bool :=
  match o.field name with
  | some (.bool b) => some b
  | _ => none

/-- A member that may be absent or `null`; any other non-string does not deserialise. -/
def optStr (o : Object) (name : String) : Option (Option String) :=
  match o.field name with
  | none => some none
  | some .null => some none
  | some (.str s) => some (some s)
  | _ => none

/-- The members of one name replaced. -/
theorem field_replace (o : Object) (name : String) (value : Scalar) (name' : String) :
    field (o.map fun m => if m.1 == name then (name, value) else m) name' =
      if name' = name then (o.field name).map fun _ => value else o.field name' := by
  induction o with
  | nil => simp [field]
  | cons m o ih =>
    unfold field at ih ⊢
    rw [List.map_cons, List.find?_cons, List.find?_cons, List.find?_cons]
    by_cases hm : m.1 = name
    · by_cases hn : name' = name
      · simp [hm, hn]
      · have hne : ¬ name = name' := fun h => hn h.symm
        simp only [hm, beq_self_eq_true, if_true, beq_eq_false_iff_ne.mpr hne, ih, hn, if_false]
    · by_cases hn : name' = name
      · subst hn
        simp only [beq_eq_false_iff_ne.mpr hm, Bool.false_eq_true, if_false, ih, if_true]
      · rw [if_neg hn] at ih ⊢
        simp only [beq_eq_false_iff_ne.mpr hm, Bool.false_eq_true, if_false]
        cases m.1 == name' with
        | true => rfl
        | false => exact ih

theorem field_set (o : Object) (name : String) (value : Scalar) (name' : String) :
    (o.set name value).field name' = if name' = name then some value else o.field name' := by
  unfold set
  by_cases h : (o.field name).isSome
  · obtain ⟨v, hv⟩ := Option.isSome_iff_exists.mp h
    rw [if_pos h, field_replace, hv]
    rfl
  · rw [if_neg h]
    have hnone : o.find? (·.1 == name) = none :=
      Option.map_eq_none_iff.mp (Option.not_isSome_iff_eq_none.mp h)
    unfold field
    rw [List.find?_append]
    by_cases hn : name' = name
    · subst hn
      simp [hnone]
    · have hne : ¬ name = name' := fun h => hn h.symm
      simp [hn, hne]

end Object

end Serialised
