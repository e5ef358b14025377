import Mathlib.Algebra.Group.Int.Defs
import Mathlib.Data.List.Basic

/-!
# Values and the columns they are bound to

The types of PostgreSQL columns and what they take. The length of a text is counted in
characters, and no text holds NUL.
-/

namespace ColumnTypes

inductive ColumnType
  | uuid
  | varchar (limit : ℕ)
  | integer
  | bigint
deriving DecidableEq

inductive Value
  | null
  | uuid
  | text (s : String)
  | int (n : ℤ)

def NulFree (s : String) : Prop := Char.ofNat 0 ∉ s.toList

instance : DecidablePred NulFree := fun _ => inferInstanceAs (Decidable (_ ∉ _))

/-- The text goes into `VARCHAR(limit)`. -/
def Fits (limit : ℕ) (s : String) : Prop := s.length ≤ limit ∧ NulFree s

instance (limit : ℕ) : DecidablePred (Fits limit) := fun _ =>
  inferInstanceAs (Decidable (_ ∧ _))

/-- The number is one of `bits` bits in two's complement. -/
def InRange (bits : ℕ) (n : ℤ) : Prop := -2 ^ (bits - 1) ≤ n ∧ n < 2 ^ (bits - 1)

def ColumnType.Accepts : ColumnType → Value → Prop
  | .uuid, .uuid => True
  | .varchar limit, .text s => Fits limit s
  | .integer, .int n => InRange 32 n
  | .bigint, .int n => InRange 64 n
  | _, _ => False

structure Column where
  name : String
  type : ColumnType
  nullable : Bool
deriving DecidableEq

def Column.Accepts (c : Column) : Value → Prop
  | .null => c.nullable = true
  | v => c.type.Accepts v

abbrev Schema := List Column

namespace Schema

def column (schema : Schema) (name : String) : Option Column := schema.find? fun c => c.name == name

/-- Every value goes into the column it is bound to. -/
def Accepts (schema : Schema) (values : List (String × Value)) : Prop :=
  ∀ v ∈ values, ∃ c, schema.column v.1 = some c ∧ c.Accepts v.2

theorem accepts_nil (schema : Schema) : schema.Accepts [] := fun _ hv => (List.not_mem_nil hv).elim

theorem accepts_cons {schema : Schema} {name : String} {c : Column}
    (h : schema.column name = some c) (v : Value) (values : List (String × Value)) :
    schema.Accepts ((name, v) :: values) ↔ c.Accepts v ∧ schema.Accepts values := by
  simp only [Accepts, List.forall_mem_cons, h, Option.some.injEq, exists_eq_left']

end Schema

theorem nulFree_append {s t : String} : NulFree (s ++ t) ↔ NulFree s ∧ NulFree t := by
  simp only [NulFree, String.toList_append, List.mem_append, not_or]

end ColumnTypes
