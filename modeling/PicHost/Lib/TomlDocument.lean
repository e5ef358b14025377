import Mathlib.Data.List.Basic

/-!
# TOML documents

A document is a list of named sections. A table keeps how it was written, since an editor treats
inline tables differently from those with a header.
-/

namespace TomlDocument

/-- A `hidden` table has no text of its own: dotted keys or the headers below it make it. -/
inductive Kind
  | header
  | hidden
  | inline
deriving DecidableEq

inductive Item
  | string (s : String)
  /-- A number, a boolean or a date. -/
  | scalar (text : String)
  | array (items : List Item)
  | tables (items : List (List (String × Item)))
  | table (kind : Kind) (entries : List (String × Item))

abbrev Doc := List (String × Item)

section Entries

variable {α : Type*}

/-- The entry of `key` set in place, or added at the end. -/
def put (key : String) (a : α) : List (String × α) → List (String × α)
  | [] => [(key, a)]
  | (k, b) :: rest => if k = key then (k, a) :: rest else (k, b) :: put key a rest

def erase (key : String) : List (String × α) → List (String × α)
  | [] => []
  | (k, b) :: rest => if k = key then erase key rest else (k, b) :: erase key rest

theorem lookup_cons (key k : String) (b : α) (rest : List (String × α)) :
    ((k, b) :: rest).lookup key = if k = key then some b else rest.lookup key := by
  by_cases h : k = key
  · rw [if_pos h, h, List.lookup_cons_self]
  · rw [if_neg h, List.lookup_cons, beq_false_of_ne (Ne.symm h)]

theorem lookup_put (key k : String) (a : α) (entries : List (String × α)) :
    (put key a entries).lookup k = if key = k then some a else entries.lookup k := by
  induction entries with
  | nil => exact lookup_cons k key a []
  | cons e rest ih =>
    obtain ⟨k', b⟩ := e
    by_cases hk : k' = key
    · rw [put, if_pos hk, lookup_cons, lookup_cons, hk]
      split <;> rfl
    · rw [put, if_neg hk, lookup_cons, lookup_cons, ih]
      split
      · rename_i heq
        rw [if_neg fun h => hk (heq.trans h.symm)]
      · rfl

theorem lookup_put_self (key : String) (a : α) (entries : List (String × α)) :
    (put key a entries).lookup key = some a := by
  rw [lookup_put, if_pos rfl]

theorem lookup_put_ne {key k : String} (h : key ≠ k) (a : α) (entries : List (String × α)) :
    (put key a entries).lookup k = entries.lookup k := by
  rw [lookup_put, if_neg h]

theorem lookup_erase (key k : String) (entries : List (String × α)) :
    (erase key entries).lookup k = if key = k then none else entries.lookup k := by
  induction entries with
  | nil =>
    split <;> rfl
  | cons e rest ih =>
    obtain ⟨k', b⟩ := e
    by_cases hk : k' = key
    · rw [erase, if_pos hk, ih, lookup_cons, hk]
      split <;> rfl
    · rw [erase, if_neg hk, lookup_cons, lookup_cons, ih]
      split
      · rename_i heq
        rw [if_neg fun h => hk (heq.trans h.symm)]
      · rfl

/-- Setting a key leaves the other names in their order. -/
theorem filter_names_put (p : String → Bool) {key : String} (hp : p key = false) (a : α)
    (entries : List (String × α)) :
    ((put key a entries).map Prod.fst).filter p = (entries.map Prod.fst).filter p := by
  induction entries with
  | nil => exact List.filter_cons_of_neg (by simp [hp])
  | cons e rest ih =>
    obtain ⟨k, b⟩ := e
    rw [put]
    split
    · rfl
    · rw [List.map_cons, List.map_cons, List.filter_cons, List.filter_cons, ih]

end Entries

namespace Item

/-- The item of a key, of a table written in any way. -/
def get (key : String) : Item → Option Item
  | .table _ entries => entries.lookup key
  | _ => none

def asStr : Item → Option String
  | .string s => some s
  | _ => none

def isTable : Item → Bool
  | .table _ _ => true
  | _ => false

/-- The item without the way its table is written. -/
def content : Item → Item
  | .table _ entries => .table .header entries
  | item => item

/-- `item[key] = value`: only a table has keys. -/
def set (item : Item) (key : String) (value : Item) : Option Item :=
  match item with
  | .table kind entries => some (.table kind (put key value entries))
  | _ => none

/-- Removal of a key from a table that is not written inline. -/
def remove (key : String) : Item → Item
  | .table .inline entries => .table .inline entries
  | .table kind entries => .table kind (erase key entries)
  | item => item

theorem isTable_remove (key : String) (item : Item) :
    (item.remove key).isTable = item.isTable := by
  rcases item with _ | _ | _ | _ | ⟨_ | _ | _, _⟩ <;> rfl

theorem remove_eq_inline_iff (key : String) (item : Item) (entries : List (String × Item)) :
    item.remove key = .table .inline entries ↔ item = .table .inline entries := by
  rcases item with _ | _ | _ | _ | ⟨_ | _ | _, _⟩ <;> simp [remove]

theorem remove_of_not_table {item : Item} (h : item.isTable = false) (key : String) :
    item.remove key = item := by
  cases item with
  | table => cases h
  | _ => rfl

end Item

namespace Doc

variable (doc : Doc)

def value (name key : String) : Option Item := (doc.lookup name).bind (Item.get key)

/-- `doc[name][key] = value`, for which a missing section becomes an inline table. -/
def setValue (name key : String) (value : Item) : Option Doc :=
  match doc.lookup name with
  | none => some (put name (.table .inline [(key, value)]) doc)
  | some item => (item.set key value).map fun item' => put name item' doc

def removeValue (name key : String) : Doc :=
  match doc.lookup name with
  | none => doc
  | some item => put name (item.remove key) doc

variable {doc} {name key : String}

theorem value_eq_of_lookup {doc' : Doc} {n : String} (h : doc'.lookup n = doc.lookup n)
    (k : String) : doc'.value n k = doc.value n k := by
  rw [value, value, h]

theorem lookup_setValue {v : Item} {doc' : Doc} (h : doc.setValue name key v = some doc') :
    ∃ kind entries, doc'.lookup name = some (.table kind (put key v entries)) ∧
      (∀ k, doc.value name k = entries.lookup k) ∧
      (doc.lookup name = some (.table kind entries) ∨
        doc.lookup name = none ∧ kind = .inline ∧ entries = []) := by
  unfold setValue at h
  split at h
  · rename_i hnone
    rw [← Option.some.inj h]
    refine ⟨.inline, [], lookup_put_self .., fun k => ?_, .inr ⟨hnone, rfl, rfl⟩⟩
    rw [value, hnone]
    rfl
  · rename_i item hitem
    obtain ⟨item', hset, rfl⟩ := Option.map_eq_some_iff.mp h
    cases item with
    | table kind entries =>
      rw [← Option.some.inj hset]
      refine ⟨kind, entries, lookup_put_self .., fun k => ?_, .inl hitem⟩
      rw [value, hitem]
      rfl
    | _ => cases hset

theorem lookup_setValue_ne {v : Item} {doc' : Doc} (h : doc.setValue name key v = some doc')
    {n : String} (hn : name ≠ n) : doc'.lookup n = doc.lookup n := by
  unfold setValue at h
  split at h
  · rw [← Option.some.inj h]
    exact lookup_put_ne hn ..
  · obtain ⟨item', -, rfl⟩ := Option.map_eq_some_iff.mp h
    exact lookup_put_ne hn ..

/-- A key can be set in a missing section and in a table. -/
theorem setValue_isSome_iff {v : Item} :
    (doc.setValue name key v).isSome ↔ ∀ item ∈ doc.lookup name, item.isTable := by
  unfold setValue
  split
  · rename_i hnone
    rw [hnone]
    simp
  · rename_i item hitem
    rw [hitem]
    cases item <;> simp [Item.set, Item.isTable]

theorem value_setValue {v : Item} {doc' : Doc} (h : doc.setValue name key v = some doc')
    (n k : String) :
    doc'.value n k = if name = n ∧ key = k then some v else doc.value n k := by
  by_cases hn : name = n
  · subst hn
    obtain ⟨kind, entries, hlookup, hvalue, -⟩ := lookup_setValue h
    rw [value, hlookup, hvalue, Option.bind_some, Item.get, lookup_put]
    simp only [true_and]
  · rw [value_eq_of_lookup (lookup_setValue_ne h hn), if_neg fun hboth => hn hboth.1]

theorem lookup_removeValue_ne {n : String} (hn : name ≠ n) :
    (doc.removeValue name key).lookup n = doc.lookup n := by
  unfold removeValue
  split
  · rfl
  · exact lookup_put_ne hn ..

theorem lookup_removeValue_self :
    (doc.removeValue name key).lookup name = (doc.lookup name).map (Item.remove key) := by
  unfold removeValue
  split
  · rename_i hnone
    rw [hnone]
    rfl
  · rename_i item hitem
    rw [lookup_put_self, hitem]
    rfl

theorem get_remove_ne {k : String} (hk : key ≠ k) (item : Item) :
    (item.remove key).get k = item.get k := by
  cases item with
  | table kind entries =>
    cases kind with
    | inline => rfl
    | _ => exact (lookup_erase key k entries).trans (if_neg hk)
  | _ => rfl

theorem value_removeValue_ne {n k : String} (h : ¬ (name = n ∧ key = k)) :
    (doc.removeValue name key).value n k = doc.value n k := by
  by_cases hn : name = n
  · subst hn
    rw [value, value, lookup_removeValue_self]
    cases doc.lookup name with
    | none => rfl
    | some item => exact get_remove_ne (fun hk => h ⟨rfl, hk⟩) item
  · exact value_eq_of_lookup (lookup_removeValue_ne hn) k

theorem value_removeValue_inline {entries : List (String × Item)}
    (h : doc.lookup name = some (.table .inline entries)) (k : String) :
    (doc.removeValue name key).value name k = doc.value name k := by
  rw [value, value, lookup_removeValue_self, h]
  rfl

theorem value_removeValue_self
    (h : ∀ entries, doc.lookup name ≠ some (.table .inline entries)) :
    (doc.removeValue name key).value name key = none := by
  rw [value, lookup_removeValue_self]
  cases hitem : doc.lookup name with
  | none => rfl
  | some item =>
    cases item with
    | table kind entries =>
      cases kind with
      | inline => exact absurd hitem (h entries)
      | _ => exact (lookup_erase key key entries).trans (if_pos rfl)
    | _ => rfl

end Doc

/-- What parsing a printed document gives for one of its items. A hidden table may have got a
header, and without entries it leaves no text. -/
inductive Reprinted : Option Item → Option Item → Prop
  | same (item : Option Item) : Reprinted item item
  | header (entries : List (String × Item)) :
      Reprinted (some (.table .hidden entries)) (some (.table .header entries))
  | gone : Reprinted (some (.table .hidden [])) none

namespace Reprinted

variable {item item' : Option Item}

theorem get (h : Reprinted item item') (key : String) :
    item'.bind (Item.get key) = item.bind (Item.get key) := by
  cases h <;> rfl

theorem content (h : Reprinted item item') (hitem : item ≠ some (.table .hidden [])) :
    item'.map Item.content = item.map Item.content := by
  cases h with
  | same => rfl
  | header => rfl
  | gone => exact absurd rfl hitem

end Reprinted

end TomlDocument
