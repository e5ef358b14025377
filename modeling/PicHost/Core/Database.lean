import PicHost.Core.Models
import PicHost.Lib.Table

/-! # The tables of the migrations and their uniqueness constraints -/

namespace PicHost

open KeyedTable

/-- The columns of `images` under a uniqueness constraint. -/
structure ImageKeys where
  id : Uuid
  publicKey : String
  userId : Uuid
  sha256 : String
deriving DecidableEq

namespace ImageKeys

/-- The primary key, `public_key UNIQUE` and `idx_images_user_sha256`. -/
def Clash (j k : ImageKeys) : Prop :=
  j.id = k.id ∨ j.publicKey = k.publicKey ∨ (j.userId = k.userId ∧ j.sha256 = k.sha256)

instance : DecidableRel Clash := fun _ _ => inferInstanceAs (Decidable (_ ∨ _))

theorem Clash.symm (j k : ImageKeys) : Clash j k → Clash k j := by
  rintro (h | h | ⟨hu, hs⟩)
  · exact .inl h.symm
  · exact .inr (.inl h.symm)
  · exact .inr (.inr ⟨hu.symm, hs.symm⟩)

end ImageKeys

namespace Image

def keys (r : Image) : ImageKeys := ⟨r.id, r.publicKey, r.userId, r.sha256⟩

end Image

abbrev ImageTable := Table Image.keys ImageKeys.Clash

namespace ImageTable

variable {t : ImageTable} {r q : Image}

theorem eq_of_id (hr : r ∈ t.rows) (hq : q ∈ t.rows) (h : r.id = q.id) : r = q :=
  t.eq_of_clash ImageKeys.Clash.symm hr hq (.inl h)

theorem eq_of_publicKey (hr : r ∈ t.rows) (hq : q ∈ t.rows) (h : r.publicKey = q.publicKey) :
    r = q :=
  t.eq_of_clash ImageKeys.Clash.symm hr hq (.inr (.inl h))

theorem eq_of_sha256 (hr : r ∈ t.rows) (hq : q ∈ t.rows) (hu : r.userId = q.userId)
    (hs : r.sha256 = q.sha256) : r = q :=
  t.eq_of_clash ImageKeys.Clash.symm hr hq (.inr (.inr ⟨hu, hs⟩))

end ImageTable

/-- The columns of `user_storage_configs` under a uniqueness constraint. -/
structure ConfigKeys where
  id : Uuid
  userId : Uuid
  name : String
  isDefault : Bool
deriving DecidableEq

namespace ConfigKeys

/-- The primary key, `UNIQUE(user_id, name)` and `idx_default_per_user`. -/
def Clash (j k : ConfigKeys) : Prop :=
  j.id = k.id ∨ (j.userId = k.userId ∧ j.name = k.name) ∨
    (j.userId = k.userId ∧ j.isDefault = true ∧ k.isDefault = true)

instance : DecidableRel Clash := fun _ _ => inferInstanceAs (Decidable (_ ∨ _))

theorem Clash.symm (j k : ConfigKeys) : Clash j k → Clash k j := by
  rintro (h | ⟨hu, hn⟩ | ⟨hu, hj, hk⟩)
  · exact .inl h.symm
  · exact .inr (.inl ⟨hu.symm, hn.symm⟩)
  · exact .inr (.inr ⟨hu.symm, hk, hj⟩)

end ConfigKeys

namespace UserStorageConfig

def keys (c : UserStorageConfig) : ConfigKeys := ⟨c.id, c.userId, c.name, c.isDefault⟩

end UserStorageConfig

abbrev ConfigTable := Table UserStorageConfig.keys ConfigKeys.Clash

theorem ConfigTable.eq_of_id {t : ConfigTable} {c d : UserStorageConfig} (hc : c ∈ t.rows)
    (hd : d ∈ t.rows) (h : c.id = d.id) : c = d :=
  t.eq_of_clash ConfigKeys.Clash.symm hc hd (.inl h)

end PicHost
