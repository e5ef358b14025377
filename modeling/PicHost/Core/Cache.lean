import PicHost.Core.Models
import Mathlib.Logic.Function.Basic

/-!
# The key-value cache

Redis, or the no-op of lite mode. `up` says whether the call reaches Redis; an entry may
expire at any time.
-/

namespace PicHost

inductive CacheError
  | other
deriving DecidableEq

structure Cache (J : Type) where
  noop : Bool
  entries : String → Option J

namespace Cache

variable {J : Type}

def get (c : Cache J) (up : Bool) (key : String) : Except CacheError (Option J) :=
  if c.noop then .ok none else if up then .ok (c.entries key) else .error .other

def setEx (c : Cache J) (up : Bool) (key : String) (val : J) : Except CacheError Unit × Cache J :=
  if c.noop then (.ok (), c)
  else if up then (.ok (), { c with entries := Function.update c.entries key (some val) })
  else (.error .other, c)

def del (c : Cache J) (up : Bool) (key : String) : Except CacheError Unit × Cache J :=
  -- every handler drops this result: a `DEL` that fails leaves the entry to its lifetime
  if c.noop then (.ok (), c)
  else if up then (.ok (), { c with entries := Function.update c.entries key none })
  else (.error .other, c)

/-- An entry reaches the end of its lifetime. -/
def expire (c : Cache J) (key : String) : Cache J :=
  { c with entries := Function.update c.entries key none }

/-- `pichost:meta:{image_id}`. -/
def metaKey (imageId : Uuid) : String := "pichost:meta:" ++ imageId.toText

theorem metaKey_injective : Function.Injective metaKey := by
  intro u v h
  have hl := congrArg String.toList h
  simp only [metaKey, String.toList_append, List.append_cancel_left_eq, String.toList_inj] at hl
  exact Uuid.toText_injective hl

@[simp] theorem noop_setEx (c : Cache J) (up : Bool) (key : String) (val : J) :
    (c.setEx up key val).2.noop = c.noop := by
  unfold setEx
  split
  · rfl
  · split <;> rfl

@[simp] theorem noop_del (c : Cache J) (up : Bool) (key : String) :
    (c.del up key).2.noop = c.noop := by
  unfold del
  split
  · rfl
  · split <;> rfl

theorem entries_setEx (c : Cache J) (up : Bool) (key : String) (val : J) (k : String) :
    (c.setEx up key val).2.entries k =
      if c.noop = false ∧ up = true ∧ k = key then some val else c.entries k := by
  unfold setEx
  cases c.noop with
  | true => simp
  | false => cases up <;> simp [Function.update_apply]

theorem entries_del (c : Cache J) (up : Bool) (key k : String) :
    (c.del up key).2.entries k =
      if c.noop = false ∧ up = true ∧ k = key then none else c.entries k := by
  unfold del
  cases c.noop with
  | true => simp
  | false => cases up <;> simp [Function.update_apply]

theorem entries_expire (c : Cache J) (key k : String) :
    (c.expire key).entries k = if k = key then none else c.entries k := by
  simp [expire, Function.update_apply]

end Cache

end PicHost
