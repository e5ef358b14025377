import PicHost.Api.BatchDelete

/-!
# Deleting images, one call at a time

`delete_image` and `batch_delete` from one call to the next: the rows are selected, each of
their files is deleted, then the rows, then the cached descriptions.
-/

namespace PicHost.Deletion

open KeyedTable BatchDelete

inductive Request
  | deleteImage (user : AuthUser) (id : Uuid)
  | batchDelete (user : AuthUser) (ids : List Uuid)
deriving DecidableEq

inductive Reply
  | deleted (id : Uuid)
  | batch (reply : BatchDeleteReply)
deriving DecidableEq

/-- The call that comes next, or the answer; `clean` has the files of one row left and the rows
after it. -/
inductive Stage
  | start
  | clean (storage : Backend) (keys : List String) (rest : List DeleteTarget)
  | remove
  | evict (ids : List Uuid) (reply : Reply)
  | done (answer : Except ApiError Reply)
deriving DecidableEq

/-- What the outside contributes to one step. -/
structure Input where
  dbUp : Bool
  storageFault : Option String
  cacheUp : Bool
deriving DecidableEq

def notFound : ApiError := { status := 404, key := "image.not_found" }

def internalError : ApiError := { status := 500, key := "common.internal_error" }

/-- `id = $1 AND (user_id = $2 OR $3)`. -/
def fetchDeleteTarget (up : Bool) (id : Uuid) (user : AuthUser) (images : ImageTable) :
    Except ApiError DeleteTarget :=
  if up then
    match (images.select fun r => r.id == id && (r.userId == user.id || user.isAdmin)).head? with
    | some r => .ok (.ofImage r)
    | none => .error notFound
  else .error internalError

/-- The files `cleanup_storage_files` deletes, in its order. -/
def keysOf (t : DeleteTarget) : List String :=
  t.storageKey :: (t.thumbnailKey.toList ++ t.webpKey.toList)

namespace Request

/-- What the first statement selects. -/
def targets (up : Bool) (images : ImageTable) : Request → Except ApiError (List DeleteTarget)
  | .deleteImage user id => (fetchDeleteTarget up id user images).map fun t => [t]
  | .batchDelete user ids =>
    match validateBatchIds ids with
    | .error e => .error e
    | .ok () => fetchBatchDeleteTargets up ids user images

/-- The rows that the `DELETE` is about. -/
def deletes : Request → Image → Bool
  -- by the identifier alone: whose row it is was checked when the targets were selected
  | .deleteImage _ id, r => r.id == id
  | .batchDelete _ ids, r => deleteWhere ids r

def ids : Request → List Uuid
  | .deleteImage _ id => [id]
  | .batchDelete _ ids => ids

def reply (deleted : ℕ) : Request → Reply
  | .deleteImage _ id => .deleted id
  | .batchDelete _ ids => .batch { deleted, failed := ids.length - deleted }

def removeFailed : Request → ApiError
  | .deleteImage _ _ => { status := 500, key := "image.delete_failed" }
  | .batchDelete _ _ => { status := 500, key := "image.batch_delete_failed" }

end Request

/-- The files of the next row, or the `DELETE`. -/
def nextTarget (router : StorageRouter) : List DeleteTarget → Stage
  | [] => .remove
  | t :: rest => .clean (router.forBackend t.storageBackend) (keysOf t) rest

def nextEvict (ids : List Uuid) (reply : Reply) : Stage :=
  if ids = [] then .done (.ok reply) else .evict ids reply

variable {J : Type}

/-- One call. The results of deleting files and cached descriptions are dropped. -/
def advance (router : StorageRouter) (inp : Input) (request : Request) (stage : Stage)
    (s : ImageStore J) : Stage × ImageStore J :=
  match stage with
  | .start =>
    match request.targets inp.dbUp s.images with
    | .error e => (.done (.error e), s)
    | .ok targets => (nextTarget router targets, s)
  | .clean _ [] rest => (nextTarget router rest, s)
  -- `storage` was resolved when the row's turn came, and stays the same for all its files
  | .clean storage (key :: keys) rest =>
    (if keys = [] then nextTarget router rest else .clean storage keys rest,
      { s with objects := (storage.delete inp.storageFault key s.objects).2 })
  | .remove =>
    if inp.dbUp then
      (nextEvict request.ids (request.reply (s.images.select request.deletes).length),
        { s with images := s.images.delete request.deletes })
    else (.done (.error request.removeFailed), s)
  | .evict [] reply => (.done (.ok reply), s)
  | .evict (id :: rest) reply =>
    (nextEvict rest reply, { s with cache := (s.cache.del inp.cacheUp (Cache.metaKey id)).2 })
  | .done answer => (.done answer, s)

/-- What one call does to the stores. -/
inductive Effect (router : StorageRouter) (inp : Input) (request : Request) (s : ImageStore J) :
    Stage → Stage × ImageStore J → Prop
  | select {targets} (h : request.targets inp.dbUp s.images = .ok targets) :
    Effect router inp request s .start (nextTarget router targets, s)
  | refuse {e} : Effect router inp request s .start (.done (.error e), s)
  | skip {storage rest} :
    Effect router inp request s (.clean storage [] rest) (nextTarget router rest, s)
  | clean {storage key keys rest} :
    Effect router inp request s (.clean storage (key :: keys) rest)
      (if keys = [] then nextTarget router rest else .clean storage keys rest,
        { s with objects := (storage.delete inp.storageFault key s.objects).2 })
  | remove (h : inp.dbUp = true) :
    Effect router inp request s .remove
      (nextEvict request.ids (request.reply (s.images.select request.deletes).length),
        { s with images := s.images.delete request.deletes })
  | fail (h : inp.dbUp = false) :
    Effect router inp request s .remove (.done (.error request.removeFailed), s)
  | evict {id rest reply} :
    Effect router inp request s (.evict (id :: rest) reply)
      (nextEvict rest reply, { s with cache := (s.cache.del inp.cacheUp (Cache.metaKey id)).2 })
  | finish {reply} : Effect router inp request s (.evict [] reply) (.done (.ok reply), s)
  | idle {answer} : Effect router inp request s (.done answer) (.done answer, s)

theorem effect (router : StorageRouter) (inp : Input) (request : Request) (stage : Stage)
    (s : ImageStore J) :
    Effect router inp request s stage (advance router inp request stage s) := by
  cases stage with
  | start =>
    unfold advance
    dsimp only
    cases htargets : request.targets inp.dbUp s.images with
    | error e => exact .refuse
    | ok targets => exact .select htargets
  | clean storage keys rest =>
    cases keys with
    | nil => exact .skip
    | cons key keys => exact .clean
  | remove =>
    unfold advance
    dsimp only
    split
    · rename_i hdb
      exact .remove hdb
    · rename_i hdb
      exact .fail (Bool.eq_false_of_not_eq_true hdb)
  | evict ids reply =>
    cases ids with
    | nil => exact .finish
    | cons id rest => exact .evict
  | done answer => exact .idle

/-- `DELETE` covers the identifiers of the request. -/
theorem deletes_iff {request : Request} {r : Image} :
    request.deletes r = true ↔ r.id ∈ request.ids := by
  cases request with
  | deleteImage user id => simp [Request.deletes, Request.ids]
  | batchDelete user ids => exact deleteWhere_iff

/-- The rows that are selected are rows the `DELETE` is about. -/
theorem mem_targets {request : Request} {up : Bool} {images : ImageTable}
    {targets : List DeleteTarget} (h : request.targets up images = .ok targets)
    {t : DeleteTarget} (ht : t ∈ targets) :
    ∃ r ∈ images.rows, request.deletes r = true ∧ t = .ofImage r := by
  cases request with
  | deleteImage user id =>
    simp only [Request.targets, fetchDeleteTarget] at h
    split at h
    · split at h
      · rename_i r hhead
        cases h
        obtain ⟨hr, hwhere⟩ := Table.mem_of_select_head? hhead
        rw [Bool.and_eq_true, beq_iff_eq] at hwhere
        exact ⟨r, hr, beq_iff_eq.mpr hwhere.1, List.mem_singleton.mp ht⟩
      · cases h
    · cases h
  | batchDelete user ids =>
    simp only [Request.targets, fetchBatchDeleteTargets] at h
    split at h
    · cases h
    · split at h
      · cases h
        obtain ⟨r, hr, rfl⟩ := List.mem_map.mp ht
        obtain ⟨hmem, hid, -⟩ := mem_targetRows.mp hr
        exact ⟨r, hmem, deleteWhere_iff.mpr hid, rfl⟩
      · cases h

/-- A deletion adds no rows. -/
theorem mem_of_advance {router : StorageRouter} {inp : Input} {request : Request} {stage : Stage}
    {s : ImageStore J} {r : Image}
    (h : r ∈ (advance router inp request stage s).2.images.rows) : r ∈ s.images.rows := by
  have heffect := effect router inp request stage s
  generalize advance router inp request stage s = next at heffect h
  cases heffect with
  | remove => exact (Table.mem_delete.mp h).1
  | _ => exact h

/-- Nor does it cache anything. -/
theorem cached_of_advance (router : StorageRouter) (inp : Input) (request : Request)
    (stage : Stage) (s : ImageStore J) :
    let cache := (advance router inp request stage s).2.cache
    cache.noop = s.cache.noop ∧
      ∀ key v, cache.entries key = some v → s.cache.entries key = some v := by
  have heffect := effect router inp request stage s
  generalize advance router inp request stage s = next at heffect
  cases heffect with
  | evict =>
    refine ⟨Cache.noop_del .., fun key v h => ?_⟩
    dsimp only at h
    rw [Cache.entries_del] at h
    split at h
    · cases h
    · exact h
  | _ => exact ⟨rfl, fun _ _ h => h⟩

end PicHost.Deletion
