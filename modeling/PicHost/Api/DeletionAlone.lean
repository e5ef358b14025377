import PicHost.Api.Deletion
import PicHost.Api.MetaCache

/-!
# A deletion on its own

`batch_delete` is modelled as a whole, in steps that take all files at once, and call by call, and
`delete_image` in the last two ways. Without calls of others in between they do the same.
-/

namespace PicHost

open BatchDelete (DeleteTarget Faults cleanupStorageFiles)
open LabelledRun (Leads)

variable {J : Type}

namespace Deletion

variable (faults : Faults) (router : StorageRouter) (request : Request)

/-- What the outside contributes to a call where these calls fail. -/
def inputOf : Stage → Input
  | .start => ⟨faults.selectUp, none, true⟩
  | .clean storage (key :: _) _ => ⟨true, faults.storage (storage.locate key), true⟩
  | .remove => ⟨faults.deleteUp, none, true⟩
  | .evict (id :: _) _ => ⟨true, none, faults.cacheUp id⟩
  | _ => ⟨true, none, true⟩

def next (w : Stage × ImageStore J) : Stage × ImageStore J :=
  advance router (inputOf faults w.1) request w.1 w.2

/-- The request as a whole. -/
def whole (s : ImageStore J) : Except ApiError Reply × ImageStore J :=
  match request.targets faults.selectUp s.images with
  | .error e => (.error e, s)
  | .ok targets =>
    let objects := targets.foldl
      (fun objs t => cleanupStorageFiles faults.storage router t objs) s.objects
    if faults.deleteUp then
      (.ok (request.reply (s.images.select request.deletes).length),
        { images := s.images.delete request.deletes
          objects
          cache := request.ids.foldl
            (fun c id => (c.del (faults.cacheUp id) (Cache.metaKey id)).2) s.cache })
    else (.error request.removeFailed, { s with objects })

variable {faults router request}

/-- The files of a row, in the order in which they are deleted. -/
theorem cleanupStorageFiles_eq (t : DeleteTarget) (objs : Objects) :
    cleanupStorageFiles faults.storage router t objs = (keysOf t).foldl
      (fun objs key => ((router.forBackend t.storageBackend).delete
        (faults.storage ((router.forBackend t.storageBackend).locate key)) key objs).2) objs := by
  unfold cleanupStorageFiles keysOf
  cases t.thumbnailKey <;> cases t.webpKey <;> rfl

theorem leads_clean (storage : Backend) (keys : List String) (rest : List DeleteTarget)
    (s : ImageStore J) :
    Leads (next faults router request) (.clean storage keys rest, s) (nextTarget router rest,
      { s with
        objects := keys.foldl (fun objs key =>
          (storage.delete (faults.storage (storage.locate key)) key objs).2) s.objects }) := by
  induction keys generalizing s with
  | nil => exact .of_step (.refl _)
  | cons key keys ih =>
    refine .of_step ?_
    simp only [next, inputOf, advance, List.foldl_cons]
    split
    · rename_i hkeys
      rw [hkeys]
      exact .refl _
    · exact ih _

/-- The files of all rows, one row after the other. -/
theorem leads_remove (targets : List DeleteTarget) (s : ImageStore J) :
    Leads (next faults router request) (nextTarget router targets, s) (.remove,
      { s with
        objects := targets.foldl
          (fun objs t => cleanupStorageFiles faults.storage router t objs) s.objects }) := by
  induction targets generalizing s with
  | nil => exact .refl _
  | cons t targets ih =>
    refine (leads_clean _ _ targets s).trans ?_
    rw [List.foldl_cons, cleanupStorageFiles_eq]
    exact ih _

theorem leads_done (ids : List Uuid) (reply : Reply) (s : ImageStore J) :
    Leads (next faults router request) (nextEvict ids reply, s) (.done (.ok reply),
      { s with
        cache := ids.foldl
          (fun c id => (c.del (faults.cacheUp id) (Cache.metaKey id)).2) s.cache }) := by
  induction ids generalizing s with
  | nil => exact .refl _
  | cons id ids ih => exact .of_step (ih _)

variable (faults router request) in
/-- The calls do what the request does as a whole. -/
theorem leads_whole (s : ImageStore J) : Leads (next faults router request) (.start, s)
    (.done (whole faults router request s).1, (whole faults router request s).2) := by
  refine .of_step ?_
  cases htargets : request.targets faults.selectUp s.images with
  | error e =>
    simp only [next, inputOf, advance, whole, htargets]
    exact .refl _
  | ok targets =>
    simp only [next, inputOf, advance, whole, htargets]
    refine (leads_remove targets s).trans (.of_step ?_)
    by_cases hup : faults.deleteUp = true
    · rw [if_pos hup, show next faults router request (.remove, _) = _ from if_pos hup]
      exact leads_done _ _ _
    · rw [if_neg hup, show next faults router request (.remove, _) = _ from if_neg hup]
      exact .refl _

theorem whole_batchDelete (user : AuthUser) (ids : List Uuid) (s : ImageStore J) :
    whole faults router (.batchDelete user ids) s =
      ((BatchDelete.batchDelete faults router user ids s).1.map .batch,
        (BatchDelete.batchDelete faults router user ids s).2) := by
  simp only [whole, BatchDelete.batchDelete, Request.targets]
  cases BatchDelete.validateBatchIds ids with
  | error e => rfl
  | ok =>
    cases BatchDelete.fetchBatchDeleteTargets faults.selectUp ids user s.images with
    | error e => rfl
    | ok targets =>
      by_cases hup : faults.deleteUp = true
      · simp only [if_pos hup]
        rfl
      · simp only [if_neg hup]
        rfl

/-- The calls of `batch_delete` do what the handler does as a whole. -/
theorem batchDelete_alone (user : AuthUser) (ids : List Uuid) (s : ImageStore J) :
    Leads (next faults router (.batchDelete user ids)) (.start, s)
      (.done ((BatchDelete.batchDelete faults router user ids s).1.map .batch),
        (BatchDelete.batchDelete faults router user ids s).2) := by
  have h := leads_whole faults router (.batchDelete user ids) s
  rwa [whole_batchDelete] at h

end Deletion

namespace ImageCache

variable (faults : Faults) (router : StorageRouter) (user : AuthUser) (id : Uuid)

/-- What the outside contributes to a call of `delete_image` where these calls fail. -/
def envOf : Stage → Env
  | .start => ⟨if faults.selectUp then none else some "", true, true, true, faults.storage⟩
  | .remove => ⟨if faults.deleteUp then none else some "", true, true, true, faults.storage⟩
  | _ => ⟨none, true, true, faults.cacheUp id, faults.storage⟩

def deleteNext (w : Stage × State J) : Stage × State J :=
  deleteImage router (envOf faults id w.1) user id w.1 w.2

def State.store (s : State J) : ImageStore J := ⟨s.images, s.objects, s.cache⟩

def State.withStore (s : State J) (t : ImageStore J) : State J :=
  { s with images := t.images, objects := t.objects, cache := t.cache }

variable {faults router user id} {s : State J}

/-- Both start with the same statement. -/
theorem targets_deleteImage : (Deletion.Request.deleteImage user id).targets true s.images =
    match deleteTarget id user s with
    | some target => .ok [target]
    | none => .error notFound := by
  simp only [Deletion.Request.targets, Deletion.fetchDeleteTarget, deleteTarget, if_true]
  cases (s.images.select fun r => r.id == id && (r.userId == user.id || user.isAdmin)).head? <;> rfl

/-- The steps that delete all files at once do what the single calls do. -/
theorem deleteImage_alone (s : State J) :
    let whole := Deletion.whole faults router (.deleteImage user id) s.store
    Leads (deleteNext faults router user id) (.start, s)
      (.done (whole.1.map fun _ => .deleted "image deleted" id), s.withStore whole.2) := by
  intro whole
  refine .of_step ?_
  cases hselect : faults.selectUp with
  | false =>
    simp only [whole, Deletion.whole, Deletion.Request.targets, Deletion.fetchDeleteTarget,
      deleteNext, deleteImage, envOf, hselect]
    exact .refl _
  | true =>
    have htargets := @targets_deleteImage _ user id s
    cases htarget : deleteTarget id user s with
    | none =>
      rw [htarget] at htargets
      simp only [whole, Deletion.whole, State.store, hselect, htargets, deleteNext, deleteImage,
        envOf, if_true, htarget]
      exact .refl _
    | some target =>
      rw [htarget] at htargets
      simp only [whole, Deletion.whole, State.store, hselect, htargets, deleteNext, deleteImage,
        envOf, if_true, htarget]
      refine .of_step ?_
      cases hdelete : faults.deleteUp with
      | true =>
        simp only [deleteNext, deleteImage, envOf, hdelete, if_true]
        exact .of_step (.refl _)
      | false =>
        simp only [deleteNext, deleteImage, envOf, hdelete]
        exact .refl _

end ImageCache

namespace MetaCache

variable {Img : Type} (faults : Faults) (router : StorageRouter) (user : AuthUser)
  (ids : List Uuid)

def envOf : Stage Img → ImageCache.Env
  | .start => ⟨if faults.selectUp then none else some "", true, true, true, faults.storage⟩
  | .remove => ⟨if faults.deleteUp then none else some "", true, true, true, faults.storage⟩
  | .evict (id :: _) _ => ⟨none, true, true, faults.cacheUp id, faults.storage⟩
  | _ => ⟨none, true, true, true, faults.storage⟩

def deleteNext (worker : Worker.Input) (w : Stage Img × Stores J) : Stage Img × Stores J :=
  batchDelete router ⟨envOf faults w.1, worker⟩ user ids w.1 w.2

def Stores.store (s : Stores J) : ImageStore J := ⟨s.images, s.objects, s.cache⟩

def Stores.withStore (s : Stores J) (t : ImageStore J) : Stores J :=
  { s with images := t.images, objects := t.objects, cache := t.cache }

variable {faults router user ids} {worker : Worker.Input}

@[simp]
theorem envOf_up : (envOf faults (.start : Stage Img)).dbFault.isNone = faults.selectUp := by
  simp only [envOf]
  cases faults.selectUp <;> rfl

theorem leads_evict {id : Uuid} (rest : List Uuid) (reply : Reply) (s : Stores J) :
    Leads (deleteNext faults router user ids worker) ((.evict (id :: rest) reply : Stage Img), s)
      (.done (.ok reply), { s with
        cache := (id :: rest).foldl
          (fun c id => (c.del (faults.cacheUp id) (Cache.metaKey id)).2) s.cache }) := by
  induction rest generalizing id s with
  | nil => exact .of_step (.refl _)
  | cons id' rest ih => exact .of_step (ih _)

/-- Nor does it make a difference to `batch_delete`. -/
theorem batchDelete_alone (s : Stores J) :
    let whole := BatchDelete.batchDelete faults router user ids s.store
    Leads (deleteNext faults router user ids worker) ((.start : Stage Img), s)
      (.done (whole.1.map .deleted), s.withStore whole.2) := by
  intro whole
  refine .of_step ?_
  cases hvalid : BatchDelete.validateBatchIds ids with
  | error e =>
    simp only [whole, BatchDelete.batchDelete, deleteNext, batchDelete, hvalid]
    exact .refl _
  | ok =>
    cases htargets : BatchDelete.fetchBatchDeleteTargets faults.selectUp ids user s.images with
    | error e =>
      simp only [whole, BatchDelete.batchDelete, Stores.store, deleteNext, batchDelete, hvalid,
        envOf_up, htargets]
      exact .refl _
    | ok targets =>
      simp only [whole, BatchDelete.batchDelete, Stores.store, deleteNext, batchDelete, hvalid,
        envOf_up, htargets]
      refine .of_step ?_
      cases hdelete : faults.deleteUp with
      | true =>
        simp only [deleteNext, batchDelete, envOf, hdelete, if_true]
        -- an empty batch has been refused, so the first identifier is there
        have hlength := (BatchDelete.validateBatchIds_ok.mp hvalid).1
        obtain ⟨id, rest, rfl⟩ := List.exists_cons_of_length_pos hlength
        exact leads_evict rest _ _
      | false =>
        simp only [deleteNext, batchDelete, envOf, hdelete]
        exact .refl _

end MetaCache

end PicHost
