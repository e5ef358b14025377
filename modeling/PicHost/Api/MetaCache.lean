import PicHost.Api.ImageCache
import PicHost.Api.PartialUpdates
import PicHost.Lib.Freshness
import PicHost.Worker.Pipeline

/-!
# Everything that changes images behind the metadata cache

The requests of `PicHost.Api.ImageCache`, the batch requests, the deletion of a category and the
worker, from one call to the next. The values an image has had are kept beside the stores.
-/

namespace PicHost.MetaCache

open KeyedTable Serialised Freshness

/-- The stores of the API and the worker, and the worker's router. -/
structure Stores (J : Type) where
  images : ImageTable
  configs : ConfigTable
  categories : PartialUpdates.Categories
  objects : Objects
  cache : Cache J
  workerRouter : StorageRouter

inductive Request
  | image (user : AuthUser) (request : ImageCache.Request)
  | batchMove (user : AuthUser) (imageIds : List Uuid) (categoryId : Uuid)
  | batchDelete (user : AuthUser) (ids : List Uuid)
  | deleteCategory (user : AuthUser) (id : Uuid)
  | processTask (task : TaskPayload)
  | handleDeadLetter (task : TaskPayload)

inductive Reply
  | image (reply : ImageCache.Reply)
  | moved (count : ℕ)
  | deleted (reply : BatchDelete.BatchDeleteReply)
  | categoryDeleted

/-- Where a request stands: the call it makes next, or its answer. -/
inductive Stage (Img : Type)
  | image (stage : ImageCache.Stage)
  | start
  | update
  | remove
  | evict (ids : List Uuid) (reply : Reply)
  | work (work : Worker.Work Img)
  | done (answer : Except ApiError Reply)
  | processed

/-- What the outside contributes to one step. -/
structure Input where
  api : ImageCache.Env
  worker : Worker.Input

variable {J Img : Type}

def dbError (text : String) : ApiError := { status := 500, key := "common.db_error", args := [text] }

def validateBatchMove (ids : List Uuid) : Except ApiError Unit :=
  if ids = [] then .error { status := 400, key := "image.batch_move_empty" }
  else if 100 < ids.length then .error { status := 400, key := "image.batch_move_limit" }
  else .ok ()

namespace Stores

/-- The stores as the requests for one image see them. -/
def imageState (s : Stores J) : ImageCache.State J :=
  ⟨s.images, s.configs, s.categories.rows.map fun c => ⟨c.id, c.userId⟩, s.objects, s.cache, []⟩

def workerStores (s : Stores J) : Worker.Stores := ⟨s.images, s.configs, s.objects, s.workerRouter⟩

end Stores

section Steps

variable (json : Codec UploadResult J) (router : StorageRouter) (deps : Worker.Deps Img)

/-- One `DEL` of the loop over the images of a batch. -/
def evictNext (inp : Input) (ids : List Uuid) (reply : Reply) (s : Stores J) :
    Stage Img × Stores J :=
  match ids with
  | [] => (.done (.ok reply), s)
  | id :: rest =>
    let s := { s with cache := (s.cache.del inp.api.delUp (Cache.metaKey id)).2 }
    if rest = [] then (.done (.ok reply), s) else (.evict rest reply, s)

/-- One call of `batch_move_images`. -/
def batchMove (inp : Input) (user : AuthUser) (imageIds : List Uuid) (categoryId : Uuid)
    (stage : Stage Img) (s : Stores J) : Stage Img × Stores J :=
  match stage with
  | .start =>
    match validateBatchMove imageIds with
    | .error e => (.done (.error e), s)
    | .ok () =>
      match ImageCache.ensureCategoryOwned inp.api categoryId user.id s.imageState with
      | .error e => (.done (.error e), s)
      | .ok () => (.update, s)
  | .update =>
    match inp.api.dbFault with
    | some text => (.done (.error (dbError text)), s)
    | none =>
      let moved := fun r : Image => r.userId == user.id && decide (r.id ∈ imageIds)
      let images := s.images.update moved (fun r => { r with categoryId := some categoryId })
        fun _ => rfl
      (.evict imageIds (.moved (s.images.select moved).length), { s with images })
  | .evict ids reply => evictNext inp ids reply s
  | stage => (stage, s)

/-- One call of `batch_delete`: the files go before the rows. -/
def batchDelete (inp : Input) (user : AuthUser) (ids : List Uuid) (stage : Stage Img)
    (s : Stores J) : Stage Img × Stores J :=
  match stage with
  | .start =>
    match BatchDelete.validateBatchIds ids with
    | .error e => (.done (.error e), s)
    | .ok () =>
      match BatchDelete.fetchBatchDeleteTargets inp.api.dbFault.isNone ids user s.images with
      | .error e => (.done (.error e), s)
      | .ok targets =>
        (.remove, { s with
          objects := targets.foldl
            (fun objs t => BatchDelete.cleanupStorageFiles inp.api.storage router t objs)
            s.objects })
  | .remove =>
    if inp.api.dbFault.isSome then
      (.done (.error { status := 500, key := "image.batch_delete_failed" }), s)
    else
      let deleted := (s.images.select (BatchDelete.deleteWhere ids)).length
      (.evict ids (.deleted { deleted, failed := ids.length - deleted }),
        { s with images := s.images.delete (BatchDelete.deleteWhere ids) })
  | .evict ids reply => evictNext inp ids reply s
  | stage => (stage, s)

/-- `ON DELETE CASCADE` of the categories below and `ON DELETE SET NULL` of the images in them. -/
def deleteCategory (inp : Input) (user : AuthUser) (id : Uuid) (stage : Stage Img)
    (s : Stores J) : Stage Img × Stores J :=
  match stage with
  | .start =>
    let target := PartialUpdates.ownCategory user id
    match inp.api.dbFault with
    | some text =>
      (.done (.error { status := 500, key := "common.internal_error_detail", args := [text] }), s)
    | none =>
      if s.categories.select target = [] then
        (.done (.error { status := 404, key := "category.not_found" }), s)
      else
        let categories := PartialUpdates.deleteCategories target s.categories
        let images := s.images.update
          -- every row that the cascade removed, the category itself included; no `DEL` follows
          (fun r => r.categoryId.any fun c =>
            decide (∃ d ∈ s.categories.rows, d.id = c ∧ d ∉ categories.rows))
          (fun r => { r with categoryId := none }) fun _ => rfl
        (.done (.ok .categoryDeleted), { s with images, categories })
  | stage => (stage, s)

/-- One call of `process_task`. -/
def processTask (inp : Input) (task : TaskPayload) (stage : Stage Img) (s : Stores J) :
    Stage Img × Stores J :=
  let run := fun work =>
    let (work, w) := Worker.processTask deps inp.worker task work s.workerStores
    let s := { s with images := w.images, objects := w.objects, workerRouter := w.router }
    match work with
    -- the row may have changed by now, and the worker has no cache to evict from
    | .returned _ => (.processed, s)
    | work => (.work work, s)
  match stage with
  | .start => run .resolveBackend
  | .work work => run work
  | stage => (stage, s)

def handleDeadLetter (inp : Input) (task : TaskPayload) (stage : Stage Img) (s : Stores J) :
    Stage Img × Stores J :=
  match stage with
  | .start => (.processed, { s with images := Worker.handleDeadLetter inp.worker task s.images })
  | stage => (stage, s)

/-- One call of a request for one image. -/
def image (inp : Input) (user : AuthUser) (request : ImageCache.Request)
    (stage : ImageCache.Stage) (s : Stores J) : Stage Img × Stores J :=
  let (stage, t) := ImageCache.serve json router inp.api ⟨user, request, stage⟩ s.imageState
  (.image stage, { s with images := t.images, objects := t.objects, cache := t.cache })

/-- The next call of a request. -/
def serve (inp : Input) (request : Request) (stage : Stage Img) (s : Stores J) :
    Stage Img × Stores J :=
  match request with
  | .image user request =>
    match stage with
    | .start => image json router inp user request .start s
    | .image stage => image json router inp user request stage s
    | stage => (stage, s)
  | .batchMove user imageIds categoryId => batchMove inp user imageIds categoryId stage s
  | .batchDelete user ids => batchDelete router inp user ids stage s
  | .deleteCategory user id => deleteCategory inp user id stage s
  | .processTask task => processTask deps inp task stage s
  | .handleDeadLetter task => handleDeadLetter inp task stage s

end Steps

end PicHost.MetaCache
