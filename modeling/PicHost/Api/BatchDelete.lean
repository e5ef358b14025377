import PicHost.Api.State
import PicHost.Lib.Placeholder

/-! # Deleting images -/

namespace PicHost.BatchDelete

open KeyedTable Placeholder

/-- A bound value of a statement. -/
inductive Bind
  | uuid (u : Uuid)
  | bool (b : Bool)
deriving DecidableEq

/-- The columns a delete reads: where the files of a row are. -/
structure DeleteTarget where
  storageKey : String
  storageBackend : String
  thumbnailKey : Option String
  webpKey : Option String
deriving DecidableEq

def DeleteTarget.ofImage (r : Image) : DeleteTarget :=
  ⟨r.storageKey, r.storageBackend, r.thumbnailKey, r.webpKey⟩

structure BatchDeleteReply where
  deleted : ℕ
  failed : ℕ
deriving DecidableEq

/-- Which calls of one request fail. -/
structure Faults where
  selectUp : Bool
  deleteUp : Bool
  storage : Location → Option String
  cacheUp : Uuid → Bool

def validateBatchIds (ids : List Uuid) : Except ApiError Unit :=
  if ids = [] then .error { status := 400, key := "image.batch_empty" }
  else if 100 < ids.length then .error { status := 400, key := "image.batch_limit" }
  else .ok ()

/-- The results of the deletes are dropped. -/
def cleanupStorageFiles (fault : Location → Option String) (router : StorageRouter)
    (target : DeleteTarget) (objs : Objects) : Objects :=
  let storage := router.forBackend target.storageBackend
  -- a `let _ =`: a failed delete keeps the object and stops nothing
  let drop := fun (objs : Objects) (key : String) =>
    (storage.delete (fault (storage.locate key)) key objs).2
  let objs := drop objs target.storageKey
  let objs := target.thumbnailKey.elim objs (drop objs)
  target.webpKey.elim objs (drop objs)

/-- `WHERE id IN ($1, …, $n) AND (user_id = $n+1 OR $n+2)`. -/
def targetWhere (ids : List Uuid) (user : AuthUser) (r : Image) : Bool :=
  let binds := ids.map Bind.uuid ++ [.uuid user.id, .bool user.isAdmin]
  -- the parameters are numbered in the text of the statement and bound in this order
  let userParam := ids.length + 1
  let adminParam := ids.length + 2
  inList binds (placeholders 1 ids.length) (.uuid r.id) &&
    (bound binds userParam == some (.uuid r.userId) || bound binds adminParam == some (.bool true))

/-- The rows `fetch_batch_delete_targets` selects. -/
def targetRows (ids : List Uuid) (user : AuthUser) (images : ImageTable) : List Image :=
  images.select (targetWhere ids user)

def fetchBatchDeleteTargets (up : Bool) (ids : List Uuid) (user : AuthUser)
    (images : ImageTable) : Except ApiError (List DeleteTarget) :=
  if up then .ok ((targetRows ids user images).map DeleteTarget.ofImage)
  else .error { status := 500, key := "common.internal_error" }

/-- `WHERE id IN ($1, …, $n)`. -/
def deleteWhere (ids : List Uuid) (r : Image) : Bool :=
  inList (ids.map Bind.uuid) (placeholders 1 ids.length) (.uuid r.id)

variable {J : Type}

def batchDelete (faults : Faults) (router : StorageRouter) (user : AuthUser) (ids : List Uuid)
    (s : ImageStore J) : Except ApiError BatchDeleteReply × ImageStore J :=
  match validateBatchIds ids with
  | .error e => (.error e, s)
  | .ok () =>
    match fetchBatchDeleteTargets faults.selectUp ids user s.images with
    | .error e => (.error e, s)
    | .ok targets =>
      let objects := targets.foldl
        (fun objs t => cleanupStorageFiles faults.storage router t objs) s.objects
      if faults.deleteUp then
        -- `rows_affected`: rows of others with these identifiers are counted, too
        let deleted := (s.images.select (deleteWhere ids)).length
        (.ok { deleted, failed := ids.length - deleted },
          { images := s.images.delete (deleteWhere ids)
            objects
            cache := ids.foldl (fun c id => (c.del (faults.cacheUp id) (Cache.metaKey id)).2)
              s.cache })
      else (.error { status := 500, key := "image.batch_delete_failed" }, { s with objects })

/-- The parameters after the identifiers are the caller and its role. -/
theorem targetWhere_iff {ids : List Uuid} {user : AuthUser} {r : Image} :
    targetWhere ids user r = true ↔
      r.id ∈ ids ∧ (r.userId = user.id ∨ user.isAdmin = true) := by
  have hl : (ids.map Bind.uuid).length = ids.length := List.length_map ..
  have hin : inList (ids.map Bind.uuid ++ [.uuid user.id, .bool user.isAdmin])
      (placeholders 1 ids.length) (.uuid r.id) = true ↔ r.id ∈ ids := by
    have h := inList_placeholders [] (ids.map Bind.uuid)
      [.uuid user.id, .bool user.isAdmin] (.uuid r.id)
    rw [hl] at h
    simpa using h
  have hu := bound_length (ids.map Bind.uuid) [.uuid user.id, .bool user.isAdmin]
  have ha := bound_length_succ (ids.map Bind.uuid) [.uuid user.id, .bool user.isAdmin]
  rw [hl] at hu ha
  simp only [targetWhere, Bool.and_eq_true, hin, hu, ha, Bool.or_eq_true, beq_iff_eq,
    List.getElem?_cons_zero, List.getElem?_cons_succ, Option.some.injEq, Bind.uuid.injEq,
    Bind.bool.injEq]
  rw [@eq_comm _ user.id r.userId]

theorem deleteWhere_iff {ids : List Uuid} {r : Image} :
    deleteWhere ids r = true ↔ r.id ∈ ids := by
  have h := inList_placeholders [] (ids.map Bind.uuid) [] (.uuid r.id)
  rw [List.length_map] at h
  simpa [deleteWhere] using h

theorem mem_targetRows {ids : List Uuid} {user : AuthUser} {images : ImageTable} {r : Image} :
    r ∈ targetRows ids user images ↔
      r ∈ images.rows ∧ r.id ∈ ids ∧ (r.userId = user.id ∨ user.isAdmin = true) := by
  rw [targetRows, Table.mem_select, targetWhere_iff]

theorem cleanup_keeps_none (fault : Location → Option String) (router : StorageRouter)
    (t : DeleteTarget) {objs : Objects} {l : Location} (h : objs l = none) :
    cleanupStorageFiles fault router t objs l = none := by
  have hstep := Backend.delete_keeps_none (router.forBackend t.storageBackend)
  unfold cleanupStorageFiles
  cases t.thumbnailKey <;> cases t.webpKey <;> simp only [Option.elim] <;>
    repeat' first | exact h | apply hstep

/-- The original of a target is gone once its delete call goes through. -/
theorem cleanup_source (fault : Location → Option String) (router : StorageRouter)
    (t : DeleteTarget) (objs : Objects)
    (hf : fault ((router.forBackend t.storageBackend).locate t.storageKey) = none) :
    cleanupStorageFiles fault router t objs
      ((router.forBackend t.storageBackend).locate t.storageKey) = none := by
  have hstep := Backend.delete_keeps_none (router.forBackend t.storageBackend)
  have hself := Backend.delete_self (router.forBackend t.storageBackend) t.storageKey objs
  rw [← hf] at hself
  unfold cleanupStorageFiles
  cases t.thumbnailKey <;> cases t.webpKey <;> simp only [Option.elim] <;>
    repeat' first | exact hself | apply hstep

theorem foldl_cleanup_keeps_none (fault : Location → Option String) (router : StorageRouter)
    {l : Location} (ts : List DeleteTarget) {objs : Objects} (h : objs l = none) :
    ts.foldl (fun objs t => cleanupStorageFiles fault router t objs) objs l = none := by
  induction ts generalizing objs with
  | nil => exact h
  | cons t ts ih => exact ih (cleanup_keeps_none fault router t h)

theorem foldl_cleanup_source (fault : Location → Option String) (router : StorageRouter)
    {t : DeleteTarget} {ts : List DeleteTarget} (ht : t ∈ ts) (objs : Objects)
    (hf : fault ((router.forBackend t.storageBackend).locate t.storageKey) = none) :
    ts.foldl (fun objs t => cleanupStorageFiles fault router t objs) objs
      ((router.forBackend t.storageBackend).locate t.storageKey) = none := by
  induction ts generalizing objs with
  | nil => cases ht
  | cons t' ts ih =>
    rcases List.mem_cons.mp ht with rfl | ht
    · exact foldl_cleanup_keeps_none fault router ts (cleanup_source fault router t objs hf)
    · exact ih ht _

theorem validateBatchIds_ok {ids : List Uuid} :
    validateBatchIds ids = .ok () ↔ 1 ≤ ids.length ∧ ids.length ≤ 100 := by
  unfold validateBatchIds
  cases ids with
  | nil => simp
  | cons id ids =>
    simp only [reduceCtorEq, if_false]
    split <;> simp <;> simp at * <;> omega

/-- The rows a request selects; none when the query fails. -/
def selectedRows (faults : Faults) (user : AuthUser) (ids : List Uuid) (s : ImageStore J) :
    List Image :=
  if faults.selectUp then targetRows ids user s.images else []

/-- No row of another user is lost, and the rows deleted are the rows selected. -/
def OwnershipFrame (faults : Faults) (user : AuthUser) (ids : List Uuid)
    (s s' : ImageStore J) : Prop :=
  (∀ r ∈ s.images.rows, r.userId ≠ user.id → r ∈ s'.images.rows) ∧
  ∀ r ∈ s.images.rows, r ∉ s'.images.rows ↔ r ∈ selectedRows faults user ids s

/-- Every listed row is the caller's; when the delete itself fails, none is. -/
def OwnIdsOnly (faults : Faults) (user : AuthUser) (ids : List Uuid) (s : ImageStore J) : Prop :=
  faults.selectUp = true → ∀ r ∈ s.images.rows, r.id ∈ ids →
    (faults.deleteUp = true ↔ r.userId = user.id)

/-- The original of every selected row is gone afterwards, unless its delete call fails. -/
theorem batchDelete_cleans {faults : Faults} {router : StorageRouter} {user : AuthUser}
    {ids : List Uuid} {s : ImageStore J} (hids : validateBatchIds ids = .ok ()) {r : Image}
    (hr : r ∈ selectedRows faults user ids s)
    (hf : faults.storage ((router.forBackend r.storageBackend).locate r.storageKey) = none) :
    (batchDelete faults router user ids s).2.objects
      ((router.forBackend r.storageBackend).locate r.storageKey) = none := by
  have hsel : faults.selectUp = true := by
    by_contra hne
    simp [selectedRows, hne] at hr
  rw [selectedRows, if_pos hsel] at hr
  have hgone := foldl_cleanup_source faults.storage router
    (List.mem_map_of_mem (f := DeleteTarget.ofImage) hr) s.objects hf
  simp only [batchDelete, hids, fetchBatchDeleteTargets, hsel, if_true]
  split <;> exact hgone

/-- What is left in the table after a request that passes validation. -/
theorem mem_images_batchDelete {faults : Faults} {router : StorageRouter} {user : AuthUser}
    {ids : List Uuid} {s : ImageStore J} (hids : validateBatchIds ids = .ok ()) {r : Image} :
    r ∈ (batchDelete faults router user ids s).2.images.rows ↔
      r ∈ s.images.rows ∧ ¬ (faults.selectUp = true ∧ faults.deleteUp = true ∧ r.id ∈ ids) := by
  simp only [batchDelete, hids, fetchBatchDeleteTargets]
  cases faults.selectUp with
  | false => simp
  | true =>
    cases faults.deleteUp with
    | false => simp
    | true =>
      simp only [if_true, Table.mem_delete, true_and, ← deleteWhere_iff, Bool.not_eq_true]

/-- The delete and the select agree on exactly the requests that list no row of others. -/
theorem batch_delete_frame_iff (faults : Faults) (router : StorageRouter) (user : AuthUser)
    (ids : List Uuid) (s : ImageStore J) (huser : user.isAdmin = false) (hmin : 1 ≤ ids.length)
    (hmax : ids.length ≤ 100) :
    OwnershipFrame faults user ids s (batchDelete faults router user ids s).2 ↔
      OwnIdsOnly faults user ids s := by
  have hids := validateBatchIds_ok.mpr ⟨hmin, hmax⟩
  simp only [OwnershipFrame, OwnIdsOnly, mem_images_batchDelete hids, selectedRows]
  cases hsel : faults.selectUp with
  | false =>
    refine iff_of_true ⟨fun r hr _ => ⟨hr, fun h => nomatch h.1⟩, fun r hr => ?_⟩
      fun h => nomatch h
    simp [hr]
  | true =>
    simp only [true_and, if_true, mem_targetRows, huser, Bool.false_eq_true, or_false,
      true_implies]
    constructor
    · rintro ⟨hkeep, hdel⟩ r hr hid
      constructor
      · intro hup
        by_contra hne
        exact (hkeep r hr hne).2 ⟨hup, hid⟩
      · intro hown
        by_contra hup
        exact (hdel r hr).mpr ⟨hr, hid, hown⟩ ⟨hr, fun h => hup h.1⟩
    · intro hown
      refine ⟨fun r hr hne => ⟨hr, fun h => hne ((hown r hr h.2).mp h.1)⟩, fun r hr => ?_⟩
      constructor
      · intro hgone
        by_cases hdel : faults.deleteUp = true ∧ r.id ∈ ids
        · exact ⟨hr, hdel.2, (hown r hr hdel.2).mp hdel.1⟩
        · exact absurd ⟨hr, hdel⟩ hgone
      · rintro ⟨-, hid, howner⟩ ⟨-, hkept⟩
        exact hkept ⟨(hown r hr hid).mpr howner, hid⟩

def noFaults : Faults := ⟨true, true, fun _ => none, fun _ => true⟩

/-- An image of user 9. -/
def strangersImage : Image where
  id := 1
  userId := 9
  publicKey := "00ff00"
  originalName := "cat.png"
  storageKey := "00000000-0000-0000-0000-000000000009/00ff00"
  storageBackend := "local"
  mimeType := "image/png"
  fileSize := 3
  width := none
  height := none
  sha256 := "aa"
  url := "http://pics/u/00ff00"
  thumbnailKey := none
  thumbnailUrl := none
  webpKey := none
  webpUrl := none
  status := "active"
  storageConfigId := none
  categoryId := none
  createdAt := 0

def strangersStore : ImageStore Unit where
  images := ⟨[strangersImage], List.pairwise_singleton _ _⟩
  objects := fun _ => none
  cache := ⟨true, fun _ => none⟩

def localRouter : StorageRouter := initStorageBackends "/data" "http://pics" none "local" fun _ => 0

/-- User 7 deletes the image of user 9 by its identifier. -/
theorem batch_delete_not_framed :
    ¬ ∀ (faults : Faults) (router : StorageRouter) (user : AuthUser) (ids : List Uuid)
      (s : ImageStore Unit), user.isAdmin = false → 1 ≤ ids.length → ids.length ≤ 100 →
      OwnershipFrame faults user ids s (batchDelete faults router user ids s).2 := by
  intro h
  have hframe := h noFaults localRouter ⟨7, false, none⟩ [1] strangersStore rfl
    (by decide) (by decide)
  have hkept := hframe.1 strangersImage (List.mem_singleton_self _) (by decide)
  rw [mem_images_batchDelete (by decide)] at hkept
  exact hkept.2 ⟨rfl, rfl, List.mem_singleton_self _⟩

/-- The owner's own request keeps the frame. -/
theorem batch_delete_frame_iff_own :
    OwnershipFrame noFaults ⟨9, false, none⟩ [1, 2, 1] strangersStore
      (batchDelete noFaults localRouter ⟨9, false, none⟩ [1, 2, 1] strangersStore).2 := by
  refine (batch_delete_frame_iff noFaults localRouter ⟨9, false, none⟩ [1, 2, 1] strangersStore
    rfl (by decide) (by decide)).mpr ?_
  intro _ r hr _
  rw [List.mem_singleton.mp hr]
  decide

end PicHost.BatchDelete
