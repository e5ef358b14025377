import PicHost.Api.BatchDelete
import PicHost.Api.UploadResult
import PicHost.Lib.Codec
import PicHost.Lib.Run

/-!
# Reading, renaming, moving and deleting images behind the metadata cache

A request is advanced from one database or cache call to the next; the calls of
different requests interleave.
-/

namespace PicHost.ImageCache

open KeyedTable Serialised LabelledRun

inductive Request
  | getImage (id : Uuid)
  | renameImage (id : Uuid) (originalName : String)
  | moveImage (id : Uuid) (categoryId : Option Uuid)
  | deleteImage (id : Uuid)
deriving DecidableEq

inductive Reply
  | image (result : UploadResult)
  | message (text : String)
  | deleted (text : String) (id : Uuid)

/-- Where a request stands: the call it makes next, or its answer. -/
inductive Stage
  | start
  | load
  | store (result : UploadResult)
  | update
  | refetch
  | remove
  | evict (reply : Reply)
  | done (answer : Except ApiError Reply)

structure Call where
  user : AuthUser
  request : Request
  stage : Stage

structure Category where
  id : Uuid
  userId : Uuid

structure State (J : Type) where
  images : ImageTable
  configs : ConfigTable
  categories : List Category
  objects : Objects
  cache : Cache J
  calls : List Call

/-- The outcome of the calls of one step. `dbFault` is the driver's text of a failed query. -/
structure Env where
  dbFault : Option String
  getUp : Bool
  setUp : Bool
  delUp : Bool
  storage : Location → Option String

inductive Action
  | submit (user : AuthUser) (request : Request)
  | advance (i : ℕ) (env : Env)
  | expire (key : String)

def validateOriginalName (name : String) : Except ApiError Unit :=
  if name = "" then .error { status := 400, key := "image.rename_empty" }
  else if 255 < name.utf8ByteSize then .error { status := 400, key := "image.rename_too_long" }
  else if '/' ∈ name.toList ∨ '\\' ∈ name.toList ∨ '\x00' ∈ name.toList then
    .error { status := 400, key := "image.rename_invalid" }
  else .ok ()

/-- `WHERE i.id = $1 AND i.user_id = $2`. -/
def ownWhere (id userId : Uuid) (r : Image) : Bool := r.id == id && r.userId == userId

section Steps

variable {J : Type} (json : Codec UploadResult J) (router : StorageRouter)

def notFound : ApiError := { status := 404, key := "image.not_found" }

/-- `cached_meta` up to the first await: the cached value, if there is one that parses. -/
def cachedValue (env : Env) (id : Uuid) (s : State J) : Option UploadResult :=
  match s.cache.get env.getUp (Cache.metaKey id) with
  | .ok (some text) => json.decode text
  | _ => none

/-- The row of the caller, as the loader of `get_image` and `refetch_image_row` select it. -/
def fetchOwnRow (id userId : Uuid) (s : State J) : Option UploadResult :=
  ((s.images.select (ownWhere id userId)).head?).map
    fun r => UploadResult.fromRow (r.joinConfig s.configs)

/-- `WHERE id = $1 AND (user_id = $2 OR $3)`. -/
def deleteTarget (id : Uuid) (user : AuthUser) (s : State J) : Option BatchDelete.DeleteTarget :=
  ((s.images.select fun r => r.id == id && (r.userId == user.id || user.isAdmin)).head?).map
    BatchDelete.DeleteTarget.ofImage

/-- `ensure_category_owned`. -/
def ensureCategoryOwned (env : Env) (categoryId userId : Uuid) (s : State J) :
    Except ApiError Unit :=
  match env.dbFault with
  | some text => .error { status := 500, key := "common.db_error", args := [text] }
  | none =>
    if s.categories.any fun c => c.id == categoryId && c.userId == userId then .ok ()
    else .error { status := 404, key := "category.not_found" }

def internalError (key : String) : ApiError := { status := 500, key }

/-- One call of `get_image`. -/
def getImage (env : Env) (user : AuthUser) (id : Uuid) (stage : Stage) (s : State J) :
    Stage × State J :=
  match stage with
  | .start =>
    -- the key is the image's alone, and a hit asks nobody whose image it is
    match cachedValue json env id s with
    | some result => (.done (.ok (.image result)), s)
    | none => (.load, s)
  | .load =>
    match env.dbFault, fetchOwnRow id user.id s with
    | some _, _ => (.done (.error (internalError "image.internal_error")), s)
    | none, none => (.done (.error notFound), s)
    | none, some result => (.store result, s)
  | .store result =>
    (.done (.ok (.image result)),
      { s with cache := (s.cache.setEx env.setUp (Cache.metaKey id) (json.encode result)).2 })
  | stage => (stage, s)

/-- One call of `rename_image`. -/
def renameImage (env : Env) (user : AuthUser) (id : Uuid) (originalName : String) (stage : Stage)
    (s : State J) : Stage × State J :=
  match stage with
  | .start =>
    match validateOriginalName originalName with
    | .error e => (.done (.error e), s)
    | .ok () => (.update, s)
  | .update =>
    if env.dbFault.isSome then (.done (.error (internalError "common.internal_error")), s)
    -- `rows_affected` of the UPDATE
    else if s.images.select (ownWhere id user.id) = [] then (.done (.error notFound), s)
    else
      let images := s.images.update (ownWhere id user.id) (fun r => { r with originalName })
        fun _ => rfl
      (.refetch, { s with images })
  | .refetch =>
    -- the new name is stored by now, also when this SELECT fails and the entry stays
    match env.dbFault, fetchOwnRow id user.id s with
    | some _, _ => (.done (.error (internalError "common.internal_error")), s)
    | none, none => (.done (.error notFound), s)
    | none, some result => (.evict (.image result), s)
  | .evict reply =>
    (.done (.ok reply), { s with cache := (s.cache.del env.delUp (Cache.metaKey id)).2 })
  | stage => (stage, s)

/-- One call of `move_image`. -/
def moveImage (env : Env) (user : AuthUser) (id : Uuid) (categoryId : Option Uuid) (stage : Stage)
    (s : State J) : Stage × State J :=
  match stage with
  | .start =>
    match categoryId with
    | none => (.update, s)
    | some c =>
      match ensureCategoryOwned env c user.id s with
      | .error e => (.done (.error e), s)
      | .ok () => (.update, s)
  | .update =>
    match env.dbFault with
    | some text =>
      (.done (.error { status := 500, key := "common.db_error", args := [text] }), s)
    | none =>
      if s.images.select (ownWhere id user.id) = [] then
        (.done (.error { status := 404, key := "image.move_not_found" }), s)
      else
        let images := s.images.update (ownWhere id user.id) (fun r => { r with categoryId })
          fun _ => rfl
        (.evict (.message "Image moved to category"), { s with images })
  | .evict reply =>
    (.done (.ok reply), { s with cache := (s.cache.del env.delUp (Cache.metaKey id)).2 })
  | stage => (stage, s)

/-- One call of `delete_image`: the files go before the row. -/
def deleteImage (env : Env) (user : AuthUser) (id : Uuid) (stage : Stage) (s : State J) :
    Stage × State J :=
  match stage with
  | .start =>
    match env.dbFault, deleteTarget id user s with
    | some _, _ => (.done (.error (internalError "common.internal_error")), s)
    | none, none => (.done (.error notFound), s)
    | none, some target =>
      (.remove, { s with
        objects := BatchDelete.cleanupStorageFiles env.storage router target s.objects })
  | .remove =>
    if env.dbFault.isSome then (.done (.error (internalError "image.delete_failed")), s)
    -- the DELETE names the identifier alone
    else (.evict (.deleted "image deleted" id), { s with
      images := s.images.delete fun r => r.id == id })
  | .evict reply =>
    (.done (.ok reply), { s with cache := (s.cache.del env.delUp (Cache.metaKey id)).2 })
  | stage => (stage, s)

/-- The next call of a request. -/
def serve (env : Env) (c : Call) (s : State J) : Stage × State J :=
  match c.request with
  | .getImage id => getImage json env c.user id c.stage s
  | .renameImage id name => renameImage env c.user id name c.stage s
  | .moveImage id categoryId => moveImage env c.user id categoryId c.stage s
  | .deleteImage id => deleteImage router env c.user id c.stage s

def step (s : State J) : Action → State J
  | .submit user request => { s with calls := s.calls ++ [⟨user, request, .start⟩] }
  | .advance i env =>
    match s.calls[i]? with
    | none => s
    | some c =>
      let (stage, s') := serve json router env c s
      { s' with calls := s.calls.set i { c with stage } }
  | .expire key => { s with cache := s.cache.expire key }

/-- No requests yet and an empty cache. -/
def State.fresh (images : ImageTable) (configs : ConfigTable) (categories : List Category)
    (objects : Objects) (noop : Bool) : State J :=
  ⟨images, configs, categories, objects, ⟨noop, fun _ => none⟩, []⟩

/-- The row of an identifier belongs to a user. -/
def Owns (t : ImageTable) (userId id : Uuid) : Prop := ∃ r ∈ t.rows, r.id = id ∧ r.userId = userId

/-- A `get_image` that returns `Ok` now is by the owner of the row that is there now. -/
def ReadsOwn (s : State J) : Action → Prop
  | .advance i env => ∀ c, s.calls[i]? = some c → ∀ id, c.request = .getImage id →
      (∀ answer, c.stage ≠ .done answer) →
      ∀ reply, (serve json router env c s).1 = .done (.ok reply) → Owns s.images c.user.id id
  | _ => True

/-- A cached value is found only by the owner of the row, which is still there. Nor has the row
been deleted that a `get_image` has selected. -/
def OwnerHit (s : State J) : Action → Prop
  | .advance i env => ∀ c, s.calls[i]? = some c → ∀ id, c.request = .getImage id →
      (c.stage = .start → (cachedValue json env id s).isSome → Owns s.images c.user.id id) ∧
      ∀ result, c.stage = .store result → ∃ r ∈ s.images.rows, r.id = id
  | _ => True

/-- The action with what other users write to the cache lost. -/
def mute (u : Uuid) (s : State J) : Action → Action
  | .advance i env =>
    if (s.calls[i]?).any fun c => c.user.id == u then .advance i env
    else .advance i { env with setUp := false }
  | a => a

/-- The answers so far to one user. -/
def answers (u : Uuid) (s : State J) : List (Option Stage) :=
  s.calls.map fun c => if c.user.id = u then some c.stage else none

/-- The answers to a user are those of the run in which nobody else fills the cache. -/
def Unaffected (u : Uuid) (s : State J) (as : List Action) : Prop :=
  answers u (as.foldl (step json router) s) =
    answers u (as.foldl (fun s a => step json router s (mute u s a)) s)

variable {json router}

theorem Owns.unique {t : ImageTable} {u v id : Uuid} (hu : Owns t u id) (hv : Owns t v id) :
    u = v := by
  obtain ⟨r, hr, hrid, rfl⟩ := hu
  obtain ⟨q, hq, hqid, rfl⟩ := hv
  rw [ImageTable.eq_of_id hr hq (hrid.trans hqid.symm)]

theorem owns_of_fetchOwnRow {id u : Uuid} {s : State J} {v : UploadResult}
    (h : fetchOwnRow id u s = some v) : Owns s.images u id := by
  obtain ⟨r, hr, -⟩ := Option.map_eq_some_iff.mp h
  obtain ⟨hmem, hown⟩ := Table.mem_select.mp (List.mem_of_head? hr)
  rw [ownWhere, Bool.and_eq_true, beq_iff_eq, beq_iff_eq] at hown
  exact ⟨r, hmem, hown⟩

/-- Every row has the identifier and the owner of a row before. -/
def RowsFrom (t t' : ImageTable) : Prop :=
  ∀ r ∈ t'.rows, ∃ q ∈ t.rows, q.id = r.id ∧ q.userId = r.userId

theorem RowsFrom.refl (t : ImageTable) : RowsFrom t t := fun r hr => ⟨r, hr, rfl, rfl⟩

theorem rowsFrom_update (t : ImageTable) (p : Image → Bool) (f : Image → Image)
    (hf : ∀ r, (f r).keys = r.keys) : RowsFrom t (t.update p f hf) := by
  intro r hr
  rcases Table.mem_update_iff.mp hr with ⟨hr, -⟩ | ⟨q, hq, -, rfl⟩
  · exact ⟨r, hr, rfl, rfl⟩
  · exact ⟨q, hq, congrArg ImageKeys.id (hf q).symm, congrArg ImageKeys.userId (hf q).symm⟩

theorem rowsFrom_delete (t : ImageTable) (p : Image → Bool) : RowsFrom t (t.delete p) :=
  fun r hr => ⟨r, (Table.mem_delete.mp hr).1, rfl, rfl⟩

/-- A call of `get_image` touches nothing but the cache. -/
theorem getImage_frame (env : Env) (user : AuthUser) (id : Uuid) (stage : Stage) (s : State J) :
    (getImage json env user id stage s).2 =
      { s with cache := (getImage json env user id stage s).2.cache } := by
  unfold getImage
  split
  · split <;> rfl
  · split <;> rfl
  · rfl
  · rfl

theorem serve_rowsFrom (env : Env) (c : Call) (s : State J) :
    RowsFrom s.images (serve json router env c s).2.images := by
  unfold serve
  split
  · rw [getImage_frame]
    exact .refl _
  · unfold renameImage
    split
    · split <;> exact .refl _
    · split
      · exact .refl _
      · split
        · exact .refl _
        · apply rowsFrom_update
          exact fun _ => rfl
    · split <;> exact .refl _
    · exact .refl _
    · exact .refl _
  · unfold moveImage
    split
    · split
      · exact .refl _
      · split <;> exact .refl _
    · split
      · exact .refl _
      · split
        · exact .refl _
        · apply rowsFrom_update
          exact fun _ => rfl
    · exact .refl _
    · exact .refl _
  · unfold deleteImage
    split
    · split <;> exact .refl _
    · split
      · exact .refl _
      · exact rowsFrom_delete _ _
    · exact .refl _
    · exact .refl _

/-- What a call of `get_image` can leave behind: an own row to store, or an answer. -/
theorem getImage_stage {env : Env} {user : AuthUser} {id : Uuid} {stage : Stage} {s : State J} :
    (∀ v, (getImage json env user id stage s).1 = .store v → Owns s.images user.id id) ∧
    (∀ reply, (getImage json env user id stage s).1 = .done (.ok reply) →
      stage = .done (.ok reply) ∨ (∃ v, stage = .store v) ∨
        (stage = .start ∧ (cachedValue json env id s).isSome)) := by
  cases stage with
  | start =>
    cases hc : cachedValue json env id s with
    | none => simp [getImage, hc]
    | some v => simp [getImage, hc]
  | load =>
    cases hdb : env.dbFault with
    | some text => simp [getImage, hdb]
    | none =>
      cases hf : fetchOwnRow id user.id s with
      | none => simp [getImage, hdb, hf]
      | some v => simp [getImage, hdb, hf, owns_of_fetchOwnRow hf]
  | store v => simp [getImage]
  | update => simp [getImage]
  | refetch => simp [getImage]
  | remove => simp [getImage]
  | evict reply => simp [getImage]
  | done answer => simp [getImage]

/-- Rows keep their owners, and what a request is about to cache is its caller's. -/
structure Kept (t₀ : ImageTable) (s : State J) : Prop where
  rows : RowsFrom t₀ s.images
  loaded : ∀ c ∈ s.calls, ∀ id, c.request = .getImage id → ∀ v, c.stage = .store v →
    Owns t₀ c.user.id id

theorem kept_fresh (t₀ : ImageTable) (configs : ConfigTable) (categories : List Category)
    (objects : Objects) (noop : Bool) :
    Kept t₀ (State.fresh t₀ configs categories objects noop : State J) :=
  ⟨.refl t₀, fun _ h => absurd h List.not_mem_nil⟩

theorem Owns.of_rowsFrom {t₀ t : ImageTable} {u id : Uuid} (h : RowsFrom t₀ t)
    (ho : Owns t u id) : Owns t₀ u id := by
  obtain ⟨r, hr, rfl, rfl⟩ := ho
  obtain ⟨q, hq, hid, hu⟩ := h r hr
  exact ⟨q, hq, hid, hu⟩

theorem serve_getImage {env : Env} {c : Call} {id : Uuid} {s : State J}
    (h : c.request = .getImage id) :
    serve json router env c s = getImage json env c.user id c.stage s := by
  simp only [serve, h]

theorem step_advance {s : State J} {i : ℕ} {env : Env} {c : Call} (hc : s.calls[i]? = some c) :
    step json router s (.advance i env) =
      { (serve json router env c s).2 with
        calls := s.calls.set i { c with stage := (serve json router env c s).1 } } := by
  simp only [step, hc]

variable (json router) in
theorem Kept.step {t₀ : ImageTable} {s : State J} (h : Kept t₀ s) (a : Action) :
    Kept t₀ (step json router s a) := by
  cases a with
  | submit user request =>
    refine ⟨h.rows, fun c hc id hreq v hst => ?_⟩
    rcases List.mem_append.mp hc with hc | hc
    · exact h.loaded c hc id hreq v hst
    · rw [List.mem_singleton.mp hc] at hst
      cases hst
  | expire key => exact ⟨h.rows, h.loaded⟩
  | advance i env =>
    cases hc : s.calls[i]? with
    | none => simpa only [ImageCache.step, hc] using h
    | some c =>
      rw [step_advance hc]
      refine ⟨fun r hr => ?_, fun d hd id hreq v hst => ?_⟩
      · obtain ⟨q, hq, hid, hu⟩ := serve_rowsFrom env c s r hr
        obtain ⟨q', hq', hid', hu'⟩ := h.rows q hq
        exact ⟨q', hq', hid'.trans hid, hu'.trans hu⟩
      · rcases List.mem_or_eq_of_mem_set hd with hd | rfl
        · exact h.loaded d hd id hreq v hst
        · simp only at hreq hst
          rw [serve_getImage hreq] at hst
          exact (getImage_stage.1 v hst).of_rowsFrom h.rows

/-- A row that was selected is its caller's as long as it is there. -/
theorem Kept.owns {t₀ : ImageTable} {s : State J} (h : Kept t₀ s) {c : Call} (hc : c ∈ s.calls)
    {id : Uuid} (hreq : c.request = .getImage id) {result : UploadResult}
    (hstage : c.stage = .store result) (hrow : ∃ r ∈ s.images.rows, r.id = id) :
    Owns s.images c.user.id id := by
  obtain ⟨r, hr, hid⟩ := hrow
  obtain ⟨q, hq, hqid, howner⟩ := h.rows r hr
  have hstart := h.loaded c hc id hreq result hstage
  exact ⟨r, hr, hid, hstart.unique ⟨q, hq, hqid.trans hid, howner⟩ ▸ rfl⟩

variable (json router) in
theorem readsOwn_iff {t₀ : ImageTable} {s : State J} (h : Kept t₀ s) (a : Action) :
    ReadsOwn json router s a ↔ OwnerHit json s a := by
  cases a with
  | submit | expire => exact Iff.rfl
  | advance i env =>
    constructor
    · intro hreads c hc id hreq
      refine ⟨fun hstart hhit => ?_, fun result hstore => ?_⟩
      · obtain ⟨v, hv⟩ := Option.isSome_iff_exists.mp hhit
        refine hreads c hc id hreq (fun answer hdone => ?_) (.image v) ?_
        · rw [hstart] at hdone
          cases hdone
        · simp only [serve_getImage hreq, getImage, hstart, hv]
      · obtain ⟨r, hr, hid, -⟩ := hreads c hc id hreq (fun answer hdone => by
          rw [hstore] at hdone
          cases hdone) (.image result) (by simp only [serve_getImage hreq, getImage, hstore])
        exact ⟨r, hr, hid⟩
    · intro hhits c hc id hreq hgoing reply hok
      obtain ⟨hhit, hrow⟩ := hhits c hc id hreq
      rw [serve_getImage hreq] at hok
      rcases getImage_stage.2 reply hok with hdone | ⟨v, hstore⟩ | ⟨hstart, hsome⟩
      · exact absurd hdone (hgoing _)
      · exact h.owns (List.mem_of_getElem? hc) hreq hstore (hrow v hstore)
      · exact hhit hstart hsome

/-- A request is a `get_image`. -/
def Request.isGet : Request → Bool
  | .getImage _ => true
  | _ => false

/-- What the two runs agree on about a request: everything, unless it is another user's
`get_image`, whose progress may differ. -/
def view (u : Uuid) (c : Call) : AuthUser × Request × Option Stage :=
  (c.user, c.request, if c.user.id = u ∨ c.request.isGet = false then some c.stage else none)

/-- The stores of the two runs: equal but for what others put in the cache. -/
structure Alike (t₀ : ImageTable) (u : Uuid) (s t : State J) : Prop where
  images : s.images = t.images
  configs : s.configs = t.configs
  categories : s.categories = t.categories
  objects : s.objects = t.objects
  noop : s.cache.noop = t.cache.noop
  own : ∀ id, Owns t₀ u id →
    s.cache.entries (Cache.metaKey id) = t.cache.entries (Cache.metaKey id)
  foreign : ∀ id, ¬ Owns t₀ u id → t.cache.entries (Cache.metaKey id) = none

theorem answers_eq_of_view {u : Uuid} {s t : State J}
    (h : s.calls.map (view u) = t.calls.map (view u)) : answers u s = answers u t := by
  have hview : ∀ c : Call, (if c.user.id = u then some c.stage else none) =
      (fun w : AuthUser × Request × Option Stage => if w.1.id = u then w.2.2 else none)
        (view u c) := by
    intro c
    by_cases hu : c.user.id = u
    · simp [view, hu]
    · simp [view, hu]
  have hs : ∀ l : List Call, (l.map fun c => if c.user.id = u then some c.stage else none) =
      (l.map (view u)).map
        (fun w : AuthUser × Request × Option Stage => if w.1.id = u then w.2.2 else none) := by
    intro l
    rw [List.map_map]
    exact List.map_congr_left fun c _ => hview c
  rw [answers, answers, hs, hs, h]

namespace Alike

variable {t₀ : ImageTable} {u : Uuid} {s t : State J} (h : Alike t₀ u s t)
include h

/-- A cache entry is dropped in both runs. -/
theorem del (up : Bool) (id : Uuid) :
    Alike t₀ u { s with cache := (s.cache.del up (Cache.metaKey id)).2 }
      { t with cache := (t.cache.del up (Cache.metaKey id)).2 } := by
  refine ⟨h.images, h.configs, h.categories, h.objects, by simpa using h.noop,
    fun id' ho => ?_, fun id' ho => ?_⟩
  · rw [Cache.entries_del, Cache.entries_del, h.noop, h.own id' ho]
  · rw [Cache.entries_del, h.foreign id' ho, ite_self]

theorem expire (key : String) :
    Alike t₀ u { s with cache := s.cache.expire key } { t with cache := t.cache.expire key } := by
  refine ⟨h.images, h.configs, h.categories, h.objects, h.noop, fun id' ho => ?_,
    fun id' ho => ?_⟩
  · rw [Cache.entries_expire, Cache.entries_expire, h.own id' ho]
  · rw [Cache.entries_expire, h.foreign id' ho, ite_self]

/-- The user's own value is stored in both runs. -/
theorem setEx_own (up : Bool) {id : Uuid} (ho : Owns t₀ u id) (val : J) :
    Alike t₀ u { s with cache := (s.cache.setEx up (Cache.metaKey id) val).2 }
      { t with cache := (t.cache.setEx up (Cache.metaKey id) val).2 } := by
  refine ⟨h.images, h.configs, h.categories, h.objects, by simpa using h.noop,
    fun id' ho' => ?_, fun id' ho' => ?_⟩
  · rw [Cache.entries_setEx, Cache.entries_setEx, h.noop, h.own id' ho']
  · rw [Cache.entries_setEx, h.foreign id' ho', if_neg]
    rintro ⟨-, -, hk⟩
    rw [Cache.metaKey_injective hk] at ho'
    exact ho' ho

/-- Another user's value is stored in one run only. -/
theorem setEx_foreign (up : Bool) {id : Uuid} (ho : ¬ Owns t₀ u id) (val : J) :
    Alike t₀ u { s with cache := (s.cache.setEx up (Cache.metaKey id) val).2 } t := by
  refine ⟨h.images, h.configs, h.categories, h.objects, by simpa using h.noop,
    fun id' ho' => ?_, h.foreign⟩
  rw [Cache.entries_setEx, if_neg, h.own id' ho']
  rintro ⟨-, -, hk⟩
  rw [Cache.metaKey_injective hk] at ho'
  exact ho ho'

/-- The two runs find the same cached value, unless it is another user's. -/
theorem cachedValue_eq (env : Env) (id : Uuid)
    (hhit : (cachedValue json env id s).isSome → Owns t₀ u id) :
    cachedValue json env id s = cachedValue json env id t := by
  by_cases ho : Owns t₀ u id
  · simp only [cachedValue, Cache.get, h.noop, h.own id ho]
  · have hs : cachedValue json env id s = none := by
      by_contra hne
      exact ho (hhit (Option.isSome_iff_ne_none.mpr hne))
    rw [hs]
    simp only [cachedValue, Cache.get, h.foreign id ho]
    cases t.cache.noop <;> cases env.getUp <;> rfl

theorem fetchOwnRow_eq (id v : Uuid) : fetchOwnRow id v s = fetchOwnRow id v t := by
  simp only [fetchOwnRow, h.images, h.configs]

variable (json) in
/-- A `get_image` of the user goes the same way in both runs. -/
theorem getImage_own (env : Env) (user : AuthUser) (id : Uuid) (stage : Stage)
    (hstore : ∀ v, stage = .store v → Owns t₀ u id)
    (hhit : stage = .start → (cachedValue json env id s).isSome → Owns t₀ u id) :
    (getImage json env user id stage s).1 = (getImage json env user id stage t).1 ∧
    Alike t₀ u (getImage json env user id stage s).2 (getImage json env user id stage t).2 := by
  unfold getImage
  cases stage with
  | start =>
    simp only [h.cachedValue_eq env id (hhit rfl)]
    split <;> exact ⟨rfl, h⟩
  | load =>
    simp only [h.fetchOwnRow_eq]
    split <;> exact ⟨rfl, h⟩
  | store v => exact ⟨rfl, h.setEx_own env.setUp (hstore v rfl) _⟩
  | update | refetch | remove | evict | done => exact ⟨rfl, h⟩

/-- A `get_image` of another user, whose stores are lost in the second run. -/
theorem getImage_other (env : Env) {user user' : AuthUser} (id : Uuid) (stage stage' : Stage)
    (hstore : ∀ v, stage = .store v → ¬ Owns t₀ u id) :
    Alike t₀ u (getImage json env user id stage s).2
      (getImage json { env with setUp := false } user' id stage' t).2 := by
  have ht : (getImage json { env with setUp := false } user' id stage' t).2 = t := by
    unfold getImage
    cases stage' with
    | start => simp only; split <;> rfl
    | load => simp only; split <;> rfl
    | store v =>
      simp only [Cache.setEx]
      split <;> rfl
    | update | refetch | remove | evict | done => rfl
  rw [ht]
  unfold getImage
  cases stage with
  | start => simp only; split <;> exact h
  | load => simp only; split <;> exact h
  | store v => exact h.setEx_foreign env.setUp (hstore v rfl) _
  | update | refetch | remove | evict | done => exact h

/-- The other requests do not read the cache. -/
theorem renameImage_other (env : Env) (user : AuthUser) (id : Uuid) (name : String)
    (stage : Stage) :
    (renameImage env user id name stage s).1 = (renameImage env user id name stage t).1 ∧
    Alike t₀ u (renameImage env user id name stage s).2
      (renameImage env user id name stage t).2 := by
  unfold renameImage
  cases stage with
  | start => simp only; split <;> exact ⟨rfl, h⟩
  | update =>
    simp only [h.images]
    split
    · exact ⟨rfl, h⟩
    · split
      · exact ⟨rfl, h⟩
      · exact ⟨rfl, rfl, h.configs, h.categories, h.objects, h.noop, h.own, h.foreign⟩
  | refetch =>
    simp only [h.fetchOwnRow_eq]
    split <;> exact ⟨rfl, h⟩
  | evict reply => exact ⟨rfl, h.del env.delUp id⟩
  | load | store | remove | done => exact ⟨rfl, h⟩

theorem moveImage_other (env : Env) (user : AuthUser) (id : Uuid) (categoryId : Option Uuid)
    (stage : Stage) :
    (moveImage env user id categoryId stage s).1 = (moveImage env user id categoryId stage t).1 ∧
    Alike t₀ u (moveImage env user id categoryId stage s).2
      (moveImage env user id categoryId stage t).2 := by
  unfold moveImage
  cases stage with
  | start =>
    cases categoryId with
    | none => exact ⟨rfl, h⟩
    | some cat =>
      simp only [ensureCategoryOwned, h.categories]
      split <;> exact ⟨rfl, h⟩
  | update =>
    simp only [h.images]
    split
    · exact ⟨rfl, h⟩
    · split
      · exact ⟨rfl, h⟩
      · exact ⟨rfl, rfl, h.configs, h.categories, h.objects, h.noop, h.own, h.foreign⟩
  | evict reply => exact ⟨rfl, h.del env.delUp id⟩
  | load | store | refetch | remove | done => exact ⟨rfl, h⟩

theorem deleteImage_other (env : Env) (user : AuthUser) (id : Uuid) (stage : Stage) :
    (deleteImage router env user id stage s).1 = (deleteImage router env user id stage t).1 ∧
    Alike t₀ u (deleteImage router env user id stage s).2
      (deleteImage router env user id stage t).2 := by
  unfold deleteImage
  cases stage with
  | start =>
    simp only [deleteTarget, h.images]
    split
    · exact ⟨rfl, h⟩
    · exact ⟨rfl, h⟩
    · refine ⟨rfl, rfl, h.configs, h.categories, ?_, h.noop, h.own, h.foreign⟩
      simp only [h.objects]
  | remove =>
    simp only [h.images]
    split
    · exact ⟨rfl, h⟩
    · exact ⟨rfl, rfl, h.configs, h.categories, h.objects, h.noop, h.own, h.foreign⟩
  | evict reply => exact ⟨rfl, h.del env.delUp id⟩
  | load | store | update | refetch | done => exact ⟨rfl, h⟩

variable (json router) in
theorem serve_other (env : Env) (up : Bool) {c : Call} (hc : c.request.isGet = false) :
    (serve json router env c s).1 = (serve json router { env with setUp := up } c t).1 ∧
    Alike t₀ u (serve json router env c s).2
      (serve json router { env with setUp := up } c t).2 := by
  unfold serve
  cases hreq : c.request with
  | getImage id => simp [hreq, Request.isGet] at hc
  | renameImage id name => exact h.renameImage_other env c.user id name c.stage
  | moveImage id categoryId => exact h.moveImage_other env c.user id categoryId c.stage
  | deleteImage id => exact h.deleteImage_other env c.user id c.stage

theorem with_calls (cs ds : List Call) :
    Alike t₀ u { s with calls := cs } { t with calls := ds } :=
  ⟨h.images, h.configs, h.categories, h.objects, h.noop, h.own, h.foreign⟩

end Alike

theorem eq_of_view {u : Uuid} {c d : Call} (h : view u d = view u c) :
    d.user = c.user ∧ d.request = c.request ∧
      (c.user.id = u ∨ c.request.isGet = false → d = c) := by
  simp only [view, Prod.mk.injEq] at h
  obtain ⟨hu, hr, hst⟩ := h
  refine ⟨hu, hr, fun hc => ?_⟩
  rw [hu, hr, if_pos hc, if_pos hc, Option.some.injEq] at hst
  cases c
  cases d
  simp_all only

theorem view_hidden {u : Uuid} {user : AuthUser} {request : Request} (stage : Stage)
    (hu : user.id ≠ u) (hg : request.isGet = true) :
    view u ⟨user, request, stage⟩ = (user, request, none) := by
  simp [view, hu, hg]

/-- The two runs side by side. -/
structure Paired (t₀ : ImageTable) (u : Uuid) (s t : State J) : Prop where
  stores : Alike t₀ u s t
  calls : s.calls.map (view u) = t.calls.map (view u)

/-- A paired step, given what it does to the two requests and the two stores. -/
theorem Paired.set {t₀ : ImageTable} {u : Uuid} {s t : State J} (h : Paired t₀ u s t) {i : ℕ}
    {c d : Call} {x y : Stage × State J} (hstores : Alike t₀ u x.2 y.2)
    (hview : view u { c with stage := x.1 } = view u { d with stage := y.1 }) :
    Paired t₀ u { x.2 with calls := s.calls.set i { c with stage := x.1 } }
      { y.2 with calls := t.calls.set i { d with stage := y.1 } } := by
  refine ⟨hstores.with_calls _ _, ?_⟩
  simp only [List.map_set, h.calls, hview]

theorem getImage_of_isGet {request : Request} (h : request.isGet = true) :
    ∃ id, request = .getImage id := by
  cases request with
  | getImage id => exact ⟨id, rfl⟩
  | renameImage | moveImage | deleteImage => cases h

/-- A call of the user, at the same stage in both runs. -/
theorem Paired.own {t₀ : ImageTable} {u : Uuid} {s t : State J} (h : Paired t₀ u s t)
    (hs : Kept t₀ s) {i : ℕ} {env : Env} {c : Call} (hc : c ∈ s.calls)
    (hg : ∀ id, c.request = .getImage id → c.stage = .start →
      (cachedValue json env id s).isSome → Owns t₀ u id) (hu : c.user.id = u) :
    Paired t₀ u
      { (serve json router env c s).2 with
        calls := s.calls.set i { c with stage := (serve json router env c s).1 } }
      { (serve json router env c t).2 with
        calls := t.calls.set i { c with stage := (serve json router env c t).1 } } := by
  cases hget : c.request.isGet with
  | false =>
    obtain ⟨hst, hal⟩ := h.stores.serve_other json router env env.setUp hget
    exact h.set hal (by rw [hst])
  | true =>
    obtain ⟨id, hid⟩ := getImage_of_isGet hget
    obtain ⟨hst, hal⟩ := h.stores.getImage_own json env c.user id c.stage
      (fun v hv => hu ▸ hs.loaded c hc id hid v hv) (hg id hid)
    rw [serve_getImage hid, serve_getImage hid]
    exact h.set hal (by rw [hst])

/-- A call of another user, whose stores are lost in the second run. -/
theorem Paired.other {t₀ : ImageTable} {u : Uuid} {s t : State J} (h : Paired t₀ u s t)
    (hs : Kept t₀ s) {i : ℕ} {env : Env} {c d : Call} (hc : c ∈ s.calls)
    (hcd : view u d = view u c) (hu : c.user.id ≠ u) :
    Paired t₀ u
      { (serve json router env c s).2 with
        calls := s.calls.set i { c with stage := (serve json router env c s).1 } }
      { (serve json router { env with setUp := false } d t).2 with
        calls := t.calls.set i
          { d with stage := (serve json router { env with setUp := false } d t).1 } } := by
  obtain ⟨hdu, hdr, hsame⟩ := eq_of_view hcd
  cases hget : c.request.isGet with
  | false =>
    obtain ⟨hst, hal⟩ := h.stores.serve_other json router env false hget
    rw [hsame (.inr hget)]
    exact h.set hal (by rw [hst])
  | true =>
    obtain ⟨id, hid⟩ := getImage_of_isGet hget
    rw [serve_getImage hid, serve_getImage (hdr.trans hid)]
    refine h.set (h.stores.getImage_other env id c.stage d.stage fun v hv ho => ?_) ?_
    · exact hu ((hs.loaded c hc id hid v hv).unique ho)
    · rw [view_hidden _ hu hget, view_hidden _ (hdu ▸ hu) (hdr ▸ hget), hdu, hdr]

theorem Paired.step {t₀ : ImageTable} {u : Uuid} {s t : State J} (h : Paired t₀ u s t)
    (hs : Kept t₀ s) {a : Action} (hg : OwnerHit json s a) :
    Paired t₀ u (step json router s a) (step json router t (mute u t a)) := by
  cases a with
  | submit user request =>
    refine ⟨h.stores.with_calls _ _, ?_⟩
    simp only [mute, ImageCache.step, List.map_append, h.calls]
  | expire key => exact ⟨h.stores.expire key, h.calls⟩
  | advance i env =>
    have hview : (s.calls[i]?).map (view u) = (t.calls[i]?).map (view u) := by
      rw [← List.getElem?_map, ← List.getElem?_map, h.calls]
    cases hc : s.calls[i]? with
    | none =>
      have hd : t.calls[i]? = none := by
        rw [hc] at hview
        exact Option.map_eq_none_iff.mp hview.symm
      simpa only [mute, hd, Option.any_none, Bool.false_eq_true, if_false, ImageCache.step, hc]
        using h
    | some c =>
      obtain ⟨d, hd, hcd⟩ : ∃ d, t.calls[i]? = some d ∧ view u d = view u c := by
        rw [hc] at hview
        exact Option.map_eq_some_iff.mp hview.symm
      obtain ⟨hdu, -, hsame⟩ := eq_of_view hcd
      have hmem := List.mem_of_getElem? hc
      rw [step_advance hc]
      by_cases hu : c.user.id = u
      -- the user's own calls are made alike in both runs, those of others lose their stores
      · have hmute : mute u t (.advance i env) = .advance i env := by
          simp [mute, hd, hdu, hu]
        rw [hmute, step_advance hd, hsame (.inl hu)]
        exact h.own hs hmem (fun id hid hstart hhit =>
          hu ▸ ((hg c hc id hid).1 hstart hhit).of_rowsFrom hs.rows) hu
      · have hmute : mute u t (.advance i env) = .advance i { env with setUp := false } := by
          simp [mute, hd, hdu, hu]
        rw [hmute, step_advance hd]
        exact h.other hs hmem hcd hu

theorem Paired.run {t₀ : ImageTable} {u : Uuid} {s t : State J} (h : Paired t₀ u s t)
    (hs : Kept t₀ s) {as : List Action}
    (hg : AllSteps (ImageCache.step json router) (OwnerHit json) s as) :
    Paired t₀ u (as.foldl (ImageCache.step json router) s)
      (as.foldl (fun t a => ImageCache.step json router t (mute u t a)) t) := by
  induction as generalizing s t with
  | nil => exact h
  | cons a as ih => exact ih (h.step hs hg.1) (hs.step json router a) hg.2

theorem paired_fresh (t₀ : ImageTable) (u : Uuid) (s : State J)
    (hempty : s.cache.entries = fun _ => none) : Paired t₀ u s s := by
  refine ⟨⟨rfl, rfl, rfl, rfl, rfl, fun _ _ => rfl, fun id _ => ?_⟩, rfl⟩
  rw [hempty]

variable (json router) in
/-- Reads are isolated in exactly the runs in which nobody but the owner of a row that is there
ever finds it in the cache, and no row is deleted while it is read: the key of an entry does not
name the user it was loaded for. -/
theorem image_reads_isolated_iff (images : ImageTable) (configs : ConfigTable)
    (categories : List Category) (objects : Objects) (noop : Bool) (as : List Action) :
    let s : State J := State.fresh images configs categories objects noop
    (AllSteps (step json router) (ReadsOwn json router) s as ∧
      ∀ u, Unaffected json router u s as) ↔
    AllSteps (step json router) (OwnerHit json) s as := by
  intro s
  have hkept : Kept images s := kept_fresh images configs categories objects noop
  have hiff := allSteps_congr (J := Kept images) (fun _ a hs => hs.step json router a)
    (fun _ a hs => readsOwn_iff json router hs a) hkept as
  constructor
  · exact fun h => hiff.mp h.1
  · exact fun hg => ⟨hiff.mpr hg, fun u =>
      answers_eq_of_view ((paired_fresh images u s rfl).run hkept hg).calls⟩

/-- User 9 reads an image of its own, then user 7 asks for it. -/
def peekEnv : Env := ⟨none, true, true, true, fun _ => none⟩

def peekRun : List Action :=
  [.submit ⟨9, false, none⟩ (.getImage 1), .advance 0 peekEnv, .advance 0 peekEnv,
    .advance 0 peekEnv, .submit ⟨7, false, none⟩ (.getImage 1)]

def peekStart : State UploadResult :=
  State.fresh BatchDelete.strangersStore.images ⟨[], List.Pairwise.nil⟩ [] (fun _ => none) false

/-- The cached description of an image is handed to any user who knows its identifier. -/
theorem image_reads_not_isolated :
    ¬ ∀ as, AllSteps (step Codec.self BatchDelete.localRouter)
        (ReadsOwn Codec.self BatchDelete.localRouter) peekStart as ∧
      ∀ u, Unaffected Codec.self BatchDelete.localRouter u peekStart as := by
  intro h
  have hlast := (h (peekRun ++ [.advance 1 peekEnv])).1.last
  have hcall : (peekRun.foldl (step Codec.self BatchDelete.localRouter) peekStart).calls[1]? =
      some ⟨⟨7, false, none⟩, .getImage 1, .start⟩ := rfl
  have hhit : (cachedValue Codec.self peekEnv 1
      (peekRun.foldl (step Codec.self BatchDelete.localRouter) peekStart)).isSome = true := by
    decide +kernel
  obtain ⟨v, hv⟩ := Option.isSome_iff_exists.mp hhit
  obtain ⟨r, hr, -, howner⟩ := hlast _ hcall 1 rfl (fun _ hdone => by cases hdone) (.image v)
    (by simp only [serve, getImage, hv])
  have hr' : r = BatchDelete.strangersImage := by
    revert r
    decide +kernel
  rw [hr'] at howner
  exact absurd howner (by decide)

end Steps

end PicHost.ImageCache
