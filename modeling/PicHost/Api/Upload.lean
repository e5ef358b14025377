import PicHost.Api.UploadConfigs
import PicHost.Api.UploadResult

/-!
# Uploading an image

An upload to one configuration is a pipeline of calls to the database, the storage and the
queue. A request runs one or two pipelines; its steps interleave with those of others.
-/

namespace PicHost.Upload

open KeyedTable

/-- The server configuration and the libraries an upload calls. -/
structure Deps where
  isImage : Bytes → Bool
  sha256 : Bytes → String
  inferMime : Bytes → Option String
  imageDimensions : Bytes → Option ℤ × Option ℤ
  git : GitDeps
  encryptionKeyValid : Bool
  publicUrl : String
  maxFileSizeUser : ℕ
  maxFileSizeAdmin : ℕ

/-- The stores an upload reads and writes. -/
structure Stores where
  images : ImageTable
  configs : ConfigTable
  objects : Objects
  tasks : List TaskPayload
  router : StorageRouter

/-- What the outside contributes to one step. -/
structure Input where
  dbUp : Bool
  storageFault : Option FileTree.Fault
  queueUp : Bool
  draw : ℕ
  imageId : Uuid
  taskId : Uuid
  now : Instant
  day : String

/-- Where the upload to one configuration stands: the call it makes next, or its result. -/
inductive Pipeline
  | dedupExists
  | fetchDedupRow
  | forConfig
  | generatePublicKey (backend : Backend)
  | writeToStorage (backend : Backend) (publicKey : String)
  | insertImageRecord (backend : Backend) (publicKey storageKey url : String)
  | enqueue (backend : Backend) (imageId : Uuid) (publicKey storageKey url : String)
  | done (result : Except ApiError UploadResult)

inductive Stage
  | checkQuotas
  | resolveConfigs (seen : Option ℤ)
  | running (seen : Option ℤ) (branches : List (UserStorageConfig × Pipeline))
  | done (result : Except ApiError (List UploadResult))

/-- The arguments of `process_upload`. -/
structure UploadCtx where
  user : AuthUser
  bytes : Bytes
  fileName : String
  storageConfigIds : Option (List Uuid)

structure Request where
  ctx : UploadCtx
  stage : Stage

def internalError : ApiError := { status := 500, key := "common.internal_error" }

def saveFailed : ApiError := { status := 500, key := "upload.save_failed" }

/-- `i64` addition. -/
def addI64 (a b : ℤ) : ℤ := Int.bmod (a + b) (2 ^ 64)

/-- `SUM(file_size)` over a user's rows. -/
def usage (userId : Uuid) (images : ImageTable) : ℤ :=
  ((images.select fun r => r.userId == userId).map (·.fileSize)).sum

variable (deps : Deps)

def detectMime (bytes : Bytes) : String :=
  (deps.inferMime bytes).getD "application/octet-stream"

/-- Returns the usage it read, when there is a quota to check. -/
def checkUploadQuotas (inp : Input) (user : AuthUser) (fileSize : ℕ) (images : ImageTable) :
    Except ApiError (Option ℤ) :=
  let maxSize := if user.isAdmin then deps.maxFileSizeAdmin else deps.maxFileSizeUser
  if maxSize < fileSize then .error { status := 413, key := "upload.file_too_large" }
  else
    match user.storageQuota with
    | none => .ok none
    | some quota =>
      if inp.dbUp then
        -- read once: nothing is reserved for this upload until its row goes in
        let currentUsage := usage user.id images
        if quota < addI64 currentUsage fileSize then
          .error
            { status := 413
              key := "upload.quota_exceeded"
              extra := [("quota_bytes", quota), ("used_bytes", currentUsage),
                ("file_bytes", fileSize)] }
        else .ok (some currentUsage)
      else .error internalError

/-- `user_id=$1 AND sha256=$2 AND storage_config_id IS NOT DISTINCT FROM $3`. -/
def dedupWhere (userId : Uuid) (sha256 : String) (configId : Option Uuid) (r : Image) : Bool :=
  r.userId == userId && r.sha256 == sha256 && r.storageConfigId == configId

/-- Six hexadecimal digits of a random number. -/
def publicKeyOf (draw : ℕ) : String := String.ofList (Radix.hex.encode 6 (draw % 16 ^ 6))

def storageErrorResponse (e : StorageError) : ApiError :=
  match e with
  | .payloadTooLarge m => { status := 413, key := "storage_payload_too_large", args := [m] }
  | _ => { status := 500, key := "common.internal_error_detail", args := [e.toText] }

def sourceKey (userId : Uuid) (publicKey : String) : String := userId.toText ++ "/" ++ publicKey

/-- The URL of a stored object; local ones are served by the API. -/
def storedUrl (b : Backend) (publicKey storageKey : String) : String :=
  if b.backendName = "local" then trimEndSlash deps.publicUrl ++ "/u/" ++ publicKey
  else b.publicUrl storageKey

/-- The row `insert_image_record` writes, the columns it leaves out at their defaults. -/
def newImage (ctx : UploadCtx) (config : UserStorageConfig) (inp : Input)
    (publicKey storageKey url : String) : Image where
  id := inp.imageId
  userId := ctx.user.id
  publicKey := publicKey
  originalName := ctx.fileName
  storageKey := storageKey
  storageBackend := config.dbBackend
  mimeType := detectMime deps ctx.bytes
  fileSize := ctx.bytes.length
  width := (deps.imageDimensions ctx.bytes).1
  height := (deps.imageDimensions ctx.bytes).2
  sha256 := deps.sha256 ctx.bytes
  url := url
  thumbnailKey := none
  thumbnailUrl := none
  webpKey := none
  webpUrl := none
  status := "active"
  storageConfigId := config.dbConfigId
  categoryId := none
  createdAt := inp.now

def configInfo (config : UserStorageConfig) : StorageConfigInfo :=
  ⟨config.id, config.name, config.provider⟩

def buildResult (ctx : UploadCtx) (config : UserStorageConfig) (inp : Input) (id : Uuid)
    (publicKey url : String) : UploadResult where
  id := id
  publicKey := publicKey
  originalName := ctx.fileName
  url := url
  markdown := markdownLink ctx.fileName url
  html := htmlLink ctx.fileName url
  bbcode := bbcodeLink url
  sha256 := deps.sha256 ctx.bytes
  fileSize := ctx.bytes.length
  mimeType := detectMime deps ctx.bytes
  width := (deps.imageDimensions ctx.bytes).1
  height := (deps.imageDimensions ctx.bytes).2
  status := "active"
  thumbnailUrl := none
  webpUrl := none
  categoryId := none
  createdAt := inp.now
  storageConfig := some (configInfo config)

/-- The task of `enqueue_processing_task`. -/
def newTask (ctx : UploadCtx) (config : UserStorageConfig) (inp : Input) (backend : Backend)
    (imageId : Uuid) (storageKey : String) : TaskPayload where
  taskId := inp.taskId
  imageId := imageId
  userId := ctx.user.id
  storageBackend := backend.backendName
  storageConfigId := config.dbConfigId
  storageBackendName := backend.backendName
  sourceKey := storageKey
  sourceMime := detectMime deps ctx.bytes
  retryCount := 0
  maxRetries := 3

/-- One call of `upload_to_single_backend`. -/
def uploadToSingleBackend (ctx : UploadCtx) (config : UserStorageConfig) (inp : Input)
    (p : Pipeline) (s : Stores) : Pipeline × Stores :=
  let where_ := dedupWhere ctx.user.id (deps.sha256 ctx.bytes) config.dbConfigId
  match p with
  | .dedupExists =>
    if inp.dbUp then
      if s.images.anyRow where_ then (.fetchDedupRow, s) else (.forConfig, s)
    else (.done (.error internalError), s)
  -- a second statement: the row may have gone since `dedup_exists` saw it
  | .fetchDedupRow =>
    match inp.dbUp, (s.images.select where_).head? with
    | true, some r => (.done (.ok (UploadResult.fromRow (r.joinConfig s.configs))), s)
    | _, _ => (.done (.error internalError), s)
  | .forConfig =>
    match s.router.forConfig deps.git config with
    | (.ok backend, router) => (.generatePublicKey backend, { s with router })
    | (.error _, router) =>
      (.done (.error { status := 500, key := "upload.backend_resolve_failed" }), { s with router })
  | .generatePublicKey backend =>
    let key := publicKeyOf inp.draw
    if inp.dbUp then
      -- the source's loop: a key that is taken is drawn again
      if s.images.anyRow fun r => r.publicKey == key then (.generatePublicKey backend, s)
      else (.writeToStorage backend key, s)
    else (.done (.error internalError), s)
  | .writeToStorage backend publicKey =>
    match backend.put inp.storageFault inp.day (sourceKey ctx.user.id publicKey) ctx.bytes
        (detectMime deps ctx.bytes) s.objects with
    | (.ok storageKey, objects) =>
      (.insertImageRecord backend publicKey storageKey (storedUrl deps backend publicKey storageKey),
        { s with objects })
    -- what a failed write has left stays
    | (.error e, objects) => (.done (.error (storageErrorResponse e)), { s with objects })
  | .insertImageRecord backend publicKey storageKey url =>
    match inp.dbUp, s.images.insert (newImage deps ctx config inp publicKey storageKey url) with
    | true, some images =>
      (.enqueue backend inp.imageId publicKey storageKey url, { s with images })
    -- a unique index or the connection; the file is not taken back
    | _, _ => (.done (.error saveFailed), s)
  | .enqueue backend imageId publicKey storageKey url =>
    -- the answer is the same whether or not the queue took the task
    let result := buildResult deps ctx config inp imageId publicKey url
    if inp.queueUp then
      (.done (.ok result),
        { s with tasks := s.tasks ++ [newTask deps ctx config inp backend imageId storageKey] })
    else (.done (.ok result), s)
  | .done result => (.done result, s)

/-- `run_backend_uploads`: one pipeline, or two that are joined. -/
def runBackendUploads (configs : List UserStorageConfig) :
    List (UserStorageConfig × Pipeline) :=
  (configs.take 2).map fun c => (c, .dedupExists)

/-- The file is written and its row is not yet inserted. -/
def Pipeline.inserting : Pipeline → Bool
  | .insertImageRecord _ _ _ _ => true
  | _ => false

/-- The call it makes next can fail: neither enqueueing nor a result can. -/
def Pipeline.fallible : Pipeline → Bool
  | .enqueue _ _ _ _ _ | .done _ => false
  | _ => true

def Pipeline.result : Pipeline → Option (Except ApiError UploadResult)
  | .done result => some result
  | _ => none

/-- The results of the pipelines, once all of them have one. -/
def joined (branches : List (UserStorageConfig × Pipeline)) :
    Option (List (Except ApiError UploadResult)) :=
  branches.mapM fun b => b.2.result

/-- `Ok(vec![r0?, r1?])`: the first error in the order of the configurations. -/
def unwrapAll : List (Except ApiError UploadResult) → Except ApiError (List UploadResult)
  | [] => .ok []
  | .error e :: _ => .error e
  | .ok r :: rs => (unwrapAll rs).map (r :: ·)

/-- The stage of a request whose pipelines stand so: done when all of them are. -/
def settle (seen : Option ℤ) (branches : List (UserStorageConfig × Pipeline)) : Stage :=
  match joined branches with
  | some results => .done (unwrapAll results)
  | none => .running seen branches

/-- One call of `process_upload`; while pipelines run, `b` says which one moves. -/
def processUpload (b : ℕ) (inp : Input) (ctx : UploadCtx) (stage : Stage) (s : Stores) :
    Stage × Stores :=
  match stage with
  | .checkQuotas =>
    if deps.isImage ctx.bytes then
      match checkUploadQuotas deps inp ctx.user ctx.bytes.length s.images with
      | .error e => (.done (.error e), s)
      | .ok seen => (.resolveConfigs seen, s)
    else (.done (.error { status := 400, key := "upload.not_an_image" }), s)
  | .resolveConfigs seen =>
    match UploadConfigs.resolveUploadConfigs inp.dbUp inp.now ctx.user.id ctx.storageConfigIds
        s.configs with
    | .error e => (.done (.error e), s)
    | .ok configs =>
      match UploadConfigs.validateUploadConfigs configs with
      | .error e => (.done (.error e), s)
      | .ok () =>
        if deps.encryptionKeyValid then (.running seen (runBackendUploads configs), s)
        else (.done (.error { status := 500, key := "upload.encryption_key_invalid" }), s)
  | .running seen branches =>
    match branches[b]? with
    | none => (.running seen branches, s)
    | some (config, p) =>
      let (p', s') := uploadToSingleBackend deps ctx config inp p s
      (settle seen (branches.set b (config, p')), s')
  | .done result => (.done result, s)

/-- The requests being served and the stores they share. -/
structure World where
  stores : Stores
  requests : List Request

/-- A request comes in. -/
def World.submit (w : World) (ctx : UploadCtx) : World :=
  { w with requests := w.requests ++ [⟨ctx, .checkQuotas⟩] }

/-- Request `i` makes its next call. -/
def World.advance (w : World) (i b : ℕ) (inp : Input) : World :=
  match w.requests[i]? with
  | none => w
  | some req =>
    let (stage, stores) := processUpload deps b inp req.ctx req.stage w.stores
    ⟨stores, w.requests.set i { req with stage }⟩

/-- A request that nothing interleaves with; of an action the first part says which of its
pipelines moves. -/
def alone (ctx : UploadCtx) (w : Stage × Stores) (a : ℕ × Input) : Stage × Stores :=
  processUpload deps a.1 a.2 ctx w.1 w.2

/-- Why a call ends its pipeline with an error. -/
inductive Refused (ctx : UploadCtx) (config : UserStorageConfig) (inp : Input) :
    Pipeline → Stores → Prop
  | database {p s} (h : inp.dbUp = false) : Refused ctx config inp p s
  | rowGone {s} (h : ∀ r ∈ s.images.rows,
      dedupWhere ctx.user.id (deps.sha256 ctx.bytes) config.dbConfigId r = false) :
      Refused ctx config inp .fetchDedupRow s
  | resolve {s e} (h : (s.router.forConfig deps.git config).1 = .error e) :
      Refused ctx config inp .forConfig s
  | put {s backend publicKey e} (h : (backend.put inp.storageFault inp.day
      (sourceKey ctx.user.id publicKey) ctx.bytes (detectMime deps ctx.bytes) s.objects).1 =
        .error e) : Refused ctx config inp (.writeToStorage backend publicKey) s
  | insert {s backend publicKey storageKey url}
      (h : s.images.insert (newImage deps ctx config inp publicKey storageKey url) = none) :
      Refused ctx config inp (.insertImageRecord backend publicKey storageKey url) s

/-- What one call of `upload_to_single_backend` can do. -/
inductive Call (ctx : UploadCtx) (config : UserStorageConfig) (inp : Input) :
    Pipeline → Stores → Pipeline → Stores → Prop
  | found {s r} (hr : r ∈ s.images.rows)
      (hw : dedupWhere ctx.user.id (deps.sha256 ctx.bytes) config.dbConfigId r = true) :
      Call ctx config inp .dedupExists s .fetchDedupRow s
  | notFound {s} (hw : ∀ r ∈ s.images.rows,
      dedupWhere ctx.user.id (deps.sha256 ctx.bytes) config.dbConfigId r = false) :
      Call ctx config inp .dedupExists s .forConfig s
  | fetched {s r} (hr : r ∈ s.images.rows)
      (hw : dedupWhere ctx.user.id (deps.sha256 ctx.bytes) config.dbConfigId r = true) :
      Call ctx config inp .fetchDedupRow s
        (.done (.ok (UploadResult.fromRow (r.joinConfig s.configs)))) s
  | resolved {s backend router} (h : s.router.forConfig deps.git config = (.ok backend, router)) :
      Call ctx config inp .forConfig s (.generatePublicKey backend) { s with router }
  | keyTaken {s backend r} (hr : r ∈ s.images.rows) (hk : r.publicKey = publicKeyOf inp.draw) :
      Call ctx config inp (.generatePublicKey backend) s (.generatePublicKey backend) s
  | keyFree {s backend} (hk : ∀ r ∈ s.images.rows, r.publicKey ≠ publicKeyOf inp.draw) :
      Call ctx config inp (.generatePublicKey backend) s
        (.writeToStorage backend (publicKeyOf inp.draw)) s
  | written {s backend publicKey storageKey}
      (hk : storageKey = backend.storedKey inp.day (sourceKey ctx.user.id publicKey)
        (detectMime deps ctx.bytes)) :
      Call ctx config inp (.writeToStorage backend publicKey) s
        (.insertImageRecord backend publicKey storageKey
          (storedUrl deps backend publicKey storageKey))
        { s with
          objects := Function.update s.objects (backend.locate storageKey) (some ctx.bytes) }
  | inserted {s backend publicKey storageKey url images} (hdb : inp.dbUp = true)
      (h : s.images.insert (newImage deps ctx config inp publicKey storageKey url) = some images) :
      Call ctx config inp (.insertImageRecord backend publicKey storageKey url) s
        (.enqueue backend inp.imageId publicKey storageKey url) { s with images }
  | enqueued {s backend imageId publicKey storageKey url} (hqueue : inp.queueUp = true) :
      Call ctx config inp (.enqueue backend imageId publicKey storageKey url) s
        (.done (.ok (buildResult deps ctx config inp imageId publicKey url)))
        { s with tasks := s.tasks ++ [newTask deps ctx config inp backend imageId storageKey] }
  | notEnqueued {s backend imageId publicKey storageKey url} (hqueue : inp.queueUp = false) :
      Call ctx config inp (.enqueue backend imageId publicKey storageKey url) s
        (.done (.ok (buildResult deps ctx config inp imageId publicKey url))) s
  | refused {p s e} (router : StorageRouter) (h : Refused deps ctx config inp p s)
      (hp : p.fallible = true) (he : e = saveFailed ↔ p.inserting = true)
      (hrouter : router = s.router ∨ router = (s.router.forConfig deps.git config).2) :
      Call ctx config inp p s (.done (.error e)) { s with router }
  | cut {s backend publicKey fault written}
      (h : Refused deps ctx config inp (.writeToStorage backend publicKey) s)
      (hfault : inp.storageFault = some fault)
    (hleft : backend.left fault ctx.bytes = some written) :
      Call ctx config inp (.writeToStorage backend publicKey) s
        (.done (.error (storageErrorResponse (.writeFailed fault.message))))
        { s with
          objects := Function.update s.objects (backend.locate (backend.storedKey inp.day
            (sourceKey ctx.user.id publicKey) (detectMime deps ctx.bytes))) (some written) }
  | idle {s result} : Call ctx config inp (.done result) s (.done result) s

/-- What one call of `process_upload` can do. -/
inductive Advance (ctx : UploadCtx) (inp : Input) (b : ℕ) (s : Stores) :
    Stage → Stage → Stores → Prop
  | rejected {stage e} (h : stage = .checkQuotas ∨ ∃ seen, stage = .resolveConfigs seen) :
      Advance ctx inp b s stage (.done (.error e)) s
  | checked {seen}
      (h : checkUploadQuotas deps inp ctx.user ctx.bytes.length s.images = .ok seen) :
      Advance ctx inp b s .checkQuotas (.resolveConfigs seen) s
  | started {seen configs}
      (hr : UploadConfigs.resolveUploadConfigs inp.dbUp inp.now ctx.user.id
        ctx.storageConfigIds s.configs = .ok configs)
      (hv : UploadConfigs.validateUploadConfigs configs = .ok ()) :
      Advance ctx inp b s (.resolveConfigs seen) (.running seen (runBackendUploads configs)) s
  | moved {seen branches config p p' s'} (hb : branches[b]? = some (config, p))
      (hcall : Call deps ctx config inp p s p' s') :
      Advance ctx inp b s (.running seen branches) (settle seen (branches.set b (config, p'))) s'
  | idle {stage} (h : ∀ seen branches, stage = .running seen branches → branches[b]? = none) :
      Advance ctx inp b s stage stage s

variable {deps}

variable {ctx : UploadCtx} {config : UserStorageConfig} {inp : Input} {s : Stores}

theorem storageErrorResponse_ne (e : StorageError) : storageErrorResponse e ≠ saveFailed := by
  cases e <;> simp [storageErrorResponse, saveFailed]

theorem internalError_ne : internalError ≠ saveFailed := by decide

/-- A call that cannot reach the database ends its pipeline. -/
theorem Call.databaseDown {p : Pipeline} (hdb : inp.dbUp = false)
    (hp : p.fallible = true) {e : ApiError}
    (he : e = saveFailed ↔ p.inserting = true) :
    Call deps ctx config inp p s (.done (.error e)) s :=
  .refused s.router (.database hdb) hp he (.inl rfl)

/-- What the first call does: it looks for the content under the configuration. -/
theorem dedupExists_call (deps : Deps) (ctx : UploadCtx) (config : UserStorageConfig)
    (inp : Input) (s : Stores) :
    Call deps ctx config inp .dedupExists s
      (uploadToSingleBackend deps ctx config inp .dedupExists s).1
      (uploadToSingleBackend deps ctx config inp .dedupExists s).2 := by
  simp only [uploadToSingleBackend]
  split
  · split
    · rename_i hany
      obtain ⟨r, hr, hw⟩ := Table.anyRow_iff.mp hany
      exact .found hr hw
    · rename_i hany
      exact .notFound (Table.anyRow_eq_false.mp (Bool.eq_false_of_not_eq_true hany))
  · rename_i hdb
    exact .databaseDown (Bool.eq_false_of_not_eq_true hdb) rfl
      (iff_of_false internalError_ne Bool.false_ne_true)

/-- The row found can be gone when it is fetched. -/
theorem fetchDedupRow_call (deps : Deps) (ctx : UploadCtx) (config : UserStorageConfig)
    (inp : Input) (s : Stores) :
    Call deps ctx config inp .fetchDedupRow s
      (uploadToSingleBackend deps ctx config inp .fetchDedupRow s).1
      (uploadToSingleBackend deps ctx config inp .fetchDedupRow s).2 := by
  simp only [uploadToSingleBackend]
  split
  · rename_i r _ hhead
    obtain ⟨hr, hw⟩ := Table.mem_of_select_head? hhead
    exact .fetched hr hw
  · rename_i hno
    cases hdb : inp.dbUp with
    | false => exact .databaseDown hdb rfl (iff_of_false internalError_ne Bool.false_ne_true)
    | true =>
      refine .refused s.router (.rowGone fun r hr => ?_) rfl (by decide) (.inl rfl)
      cases hhead : (s.images.select
          (dedupWhere ctx.user.id (deps.sha256 ctx.bytes) config.dbConfigId)).head? with
      | some r => exact absurd hhead (hno r hdb)
      | none =>
        have hnil := List.head?_eq_none_iff.mp hhead
        exact Bool.eq_false_of_not_eq_true (List.filter_eq_nil_iff.mp hnil r hr)

theorem generatePublicKey_call (deps : Deps) (ctx : UploadCtx) (config : UserStorageConfig)
    (inp : Input) (backend : Backend) (s : Stores) :
    Call deps ctx config inp (.generatePublicKey backend) s
      (uploadToSingleBackend deps ctx config inp (.generatePublicKey backend) s).1
      (uploadToSingleBackend deps ctx config inp (.generatePublicKey backend) s).2 := by
  simp only [uploadToSingleBackend]
  split
  · split
    · rename_i hany
      obtain ⟨r, hr, hk⟩ := Table.anyRow_iff.mp hany
      exact .keyTaken hr (beq_iff_eq.mp hk)
    · rename_i hany
      refine .keyFree fun r hr => ?_
      have hno := Table.anyRow_eq_false.mp (Bool.eq_false_of_not_eq_true hany) r hr
      exact beq_eq_false_iff_ne.mp hno
  · rename_i hdb
    exact .databaseDown (Bool.eq_false_of_not_eq_true hdb) rfl
      (iff_of_false internalError_ne Bool.false_ne_true)

/-- A write that fails may leave a part of the file. -/
theorem writeToStorage_call (deps : Deps) (ctx : UploadCtx) (config : UserStorageConfig)
    (inp : Input) (backend : Backend) (publicKey : String) (s : Stores) :
    Call deps ctx config inp (.writeToStorage backend publicKey) s
      (uploadToSingleBackend deps ctx config inp (.writeToStorage backend publicKey) s).1
      (uploadToSingleBackend deps ctx config inp (.writeToStorage backend publicKey) s).2 := by
  simp only [uploadToSingleBackend]
  split
  · rename_i h
    obtain ⟨hk, ho⟩ := Backend.put_ok h
    rw [ho]
    exact .written hk
  · rename_i h
    have hrefused : Refused deps ctx config inp (.writeToStorage backend publicKey) s :=
      .put (congrArg Prod.fst h)
    rcases Backend.put_error h with rfl | ⟨fault, written, hfault, rfl, hleft, rfl⟩
    · exact .refused s.router hrefused rfl
        (iff_of_false (storageErrorResponse_ne _) Bool.false_ne_true) (.inl rfl)
    · exact .cut hrefused hfault hleft

theorem insertImageRecord_call (deps : Deps) (ctx : UploadCtx) (config : UserStorageConfig)
    (inp : Input) (backend : Backend) (publicKey storageKey url : String) (s : Stores) :
    let next := uploadToSingleBackend deps ctx config inp
      (.insertImageRecord backend publicKey storageKey url) s
    Call deps ctx config inp (.insertImageRecord backend publicKey storageKey url) s
      next.1 next.2 := by
  simp only [uploadToSingleBackend]
  split
  · rename_i hdb h
    exact .inserted hdb h
  · rename_i hno
    cases hdb : inp.dbUp with
    | false => exact .databaseDown hdb rfl (iff_of_true rfl rfl)
    | true =>
      cases h : s.images.insert (newImage deps ctx config inp publicKey storageKey url) with
      | some images => exact absurd h (hno images hdb)
      | none => exact .refused s.router (.insert h) rfl (iff_of_true rfl rfl) (.inl rfl)

/-- What a call does is one of the cases of `Call`. -/
theorem uploadToSingleBackend_call (deps : Deps) (ctx : UploadCtx) (config : UserStorageConfig)
    (inp : Input) (p : Pipeline) (s : Stores) :
    Call deps ctx config inp p s (uploadToSingleBackend deps ctx config inp p s).1
      (uploadToSingleBackend deps ctx config inp p s).2 := by
  cases p with
  | dedupExists => exact dedupExists_call deps ctx config inp s
  | fetchDedupRow => exact fetchDedupRow_call deps ctx config inp s
  | forConfig =>
    simp only [uploadToSingleBackend]
    split
    · rename_i h
      exact .resolved h
    · rename_i h
      exact .refused _ (.resolve (congrArg Prod.fst h)) rfl (by decide)
        (.inr (congrArg Prod.snd h).symm)
  | generatePublicKey backend => exact generatePublicKey_call deps ctx config inp backend s
  | writeToStorage backend publicKey =>
    exact writeToStorage_call deps ctx config inp backend publicKey s
  | insertImageRecord backend publicKey storageKey url =>
    exact insertImageRecord_call deps ctx config inp backend publicKey storageKey url s
  | enqueue backend imageId publicKey storageKey url =>
    simp only [uploadToSingleBackend]
    split
    · rename_i hqueue
      exact .enqueued hqueue
    · rename_i hqueue
      exact .notEnqueued (Bool.eq_false_of_not_eq_true hqueue)
  | done result => exact .idle

theorem joined_iff {branches : List (UserStorageConfig × Pipeline)}
    {results : List (Except ApiError UploadResult)} :
    joined branches = some results ↔ branches.map Prod.snd = results.map .done := by
  induction branches generalizing results with
  | nil => cases results <;> simp [joined]
  | cons branch branches ih =>
    obtain ⟨config, p⟩ := branch
    have hcons : joined ((config, p) :: branches) =
        p.result.bind fun r => (joined branches).map (r :: ·) := by
      simp only [joined, List.mapM_cons, Option.pure_def, Option.bind_eq_bind]
      cases p.result <;> cases branches.mapM fun b => b.2.result <;> rfl
    rw [hcons]
    cases results with
    | nil => cases p.result <;> cases joined branches <;> simp
    | cons r rs =>
      simp only [List.map_cons, List.cons.injEq, ← ih]
      cases p with
      | done result => cases joined branches <;> simp [Pipeline.result]
      | _ => simp [Pipeline.result]

theorem unwrapAll_ok {results : List (Except ApiError UploadResult)} {rs : List UploadResult}
    (h : unwrapAll results = .ok rs) : results = rs.map .ok := by
  induction results generalizing rs with
  | nil =>
    cases h
    rfl
  | cons result results ih =>
    cases result with
    | error e => cases h
    | ok r =>
      rw [unwrapAll] at h
      cases htail : unwrapAll results with
      | error e =>
        rw [htail] at h
        cases h
      | ok rs' =>
        rw [htail] at h
        cases h
        rw [ih htail, List.map_cons]

theorem unwrapAll_error {results : List (Except ApiError UploadResult)} {e : ApiError}
    (h : unwrapAll results = .error e) : .error e ∈ results := by
  induction results with
  | nil => cases h
  | cons result results ih =>
    cases result with
    | error e' =>
      cases h
      exact List.mem_cons_self
    | ok r =>
      rw [unwrapAll] at h
      cases htail : unwrapAll results with
      | ok rs =>
        rw [htail] at h
        cases h
      | error e' =>
        rw [htail] at h
        cases h
        exact List.mem_cons_of_mem _ (ih htail)

theorem joined_eq_none {branches : List (UserStorageConfig × Pipeline)}
    (h : joined branches = none) : ∃ branch ∈ branches, branch.2.result = none := by
  by_contra! hall
  have hmap : branches.map Prod.snd = (branches.filterMap fun b => b.2.result).map .done := by
    clear h
    induction branches with
    | nil => rfl
    | cons branch branches ih =>
      obtain ⟨config, p⟩ := branch
      have hp := hall _ List.mem_cons_self
      cases p with
      | done result =>
        simp only [List.map_cons, List.filterMap_cons, Pipeline.result, List.cons.injEq, true_and]
        exact ih fun b hb => hall b (List.mem_cons_of_mem _ hb)
      | _ => exact absurd rfl hp
  rw [joined_iff.mpr hmap] at h
  cases h

/-- Replacing an element by one with the same image leaves the images. -/
theorem map_set_of_eq {α β : Type} {f : α → β} {l : List α} {i : ℕ} {a a' : α}
    (h : l[i]? = some a) (hf : f a' = f a) : (l.set i a').map f = l.map f := by
  obtain ⟨hi, rfl⟩ := List.getElem?_eq_some_iff.mp h
  have hmap : f l[i] = (l.map f).get ⟨i, by rwa [List.length_map]⟩ := by simp
  rw [List.map_set, hf, hmap]
  exact List.set_getElem_self _

/-- A request runs on while one of its pipelines does. -/
theorem settle_cases (seen : Option ℤ) (branches : List (UserStorageConfig × Pipeline)) :
    (settle seen branches = .running seen branches ∧
      ∃ branch ∈ branches, branch.2.result = none) ∨
    ∃ results, settle seen branches = .done (unwrapAll results) ∧
      branches.map Prod.snd = results.map .done := by
  unfold settle
  split
  · rename_i results h
    exact .inr ⟨results, rfl, joined_iff.mp h⟩
  · rename_i h
    exact .inl ⟨rfl, joined_eq_none h⟩

/-- What a request does is one of the cases of `Advance`. -/
theorem processUpload_advance (deps : Deps) (b : ℕ) (inp : Input) (ctx : UploadCtx)
    (stage : Stage) (s : Stores) :
    Advance deps ctx inp b s stage (processUpload deps b inp ctx stage s).1
      (processUpload deps b inp ctx stage s).2 := by
  cases stage with
  | checkQuotas =>
    simp only [processUpload]
    split
    · split
      · exact .rejected (.inl rfl)
      · rename_i h
        exact .checked h
    · exact .rejected (.inl rfl)
  | resolveConfigs seen =>
    simp only [processUpload]
    split
    · exact .rejected (.inr ⟨seen, rfl⟩)
    · rename_i hr
      split
      · exact .rejected (.inr ⟨seen, rfl⟩)
      · rename_i hv
        split
        · exact .started hr hv
        · exact .rejected (.inr ⟨seen, rfl⟩)
  | running seen branches =>
    simp only [processUpload]
    split
    · rename_i hb
      exact .idle fun _ _ h => by
        cases h
        exact hb
    · rename_i config p hb
      exact .moved hb (uploadToSingleBackend_call deps ctx config inp p s)
  | done result =>
    simp only [processUpload]
    exact .idle (by simp)

/-- What one action does to the requests and the stores. -/
theorem World.advance_cases (deps : Deps) (w : World) (i b : ℕ) (inp : Input) :
    (w.requests[i]? = none ∧ w.advance deps i b inp = w) ∨
    ∃ ctx stage stage' s', w.requests[i]? = some ⟨ctx, stage⟩ ∧
      Advance deps ctx inp b w.stores stage stage' s' ∧
      w.advance deps i b inp = ⟨s', w.requests.set i ⟨ctx, stage'⟩⟩ := by
  cases hreq : w.requests[i]? with
  | none => exact .inl ⟨rfl, by simp only [World.advance, hreq]⟩
  | some req =>
    obtain ⟨ctx, stage⟩ := req
    refine .inr ⟨ctx, stage, _, _, rfl, processUpload_advance deps b inp ctx stage w.stores, ?_⟩
    simp only [World.advance, hreq]

/-- The bytes by which a PNG file is known. -/
def pngSignature : Bytes := [0x89, 0x50, 0x4E, 0x47]

/-- A server with the local backend only, for runs on fixed inputs. -/
def smallDeps : Deps where
  isImage bytes := pngSignature.isPrefixOf bytes
  sha256 bytes := toString bytes
  inferMime bytes := if pngSignature.isPrefixOf bytes then some "image/png" else none
  imageDimensions _ := (none, none)
  git := ⟨.ok, fun _ => "missing field"⟩
  encryptionKeyValid := true
  publicUrl := "http://pics"
  maxFileSizeUser := 100
  maxFileSizeAdmin := 100

def emptyStores : Stores where
  images := default
  configs := default
  objects _ := none
  tasks := []
  router := initStorageBackends "/data" "http://pics" none "local" fun _ => 0

def demoCtx : UploadCtx := ⟨⟨7, false, none⟩, pngSignature ++ [1, 2, 3], "a.png", none⟩

/-- Every call succeeds. -/
def smoothInput (id : Uuid) (draw : ℕ) : Input := ⟨true, none, true, draw, id, id, 0, "2026/01/01"⟩

end PicHost.Upload
