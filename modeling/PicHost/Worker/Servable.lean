import PicHost.Worker.Serving

/-!
# What an upload returned stays servable

A row's file is the one its upload wrote: no other pipeline holds its key while it is written
and the worker writes under longer keys. The worker changes the status of a row, which
decides whether the file is served.
-/

namespace PicHost.Serving

open LabelledRun KeyedTable Upload

variable (deps : Deps) (dir : Directory) (order : List String → ℕ)

/-- Pipeline `b` of request `i` stands at `p`. -/
def At (requests : List Request) (i b : ℕ) (ctx : UploadCtx) (config : UserStorageConfig)
    (p : Pipeline) : Prop :=
  ∃ seen branches, requests[i]? = some ⟨ctx, .running seen branches⟩ ∧
    branches[b]? = some (config, p)

/-- Pipeline `b` of request `i` has drawn the key and not yet inserted it. -/
def Holds (requests : List Request) (i b : ℕ) (publicKey : String) : Prop :=
  ∃ ctx config p, At requests i b ctx config p ∧ Pipeline.drawnKey p = some publicKey

/-- Where the file of a key is. -/
def place (userId : Uuid) (publicKey : String) : Location :=
  dir.backend.locate (sourceKey userId publicKey)

/-- A row and the file it stands for. -/
structure Stored (ctxs : List UploadCtx) (objects : Objects) (r : Image) : Prop where
  backend : r.storageBackend = "local"
  keyLength : r.publicKey.length = 6
  storageKey : r.storageKey = sourceKey r.userId r.publicKey
  file : ∃ ctx ∈ ctxs, r.sha256 = deps.sha256 ctx.bytes ∧
    r.mimeType = detectMime deps ctx.bytes ∧
    objects (place dir r.userId r.publicKey) = some ctx.bytes

/-- A row with the key for a file with this digest. -/
def HasRow (images : ImageTable) (ctx : UploadCtx) (publicKey : String) : Prop :=
  ∃ r ∈ images.rows, r.publicKey = publicKey ∧ r.sha256 = deps.sha256 ctx.bytes

/-- What holds where a pipeline stands. -/
def OnTrack (s : Stores) (ctx : UploadCtx) : Pipeline → Prop
  | .generatePublicKey backend => backend = dir.backend
  | .writeToStorage backend publicKey => backend = dir.backend ∧ publicKey.length = 6
  | .insertImageRecord backend publicKey storageKey _ =>
    backend = dir.backend ∧ publicKey.length = 6 ∧
      storageKey = sourceKey ctx.user.id publicKey ∧
      s.objects (place dir ctx.user.id publicKey) = some ctx.bytes
  | .enqueue _ _ publicKey _ _ => HasRow deps s.images ctx publicKey
  | .done (.ok r) => HasRow deps s.images ctx r.publicKey
  | _ => True

structure Sound (w : World) : Prop where
  router : w.stores.router = dir.router order
  configs : ∀ c ∈ w.stores.configs.rows, c.provider = "local"
  pipelines : ∀ i b ctx config p, At w.requests i b ctx config p →
    config.provider = "local" ∧ OnTrack deps dir w.stores ctx p
  results : ∀ (i : ℕ) (ctx : UploadCtx) results,
    w.requests[i]? = some ⟨ctx, .done (.ok results)⟩ →
    ∀ r ∈ results, HasRow deps w.stores.images ctx r.publicKey
  rows : ∀ r ∈ w.stores.images.rows,
    Stored deps dir (w.requests.map Request.ctx) w.stores.objects r
  held : ∀ i b i' b' publicKey, Holds w.requests i b publicKey → Holds w.requests i' b' publicKey →
    i = i' ∧ b = b'
  fresh : ∀ i b publicKey, Holds w.requests i b publicKey →
    ∀ r ∈ w.stores.images.rows, r.publicKey ≠ publicKey
  digests : ∀ ctx ∈ w.requests.map Request.ctx, ∀ ctx' ∈ w.requests.map Request.ctx,
    deps.sha256 ctx.bytes = deps.sha256 ctx'.bytes → ctx.bytes = ctx'.bytes

/-- A task an upload enqueued, up to its retry count. -/
def FromUpload (tasks : List TaskPayload) (task : TaskPayload) : Prop :=
  ∃ task₀ ∈ tasks, task₀.taskId = task.taskId ∧ task₀.imageId = task.imageId

structure Consistent {Img : Type} (s : System Img) : Prop where
  sound : Sound deps dir order s.uploads
  router : s.router = dir.router order
  status : ∀ r ∈ s.uploads.stores.images.rows, checkImageStatus r.status = true ∨
    r.status = "failed" ∧ ∃ task ∈ s.uploads.stores.tasks, task.imageId = r.id ∧
      task.taskId ∈ s.queue.dead
  queued : ∀ taskId task, s.queue.data taskId = some task →
    task.taskId = taskId ∧ FromUpload s.uploads.stores.tasks task
  held : ∀ hold ∈ s.held, FromUpload s.uploads.stores.tasks hold.1 ∧
    (∀ backend, hold.2.backend = some backend → backend = dir.backend) ∧
    (hold.2 = .handleDeadLetter → hold.1.taskId ∈ s.queue.dead)

variable {deps dir order}

theorem sourceKey_injective {userId userId' : Uuid} {key key' : String}
    (h : sourceKey userId key = sourceKey userId' key') : key = key' := by
  have hlist := congrArg String.toList h
  simp only [sourceKey, String.toList_append] at hlist
  have hlen : userId.toText.toList.length = userId'.toText.toList.length := by
    simp only [String.length_toList, Uuid.length_toText]
  have htail := (List.append_inj hlist (by simp [hlen])).2
  exact String.toList_injective htail

theorem place_injective {userId userId' : Uuid} {key key' : String}
    (h : place dir userId key = place dir userId' key') : key = key' := by
  simp only [place, Directory.backend, Backend.locate, Location.file.injEq, true_and] at h
  exact sourceKey_injective h

theorem length_publicKeyOf (draw : ℕ) : (publicKeyOf draw).length = 6 := by
  rw [publicKeyOf, ← String.length_toList, String.toList_ofList, Radix.hex.length_encode]

theorem thumbKey_eq (task : TaskPayload) :
    Worker.thumbKey task = sourceKey task.userId ("thumb." ++ task.imageId.toText) := by
  have h : "/thumb." = "/" ++ "thumb." := rfl
  simp only [Worker.thumbKey, sourceKey, h, String.append_assoc]

theorem webpKey_eq (task : TaskPayload) :
    Worker.webpKey task = sourceKey task.userId ("webp." ++ task.imageId.toText) := by
  have h : "/webp." = "/" ++ "webp." := rfl
  simp only [Worker.webpKey, sourceKey, h, String.append_assoc]

theorem defaultBackend_router : (dir.router order).defaultBackend = dir.backend := rfl

theorem forBackend_local : (dir.router order).forBackend "local" = dir.backend := rfl

variable (dir order) in
/-- A `local` configuration resolves to the directory and leaves the router alone. -/
theorem forConfig_local (git : GitDeps) {config : UserStorageConfig}
    (h : config.provider = "local") :
    (dir.router order).forConfig git config = (.ok dir.backend, dir.router order) := by
  simp only [StorageRouter.forConfig, h, if_true, defaultBackend_router]

theorem map_ctx_set {requests : List Request} {i : ℕ} {ctx : UploadCtx} {stage : Stage}
    (stage' : Stage) (h : requests[i]? = some ⟨ctx, stage⟩) :
    (requests.set i ⟨ctx, stage'⟩).map Request.ctx = requests.map Request.ctx :=
  map_set_of_eq h rfl

theorem getElem?_set_cases {requests : List Request} {i i' : ℕ} {req req' : Request}
    (h : (requests.set i req)[i']? = some req') :
    i' ≠ i ∧ requests[i']? = some req' ∨ i' = i ∧ req' = req := by
  by_cases hi : i' = i
  · subst hi
    rw [List.getElem?_set_self'] at h
    cases hold : requests[i']? with
    | none =>
      rw [hold] at h
      cases h
    | some old =>
      rw [hold] at h
      cases h
      exact .inr ⟨rfl, rfl⟩
  · rw [List.getElem?_set_ne (Ne.symm hi)] at h
    exact .inl ⟨hi, h⟩

/-- A request that comes in has no pipelines. -/
theorem At.of_submit {requests : List Request} {i b : ℕ} {ctx new : UploadCtx}
    {config : UserStorageConfig} {p : Pipeline}
    (h : At (requests ++ [⟨new, .checkQuotas⟩]) i b ctx config p) :
    At requests i b ctx config p := by
  obtain ⟨seen, branches, hreq, hb⟩ := h
  rcases getElem?_append_singleton.mp hreq with hreq | ⟨-, heq⟩
  · exact ⟨seen, branches, hreq, hb⟩
  · cases heq

/-- A pipeline after one request has changed its stage. -/
theorem At.of_set {requests : List Request} {i i' b : ℕ} {ctx ctx' : UploadCtx} {stage' : Stage}
    {config : UserStorageConfig} {p : Pipeline}
    (h : At (requests.set i ⟨ctx, stage'⟩) i' b ctx' config p) :
    i' ≠ i ∧ At requests i' b ctx' config p ∨
    i' = i ∧ ctx' = ctx ∧ ∃ seen branches, stage' = .running seen branches ∧
      branches[b]? = some (config, p) := by
  obtain ⟨seen, branches, hreq, hb⟩ := h
  rcases getElem?_set_cases hreq with ⟨hi, hreq⟩ | ⟨hi, heq⟩
  · exact .inl ⟨hi, seen, branches, hreq, hb⟩
  · obtain ⟨rfl, rfl⟩ := Request.mk.inj heq
    exact .inr ⟨hi, rfl, seen, branches, rfl, hb⟩

variable (deps dir) in
/-- A pipeline of a request's new stage: one that stays, or the one that moved to `p`, with
a key of its own if it has one. -/
def Fits (w : World) (i b₀ : ℕ) (ctx : UploadCtx) (b : ℕ) (config : UserStorageConfig)
    (p : Pipeline) : Prop :=
  b ≠ b₀ ∧ At w.requests i b ctx config p ∨
  config.provider = "local" ∧ OnTrack deps dir w.stores ctx p ∧
    ∀ publicKey, Pipeline.drawnKey p = some publicKey → b = b₀ ∧
      (∀ r ∈ w.stores.images.rows, r.publicKey ≠ publicKey) ∧
      ∀ i' b', Holds w.requests i' b' publicKey → i' = i ∧ b' = b₀

theorem Holds.of_set {w : World} {i b₀ : ℕ} {ctx : UploadCtx} {stage' : Stage}
    (hfits : ∀ seen branches, stage' = .running seen branches → ∀ b config p,
      branches[b]? = some (config, p) → Fits deps dir w i b₀ ctx b config p)
    {i' b : ℕ} {publicKey : String}
    (h : Holds (w.requests.set i ⟨ctx, stage'⟩) i' b publicKey) :
    Holds w.requests i' b publicKey ∧ ¬ (i' = i ∧ b = b₀) ∨
    (i' = i ∧ b = b₀) ∧ (∀ r ∈ w.stores.images.rows, r.publicKey ≠ publicKey) ∧
      ∀ i'' b'', Holds w.requests i'' b'' publicKey → i'' = i ∧ b'' = b₀ := by
  obtain ⟨ctx', config, p, hat, hk⟩ := h
  rcases hat.of_set with ⟨hi, hat⟩ | ⟨rfl, rfl, seen, branches, hstage, hb⟩
  · exact .inl ⟨⟨_, _, _, hat, hk⟩, fun heq => hi heq.1⟩
  · rcases hfits seen branches hstage b config p hb with ⟨hne, hat⟩ | ⟨-, -, hnew⟩
    · exact .inl ⟨⟨_, _, _, hat, hk⟩, fun heq => hne heq.2⟩
    · obtain ⟨hb₀, hfresh, hown⟩ := hnew publicKey hk
      exact .inr ⟨⟨rfl, hb₀⟩, hfresh, hown⟩

/-- A request that changes its stage and not the stores. -/
theorem Sound.restage {w : World} (h : Sound deps dir order w) {i : ℕ} (b₀ : ℕ)
    {ctx : UploadCtx} {stage stage' : Stage} (hreq : w.requests[i]? = some ⟨ctx, stage⟩)
    (hfits : ∀ seen branches, stage' = .running seen branches → ∀ b config p,
      branches[b]? = some (config, p) → Fits deps dir w i b₀ ctx b config p)
    (hdone : ∀ results, stage' = .done (.ok results) → ∀ r ∈ results,
      HasRow deps w.stores.images ctx r.publicKey) :
    Sound deps dir order ⟨w.stores, w.requests.set i ⟨ctx, stage'⟩⟩ where
  router := h.router
  configs := h.configs
  pipelines i' b ctx' config p hat := by
    rcases hat.of_set with ⟨-, hat⟩ | ⟨rfl, rfl, seen, branches, hstage, hb⟩
    · exact h.pipelines i' b ctx' config p hat
    · rcases hfits seen branches hstage b config p hb with ⟨-, hat⟩ | ⟨hlocal, htrack, -⟩
      · exact h.pipelines i' b ctx' config p hat
      · exact ⟨hlocal, htrack⟩
  results i' ctx' results hreq' := by
    rcases getElem?_set_cases hreq' with ⟨-, hreq'⟩ | ⟨-, heq⟩
    · exact h.results i' ctx' results hreq'
    · obtain ⟨rfl, rfl⟩ := Request.mk.inj heq
      exact hdone results rfl
  rows := by
    simp only [map_ctx_set stage' hreq]
    exact h.rows
  held i₁ b₁ i₂ b₂ publicKey h₁ h₂ := by
    rcases h₁.of_set hfits with ⟨h₁, hne₁⟩ | ⟨heq₁, -, hown₁⟩ <;>
      rcases h₂.of_set hfits with ⟨h₂, hne₂⟩ | ⟨heq₂, -, hown₂⟩
    · exact h.held i₁ b₁ i₂ b₂ publicKey h₁ h₂
    · exact absurd (hown₂ i₁ b₁ h₁) hne₁
    · exact absurd (hown₁ i₂ b₂ h₂) hne₂
    · exact ⟨heq₁.1.trans heq₂.1.symm, heq₁.2.trans heq₂.2.symm⟩
  fresh i' b publicKey hholds := by
    rcases hholds.of_set hfits with ⟨hholds, -⟩ | ⟨-, hfresh, -⟩
    · exact h.fresh i' b publicKey hholds
    · exact hfresh
  digests := by
    simp only [map_ctx_set stage' hreq]
    exact h.digests

/-- A write that leaves the files of the rows and of the pipelines about to insert one. -/
theorem Sound.write {w : World} (h : Sound deps dir order w) (objects : Objects)
    (hrows : ∀ r ∈ w.stores.images.rows, objects (place dir r.userId r.publicKey) =
      w.stores.objects (place dir r.userId r.publicKey))
    (hpipelines : ∀ i b ctx config backend publicKey storageKey url,
      At w.requests i b ctx config (.insertImageRecord backend publicKey storageKey url) →
      publicKey.length = 6 → objects (place dir ctx.user.id publicKey) =
        w.stores.objects (place dir ctx.user.id publicKey)) :
    Sound deps dir order ⟨{ w.stores with objects }, w.requests⟩ where
  router := h.router
  configs := h.configs
  pipelines i b ctx config p hat := by
    obtain ⟨hlocal, htrack⟩ := h.pipelines i b ctx config p hat
    refine ⟨hlocal, ?_⟩
    cases p with
    | insertImageRecord backend publicKey storageKey url =>
      obtain ⟨hbackend, hlen, hkey, hfile⟩ := htrack
      exact ⟨hbackend, hlen, hkey,
        (hpipelines i b ctx config backend publicKey storageKey url hat hlen).trans hfile⟩
    | done result => cases result <;> exact htrack
    | _ => exact htrack
  results := h.results
  rows r hr := by
    obtain ⟨hbackend, hlen, hkey, ctx, hctx, hsha, hmime, hfile⟩ := h.rows r hr
    exact ⟨hbackend, hlen, hkey, ctx, hctx, hsha, hmime, (hrows r hr).trans hfile⟩
  held := h.held
  fresh := h.fresh
  digests := h.digests

/-- The columns a row is served by; the worker writes the others. -/
structure SameSource (r r' : Image) : Prop where
  id : r'.id = r.id
  publicKey : r'.publicKey = r.publicKey
  userId : r'.userId = r.userId
  sha256 : r'.sha256 = r.sha256
  storageBackend : r'.storageBackend = r.storageBackend
  storageKey : r'.storageKey = r.storageKey
  mimeType : r'.mimeType = r.mimeType

theorem Stored.of_sameSource {ctxs : List UploadCtx} {objects : Objects} {r r' : Image}
    (hr : SameSource r r') (h : Stored deps dir ctxs objects r) :
    Stored deps dir ctxs objects r' := by
  obtain ⟨hbackend, hlen, hkey, hfile⟩ := h
  refine ⟨?_, ?_, ?_, ?_⟩
  · rw [hr.storageBackend, hbackend]
  · rw [hr.publicKey, hlen]
  · rw [hr.storageKey, hr.userId, hr.publicKey, hkey]
  · rw [hr.sha256, hr.mimeType, hr.userId, hr.publicKey]
    exact hfile

theorem OnTrack.of_rows {s : Stores} {images : ImageTable} {ctx : UploadCtx} {p : Pipeline}
    (hrows : ∀ publicKey, HasRow deps s.images ctx publicKey → HasRow deps images ctx publicKey)
    (h : OnTrack deps dir s ctx p) : OnTrack deps dir { s with images } ctx p := by
  cases p with
  | enqueue => exact hrows _ h
  | done result =>
    cases result with
    | error e => exact h
    | ok r => exact hrows _ h
  | _ => exact h

theorem HasRow.of_sameSource {images images' : ImageTable} {ctx : UploadCtx} {publicKey : String}
    (hold : ∀ r ∈ images.rows, ∃ r' ∈ images'.rows, SameSource r r') :
    HasRow deps images ctx publicKey → HasRow deps images' ctx publicKey := by
  rintro ⟨r, hr, rfl, hsha⟩
  obtain ⟨r', hr', hsame⟩ := hold r hr
  exact ⟨r', hr', hsame.publicKey, hsame.sha256.trans hsha⟩

/-- Rows stay what they are served by; new ones have a key no pipeline holds. -/
theorem Sound.images {w : World} (h : Sound deps dir order w) {images : ImageTable}
    (hold : ∀ r ∈ w.stores.images.rows, ∃ r' ∈ images.rows, SameSource r r')
    (hnew : ∀ r' ∈ images.rows, (∃ r ∈ w.stores.images.rows, SameSource r r') ∨
      Stored deps dir (w.requests.map Request.ctx) w.stores.objects r' ∧
        ∀ i b, ¬ Holds w.requests i b r'.publicKey) :
    Sound deps dir order ⟨{ w.stores with images }, w.requests⟩ where
  router := h.router
  configs := h.configs
  pipelines i b ctx config p hat := by
    obtain ⟨hlocal, htrack⟩ := h.pipelines i b ctx config p hat
    exact ⟨hlocal, htrack.of_rows fun _ => .of_sameSource hold⟩
  results i ctx results hreq r hr := (h.results i ctx results hreq r hr).of_sameSource hold
  rows r' hr' := by
    rcases hnew r' hr' with ⟨r, hr, hsame⟩ | ⟨hstored, -⟩
    · exact (h.rows r hr).of_sameSource hsame
    · exact hstored
  held := h.held
  fresh i b publicKey hholds r' hr' := by
    rcases hnew r' hr' with ⟨r, hr, hsame⟩ | ⟨-, hfree⟩
    · rw [hsame.publicKey]
      exact h.fresh i b publicKey hholds r hr
    · rintro rfl
      exact hfree i b hholds
  digests := h.digests

/-- The queue plays no part. -/
theorem Sound.withTasks {w : World} (h : Sound deps dir order w) (tasks : List TaskPayload) :
    Sound deps dir order ⟨{ w.stores with tasks }, w.requests⟩ :=
  ⟨h.router, h.configs, h.pipelines, h.results, h.rows, h.held, h.fresh, h.digests⟩

theorem SameSource.refl (r : Image) : SameSource r r := ⟨rfl, rfl, rfl, rfl, rfl, rfl, rfl⟩

/-- The stage of a request whose pipeline `b₀` has moved to `p`. -/
theorem fits_settle {w : World} {i b₀ : ℕ} {ctx : UploadCtx} {seen : Option ℤ}
    {branches : List (UserStorageConfig × Pipeline)} {config : UserStorageConfig} {p : Pipeline}
    (hreq : w.requests[i]? = some ⟨ctx, .running seen branches⟩)
    (hp : Fits deps dir w i b₀ ctx b₀ config p) {seen' : Option ℤ}
    {branches' : List (UserStorageConfig × Pipeline)}
    (hstage : settle seen (branches.set b₀ (config, p)) = .running seen' branches') :
    ∀ b config' p', branches'[b]? = some (config', p') →
      Fits deps dir w i b₀ ctx b config' p' := by
  intro b config' p' hb
  rcases settle_cases seen (branches.set b₀ (config, p)) with ⟨hrun, -⟩ | ⟨results, hdone, -⟩
  · rw [hrun] at hstage
    cases hstage
    by_cases hbb : b = b₀
    · subst hbb
      rw [List.getElem?_set_self'] at hb
      cases hold : branches[b]? with
      | none =>
        rw [hold] at hb
        cases hb
      | some old =>
        rw [hold] at hb
        cases hb
        exact hp
    · rw [List.getElem?_set_ne (Ne.symm hbb)] at hb
      exact .inl ⟨hbb, seen, branches, hreq, hb⟩
  · rw [hdone] at hstage
    cases hstage

theorem hasRow_settle {w : World} (h : Sound deps dir order w) {i b₀ : ℕ} {ctx : UploadCtx}
    {seen : Option ℤ} {branches : List (UserStorageConfig × Pipeline)}
    {config : UserStorageConfig} {p : Pipeline}
    (hreq : w.requests[i]? = some ⟨ctx, .running seen branches⟩)
    (hp : OnTrack deps dir w.stores ctx p) {results : List UploadResult}
    (hstage : settle seen (branches.set b₀ (config, p)) = .done (.ok results)) :
    ∀ r ∈ results, HasRow deps w.stores.images ctx r.publicKey := by
  intro r hr
  rcases settle_cases seen (branches.set b₀ (config, p)) with ⟨hrun, -⟩ | ⟨all, hdone, hmap⟩
  · rw [hrun] at hstage
    cases hstage
  · rw [hdone] at hstage
    have hall := unwrapAll_ok (Stage.done.inj hstage)
    have hmem : Pipeline.done (.ok r) ∈ (branches.set b₀ (config, p)).map Prod.snd := by
      rw [hmap, hall, List.map_map]
      exact List.mem_map_of_mem hr
    obtain ⟨⟨config', p'⟩, hbranch, rfl⟩ := List.mem_map.mp hmem
    rcases List.mem_or_eq_of_mem_set hbranch with hold | hnew
    · obtain ⟨b, hb⟩ := List.mem_iff_getElem?.mp hold
      exact (h.pipelines i b ctx config' _ ⟨seen, branches, hreq, hb⟩).2
    · cases hnew
      exact hp

/-- A pipeline that moves without touching the stores. -/
theorem Sound.settle {w : World} (h : Sound deps dir order w) {i : ℕ} (b₀ : ℕ) {ctx : UploadCtx}
    {seen : Option ℤ} {branches : List (UserStorageConfig × Pipeline)}
    {config : UserStorageConfig} {p : Pipeline}
    (hreq : w.requests[i]? = some ⟨ctx, .running seen branches⟩)
    (hlocal : config.provider = "local") (htrack : OnTrack deps dir w.stores ctx p)
    (hkey : ∀ publicKey, Pipeline.drawnKey p = some publicKey →
      (∀ r ∈ w.stores.images.rows, r.publicKey ≠ publicKey) ∧
      ∀ i' b', Holds w.requests i' b' publicKey → i' = i ∧ b' = b₀) :
    Sound deps dir order
      ⟨w.stores, w.requests.set i ⟨ctx, Upload.settle seen (branches.set b₀ (config, p))⟩⟩ :=
  h.restage b₀ hreq
    (fun _ _ hstage => fits_settle hreq
      (.inr ⟨hlocal, htrack, fun publicKey hk => ⟨rfl, hkey publicKey hk⟩⟩) hstage)
    fun _ hstage => hasRow_settle h hreq htrack hstage

theorem place_update_ne {objects : Objects} {userId userId' : Uuid} {key key' : String}
    {data : Option Bytes} (h : key' ≠ key) :
    Function.update objects (place dir userId key) data (place dir userId' key') =
      objects (place dir userId' key') :=
  Function.update_of_ne (fun heq => h (place_injective heq)) ..

theorem stored_newImage {ctx : UploadCtx} {config : UserStorageConfig} {inp : Input}
    {publicKey storageKey url : String} {ctxs : List UploadCtx} {objects : Objects}
    (hctx : ctx ∈ ctxs) (hlocal : config.provider = "local") (hlen : publicKey.length = 6)
    (hkey : storageKey = sourceKey ctx.user.id publicKey)
    (hfile : objects (place dir ctx.user.id publicKey) = some ctx.bytes) :
    Stored deps dir ctxs objects (newImage deps ctx config inp publicKey storageKey url) where
  backend := by simp only [newImage, UserStorageConfig.dbBackend, hlocal, if_true]
  keyLength := hlen
  storageKey := hkey
  file := ⟨ctx, hctx, rfl, rfl, hfile⟩

theorem not_holds_of_drawnKey_none {requests : List Request} {i b : ℕ} {ctx : UploadCtx}
    {seen : Option ℤ} {branches : List (UserStorageConfig × Pipeline)}
    {config : UserStorageConfig} {p : Pipeline} {publicKey : String}
    (hp : Pipeline.drawnKey p = none) :
    ¬ Holds (requests.set i ⟨ctx, .running seen (branches.set b (config, p))⟩) i b publicKey := by
  rintro ⟨ctx', config', p', hat, hk⟩
  rcases hat.of_set with ⟨hi, -⟩ | ⟨-, -, seen', branches', hstage, hb⟩
  · exact hi rfl
  · cases hstage
    rw [List.getElem?_set_self'] at hb
    cases hold : branches[b]? with
    | none =>
      rw [hold] at hb
      cases hb
    | some old =>
      rw [hold] at hb
      cases hb
      rw [hp] at hk
      cases hk

/-- The insertion of a row: its pipeline no longer holds the key. -/
theorem Sound.inserted {w : World} (h : Sound deps dir order w) {i b : ℕ} {ctx : UploadCtx}
    {seen : Option ℤ} {branches : List (UserStorageConfig × Pipeline)}
    {config : UserStorageConfig} {inp : Input} {backend : Backend}
    {publicKey storageKey url : String}
    (hreq : w.requests[i]? = some ⟨ctx, .running seen branches⟩)
    (hb : branches[b]? = some (config, .insertImageRecord backend publicKey storageKey url))
    {images : ImageTable} (hins : w.stores.images.insert
      (newImage deps ctx config inp publicKey storageKey url) = some images) :
    Sound deps dir order ⟨{ w.stores with images }, w.requests.set i
      ⟨ctx, .running seen (branches.set b (config, .forConfig))⟩⟩ := by
  have hat : At w.requests i b ctx config (.insertImageRecord backend publicKey storageKey url) :=
    ⟨seen, branches, hreq, hb⟩
  obtain ⟨hlocal, -, hlen, hkey, hfile⟩ := h.pipelines _ _ _ _ _ hat
  have hfits : ∀ seen' branches', Stage.running seen (branches.set b (config, .forConfig)) =
      .running seen' branches' → ∀ b' config' p', branches'[b']? = some (config', p') →
      Fits deps dir w i b ctx b' config' p' := by
    intro seen' branches' hstage b' config' p' hb'
    cases hstage
    by_cases hbb : b' = b
    · subst hbb
      rw [List.getElem?_set_self', hb] at hb'
      cases hb'
      exact .inr ⟨hlocal, trivial, fun _ hk => nomatch hk⟩
    · rw [List.getElem?_set_ne (Ne.symm hbb)] at hb'
      exact .inl ⟨hbb, seen, branches, hreq, hb'⟩
  have hneutral := h.restage b hreq hfits fun _ hstage => nomatch hstage
  refine hneutral.images (fun r hr => ⟨r, (Table.mem_of_insert hins).mpr (.inl hr), .refl r⟩)
    fun r' hr' => ?_
  rcases (Table.mem_of_insert hins).mp hr' with hr' | rfl
  · exact .inl ⟨r', hr', .refl r'⟩
  · refine .inr ⟨?_, fun i' b' hholds => ?_⟩
    · rw [map_ctx_set _ hreq]
      exact stored_newImage (List.mem_map_of_mem (List.mem_of_getElem? hreq)) hlocal hlen hkey hfile
    · rcases hholds.of_set hfits with ⟨hholds, hne⟩ | ⟨⟨rfl, rfl⟩, -, -⟩
      · exact hne (h.held i' b' i b publicKey hholds ⟨_, _, _, hat, rfl⟩)
      · exact not_holds_of_drawnKey_none rfl hholds

theorem not_at_two {requests : List Request} {i b : ℕ} {ctx ctx' : UploadCtx}
    {config config' : UserStorageConfig} {p p' : Pipeline} (h : At requests i b ctx config p)
    (h' : At requests i b ctx' config' p') (hne : p ≠ p') : False := by
  obtain ⟨seen, branches, hreq, hb⟩ := h
  obtain ⟨seen', branches', hreq', hb'⟩ := h'
  cases hreq.symm.trans hreq'
  cases hb.symm.trans hb'
  exact hne rfl

/-- A pipeline writes to a file that is neither a row's nor another pipeline's. -/
theorem Sound.put {w : World} (h : Sound deps dir order w) {i b : ℕ} {ctx : UploadCtx}
    {config : UserStorageConfig} {backend : Backend} {publicKey : String}
    (hat : At w.requests i b ctx config (.writeToStorage backend publicKey)) (data : Bytes) :
    Sound deps dir order ⟨{ w.stores with
      objects := Function.update w.stores.objects (place dir ctx.user.id publicKey) (some data) },
      w.requests⟩ := by
  have hholds : Holds w.requests i b publicKey := ⟨_, _, _, hat, rfl⟩
  refine h.write _ (fun r hr => place_update_ne (h.fresh i b publicKey hholds r hr)) ?_
  intro i' b' ctx' config' backend' publicKey' storageKey' url hat' _
  apply place_update_ne
  intro heq
  obtain ⟨rfl, rfl⟩ := h.held i' b' i b publicKey ⟨_, _, _, hat', by rw [← heq]; rfl⟩ hholds
  exact not_at_two hat hat' (by simp)

/-- A call of a pipeline, seen from the service. -/
theorem Sound.call {w : World} (h : Sound deps dir order w) {i b : ℕ} {ctx : UploadCtx}
    {seen : Option ℤ} {branches : List (UserStorageConfig × Pipeline)}
    {config : UserStorageConfig} {inp : Input} {p p' : Pipeline} {s' : Stores}
    (hreq : w.requests[i]? = some ⟨ctx, .running seen branches⟩)
    (hb : branches[b]? = some (config, p)) (hcall : Call deps ctx config inp p w.stores p' s')
    (hdraw : ∀ backend, p = .generatePublicKey backend →
      ∀ i' b', ¬ Holds w.requests i' b' (publicKeyOf inp.draw)) :
    Sound deps dir order
      ⟨s', w.requests.set i ⟨ctx, Upload.settle seen (branches.set b (config, p'))⟩⟩ := by
  have hat : At w.requests i b ctx config p := ⟨seen, branches, hreq, hb⟩
  obtain ⟨hlocal, htrack⟩ := h.pipelines i b ctx config p hat
  have hrouter := forConfig_local dir order deps.git hlocal
  rw [← h.router] at hrouter
  cases hcall with
  | found | notFound =>
    exact h.settle b hreq hlocal trivial fun _ hk => nomatch hk
  | fetched hr hw =>
    simp only [dedupWhere, Bool.and_eq_true, beq_iff_eq] at hw
    exact h.settle b hreq hlocal ⟨_, hr, rfl, hw.1.2⟩ fun _ hk => nomatch hk
  | resolved hfor =>
    obtain ⟨hbackend, rfl⟩ := Prod.mk.inj (hfor.symm.trans hrouter)
    cases hbackend
    exact h.settle b hreq hlocal rfl fun _ hk => nomatch hk
  | keyTaken => exact h.settle b hreq hlocal htrack fun _ hk => nomatch hk
  | keyFree hfree =>
    refine h.settle b hreq hlocal ⟨htrack, length_publicKeyOf _⟩ fun publicKey hk => ?_
    cases hk
    exact ⟨hfree, fun i' b' hholds => absurd hholds (hdraw _ rfl i' b')⟩
  | written hkey =>
    rename_i backend publicKey storageKey
    obtain ⟨rfl, hlen⟩ := htrack
    have hholds : Holds w.requests i b publicKey := ⟨_, _, _, hat, rfl⟩
    have hstored : storageKey = sourceKey ctx.user.id publicKey := hkey
    rw [hstored]
    refine (h.put hat ctx.bytes).settle b hreq hlocal ⟨rfl, hlen, rfl, Function.update_self ..⟩ ?_
    intro publicKey' hk
    cases hk
    exact ⟨h.fresh i b publicKey hholds, fun i' b' hholds' =>
      h.held i' b' i b publicKey hholds' hholds⟩
  | cut hr hfault hleft =>
    obtain ⟨rfl, -⟩ := htrack
    exact (h.put hat _).settle b hreq hlocal trivial fun _ hk => nomatch hk
  | inserted hdb hins =>
    rename_i backend publicKey storageKey url images
    have hneutral := h.inserted hreq hb hins
    have hi := (List.getElem?_eq_some_iff.mp hreq).1
    have hsettle := hneutral.settle b (List.getElem?_set_self hi) hlocal
      (p := .enqueue backend inp.imageId publicKey storageKey url)
      ⟨_, (Table.mem_of_insert hins).mpr (.inr rfl), rfl, rfl⟩ fun _ hk => nomatch hk
    simpa only [List.set_set] using hsettle
  | enqueued hqueue =>
    rename_i backend imageId publicKey storageKey url
    exact (h.withTasks _).settle b hreq hlocal
      (p := .done (.ok (buildResult deps ctx config inp imageId publicKey url))) htrack
      fun _ hk => nomatch hk
  | notEnqueued => exact h.settle b hreq hlocal htrack fun _ hk => nomatch hk
  | refused router hr hp he hrouter' =>
    have hsame : router = w.stores.router := by
      rcases hrouter' with heq | heq
      · exact heq
      · rw [heq, hrouter]
    rw [hsame]
    exact h.settle b hreq hlocal trivial fun _ hk => nomatch hk
  | idle => exact h.settle b hreq hlocal htrack fun _ hk => nomatch hk

/-- Configurations an upload resolves to are local where all those of the table are. -/
theorem provider_local {w : World} (h : Sound deps dir order w) {inp : Input} {ctx : UploadCtx}
    {configs : List UserStorageConfig}
    (hr : UploadConfigs.resolveUploadConfigs inp.dbUp inp.now ctx.user.id ctx.storageConfigIds
      w.stores.configs = .ok configs) : ∀ c ∈ configs, c.provider = "local" := by
  intro c hc
  rcases UploadConfigs.mem_resolveUploadConfigs hr c hc with hrow | rfl
  · exact h.configs c hrow
  · rfl

theorem Holds.mem_drawnKeys {requests : List Request} {i b : ℕ} {publicKey : String}
    (h : Holds requests i b publicKey) : publicKey ∈ drawnKeys requests := by
  obtain ⟨ctx, config, p, ⟨seen, branches, hreq, hb⟩, hk⟩ := h
  refine List.mem_flatMap.mpr ⟨_, List.mem_of_getElem? hreq, ?_⟩
  exact List.mem_filterMap.mpr ⟨_, List.mem_of_getElem? hb, hk⟩

theorem At.draws {requests : List Request} {i b : ℕ} {ctx : UploadCtx}
    {config : UserStorageConfig} {backend : Backend}
    (h : At requests i b ctx config (.generatePublicKey backend)) :
    draws requests i b = true := by
  obtain ⟨seen, branches, hreq, hb⟩ := h
  simp only [Serving.draws, hreq, hb]

theorem Sound.advance {w : World} (h : Sound deps dir order w) {i b : ℕ} {inp : Input}
    (hdraw : draws w.requests i b = true → publicKeyOf inp.draw ∉ drawnKeys w.requests) :
    Sound deps dir order (w.advance deps i b inp) := by
  rcases w.advance_cases deps i b inp with
    ⟨-, hsame⟩ | ⟨ctx, stage, stage', s', hreq, ha, hnext⟩
  · rwa [hsame]
  · rw [hnext]
    cases ha with
    | rejected | checked =>
      exact h.restage 0 hreq (fun _ _ hstage => nomatch hstage) fun _ hstage => nomatch hstage
    | started hr hv =>
      refine h.restage 0 hreq (fun seen branches hstage b' config p hb => ?_)
        fun _ hstage => nomatch hstage
      cases hstage
      have hbranch := List.mem_of_getElem? hb
      simp only [runBackendUploads, List.mem_map] at hbranch
      obtain ⟨c, hc, heq⟩ := hbranch
      cases heq
      exact .inr ⟨provider_local h hr _ (List.mem_of_mem_take hc), trivial, fun _ hk => nomatch hk⟩
    | moved hb hcall =>
      apply h.call hreq hb hcall
      intro backend hp i' b' hholds
      subst hp
      have hat : At w.requests i b ctx _ (.generatePublicKey backend) := ⟨_, _, hreq, hb⟩
      exact hdraw hat.draws hholds.mem_drawnKeys
    | idle hidle =>
      have hset : w.requests.set i ⟨ctx, stage⟩ = w.requests := by
        obtain ⟨hi, heq⟩ := List.getElem?_eq_some_iff.mp hreq
        rw [← heq]
        exact List.set_getElem_self _
      simpa only [hset] using h

theorem Sound.submit {w : World} (h : Sound deps dir order w) {ctx : UploadCtx}
    (hdigest : ∀ req ∈ w.requests, deps.sha256 req.ctx.bytes = deps.sha256 ctx.bytes →
      req.ctx.bytes = ctx.bytes) : Sound deps dir order (w.submit ctx) := by
  have hholds : ∀ {i b publicKey}, Holds (w.requests ++ [⟨ctx, .checkQuotas⟩]) i b publicKey →
      Holds w.requests i b publicKey := by
    rintro i b publicKey ⟨ctx', config, p, h', hk⟩
    exact ⟨ctx', config, p, h'.of_submit, hk⟩
  refine ⟨h.router, h.configs,
    fun i b ctx' config p h' => h.pipelines i b ctx' config p h'.of_submit, ?_, ?_,
    fun i b i' b' publicKey h₁ h₂ => h.held i b i' b' publicKey (hholds h₁) (hholds h₂),
    fun i b publicKey h' => h.fresh i b publicKey (hholds h'), ?_⟩
  · intro i ctx' results hreq
    rcases getElem?_append_singleton.mp hreq with hreq | ⟨-, heq⟩
    · exact h.results i ctx' results hreq
    · cases heq
  · intro r hr
    obtain ⟨hbackend, hlen, hkey, ctx', hctx, hfile⟩ := h.rows r hr
    refine ⟨hbackend, hlen, hkey, ctx', ?_, hfile⟩
    simp only [World.submit, List.map_append, List.mem_append]
    exact .inl hctx
  · have hnew : ∀ ctx' ∈ w.requests.map Request.ctx,
        deps.sha256 ctx'.bytes = deps.sha256 ctx.bytes → ctx'.bytes = ctx.bytes := by
      intro ctx' hctx' hsha
      obtain ⟨req, hreq, rfl⟩ := List.mem_map.mp hctx'
      exact hdigest req hreq hsha
    intro c₁ h₁ c₂ h₂ hsha
    simp only [World.submit, List.map_append, List.map_cons, List.map_nil, List.mem_append,
      List.mem_singleton] at h₁ h₂
    rcases h₁ with h₁ | rfl <;> rcases h₂ with h₂ | rfl
    · exact h.digests c₁ h₁ c₂ h₂ hsha
    · exact hnew c₁ h₁ hsha
    · exact (hnew c₂ h₂ hsha.symm).symm
    · rfl

theorem FromUpload.mono {tasks tasks' : List TaskPayload} (hsub : ∀ t ∈ tasks, t ∈ tasks')
    {task : TaskPayload} : FromUpload tasks task → FromUpload tasks' task := by
  rintro ⟨t, ht, h⟩
  exact ⟨t, hsub t ht, h⟩

/-- A step of an upload adds tasks and active rows. -/
theorem advance_adds (deps : Deps) (w : World) (i b : ℕ) (inp : Input) :
    (∃ new, (w.advance deps i b inp).stores.tasks = w.stores.tasks ++ new) ∧
    ∀ r ∈ (w.advance deps i b inp).stores.images.rows, r ∈ w.stores.images.rows ∨
      r.status = "active" := by
  rcases w.advance_cases deps i b inp with ⟨-, hsame⟩ | ⟨ctx, stage, stage', s', -, ha, hnext⟩
  · rw [hsame]
    exact ⟨⟨[], by simp⟩, fun r hr => .inl hr⟩
  · rw [hnext]
    cases ha with
    | moved hb hcall =>
      cases hcall with
      | enqueued => exact ⟨⟨_, rfl⟩, fun r hr => .inl hr⟩
      | inserted hdb hins =>
        refine ⟨⟨[], by simp⟩, fun r hr => ?_⟩
        rcases (Table.mem_of_insert hins).mp hr with hr | rfl
        · exact .inl hr
        · exact .inr rfl
      | _ => exact ⟨⟨[], by simp⟩, fun r hr => .inl hr⟩
    | _ => exact ⟨⟨[], by simp⟩, fun r hr => .inl hr⟩

variable {Img : Type} {worker : Worker.Deps Img} {s : System Img}

theorem Consistent.wellKeyed (h : Consistent deps dir order s) : s.queue.WellKeyed :=
  fun taskId task hdata => (h.queued taskId task hdata).1

/-- A move of the queue and of the tasks in hand. -/
theorem Consistent.move (h : Consistent deps dir order s) {queue : RedisQueue}
    (hkeeps : s.queue.Keeps queue) {held : List (TaskPayload × Worker.Work Img)}
    (hheld : ∀ hold ∈ held, hold ∈ s.held ∨
      FromUpload s.uploads.stores.tasks hold.1 ∧
        (∀ backend, hold.2.backend = some backend → backend = dir.backend) ∧
        (hold.2 = .handleDeadLetter → hold.1.taskId ∈ queue.dead)) :
    Consistent deps dir order { s with queue, held } where
  sound := h.sound
  router := h.router
  status r hr := by
    rcases h.status r hr with hok | ⟨hfailed, task, htask, himage, hdead⟩
    · exact .inl hok
    · exact .inr ⟨hfailed, task, htask, himage, hkeeps.dead _ hdead⟩
  queued taskId task' hdata := by
    obtain ⟨task, hold, hid, himage⟩ := hkeeps.data taskId task' hdata
    obtain ⟨hkey, task₀, htask₀, hid₀, himage₀⟩ := h.queued taskId task hold
    exact ⟨hid.trans hkey, task₀, htask₀, hid₀.trans hid.symm, himage₀.trans himage.symm⟩
  held hold hhold := by
    rcases hheld hold hhold with hold' | hnew
    · obtain ⟨hfrom, hbackend, hdead⟩ := h.held hold hold'
      exact ⟨hfrom, hbackend, fun hwork => hkeeps.dead _ (hdead hwork)⟩
    · exact hnew

theorem Consistent.advance (h : Consistent deps dir order s) {i b : ℕ} {inp : Input}
    (hdistinct : Distinct deps s (.advance i b inp)) :
    Consistent deps dir order (step deps worker s (.advance i b inp)) := by
  obtain ⟨⟨new, htasks⟩, hrows⟩ := advance_adds deps s.uploads i b inp
  have hdrop : (s.uploads.advance deps i b inp).stores.tasks.drop s.uploads.stores.tasks.length =
      new := by
    rw [htasks, List.drop_left]
  have hsub : ∀ t ∈ s.uploads.stores.tasks, t ∈ (s.uploads.advance deps i b inp).stores.tasks :=
    fun t ht => by
      rw [htasks]
      exact List.mem_append_left _ ht
  obtain ⟨hdead, hdata⟩ := RedisQueue.enqueue_all new s.queue
  simp only [step, hdrop]
  refine ⟨h.sound.advance hdistinct, h.router, fun r hr => ?_, fun taskId task hstored => ?_,
    fun hold hhold => ?_⟩
  · rcases hrows r hr with hr | hactive
    · rcases h.status r hr with hok | ⟨hfailed, task, htask, himage, hlisted⟩
      · exact .inl hok
      · exact .inr ⟨hfailed, task, hsub task htask, himage, by rwa [hdead]⟩
    · exact .inl (by rw [hactive]; rfl)
  · rcases hdata taskId task hstored with hold | ⟨hmem, hid⟩
    · obtain ⟨hkey, hfrom⟩ := h.queued taskId task hold
      exact ⟨hkey, hfrom.mono hsub⟩
    · refine ⟨hid, task, ?_, rfl, rfl⟩
      rw [htasks]
      exact List.mem_append_right _ hmem
  · obtain ⟨hfrom, hbackend, hlisted⟩ := h.held hold hhold
    exact ⟨hfrom.mono hsub, hbackend, fun hwork => by
      rw [hdead]
      exact hlisted hwork⟩

theorem sameSource_update {t : ImageTable} {p : Image → Bool} {f : Image → Image}
    (hf : ∀ r, SameSource r (f r)) (hkey : ∀ r, (f r).keys = r.keys) :
    (∀ r ∈ t.rows, ∃ r' ∈ (t.update p f hkey).rows, SameSource r r') ∧
    ∀ r' ∈ (t.update p f hkey).rows, ∃ r ∈ t.rows, SameSource r r' := by
  have hone : ∀ r, SameSource r (if p r then f r else r) := fun r => by
    split
    · exact hf r
    · exact .refl r
  constructor
  · exact fun r hr => ⟨_, Table.mem_update.mpr ⟨r, hr, rfl⟩, hone r⟩
  · intro r' hr'
    obtain ⟨r, hr, rfl⟩ := Table.mem_update.mp hr'
    exact ⟨r, hr, hone r⟩

/-- A worker's update of rows it serves no differently. -/
theorem Sound.update {w : World} (h : Sound deps dir order w) {p : Image → Bool}
    {f : Image → Image} (hf : ∀ r, SameSource r (f r)) (hkey : ∀ r, (f r).keys = r.keys) :
    Sound deps dir order
      ⟨{ w.stores with images := w.stores.images.update p f hkey }, w.requests⟩ :=
  h.images (sameSource_update hf hkey).1 fun r' hr' => .inl ((sameSource_update hf hkey).2 r' hr')

theorem setFailed_sameSource (r : Image) : SameSource r (Worker.setFailed r) :=
  ⟨rfl, rfl, rfl, rfl, rfl, rfl, rfl⟩

theorem setReady_sameSource (task : TaskPayload) (size : ℤ × ℤ) (thumbWritten webpWritten : Bool)
    (r : Image) : SameSource r (Worker.setReady worker task size thumbWritten webpWritten r) :=
  ⟨rfl, rfl, rfl, rfl, rfl, rfl, rfl⟩

/-- Every name resolves to the directory. -/
theorem forBackend_router (name : String) : (dir.router order).forBackend name = dir.backend := by
  by_cases h : name = "local"
  · rw [h, forBackend_local]
  · exact StorageRouter.forBackend_of_get_none (AList.lookup_eq_none.mpr fun hmem =>
      h (List.mem_singleton.mp (AList.mem_keys.mp hmem)))

variable (worker) in
/-- The worker binds every task to the directory. -/
theorem resolveBackend_local (inp : Worker.Input) (task : TaskPayload) (st : Worker.Stores)
    (hrouter : st.router = dir.router order)
    (hconfigs : ∀ c ∈ st.configs.rows, c.provider = "local") :
    (Worker.resolveBackend worker inp task st).2 = st.router ∧
    ∀ backend, (Worker.resolveBackend worker inp task st).1 = .ok backend →
      backend = dir.backend := by
  unfold Worker.resolveBackend
  split
  · rw [hrouter, forBackend_router]
    exact ⟨rfl, fun backend h => (Except.ok.inj h).symm⟩
  · split
    · exact ⟨rfl, fun backend h => nomatch h⟩
    · exact ⟨rfl, fun backend h => nomatch h⟩
    · rename_i config _ hhead
      have hlocal := hconfigs config (Table.mem_of_select_head? hhead).1
      rw [hrouter, forConfig_local dir order worker.git hlocal]
      exact ⟨rfl, fun backend h => (Except.ok.inj h).symm⟩

theorem length_variant (text : String) (id : Uuid) : (text ++ id.toText).length ≠ 6 := by
  rw [String.length_append, Uuid.length_toText]
  omega

/-- Variants are written apart from the files of the rows. -/
theorem Sound.writesVariant {w : World} (h : Sound deps dir order w) {task : TaskPayload}
    {work : Worker.Work Img} {objects : Objects}
    (hbackend : ∀ backend, work.backend = some backend → backend = dir.backend)
    (hwrite : Worker.WritesVariant task work w.stores.objects objects) :
    Sound deps dir order ⟨{ w.stores with objects }, w.requests⟩ := by
  rcases hwrite with rfl | ⟨backend, day, key, mime, data, hb, hkey, rfl⟩
  · exact h
  · obtain rfl := hbackend backend hb
    obtain ⟨name, hname, hlen⟩ : ∃ name, dir.backend.locate (dir.backend.storedKey day key mime) =
        place dir task.userId name ∧ name.length ≠ 6 := by
      rcases hkey with rfl | rfl
      · exact ⟨_, congrArg dir.backend.locate (thumbKey_eq task), length_variant _ _⟩
      · exact ⟨_, congrArg dir.backend.locate (webpKey_eq task), length_variant _ _⟩
    rw [hname]
    refine h.write _ (fun r hr => place_update_ne ?_) fun _ _ _ _ _ publicKey _ _ _ hsix =>
      place_update_ne ?_
    · rintro rfl
      exact hlen (h.rows r hr).keyLength
    · rintro rfl
      exact hlen hsix

/-- An update of the row of a task, with the files of the rows left as they are. -/
theorem Consistent.update (h : Consistent deps dir order s) {objects : Objects}
    (hsound : Sound deps dir order ⟨{ s.uploads.stores with objects }, s.uploads.requests⟩)
    {imageId : Uuid} {f : Image → Image} (hf : ∀ r, SameSource r (f r))
    (hkey : ∀ r, (f r).keys = r.keys)
    (hstatus : ∀ r, r.id = imageId → checkImageStatus (f r).status = true ∨
      (f r).status = "failed" ∧ ∃ task ∈ s.uploads.stores.tasks, task.imageId = r.id ∧
        task.taskId ∈ s.queue.dead)
    {held : List (TaskPayload × Worker.Work Img)}
    (hheld : ∀ hold ∈ held, FromUpload s.uploads.stores.tasks hold.1 ∧
      (∀ backend, hold.2.backend = some backend → backend = dir.backend) ∧
      (hold.2 = .handleDeadLetter → hold.1.taskId ∈ s.queue.dead)) :
    Consistent deps dir order
      { s with
        uploads := { s.uploads with
          stores := { s.uploads.stores with
            images := s.uploads.stores.images.update (fun r => r.id == imageId) f hkey
            objects } }
        held } where
  sound := hsound.update hf hkey
  router := h.router
  status r' hr' := by
    have hmem : r' ∈ (s.uploads.stores.images.update (fun r => r.id == imageId) f hkey).rows := hr'
    rcases Table.mem_update_iff.mp hmem with ⟨hold, -⟩ | ⟨r, -, hid, rfl⟩
    · exact h.status r' hold
    · rw [(hf r).id]
      exact hstatus r (beq_iff_eq.mp hid)
  queued := h.queued
  held := hheld

variable (worker) in
/-- A call for a task in hand. -/
theorem Consistent.processTask (h : Consistent deps dir order s) (inp : Worker.Input) {j : ℕ}
    {task : TaskPayload} {work : Worker.Work Img} (hj : s.held[j]? = some (task, work))
    (hwork : work ≠ .handleDeadLetter) :
    let w := Worker.processTask worker inp task work
      ⟨s.uploads.stores.images, s.uploads.stores.configs, s.uploads.stores.objects, s.router⟩
    Consistent deps dir order
      { s with
        uploads := { s.uploads with
          stores := { s.uploads.stores with images := w.2.images, objects := w.2.objects } }
        router := w.2.router
        held := s.held.set j (task, w.1) } := by
  intro w
  obtain ⟨hfrom, hbackend, -⟩ := h.held (task, work) (List.mem_of_getElem? hj)
  obtain ⟨hobjects, himages, hbound, hrouter⟩ := Worker.processTask_spec worker inp task
    work ⟨s.uploads.stores.images, s.uploads.stores.configs, s.uploads.stores.objects, s.router⟩
  obtain ⟨hresolve, hlocal⟩ := resolveBackend_local worker inp task
    ⟨s.uploads.stores.images, s.uploads.stores.configs, s.uploads.stores.objects, s.router⟩
    h.router h.sound.configs
  have hwritten := h.sound.writesVariant hbackend hobjects
  have hsame : w.2.router = s.router := hrouter.elim id fun heq => heq.trans hresolve
  have hheld : ∀ hold ∈ s.held.set j (task, w.1),
      FromUpload s.uploads.stores.tasks hold.1 ∧
      (∀ backend, hold.2.backend = some backend → backend = dir.backend) ∧
      (hold.2 = .handleDeadLetter → hold.1.taskId ∈ s.queue.dead) := by
    intro hold hhold
    rcases List.mem_or_eq_of_mem_set hhold with hhold | rfl
    · exact h.held hold hhold
    · refine ⟨hfrom, fun backend hb => (hbound backend hb).elim (hbackend backend) (hlocal backend),
        fun hdead => absurd (Worker.processTask_ne_handleDeadLetter hdead) hwork⟩
  rw [hsame]
  rcases himages with heq | ⟨size, thumbWritten, webpWritten, heq⟩
  · change Consistent deps dir order { s with
      uploads := { s.uploads with
        stores := { s.uploads.stores with images := w.2.images, objects := w.2.objects } }
      held := s.held.set j (task, w.1) }
    rw [show w.2.images = s.uploads.stores.images from heq]
    exact ⟨hwritten, h.router, h.status, h.queued, hheld⟩
  · change Consistent deps dir order { s with
      uploads := { s.uploads with
        stores := { s.uploads.stores with images := w.2.images, objects := w.2.objects } }
      held := s.held.set j (task, w.1) }
    rw [show w.2.images = _ from heq]
    exact h.update hwritten (setReady_sameSource task size thumbWritten webpWritten) _
      (fun r _ => .inl rfl) hheld

theorem Consistent.process (h : Consistent deps dir order s) {inp : Worker.Input} {j : ℕ}
    {task : TaskPayload} {work : Worker.Work Img} (hj : s.held[j]? = some (task, work)) :
    Consistent deps dir order (process worker inp task work j s) := by
  cases work with
  | handleDeadLetter =>
    obtain ⟨⟨task₀, htask₀, hid, himage⟩, -, hlisted⟩ := h.held _ (List.mem_of_getElem? hj)
    have hheld : ∀ hold ∈ s.held.eraseIdx j, _ := fun hold hhold =>
      h.held hold (List.mem_of_mem_eraseIdx hhold)
    simp only [Serving.process, Worker.handleDeadLetter]
    split
    · exact ⟨h.sound, h.router, h.status, h.queued, hheld⟩
    · refine h.update h.sound setFailed_sameSource _ (fun r hr => .inr ⟨rfl, task₀, htask₀, ?_, ?_⟩)
        hheld
      · rw [himage, hr]
      · rw [hid]
        exact hlisted rfl
  | _ => exact h.processTask worker inp hj (by simp)

theorem Consistent.finish (h : Consistent deps dir order s) (up : Bool) {j : ℕ}
    {task : TaskPayload} {work : Worker.Work Img} (hj : s.held[j]? = some (task, work))
    (result : Except Worker.PipelineError Unit) :
    Consistent deps dir order (finish up task result j s) := by
  have herase : ∀ hold ∈ s.held.eraseIdx j, hold ∈ s.held := fun _ => List.mem_of_mem_eraseIdx
  cases result with
  | ok u => exact h.move (RedisQueue.ackTask_keeps ..) fun hold hhold => .inl (herase hold hhold)
  | error e =>
    have hkeeps := RedisQueue.nack_keeps up task.taskId task.retryCount task.maxRetries h.wellKeyed
    simp only [Serving.finish]
    split <;> rename_i hnack <;> rw [hnack] at hkeeps
    · apply h.move hkeeps
      intro hold hhold
      rcases List.mem_or_eq_of_mem_set hhold with hhold | rfl
      · exact .inl hhold
      · exact .inr ⟨(h.held _ (List.mem_of_getElem? hj)).1, fun _ hb => (nomatch hb),
          fun _ => RedisQueue.nack_deadLetter h.wellKeyed hnack⟩
    · exact h.move hkeeps fun hold hhold => .inl (herase hold hhold)

theorem Consistent.dequeue (h : Consistent deps dir order s) (up : Bool) :
    Consistent deps dir order (step deps worker s (.dequeue up)) := by
  have hkeeps := RedisQueue.dequeueTask_keeps up s.queue
  simp only [step]
  split <;> rename_i hdequeue <;> rw [hdequeue] at hkeeps
  · apply h.move hkeeps
    intro hold hhold
    rcases List.mem_append.mp hhold with hhold | hhold
    · exact .inl hhold
    · rw [List.mem_singleton.mp hhold]
      obtain ⟨taskId, hdata⟩ := RedisQueue.dequeueTask_data hdequeue
      exact .inr ⟨(h.queued taskId _ hdata).2, fun _ hb => (nomatch hb), fun hw => (nomatch hw)⟩
  · exact h.move hkeeps fun hold hhold => .inl hhold

theorem Consistent.step (h : Consistent deps dir order s) (a : Action)
    (hdistinct : Distinct deps s a) : Consistent deps dir order (step deps worker s a) := by
  cases a with
  | submit ctx => exact ⟨h.sound.submit hdistinct, h.router, h.status, h.queued, h.held⟩
  | advance i b inp => exact h.advance hdistinct
  | dequeue up => exact h.dequeue up
  | process j inp =>
    simp only [Serving.step]
    split
    · exact h
    · rename_i hj
      exact h.process hj
  | finish j up =>
    simp only [Serving.step]
    split
    · rename_i hj
      exact h.finish up hj _
    · exact h
  | timeout j up =>
    simp only [Serving.step]
    split
    · exact h
    · exact h
    · exact h
    · exact h.move (RedisQueue.nack_keeps _ _ _ _ h.wellKeyed) fun hold hhold =>
        .inl (List.mem_of_mem_eraseIdx hhold)
  | crash j =>
    exact h.move (.of_eq rfl rfl) fun hold hhold => .inl (List.mem_of_mem_eraseIdx hhold)
  | recover up stale =>
    exact h.move (RedisQueue.recoverStaleTasks_keeps up stale s.queue) fun hold hhold => .inl hhold

theorem consistent_init {configs : ConfigTable}
    (hlocal : ∀ c ∈ configs.rows, c.provider = "local") :
    Consistent deps dir order (init dir configs order : System Img) := by
  have hnone : ∀ {i b ctx config p}, ¬ At [] i b ctx config p := by
    rintro i b ctx config p ⟨seen, branches, hreq, -⟩
    cases hreq
  have hnone' : ∀ {i b publicKey}, ¬ Holds [] i b publicKey := by
    rintro i b publicKey ⟨ctx, config, p, hat, -⟩
    exact hnone hat
  have hrows : ∀ {P : Image → Prop}, ∀ r ∈ (Table.empty : ImageTable).rows, P r := fun r hr =>
    absurd hr List.not_mem_nil
  refine ⟨⟨rfl, hlocal, fun _ _ _ _ _ h => absurd h hnone, fun _ _ _ h => (nomatch h), hrows,
    fun _ _ _ _ _ h => absurd h hnone', fun _ _ _ h => absurd h hnone', ?_⟩, rfl, hrows,
    fun _ _ h => (nomatch h), ?_⟩
  · exact fun ctx hctx => absurd hctx List.not_mem_nil
  · exact fun hold hhold => absurd hhold List.not_mem_nil

theorem publicGet_of_row {st : Stores} {r : Image} (hr : r ∈ st.images.rows) :
    publicGet true none r.publicKey st = serveRow none r st := by
  have hhead : (st.images.select fun q => q.publicKey == r.publicKey).head? = some r :=
    Table.select_head?_of_unique hr (beq_self_eq_true _) fun q hq hkey =>
      ImageTable.eq_of_publicKey hq hr (beq_iff_eq.mp hkey)
  simp only [publicGet, hhead, if_true]

theorem done_of_mem_results {stage : Stage} {r : UploadResult} (h : r ∈ results stage) :
    ∃ returned, stage = .done (.ok returned) ∧ r ∈ returned := by
  unfold results at h
  split at h
  · exact ⟨_, rfl, h⟩
  · exact absurd h List.not_mem_nil

theorem servable_of_consistent (h : Consistent deps dir order s) : Servable deps s := by
  intro req hreq result hresult
  obtain ⟨i, hi⟩ := List.mem_iff_getElem?.mp hreq
  obtain ⟨ctx, stage⟩ := req
  obtain ⟨returned, rfl, hresult⟩ := done_of_mem_results hresult
  obtain ⟨r, hr, hkey, hsha⟩ := h.sound.results i ctx returned hi result hresult
  obtain ⟨hbackend, -, hstorage, ctx', hctx', hsha', hmime, hfile⟩ := h.sound.rows r hr
  have hbytes : ctx'.bytes = ctx.bytes :=
    h.sound.digests ctx' hctx' ctx (List.mem_map_of_mem hreq) (hsha'.symm.trans hsha)
  rw [← hkey]
  rcases h.status r hr with hok | ⟨hfailed, htask⟩
  · refine .inl ?_
    have hget : dir.backend.get none r.storageKey s.uploads.stores.objects = .ok ctx.bytes :=
      Backend.get_of_some (by rw [hstorage, ← hbytes]; exact hfile)
    rw [Served, publicGet_of_row hr, serveRow, if_pos hok, h.sound.router, forBackend_router]
    simp only [hget, hmime, hbytes]
  · refine .inr ⟨⟨r, hr, rfl, hfailed, htask⟩, ?_⟩
    rw [publicGet_of_row hr, serveRow, hfailed]
    rfl

variable (deps dir order) (worker) in
/-- With one directory as the only backend, what an upload has returned is served with the
bytes and the type of the file, unless its processing was given up and its row marked. -/
theorem uploads_servable {configs : ConfigTable}
    (hlocal : ∀ c ∈ configs.rows, c.provider = "local") (as : List Action)
    (hdistinct : AllSteps (step deps worker) (Distinct deps) (init dir configs order) as) :
    AllStates (step deps worker) (Servable deps) (init dir configs order) as :=
  (allStates_of_guarded (J := Consistent deps dir order) (fun _ a h hg => h.step a hg)
    (consistent_init hlocal) hdistinct).mono fun _ h => servable_of_consistent h

/-- Nothing can be decoded. -/
def brokenWorker : Worker.Deps Unit where
  decode _ := .error "unsupported"
  dimensions _ := (0, 0)
  hasAlpha _ := false
  applyWatermark _ img := .ok img
  encodeThumbnail _ _ := .ok []
  encodeWebp _ := []
  git := smallDeps.git
  publicUrl := "http://pics"

def dataDirectory : Directory := ⟨"/data", "http://pics"⟩

def workerInput : Worker.Input := ⟨none, none, none, "2026/01/01"⟩

/-- One upload, then the worker tries its task four times and marks the row. -/
def undecodableRun : List Action :=
  .submit demoCtx :: List.replicate 8 (.advance 0 0 (smoothInput 1 1)) ++
    (List.replicate 4 [.dequeue true, .process 0 workerInput, .process 0 workerInput,
      .finish 0 true]).flatten ++ [.process 0 workerInput]

theorem undecodableRun_distinct :
    AllSteps (step smallDeps brokenWorker) (Distinct smallDeps)
      (init dataDirectory Table.empty fun _ => 0) undecodableRun := by
  decide +kernel

/-- The run ends with the upload returned and its file answered with 404. -/
theorem uploads_servable_undecodable :
    AllStates (step smallDeps brokenWorker) (Servable smallDeps)
      (init dataDirectory Table.empty fun _ => 0) undecodableRun :=
  uploads_servable smallDeps dataDirectory (fun _ => 0) brokenWorker
    (fun _ hc => absurd hc List.not_mem_nil) undecodableRun undecodableRun_distinct

/-- An image the server accepts and the worker cannot decode is no longer served. -/
theorem uploads_not_served :
    ¬ ∀ (deps : Deps) (worker : Worker.Deps Unit) (dir : Directory) (order : List String → ℕ)
      (configs : ConfigTable) (as : List Action), (∀ c ∈ configs.rows, c.provider = "local") →
      AllSteps (step deps worker) (Distinct deps) (init dir configs order) as →
      AllStates (step deps worker) (fun s => ∀ req ∈ s.uploads.requests,
        ∀ r ∈ results req.stage, Served deps s req.ctx r.publicKey) (init dir configs order) as := by
  intro h
  have hlast := (h smallDeps brokenWorker dataDirectory (fun _ => 0) Table.empty undecodableRun
    (fun _ hc => absurd hc List.not_mem_nil) undecodableRun_distinct).last
  exact absurd hlast (by decide +kernel)

/-- Two uploads of a user draw one key before either of them has its row: the second file
replaces the first, whose upload has returned. -/
def overwrittenRun : List Action :=
  [.submit demoCtx, .submit { demoCtx with bytes := pngSignature ++ [4] }] ++
    List.replicate 5 (.advance 0 0 (smoothInput 1 1)) ++
    List.replicate 5 (.advance 1 0 (smoothInput 2 1)) ++
    List.replicate 3 (.advance 0 0 (smoothInput 1 1)) ++ [.advance 1 0 (smoothInput 2 1)]

/-- The condition on the keys cannot be dropped. -/
theorem uploads_overwritten :
    ¬ AllStates (step smallDeps brokenWorker) (Servable smallDeps)
      (init dataDirectory Table.empty fun _ => 0) overwrittenRun := by
  decide +kernel

end PicHost.Serving
