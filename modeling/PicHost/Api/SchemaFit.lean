import PicHost.Api.Service
import PicHost.Lib.ColumnTypes
import PicHost.Lib.Run

/-!
# Whether the values of an upload go into their columns

`insert_image_record` binds its values after the bytes have been stored. The columns are those of
the PostgreSQL migrations.
-/

namespace PicHost.SchemaFit

open ColumnTypes KeyedTable LabelledRun Upload
open Serving (At)

/-- The columns of `images` that the statement names. -/
def imagesSchema : Schema :=
  [⟨"user_id", .uuid, false⟩, ⟨"public_key", .varchar 16, false⟩,
    ⟨"original_name", .varchar 255, false⟩, ⟨"storage_key", .varchar 512, false⟩,
    ⟨"storage_backend", .varchar 32, false⟩, ⟨"mime_type", .varchar 128, false⟩,
    ⟨"file_size", .bigint, false⟩, ⟨"width", .integer, true⟩, ⟨"height", .integer, true⟩,
    ⟨"sha256", .varchar 64, false⟩, ⟨"url", .varchar 1024, false⟩,
    ⟨"storage_config_id", .uuid, true⟩]

/-- `$1` to `$12` of the `INSERT`. -/
def insertBinds (r : Image) : List (String × Value) :=
  [("user_id", .uuid), ("public_key", .text r.publicKey), ("original_name", .text r.originalName),
    ("storage_key", .text r.storageKey), ("storage_backend", .text r.storageBackend),
    ("mime_type", .text r.mimeType), ("file_size", .int r.fileSize),
    ("width", r.width.elim .null .int), ("height", r.height.elim .null .int),
    ("sha256", .text r.sha256), ("url", .text r.url),
    ("storage_config_id", r.storageConfigId.elim .null fun _ => .uuid)]

/-- What the libraries return: the name of a known type, a digest in hexadecimal digits and two
`i32`. -/
structure LibrariesFit (deps : Deps) : Prop where
  mime : ∀ bytes mime, deps.inferMime bytes = some mime → Fits 128 mime
  sha256 : ∀ bytes, Fits 64 (deps.sha256 bytes)
  width : ∀ bytes w, (deps.imageDimensions bytes).1 = some w → InRange 32 w
  height : ∀ bytes h, (deps.imageDimensions bytes).2 = some h → InRange 32 h

/-- The stored key of a Git backend leaves room for its prefix. -/
def KeyRoom (mime day : String) : Backend → Prop
  | .git g => NulFree (g.pathPrefix.getD "pichost") ∧ NulFree day ∧
      (g.pathPrefix.getD "pichost").length + day.length + (GitStorage.mimeToExt mime).length + 46 ≤
        512
  | _ => True

def UrlRoom (deps : Deps) (mime day : String) : Backend → Prop
  | .localStorage _ _ => NulFree (trimEndSlash deps.publicUrl) ∧
      (trimEndSlash deps.publicUrl).length + 9 ≤ 1024
  | .rustfs endpoint bucket => NulFree endpoint ∧ NulFree bucket ∧
      endpoint.length + bucket.length + 45 ≤ 1024
  | .git g => NulFree g.owner ∧ NulFree g.repo ∧ NulFree g.branch ∧
      g.rawBaseUrl.length + g.owner.length + g.repo.length + g.branch.length +
        (g.pathPrefix.getD "pichost").length + day.length + (GitStorage.mimeToExt mime).length +
        58 ≤ 1024

/-- The name is short and has no NUL, the configuration is a local one, and the deployment and
the backend leave room for the key and the URL. -/
structure HasRoom (deps : Deps) (ctx : UploadCtx) (config : UserStorageConfig) (backend : Backend)
    (day : String) : Prop where
  name : Fits 255 ctx.fileName
  config : config.provider = "local"
  key : KeyRoom (detectMime deps ctx.bytes) day backend
  url : UrlRoom deps (detectMime deps ctx.bytes) day backend

/-- A vector holds fewer than `2 ^ 63` bytes. In between, other requests change the stores. -/
inductive Action
  | submit (ctx : UploadCtx) (h : ctx.bytes.length < 2 ^ 63)
  | advance (i b : ℕ) (inp : Input)
  | other (stores : Stores)

def step (deps : Deps) (w : World) : Action → World
  | .submit ctx _ => w.submit ctx
  | .advance i b inp => w.advance deps i b inp
  | .other stores => { w with stores }

/-- The values that wait to be inserted go into their columns. -/
def AllFit (deps : Deps) (w : World) : Prop :=
  ∀ i b ctx config backend publicKey storageKey url,
    At w.requests i b ctx config (.insertImageRecord backend publicKey storageKey url) →
      ∀ inp, imagesSchema.Accepts (insertBinds (newImage deps ctx config inp publicKey storageKey url))

/-- Bytes are stored only where their row has room. -/
def StoresRoom (deps : Deps) (w : World) : Action → Prop
  | .advance i b inp => ∀ ctx config backend publicKey,
      At w.requests i b ctx config (.writeToStorage backend publicKey) →
        ∀ path objects, backend.put inp.storageFault inp.day (sourceKey ctx.user.id publicKey)
          ctx.bytes (detectMime deps ctx.bytes) w.stores.objects = (.ok path, objects) →
            HasRoom deps ctx config backend inp.day
  | _ => True

/-- The bytes of the requests are in memory, and public keys are drawn. -/
structure Drawn (w : World) : Prop where
  bytes : ∀ req ∈ w.requests, req.ctx.bytes.length < 2 ^ 63
  key : ∀ i b ctx config backend publicKey,
    At w.requests i b ctx config (.writeToStorage backend publicKey) →
      ∃ draw, publicKey = publicKeyOf draw

/-! ## The columns -/

theorem accepts_insertBinds (r : Image) : imagesSchema.Accepts (insertBinds r) ↔
    Fits 16 r.publicKey ∧ Fits 255 r.originalName ∧ Fits 512 r.storageKey ∧
      Fits 32 r.storageBackend ∧ Fits 128 r.mimeType ∧ InRange 64 r.fileSize ∧
      (∀ w, r.width = some w → InRange 32 w) ∧ (∀ h, r.height = some h → InRange 32 h) ∧
      Fits 64 r.sha256 ∧ Fits 1024 r.url := by
  have hwidth : ∀ n : Option ℤ, ∀ name : String, (⟨name, .integer, true⟩ : Column).Accepts
      (n.elim .null .int) ↔ ∀ w, n = some w → InRange 32 w := by
    intro n name
    cases n with
    | none => exact iff_of_true rfl fun w hw => by cases hw
    | some w =>
      simp only [Option.elim_some, Column.Accepts, ColumnType.Accepts, Option.some.injEq,
        forall_eq']
  have hconfig : (⟨"storage_config_id", .uuid, true⟩ : Column).Accepts
      (r.storageConfigId.elim .null fun _ => .uuid) := by
    cases r.storageConfigId with
    | none => rfl
    | some id => trivial
  unfold insertBinds
  rw [Schema.accepts_cons (c := ⟨"user_id", .uuid, false⟩) rfl,
    Schema.accepts_cons (c := ⟨"public_key", .varchar 16, false⟩) rfl,
    Schema.accepts_cons (c := ⟨"original_name", .varchar 255, false⟩) rfl,
    Schema.accepts_cons (c := ⟨"storage_key", .varchar 512, false⟩) rfl,
    Schema.accepts_cons (c := ⟨"storage_backend", .varchar 32, false⟩) rfl,
    Schema.accepts_cons (c := ⟨"mime_type", .varchar 128, false⟩) rfl,
    Schema.accepts_cons (c := ⟨"file_size", .bigint, false⟩) rfl,
    Schema.accepts_cons (c := ⟨"width", .integer, true⟩) rfl,
    Schema.accepts_cons (c := ⟨"height", .integer, true⟩) rfl,
    Schema.accepts_cons (c := ⟨"sha256", .varchar 64, false⟩) rfl,
    Schema.accepts_cons (c := ⟨"url", .varchar 1024, false⟩) rfl,
    Schema.accepts_cons (c := ⟨"storage_config_id", .uuid, true⟩) rfl,
    hwidth, hwidth, and_iff_left (Schema.accepts_nil _), and_iff_left hconfig]
  exact and_iff_right trivial

theorem nulFree_toText (u : Uuid) : NulFree u.toText :=
  Uuid.notMem_toText (by decide) (by decide) u

theorem nulFree_publicKeyOf (draw : ℕ) : NulFree (publicKeyOf draw) := by
  rw [NulFree, publicKeyOf, String.toList_ofList]
  exact Radix.hex.not_mem_encode (by decide) _ _

theorem length_sourceKey (userId : Uuid) (draw : ℕ) :
    (sourceKey userId (publicKeyOf draw)).length = 43 := by
  rw [sourceKey, String.length_append, String.length_append, Uuid.length_toText,
    Serving.length_publicKeyOf]
  rfl

theorem nulFree_sourceKey (userId : Uuid) (draw : ℕ) :
    NulFree (sourceKey userId (publicKeyOf draw)) := by
  rw [sourceKey, nulFree_append, nulFree_append]
  exact ⟨⟨nulFree_toText userId, by decide⟩, nulFree_publicKeyOf draw⟩

theorem nulFree_mimeToExt (mime : String) : NulFree (GitStorage.mimeToExt mime) := by
  unfold GitStorage.mimeToExt
  repeat' split
  all_goals decide

theorem nulFree_rawBaseUrl (g : GitStorage) : NulFree g.rawBaseUrl := by
  unfold GitStorage.rawBaseUrl
  split <;> decide

section Room

variable {deps : Deps} {mime day : String} {backend : Backend} {userId : Uuid} {draw : ℕ}

theorem length_buildPath (g : GitStorage) :
    (g.buildPath day (sourceKey userId (publicKeyOf draw)) (GitStorage.mimeToExt mime)).length =
      (g.pathPrefix.getD "pichost").length + day.length +
        (GitStorage.mimeToExt mime).length + 46 := by
  simp only [GitStorage.buildPath, String.length_append, length_sourceKey,
    show ("/" : String).length = 1 from rfl, show ("." : String).length = 1 from rfl]
  omega

theorem nulFree_buildPath (g : GitStorage) :
    NulFree (g.buildPath day (sourceKey userId (publicKeyOf draw)) (GitStorage.mimeToExt mime)) ↔
      NulFree (g.pathPrefix.getD "pichost") ∧ NulFree day := by
  have hslash : NulFree "/" := by decide
  have hdot : NulFree "." := by decide
  simp only [GitStorage.buildPath, nulFree_append, nulFree_sourceKey, nulFree_mimeToExt, hslash,
    hdot, and_true]

theorem fits_storedKey :
    Fits 512 (backend.storedKey day (sourceKey userId (publicKeyOf draw)) mime) ↔
      KeyRoom mime day backend := by
  cases backend with
  | git g =>
    simp only [Backend.storedKey, Fits, length_buildPath, nulFree_buildPath, KeyRoom]
    tauto
  | localStorage | rustfs =>
    rw [Backend.storedKey_of_not_isGit rfl, Fits, length_sourceKey]
    exact iff_of_true ⟨by decide, nulFree_sourceKey userId draw⟩ trivial

theorem backendName_git (g : GitStorage) : (Backend.git g).backendName ≠ "local" := by
  unfold Backend.backendName
  dsimp only
  split <;> decide

theorem length_rawUrl (g : GitStorage) (path : String) :
    (g.rawUrl path).length = g.rawBaseUrl.length + g.owner.length + g.repo.length +
      g.branch.length + path.length + 12 := by
  -- deriving the equation of `rawUrl` is slow
  delta GitStorage.rawUrl
  simp only [String.length_append, show ("/" : String).length = 1 from rfl,
    show ("https://" : String).length = 8 from rfl]
  omega

theorem nulFree_rawUrl (g : GitStorage) (path : String) :
    NulFree (g.rawUrl path) ↔
      (NulFree g.owner ∧ NulFree g.repo ∧ NulFree g.branch) ∧ NulFree path := by
  have hslash : NulFree "/" := by decide
  have hscheme : NulFree "https://" := by decide
  delta GitStorage.rawUrl
  simp only [nulFree_append, nulFree_rawBaseUrl, hslash, hscheme, and_true, true_and, and_assoc]

theorem fits_storedUrl (hkey : KeyRoom mime day backend) :
    Fits 1024 (storedUrl deps backend (publicKeyOf draw)
        (backend.storedKey day (sourceKey userId (publicKeyOf draw)) mime)) ↔
      UrlRoom deps mime day backend := by
  have hslash : NulFree "/" := by decide
  have hlength : ("/" : String).length = 1 := rfl
  cases backend with
  | localStorage basePath baseUrl =>
    have hserved : NulFree "/u/" := by decide
    have hname : (Backend.localStorage basePath baseUrl).backendName = "local" := rfl
    rw [storedUrl, if_pos hname, Fits, String.length_append, String.length_append,
      Serving.length_publicKeyOf, nulFree_append, nulFree_append,
      show ("/u/" : String).length = 3 from rfl]
    simp only [hserved, nulFree_publicKeyOf, and_true, UrlRoom, Nat.add_assoc]
    exact and_comm
  | rustfs endpoint bucket =>
    have hname : (Backend.rustfs endpoint bucket).backendName ≠ "local" := by
      show "rustfs" ≠ "local"
      decide
    rw [storedUrl, if_neg hname, Backend.storedKey_of_not_isGit rfl]
    simp only [Backend.publicUrl, Fits, String.length_append, nulFree_append, length_sourceKey,
      nulFree_sourceKey, hslash, hlength, and_true, UrlRoom]
    constructor
    · rintro ⟨hroom, hendpoint, hbucket⟩
      exact ⟨hendpoint, hbucket, by omega⟩
    · rintro ⟨hendpoint, hbucket, hroom⟩
      exact ⟨by omega, hendpoint, hbucket⟩
  | git g =>
    rw [storedUrl, if_neg (backendName_git g)]
    show Fits 1024 (g.rawUrl (g.buildPath day _ _)) ↔ _
    rw [Fits, length_rawUrl, length_buildPath, nulFree_rawUrl,
      and_iff_left ((nulFree_buildPath g).mpr ⟨hkey.1, hkey.2.1⟩)]
    show _ ↔ NulFree g.owner ∧ NulFree g.repo ∧ NulFree g.branch ∧ _
    constructor
    · rintro ⟨hroom, howner, hrepo, hbranch⟩
      exact ⟨howner, hrepo, hbranch, by omega⟩
    · rintro ⟨howner, hrepo, hbranch, hroom⟩
      exact ⟨by omega, howner, hrepo, hbranch⟩

theorem fits_dbBackend {config : UserStorageConfig} :
    Fits 32 config.dbBackend ↔ config.provider = "local" := by
  unfold UserStorageConfig.dbBackend
  by_cases hlocal : config.provider = "local"
  · simp only [hlocal, if_true, iff_true]
    decide
  · simp only [hlocal, if_false, iff_false]
    intro hfits
    have hlength := hfits.1
    rw [Uuid.length_toText] at hlength
    omega

/-- The values of a row whose bytes are stored go into their columns exactly if there is room. -/
theorem accepts_newImage (hdeps : LibrariesFit deps) {ctx : UploadCtx}
    (hbytes : ctx.bytes.length < 2 ^ 63) {config : UserStorageConfig} (inp : Input) {url : String}
    {storageKey : String} (hkey : storageKey = backend.storedKey day
      (sourceKey ctx.user.id (publicKeyOf draw)) (detectMime deps ctx.bytes))
    (hurl : url = storedUrl deps backend (publicKeyOf draw) storageKey) :
    imagesSchema.Accepts
        (insertBinds (newImage deps ctx config inp (publicKeyOf draw) storageKey url)) ↔
      HasRoom deps ctx config backend day := by
  have hpublic : Fits 16 (publicKeyOf draw) := by
    refine ⟨?_, nulFree_publicKeyOf draw⟩
    rw [Serving.length_publicKeyOf]
    decide
  have hmime : Fits 128 (detectMime deps ctx.bytes) := by
    unfold detectMime
    cases h : deps.inferMime ctx.bytes with
    | none => decide
    | some mime => exact hdeps.mime _ _ h
  have hsize : InRange 64 (ctx.bytes.length : ℤ) := by
    constructor <;> omega
  subst hkey
  subst hurl
  rw [accepts_insertBinds]
  simp only [newImage, hpublic, hmime, hsize, hdeps.sha256, fits_storedKey, fits_dbBackend,
    true_and]
  constructor
  · rintro ⟨hname, hkey, hlocal, -, -, hurl⟩
    exact ⟨hname, hlocal, hkey, (fits_storedUrl hkey).mp hurl⟩
  · intro h
    exact ⟨h.name, h.key, h.config, hdeps.width _, hdeps.height _, (fits_storedUrl h.key).mpr h.url⟩

end Room

/-! ## Runs -/

section Runs

variable {deps : Deps} {w : World} {i b : ℕ} {inp : Input} {ctx : UploadCtx}
  {config : UserStorageConfig} {p : Pipeline}

/-- The pipeline that moves stands where its call has left it. -/
theorem eq_of_at_advance (hat : At w.requests i b ctx config p) {ctx' : UploadCtx}
    {config' : UserStorageConfig} {p' : Pipeline}
    (h : At (w.advance deps i b inp).requests i b ctx' config' p') :
    p' = (uploadToSingleBackend deps ctx config inp p w.stores).1 := by
  obtain ⟨seen, branches, hreq, hb⟩ := hat
  obtain ⟨seen', branches', hreq', hb'⟩ := h
  simp only [World.advance, hreq, processUpload, hb] at hreq'
  rw [List.getElem?_set_self', hreq] at hreq'
  rcases settle_cases seen (branches.set b
      (config, (uploadToSingleBackend deps ctx config inp p w.stores).1)) with
    ⟨hrun, -⟩ | ⟨results, hdone, -⟩
  · rw [hrun] at hreq'
    cases hreq'
    rw [List.getElem?_set_self', hb] at hb'
    cases hb'
    rfl
  · rw [hdone] at hreq'
    cases hreq'

/-- A pipeline that has no result yet goes on. -/
theorem at_advance (hat : At w.requests i b ctx config p)
    (hrun : (uploadToSingleBackend deps ctx config inp p w.stores).1.result = none) :
    At (w.advance deps i b inp).requests i b ctx config
      (uploadToSingleBackend deps ctx config inp p w.stores).1 := by
  obtain ⟨seen, branches, hreq, hb⟩ := hat
  have hset : (branches.set b (config, (uploadToSingleBackend deps ctx config inp p
      w.stores).1))[b]? =
        some (config, (uploadToSingleBackend deps ctx config inp p w.stores).1) := by
    rw [List.getElem?_set_self', hb]
    rfl
  rcases settle_cases seen (branches.set b
      (config, (uploadToSingleBackend deps ctx config inp p w.stores).1)) with
    ⟨hrunning, -⟩ | ⟨results, -, hresults⟩
  · refine ⟨seen, _, ?_, hset⟩
    simp only [World.advance, hreq, processUpload, hb, hrunning]
    rw [List.getElem?_set_self', hreq]
    rfl
  · have hmem := List.mem_map_of_mem (f := Prod.snd) (List.mem_of_getElem? hset)
    rw [hresults] at hmem
    obtain ⟨result, -, hresult⟩ := List.mem_map.mp hmem
    dsimp only at hresult
    rw [← hresult] at hrun
    cases hrun

theorem requests_advance {req : Request} (h : req ∈ (w.advance deps i b inp).requests) :
    ∃ req' ∈ w.requests, req.ctx = req'.ctx := by
  cases hi : w.requests[i]? with
  | none =>
    simp only [World.advance, hi] at h
    exact ⟨req, h, rfl⟩
  | some req' =>
    simp only [World.advance, hi] at h
    rcases List.mem_or_eq_of_mem_set h with hmem | rfl
    · exact ⟨req, hmem, rfl⟩
    · exact ⟨req', List.mem_of_getElem? hi, rfl⟩

theorem Drawn.step (h : Drawn w) (a : Action) : Drawn (step deps w a) := by
  cases a with
  | submit new hbytes =>
    refine ⟨fun req hreq => ?_, fun i b ctx config backend publicKey hat =>
      h.key i b ctx config backend publicKey hat.of_submit⟩
    rcases List.mem_append.mp hreq with hreq | hreq
    · exact h.bytes req hreq
    · rw [List.mem_singleton.mp hreq]
      exact hbytes
  | advance i b inp =>
    refine ⟨fun req hreq => ?_, fun i' b' ctx config backend publicKey hat => ?_⟩
    · obtain ⟨req', hmem, hctx⟩ := requests_advance hreq
      rw [hctx]
      exact h.bytes req' hmem
    · cases Service.at_of_advance deps hat with
      | stays hat => exact h.key i' b' ctx config backend publicKey hat
      | starts hp => cases hp
      | moves hat hcall =>
        cases hcall with
        | keyFree => exact ⟨_, rfl⟩
  | other stores => exact ⟨h.bytes, h.key⟩

/-- Values come to wait for their `INSERT` when the bytes have been stored. -/
theorem written_of_at {i' b' : ℕ} {backend : Backend} {publicKey storageKey url : String}
    (h : At (w.advance deps i b inp).requests i' b' ctx config
      (.insertImageRecord backend publicKey storageKey url)) :
    At w.requests i' b' ctx config (.insertImageRecord backend publicKey storageKey url) ∨
      At w.requests i b ctx config (.writeToStorage backend publicKey) ∧
        url = storedUrl deps backend publicKey storageKey ∧
        ∃ objects, backend.put inp.storageFault inp.day (sourceKey ctx.user.id publicKey) ctx.bytes
          (detectMime deps ctx.bytes) w.stores.objects = (.ok storageKey, objects) := by
  cases Service.at_of_advance deps h with
  | stays hat => exact .inl hat
  | starts hp => cases hp
  | @moves p₀ s' hat hcall hindex =>
    obtain ⟨rfl, rfl⟩ := hindex
    have heq := eq_of_at_advance hat h
    cases hcall with
    | written hk =>
      refine .inr ⟨hat, rfl, ?_⟩
      unfold uploadToSingleBackend at heq
      dsimp only at heq
      split at heq
      · rename_i key objects hput
        cases heq
        exact ⟨objects, hput⟩
      · cases heq

theorem allFit_step_iff (hdeps : LibrariesFit deps) (hdrawn : Drawn w) (h : AllFit deps w)
    (a : Action) : AllFit deps (step deps w a) ↔ StoresRoom deps w a := by
  cases a with
  | submit new hbytes =>
    exact iff_of_true (fun i b ctx config backend publicKey storageKey url hat =>
      h i b ctx config backend publicKey storageKey url hat.of_submit) trivial
  | other stores => exact iff_of_true h trivial
  | advance i b inp =>
    have hroom : ∀ ctx config backend publicKey storageKey objects,
        At w.requests i b ctx config (.writeToStorage backend publicKey) →
        backend.put inp.storageFault inp.day (sourceKey ctx.user.id publicKey) ctx.bytes
          (detectMime deps ctx.bytes) w.stores.objects = (.ok storageKey, objects) →
        ∀ inp', imagesSchema.Accepts (insertBinds (newImage deps ctx config inp' publicKey
          storageKey (storedUrl deps backend publicKey storageKey))) ↔
            HasRoom deps ctx config backend inp.day := by
      intro ctx config backend publicKey storageKey objects hat hput inp'
      obtain ⟨draw, rfl⟩ := hdrawn.key _ _ _ _ _ _ hat
      obtain ⟨seen, branches, hreq, -⟩ := hat
      exact accepts_newImage hdeps (hdrawn.bytes _ (List.mem_of_getElem? hreq)) inp'
        (Backend.put_ok hput).1 rfl
    constructor
    · intro h' ctx config backend publicKey hat path objects hput
      have hnext : (uploadToSingleBackend deps ctx config inp (.writeToStorage backend publicKey)
          w.stores).1 = .insertImageRecord backend publicKey path
            (storedUrl deps backend publicKey path) := by
        simp only [uploadToSingleBackend, hput]
      have hat' := at_advance hat (by rw [hnext]; rfl)
      rw [hnext] at hat'
      exact (hroom ctx config backend publicKey path objects hat hput inp).mp
        (h' _ _ _ _ _ _ _ _ hat' inp)
    · intro hstores i' b' ctx config backend publicKey storageKey url hat inp'
      rcases written_of_at hat with hold | ⟨hwrite, rfl, objects, hput⟩
      · exact h _ _ _ _ _ _ _ _ hold inp'
      · exact (hroom ctx config backend publicKey storageKey objects hwrite hput inp').mpr
          (hstores ctx config backend publicKey hwrite storageKey objects hput)

/-- In every state of a run, the values that wait for their `INSERT` go into their columns exactly
if bytes are only ever stored for a short name without NUL and a local configuration, by a
deployment whose addresses leave room. -/
theorem accepted_values_fit_iff (hdeps : LibrariesFit deps) (stores : Stores) (as : List Action) :
    AllStates (step deps) (AllFit deps) ⟨stores, []⟩ as ↔
      AllSteps (step deps) (StoresRoom deps) ⟨stores, []⟩ as := by
  have hnone : ∀ i b ctx config p, ¬ At ([] : List Request) i b ctx config p := by
    rintro i b ctx config p ⟨seen, branches, hreq, -⟩
    cases hreq
  refine allStates_iff_allSteps (J := Drawn) (P := AllFit deps) (fun _ a h => h.step a)
    (fun _ a hdrawn h => allFit_step_iff hdeps hdrawn h a) ?_ ?_ as
  · exact ⟨fun req hreq => (List.not_mem_nil hreq).elim,
      fun i b ctx config backend publicKey hat => (hnone _ _ _ _ _ hat).elim⟩
  · exact fun i b ctx config backend publicKey storageKey url hat => (hnone _ _ _ _ _ hat).elim

end Runs

def hexDeps : Deps where
  __ := smallDeps
  sha256 bytes := if bytes = pngSignature ++ [1, 2, 3] then
      "cdf3cefe7ec6253d1cb4828ab654da6beb8a4727daac0c49dbf26bedf5887f79"
    else String.ofList (Radix.hex.encode 64 bytes.length)

theorem librariesFit_hexDeps : LibrariesFit hexDeps where
  mime bytes mime h := by
    simp only [hexDeps, smallDeps] at h
    split at h
    · cases h
      decide
    · cases h
  sha256 bytes := by
    simp only [hexDeps]
    split
    · decide
    · rw [Fits, ← String.length_toList, NulFree, String.toList_ofList, Radix.hex.length_encode]
      exact ⟨le_refl _, Radix.hex.not_mem_encode (by decide) _ _⟩
  width bytes w h := by cases h
  height bytes h hh := by cases hh

def longNamed : UploadCtx := { demoCtx with fileName := String.ofList (List.replicate 256 'a') }

/-- An upload up to its `INSERT`. -/
def uploadRun (ctx : UploadCtx) (h : ctx.bytes.length < 2 ^ 63) : List Action :=
  .submit ctx h :: List.replicate 6 (.advance 0 0 (smoothInput 1 1))

theorem accepted_values_fit_iff_png :
    AllStates (step hexDeps) (AllFit hexDeps) ⟨emptyStores, []⟩
        (uploadRun demoCtx (by decide)) ↔
      AllSteps (step hexDeps) (StoresRoom hexDeps) ⟨emptyStores, []⟩
        (uploadRun demoCtx (by decide)) :=
  accepted_values_fit_iff librariesFit_hexDeps emptyStores _

/-- A name of 256 characters is not refused before the file is stored. -/
theorem accepted_name_does_not_fit :
    ¬ ∀ as, AllStates (step hexDeps) (AllFit hexDeps) ⟨emptyStores, []⟩ as := by
  intro h
  have hlast := (h (uploadRun longNamed (by decide))).last
  have hat : At ((uploadRun longNamed (by decide)).foldl (step hexDeps)
      ⟨emptyStores, []⟩).requests 0 0 longNamed (UploadConfigs.localFallbackConfig 0 7)
      (.insertImageRecord (.localStorage "/data" "http://pics") (publicKeyOf 1)
        (sourceKey 7 (publicKeyOf 1)) (trimEndSlash "http://pics" ++ "/u/" ++ publicKeyOf 1)) :=
    ⟨none, _, rfl, rfl⟩
  have hname := ((accepts_insertBinds _).mp (hlast _ _ _ _ _ _ _ _ hat (smoothInput 1 1))).2.1
  have hlength : longNamed.fileName.length = 256 := by
    rw [longNamed, ← String.length_toList, String.toList_ofList, List.length_replicate]
  have hshort : longNamed.fileName.length ≤ 255 := hname.1
  omega

end PicHost.SchemaFit
