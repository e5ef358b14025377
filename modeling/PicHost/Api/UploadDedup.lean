import PicHost.Api.Upload
import PicHost.Lib.Run

/-!
# Deduplication per configuration

The code looks for the content under one configuration; the unique index of `images` is
about the user and the content alone.
-/

namespace PicHost.UploadDedup

open LabelledRun Upload KeyedTable

variable (deps : Deps) (ctx : UploadCtx)

/-- The user has the content already. -/
def SameContent (r : Image) : Prop :=
  r.userId = ctx.user.id ∧ r.sha256 = deps.sha256 ctx.bytes

/-- A row of the user with this content under the configuration. -/
def HasRow (s : Stores) (config : UserStorageConfig) : Prop :=
  ∃ r ∈ s.images.rows, SameContent deps ctx r ∧ r.storageConfigId = config.dbConfigId

/-- The pipeline that moves, with its configuration. -/
def moving (w : Stage × Stores) (a : ℕ × Input) : Option (UserStorageConfig × Pipeline) :=
  match w.1 with
  | .running _ branches => branches[a.1]?
  | _ => none

/-- The configuration resolves to a backend, and the backend takes the file. -/
def backendSucceeds (w : Stage × Stores) (a : ℕ × Input) : Bool :=
  match moving w a with
  | some (config, .forConfig) => (w.2.router.forConfig deps.git config).1.isOk
  | some (_, .writeToStorage backend publicKey) =>
    (backend.put a.2.storageFault a.2.day (sourceKey ctx.user.id publicKey) ctx.bytes
      (detectMime deps ctx.bytes) w.2.objects).1.isOk
  | _ => true

/-- A step whose calls to the database and the storage succeed; the identifier generated for
a row is unused. -/
def Smooth (w : Stage × Stores) (a : ℕ × Input) : Prop :=
  a.2.dbUp = true ∧ (∀ r ∈ w.2.images.rows, r.id ≠ a.2.imageId) ∧
    backendSucceeds deps ctx w a = true

instance (w : Stage × Stores) : DecidablePred (Smooth deps ctx w) := fun _ =>
  inferInstanceAs (Decidable (_ ∧ _ ∧ _))

/-- The pipeline that moves draws a public key that is taken. -/
def keyTaken (w : Stage × Stores) (a : ℕ × Input) : Bool :=
  match moving w a with
  | some (_, .generatePublicKey _) =>
    w.2.images.anyRow fun r => r.publicKey == publicKeyOf a.2.draw
  | _ => false

/-- How often pipeline `b` moves in a run, not counting draws of taken keys. -/
def turns (b : ℕ) : Stage × Stores → List (ℕ × Input) → ℕ
  | _, [] => 0
  | w, a :: as =>
    (if a.1 = b ∧ keyTaken w a = false then 1 else 0) + turns b (alone deps ctx w a) as

/-- The first two calls of a request that passes the checks before its pipelines run. -/
structure Accepted (a₀ a₁ : ℕ × Input) (s : Stores) (seen : Option ℤ)
    (configs : List UserStorageConfig) : Prop where
  image : deps.isImage ctx.bytes = true
  quotas : checkUploadQuotas deps a₀.2 ctx.user ctx.bytes.length s.images = .ok seen
  resolve : UploadConfigs.resolveUploadConfigs a₁.2.dbUp a₁.2.now ctx.user.id
    ctx.storageConfigIds s.configs = .ok configs
  valid : UploadConfigs.validateUploadConfigs configs = .ok ()
  encryptionKey : deps.encryptionKeyValid = true

/-- `Ok` with one result for each configuration. -/
def Delivers (configs : List UserStorageConfig) (stage : Stage) : Prop :=
  ∃ results, stage = .done (.ok results) ∧ results.length = configs.length

/-- One configuration, and the content is new to the user or stored under it. -/
def Compatible (configs : List UserStorageConfig) (images : ImageTable) : Prop :=
  ∃ config, configs = [config] ∧
    ∀ r ∈ images.rows, SameContent deps ctx r → r.storageConfigId = config.dbConfigId

/-- Pipelines that have found or put in a row. -/
def Pipeline.ClaimsRow : Pipeline → Prop
  | .fetchDedupRow | .enqueue _ _ _ _ _ | .done (.ok _) => True
  | _ => False

/-- What the pipelines of a running request claim is in the table. -/
def Backed (configs : List UserStorageConfig) (s : Stores) : Stage → Prop
  | .running _ branches => branches.map Prod.fst = configs ∧
      ∀ branch ∈ branches, Pipeline.ClaimsRow branch.2 → HasRow deps ctx s branch.1
  | .done (.ok _) => ∀ config ∈ configs, HasRow deps ctx s config
  | .done (.error _) => True
  | _ => False

variable {deps ctx}

theorem dedupWhere_iff {config : UserStorageConfig} {r : Image} :
    dedupWhere ctx.user.id (deps.sha256 ctx.bytes) config.dbConfigId r = true ↔
      SameContent deps ctx r ∧ r.storageConfigId = config.dbConfigId := by
  simp only [dedupWhere, Bool.and_eq_true, beq_iff_eq, SameContent]

/-- A call only adds rows. -/
theorem rows_call {config : UserStorageConfig} {inp : Input} {p p' : Pipeline} {s s' : Stores}
    (h : Call deps ctx config inp p s p' s') : ∀ r ∈ s.images.rows, r ∈ s'.images.rows := by
  cases h with
  | inserted hdb h => exact fun r hr => (Table.mem_of_insert h).mpr (.inl hr)
  | _ => exact fun r hr => hr

theorem claimsRow_call {config : UserStorageConfig} {inp : Input} {p p' : Pipeline}
    {s s' : Stores} (h : Call deps ctx config inp p s p' s')
    (hp : Pipeline.ClaimsRow p → HasRow deps ctx s config) :
    Pipeline.ClaimsRow p' → HasRow deps ctx s' config := by
  intro hp'
  cases h with
  | found hr hw | fetched hr hw => exact ⟨_, hr, dedupWhere_iff.mp hw⟩
  | inserted hdb h =>
    exact ⟨_, (Table.mem_of_insert h).mpr (.inr rfl), ⟨rfl, rfl⟩, rfl⟩
  | enqueued | notEnqueued => exact hp trivial
  | idle => exact hp hp'
  | _ => exact absurd hp' id

theorem HasRow.mono {s s' : Stores} (hrows : ∀ r ∈ s.images.rows, r ∈ s'.images.rows)
    {config : UserStorageConfig} : HasRow deps ctx s config → HasRow deps ctx s' config := by
  rintro ⟨r, hr, h⟩
  exact ⟨r, hrows r hr, h⟩

/-- A row of the user with the content is under every configuration that has one. -/
theorem HasRow.storageConfigId {s : Stores} {config : UserStorageConfig}
    (h : HasRow deps ctx s config) {r : Image} (hr : r ∈ s.images.rows)
    (hc : SameContent deps ctx r) : r.storageConfigId = config.dbConfigId := by
  obtain ⟨q, hq, ⟨hu, hs⟩, hid⟩ := h
  rw [← ImageTable.eq_of_sha256 hq hr (hu.trans hc.1.symm) (hs.trans hc.2.symm), hid]

variable {configs : List UserStorageConfig} {s s' : Stores} {stage stage' : Stage} {inp : Input}
  {b : ℕ}

theorem backed_settle {seen : Option ℤ} {branches : List (UserStorageConfig × Pipeline)}
    (h : Backed deps ctx configs s (.running seen branches)) :
    Backed deps ctx configs s (settle seen branches) := by
  rcases settle_cases seen branches with ⟨hrun, -⟩ | ⟨results, hdone, hmap⟩
  · rwa [hrun]
  · rw [hdone]
    cases hall : unwrapAll results with
    | error e => trivial
    | ok rs =>
      intro config hconfig
      rw [← h.1, List.mem_map] at hconfig
      obtain ⟨branch, hbranch, rfl⟩ := hconfig
      apply h.2 branch hbranch
      have hp := List.mem_map_of_mem (f := Prod.snd) hbranch
      rw [hmap, unwrapAll_ok hall, List.map_map, List.mem_map] at hp
      obtain ⟨r, -, hr⟩ := hp
      rw [← hr]
      trivial

theorem Backed.advance (h : Backed deps ctx configs s stage)
    (ha : Advance deps ctx inp b s stage stage' s') : Backed deps ctx configs s' stage' := by
  cases ha with
  | rejected => trivial
  | checked | started => exact absurd h id
  | idle => exact h
  | moved hb hcall =>
    rename_i seen branches config p p'
    have hconfigs : (branches.set b (config, p')).map Prod.fst = branches.map Prod.fst :=
      map_set_of_eq hb rfl
    refine backed_settle ⟨hconfigs.trans h.1, fun branch hbranch => ?_⟩
    rcases List.mem_or_eq_of_mem_set hbranch with hold | rfl
    · exact fun hc => (h.2 branch hold hc).mono (rows_call hcall)
    · exact claimsRow_call hcall (h.2 (config, p) (List.mem_of_getElem? hb))

/-- The rows of a request's start are still there. -/
theorem rows_advance (ha : Advance deps ctx inp b s stage stage' s') :
    ∀ r ∈ s.images.rows, r ∈ s'.images.rows := by
  cases ha with
  | moved hb hcall => exact rows_call hcall
  | _ => exact fun r hr => hr

variable (deps ctx) in
/-- Where one pipeline of a smooth run can stand: it has what its next call needs. -/
def OnCourse (config : UserStorageConfig) (s : Stores) : Pipeline → Prop
  | .dedupExists =>
    ∀ r ∈ s.images.rows, SameContent deps ctx r → r.storageConfigId = config.dbConfigId
  | .fetchDedupRow => HasRow deps ctx s config
  | .forConfig | .generatePublicKey _ => ∀ r ∈ s.images.rows, ¬ SameContent deps ctx r
  | .writeToStorage _ publicKey | .insertImageRecord _ publicKey _ _ =>
    (∀ r ∈ s.images.rows, ¬ SameContent deps ctx r) ∧
      ∀ r ∈ s.images.rows, r.publicKey ≠ publicKey
  | .enqueue _ _ _ _ _ => True
  | .done result => ∃ r, result = .ok r

/-- How many calls a pipeline still makes at most. -/
def remaining : Pipeline → ℕ
  | .dedupExists => 6
  | .forConfig => 5
  | .generatePublicKey _ => 4
  | .writeToStorage _ _ => 3
  | .insertImageRecord _ _ _ _ => 2
  | .fetchDedupRow | .enqueue _ _ _ _ _ => 1
  | .done _ => 0

theorem remaining_eq_zero {p : Pipeline} (h : remaining p = 0) : ∃ result, p = .done result := by
  cases p with
  | done result => exact ⟨result, rfl⟩
  | _ => cases h

theorem insert_of_unseen {config : UserStorageConfig} {publicKey storageKey url : String}
    (hid : ∀ r ∈ s.images.rows, r.id ≠ inp.imageId)
    (hc : ∀ r ∈ s.images.rows, ¬ SameContent deps ctx r)
    (hk : ∀ r ∈ s.images.rows, r.publicKey ≠ publicKey) :
    s.images.insert (newImage deps ctx config inp publicKey storageKey url) ≠ none := by
  intro hnone
  obtain ⟨r, hr, hclash⟩ := Table.insert_eq_none.mp hnone
  rcases hclash with h | h | ⟨hu, hs⟩
  · exact hid r hr h
  · exact hk r hr h
  · exact hc r hr ⟨hu, hs⟩

/-- A pipeline that is on course is not refused when its calls succeed. -/
theorem not_refused {config : UserStorageConfig} {p : Pipeline} {w : Stage × Stores}
    {a : ℕ × Input} (hsmooth : Smooth deps ctx w a) (hmove : moving w a = some (config, p))
    (h : OnCourse deps ctx config w.2 p) :
    ¬ Refused deps ctx config a.2 p w.2 := by
  obtain ⟨hdb, hid, hbackend⟩ := hsmooth
  intro hr
  cases hr with
  | database hdown => cases hdown.symm.trans hdb
  | rowGone hgone =>
    obtain ⟨r, hr, hrow⟩ := h
    cases (hgone r hr).symm.trans (dedupWhere_iff.mpr hrow)
  | resolve herr =>
    simp only [backendSucceeds, hmove, herr] at hbackend
    cases hbackend
  | put herr =>
    simp only [backendSucceeds, hmove, herr] at hbackend
    cases hbackend
  | insert hnone => exact insert_of_unseen hid h.1 h.2 hnone

/-- A call keeps a pipeline on course. -/
theorem OnCourse.call {config : UserStorageConfig} {p p' : Pipeline}
    (h : OnCourse deps ctx config s p)
    (hno : ¬ Refused deps ctx config inp p s) (hcall : Call deps ctx config inp p s p' s') :
    OnCourse deps ctx config s' p' := by
  cases hcall with
  | found hr hw => exact ⟨_, hr, dedupWhere_iff.mp hw⟩
  | notFound hw =>
    intro r hr hc
    have hrow := dedupWhere_iff.mpr ⟨hc, h r hr hc⟩
    cases (hw r hr).symm.trans hrow
  | fetched => exact ⟨_, rfl⟩
  | resolved => exact h
  | keyTaken => exact h
  | keyFree hk => exact ⟨h, hk⟩
  | written => exact h
  | inserted => trivial
  | enqueued | notEnqueued => exact ⟨_, rfl⟩
  | refused router hr | cut hr => exact absurd hr hno
  | idle => exact h

/-- A call brings a pipeline closer to its end, unless it draws a taken key. -/
theorem remaining_call {config : UserStorageConfig} {p p' : Pipeline}
    (hcall : Call deps ctx config inp p s p' s') :
    remaining p' ≤ remaining p - 1 ∨ p' = p ∧ (∃ backend, p = .generatePublicKey backend) ∧
      ∃ r ∈ s.images.rows, r.publicKey = publicKeyOf inp.draw := by
  cases hcall with
  | keyTaken hr hk => exact .inr ⟨rfl, ⟨_, rfl⟩, _, hr, hk⟩
  | refused => exact .inl (Nat.zero_le _)
  | _ => exact .inl (by simp only [remaining]; omega)

variable (deps ctx) in
/-- A request with one pipeline, which is on course or has its result. -/
def OnCourseStage (config : UserStorageConfig) (s : Stores) : Stage → Prop
  | .running _ branches =>
    ∃ p, branches = [(config, p)] ∧ p.result = none ∧ OnCourse deps ctx config s p
  | .done result => ∃ r, result = .ok [r]
  | _ => False

def stageRemaining : Stage → ℕ
  | .running _ [(_, p)] => remaining p
  | _ => 0

theorem settle_single (seen : Option ℤ) {config : UserStorageConfig} {p : Pipeline}
    (h : OnCourse deps ctx config s p) :
    OnCourseStage deps ctx config s (settle seen [(config, p)]) ∧
      stageRemaining (settle seen [(config, p)]) = remaining p := by
  cases p with
  | done result =>
    obtain ⟨r, rfl⟩ := h
    exact ⟨⟨r, rfl⟩, rfl⟩
  | _ => exact ⟨⟨_, rfl, rfl, h⟩, rfl⟩

/-- A smooth step of a request with one pipeline. -/
theorem OnCourseStage.alone {config : UserStorageConfig} {w : Stage × Stores} {a : ℕ × Input}
    (h : OnCourseStage deps ctx config w.2 w.1) (hsmooth : Smooth deps ctx w a) :
    OnCourseStage deps ctx config (alone deps ctx w a).2 (alone deps ctx w a).1 ∧
      stageRemaining (alone deps ctx w a).1 ≤
        stageRemaining w.1 - if a.1 = 0 ∧ keyTaken w a = false then 1 else 0 := by
  obtain ⟨stage, s⟩ := w
  have ha := processUpload_advance deps a.1 a.2 ctx stage s
  change OnCourseStage deps ctx config (processUpload deps a.1 a.2 ctx stage s).2
    (processUpload deps a.1 a.2 ctx stage s).1 ∧
      stageRemaining (processUpload deps a.1 a.2 ctx stage s).1 ≤ _
  generalize (processUpload deps a.1 a.2 ctx stage s).1 = stage',
    (processUpload deps a.1 a.2 ctx stage s).2 = s' at ha ⊢
  cases ha with
  | rejected hrej =>
    rcases hrej with rfl | ⟨seen, rfl⟩ <;> exact absurd h id
  | checked | started => exact absurd h id
  | idle hidle =>
    refine ⟨h, ?_⟩
    cases stage with
    | running seen branches =>
      obtain ⟨p, rfl, -⟩ := h
      have hb : a.1 ≠ 0 := by
        intro h0
        have := hidle seen _ rfl
        rw [h0] at this
        cases this
      simp [hb]
    | done result => exact Nat.zero_le _
    | _ => exact absurd h id
  | moved hb hcall =>
    rename_i seen branches config' p p'
    obtain ⟨p₀, rfl, hresult, hcourse⟩ := h
    have h0 : a.1 = 0 := by
      have hlt := (List.getElem?_eq_some_iff.mp hb).1
      simpa using hlt
    have hmove : moving (.running seen [(config, p₀)], s) a = some (config', p) := hb
    rw [h0] at hb ⊢
    cases hb
    have hcourse' := hcourse.call (not_refused hsmooth hmove hcourse) hcall
    obtain ⟨hstage, hleft⟩ := settle_single seen hcourse'
    refine ⟨hstage, ?_⟩
    rw [List.set_cons_zero, hleft]
    rcases remaining_call hcall with hless | ⟨rfl, ⟨backend, rfl⟩, hkey⟩
    · simp only [stageRemaining]
      split <;> omega
    · have htaken : keyTaken (.running seen [(config, .generatePublicKey backend)], s) a =
          true := by
        simp only [keyTaken, hmove, Table.anyRow_iff, beq_iff_eq]
        exact hkey
      simp [htaken, stageRemaining]

theorem OnCourseStage.run {config : UserStorageConfig} {w : Stage × Stores}
    (h : OnCourseStage deps ctx config w.2 w.1) {as : List (ℕ × Input)}
    (hsmooth : AllSteps (Upload.alone deps ctx) (Smooth deps ctx) w as) :
    OnCourseStage deps ctx config (as.foldl (Upload.alone deps ctx) w).2
        (as.foldl (Upload.alone deps ctx) w).1 ∧
      stageRemaining (as.foldl (Upload.alone deps ctx) w).1 ≤
        stageRemaining w.1 - turns deps ctx 0 w as := by
  induction as generalizing w with
  | nil => exact ⟨h, le_rfl⟩
  | cons a as ih =>
    obtain ⟨hstep, hleft⟩ := h.alone hsmooth.1
    obtain ⟨hrun, hrest⟩ := ih hstep hsmooth.2
    refine ⟨hrun, ?_⟩
    simp only [List.foldl_cons, turns]
    omega

/-- A smooth run with a single configuration that has no other row of the content. -/
theorem delivers_single {config : UserStorageConfig} {seen : Option ℤ}
    (hcompat : ∀ r ∈ s.images.rows, SameContent deps ctx r →
      r.storageConfigId = config.dbConfigId)
    {as : List (ℕ × Input)}
    (hsmooth : AllSteps (Upload.alone deps ctx) (Smooth deps ctx)
      (.running seen (runBackendUploads [config]), s) as)
    (hturns : 6 ≤ turns deps ctx 0 (.running seen (runBackendUploads [config]), s) as) :
    Delivers [config]
      (as.foldl (Upload.alone deps ctx) (.running seen (runBackendUploads [config]), s)).1 := by
  have hstart : OnCourseStage deps ctx config s (.running seen (runBackendUploads [config])) :=
    ⟨.dedupExists, rfl, rfl, hcompat⟩
  obtain ⟨hcourse, hleft⟩ := OnCourseStage.run (w := (_, s)) hstart hsmooth
  have hsix : stageRemaining (.running seen (runBackendUploads [config])) = 6 := rfl
  rw [hsix] at hleft
  generalize (as.foldl (Upload.alone deps ctx)
    (.running seen (runBackendUploads [config]), s)).1 = stage at hcourse hleft ⊢
  cases stage with
  | running seen' branches =>
    obtain ⟨p, rfl, hresult, -⟩ := hcourse
    obtain ⟨result, rfl⟩ := remaining_eq_zero (p := p) (by
      simp only [stageRemaining] at hleft
      omega)
    cases hresult
  | done result =>
    obtain ⟨r, rfl⟩ := hcourse
    exact ⟨[r], rfl, rfl⟩
  | _ => exact absurd hcourse id

/-- A request that delivers has a row of the content under each of its configurations. -/
theorem compatible_of_delivers {configs : List UserStorageConfig} {seen : Option ℤ}
    (hlen : configs.length ≤ 2) (hne : configs ≠ [])
    (hdistinct : configs.Pairwise fun c d => c.dbConfigId ≠ d.dbConfigId)
    {as : List (ℕ × Input)}
    (h : Delivers configs
      (as.foldl (Upload.alone deps ctx) (.running seen (runBackendUploads configs), s)).1) :
    Compatible deps ctx configs s.images := by
  have hstart : Backed deps ctx configs s (.running seen (runBackendUploads configs)) := by
    refine ⟨by simp [runBackendUploads, List.take_of_length_le hlen, Function.comp_def],
      fun branch hbranch hc => ?_⟩
    simp only [runBackendUploads, List.mem_map] at hbranch
    obtain ⟨c, -, rfl⟩ := hbranch
    exact absurd hc id
  have hinv := invariant (Upload.alone deps ctx) (s := (_, s))
    (J := fun w => Backed deps ctx configs w.2 w.1 ∧
      ∀ r ∈ s.images.rows, r ∈ w.2.images.rows)
    (fun w a hw =>
      have ha := processUpload_advance deps a.1 a.2 ctx w.1 w.2
      ⟨hw.1.advance ha, fun r hr => rows_advance ha r (hw.2 r hr)⟩)
    ⟨hstart, fun r hr => hr⟩ as
  obtain ⟨results, hdone, -⟩ := h
  obtain ⟨hbacked, hkept⟩ := hinv
  rw [hdone] at hbacked
  match configs, hne, hdistinct, hbacked with
  | [config], _, _, hbacked =>
    exact ⟨config, rfl, fun r hr hc =>
      (hbacked config List.mem_cons_self).storageConfigId (hkept r hr) hc⟩
  | c :: d :: _, _, hdistinct, hbacked =>
    obtain ⟨r, hr, hc, hid⟩ := hbacked d (by simp)
    have hsame := (hbacked c List.mem_cons_self).storageConfigId hr hc
    exact absurd (hsame.symm.trans hid) (List.rel_of_pairwise_cons hdistinct List.mem_cons_self)

theorem accepted_run {a₀ a₁ : ℕ × Input} {seen : Option ℤ}
    (h : Accepted deps ctx a₀ a₁ s seen configs) :
    Upload.alone deps ctx (Upload.alone deps ctx (.checkQuotas, s) a₀) a₁ =
      (.running seen (runBackendUploads configs), s) := by
  simp only [Upload.alone, processUpload, h.image, h.quotas, h.resolve, h.valid,
    h.encryptionKey, if_true]

variable (deps ctx) in
/-- An accepted upload whose calls succeed, run to its end, delivers one result for each
configuration exactly when it has one configuration and no other one has the content. -/
theorem upload_delivers_iff {a₀ a₁ : ℕ × Input} {s : Stores} {seen : Option ℤ}
    {configs : List UserStorageConfig} (haccepted : Accepted deps ctx a₀ a₁ s seen configs)
    {as : List (ℕ × Input)}
    (hsmooth : AllSteps (Upload.alone deps ctx) (Smooth deps ctx)
      (.running seen (runBackendUploads configs), s) as)
    (hturns : ∀ b < configs.length,
      6 ≤ turns deps ctx b (.running seen (runBackendUploads configs), s) as) :
    Delivers configs ((a₀ :: a₁ :: as).foldl (Upload.alone deps ctx) (.checkQuotas, s)).1 ↔
      Compatible deps ctx configs s.images := by
  rw [List.foldl_cons, List.foldl_cons, accepted_run haccepted]
  obtain ⟨hlen, c, hc, -⟩ := UploadConfigs.validateUploadConfigs_ok.mp haccepted.valid
  constructor
  · exact compatible_of_delivers hlen (List.ne_nil_of_mem hc)
      (UploadConfigs.resolveUploadConfigs_distinct haccepted.resolve)
  · rintro ⟨config, rfl, hcompat⟩
    exact delivers_single hcompat hsmooth (hturns 0 (by simp))

def demoRun : List (ℕ × Input) := List.replicate 6 (0, smoothInput 2 1)

def localFallback : UserStorageConfig := UploadConfigs.localFallbackConfig 0 7

/-- The stores of a user who keeps the content under a configuration. -/
def storedUnder (config : UserStorageConfig) : Stores :=
  { emptyStores with
    images := (Table.empty.insert (newImage smallDeps demoCtx config (smoothInput 1 0) "000000"
      "stored" "http://pics/u/000000")).getD Table.empty }

def otherConfig : UserStorageConfig := ⟨5, 7, "Other", "local", false, [], 0, 0⟩

theorem demo_accepted (config : UserStorageConfig) :
    Accepted smallDeps demoCtx (0, smoothInput 2 1) (0, smoothInput 2 1) (storedUnder config) none
      [localFallback] :=
  ⟨rfl, rfl, rfl, rfl, rfl⟩

/-- The content stored under the configuration it is uploaded to. -/
theorem upload_delivers_iff_again :
    Compatible smallDeps demoCtx [localFallback] (storedUnder localFallback).images :=
  (@upload_delivers_iff smallDeps demoCtx _ _ _ _ _ (demo_accepted localFallback) demoRun
    (by decide +kernel) (by decide +kernel)).mp ⟨_, rfl, rfl⟩

/-- The content stored under another configuration: the upload fails. -/
theorem upload_not_delivered :
    ¬ ∀ (deps : Deps) (ctx : UploadCtx) (a₀ a₁ : ℕ × Input) (s : Stores) (seen : Option ℤ)
      (configs : List UserStorageConfig) (as : List (ℕ × Input)),
      Accepted deps ctx a₀ a₁ s seen configs →
      AllSteps (Upload.alone deps ctx) (Smooth deps ctx)
        (.running seen (runBackendUploads configs), s) as →
      (∀ b < configs.length,
        6 ≤ turns deps ctx b (.running seen (runBackendUploads configs), s) as) →
      Delivers configs ((a₀ :: a₁ :: as).foldl (Upload.alone deps ctx) (.checkQuotas, s)).1 := by
  intro h
  obtain ⟨results, hdone, -⟩ := h smallDeps demoCtx _ _ _ none [localFallback] demoRun
    (demo_accepted otherConfig) (by decide +kernel) (by decide +kernel)
  cases hdone

end PicHost.UploadDedup
