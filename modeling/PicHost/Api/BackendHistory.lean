import PicHost.Api.UploadConfigs
import PicHost.Lib.Run

/-!
# Which backend a row is read from

The API processes share the database and the configuration file; each has its own router.
An upload resolves its backend, writes the bytes there and records a name in the row.
-/

namespace PicHost.BackendHistory

open LabelledRun

/-- The storage section of the configuration, with both backends configured. -/
structure Settings where
  localBasePath : String
  publicUrl : String
  endpoint : String
  bucket : String
  defaultBackend : String

namespace Settings

def localBackend (cfg : Settings) : Backend := .localStorage cfg.localBasePath cfg.publicUrl

def rustfsBackend (cfg : Settings) : Backend := .rustfs (trimEndSlash cfg.endpoint) cfg.bucket

/-- The router of a process at startup. -/
def boot (cfg : Settings) (order : List String → ℕ) : StorageRouter :=
  initStorageBackends cfg.localBasePath cfg.publicUrl (some (cfg.endpoint, cfg.bucket))
    cfg.defaultBackend order

end Settings

/-- An upload between resolving its backend and inserting its row. -/
structure Upload where
  proc : ℕ
  config : UserStorageConfig
  backend : Backend

/-- The recorded name of a row and the backend its bytes were written to. -/
structure Row where
  storageBackend : String
  backend : Backend

structure World where
  procs : List StorageRouter
  uploads : List Upload
  rows : List Row

inductive Action
  | start (order : List String → ℕ)
  | restart (p : ℕ) (order : List String → ℕ)
  | resolve (p : ℕ) (config : UserStorageConfig)
  | insert (i : ℕ)

variable (cfg : Settings) (deps : GitDeps)

def World.boot (order : List String → ℕ) : World := ⟨[cfg.boot order], [], []⟩

/-- A restart drops the requests of the process with its router. -/
def step (w : World) : Action → World
  | .start order => { w with procs := w.procs ++ [cfg.boot order] }
  | .restart p order =>
    { w with
      procs := w.procs.set p (cfg.boot order)
      uploads := w.uploads.filter fun u => u.proc != p }
  | .resolve p config =>
    match w.procs[p]? with
    | none => w
    | some r =>
      match r.forConfig deps config with
      -- the bytes are written between this step and `insert`; others move in between
      | (.error _, r') => { w with procs := w.procs.set p r' }
      | (.ok backend, r') =>
        { w with procs := w.procs.set p r', uploads := w.uploads ++ [⟨p, config, backend⟩] }
  | .insert i =>
    match w.uploads[i]? with
    | none => w
    | some u =>
      { w with
        uploads := w.uploads.eraseIdx i
        rows := w.rows ++ [⟨u.config.dbBackend, u.backend⟩] }

/-- Every process finds the objects of every row where they were written. -/
def ReadsBack (w : World) : Prop :=
  ∀ row ∈ w.rows, ∀ r ∈ w.procs, (r.forBackend row.storageBackend).locate = row.backend.locate

/-- The configuration is cached in a process as a backend at the same place. -/
def CachedAt (r : StorageRouter) (config : UserStorageConfig) (b : Backend) : Prop :=
  ∃ b', r.get config.id.toText = some b' ∧ b'.locate = b.locate

/-- Processes start only while all rows are local ones; a row of a `local` configuration is
inserted only if it was written to the local directory; a row of a Git configuration only
while every process has the configuration cached as it was written. -/
def SafeAction (w : World) : Action → Prop
  -- a process that starts has no Git backend in its router, whatever the rows name
  | .start _ => ∀ row ∈ w.rows, row.storageBackend = "local"
  | .restart p _ => p < w.procs.length → ∀ row ∈ w.rows, row.storageBackend = "local"
  | .resolve _ _ => True
  | .insert i => ∀ u, w.uploads[i]? = some u →
      if u.config.provider = "local" then u.backend.locate = cfg.localBackend.locate
      else ∀ r ∈ w.procs, CachedAt r u.config u.backend

/-- A process registers its two own backends and, under identifiers, Git backends. -/
structure Proper (r : StorageRouter) : Prop where
  localName : r.get "local" = some cfg.localBackend
  rustfsName : r.get "rustfs" = some cfg.rustfsBackend
  default : r.default = cfg.defaultBackend
  git : ∀ id : Uuid, ∀ b, r.get id.toText = some b → b.isGit = true

structure Consistent (w : World) : Prop where
  procs : ∀ r ∈ w.procs, Proper cfg r
  running : w.procs ≠ []
  uploads : ∀ u ∈ w.uploads, u.config.provider ≠ "local" → u.backend.isGit = true
  rows : ∀ row ∈ w.rows, row.storageBackend = "local" ∨
    ∃ id : Uuid, row.storageBackend = id.toText ∧ row.backend.isGit = true

/-- A row every process resolves by name, without falling back to its default backend. -/
def Anchored (w : World) (row : Row) : Prop :=
  (row.storageBackend = "local" ∧ row.backend.locate = cfg.localBackend.locate) ∨
  ∃ id : Uuid, row.storageBackend = id.toText ∧ ∀ r ∈ w.procs,
    ∃ b, r.get id.toText = some b ∧ b.locate = row.backend.locate

def AllAnchored (w : World) : Prop := ∀ row ∈ w.rows, Anchored cfg w row

variable {cfg deps}

theorem toText_ne_local (id : Uuid) : id.toText ≠ "local" := Uuid.toText_ne (by decide)

theorem toText_ne_rustfs (id : Uuid) : id.toText ≠ "rustfs" := Uuid.toText_ne (by decide)

theorem boot_get_local (order : List String → ℕ) :
    (cfg.boot order).get "local" = some cfg.localBackend := by
  rw [Settings.boot, initStorageBackends, StorageRouter.get_register_ne _ _ (by decide)]
  rfl

theorem boot_get_rustfs (order : List String → ℕ) :
    (cfg.boot order).get "rustfs" = some cfg.rustfsBackend :=
  StorageRouter.get_register ..

/-- The cache of Git backends is empty at startup. -/
theorem initStorageBackends_get_id (localBasePath publicUrl : String)
    (rustfs : Option (String × String)) (defaultBackend : String) (order : List String → ℕ)
    (id : Uuid) :
    (initStorageBackends localBasePath publicUrl rustfs defaultBackend order).get id.toText =
      none := by
  have hbase : ∀ b : Backend,
      (AList.singleton "local" b : AList fun _ => Backend).lookup id.toText = none := fun b =>
    AList.lookup_eq_none.mpr fun h =>
      toText_ne_local id (List.mem_singleton.mp (AList.mem_keys.mp h))
  cases rustfs with
  | none => exact hbase _
  | some place =>
    obtain ⟨endpoint, bucket⟩ := place
    rw [initStorageBackends, StorageRouter.get_register_ne _ _ (toText_ne_rustfs id)]
    exact hbase _

theorem boot_get_id (order : List String → ℕ) (id : Uuid) :
    (cfg.boot order).get id.toText = none := initStorageBackends_get_id ..

theorem proper_boot (order : List String → ℕ) : Proper cfg (cfg.boot order) where
  localName := boot_get_local order
  rustfsName := boot_get_rustfs order
  default := rfl
  git id b h := by
    rw [boot_get_id] at h
    cases h

theorem isGit_of_gitBackend {config : UserStorageConfig} {b : Backend}
    (h : gitBackend deps config = .ok b) : b.isGit = true := by
  simp only [gitBackend, bind, Except.bind] at h
  repeat' split at h
  all_goals cases h <;> rfl

variable (deps) in
/-- Resolving leaves the router alone or adds a Git backend under an unused identifier. -/
theorem forConfig_router (r : StorageRouter) (config : UserStorageConfig) :
    (r.forConfig deps config).2 = r ∨
    ∃ b, r.get config.id.toText = none ∧ b.isGit = true ∧
      (r.forConfig deps config).2 = r.register config.id.toText b := by
  unfold StorageRouter.forConfig
  split
  · exact .inl rfl
  · split
    · exact .inl rfl
    · rename_i hnone
      unfold StorageRouter.getOrCreateGit
      split
      · exact .inl rfl
      · rename_i b hb
        exact .inr ⟨b, hnone, isGit_of_gitBackend hb, rfl⟩

theorem Proper.forConfig {r : StorageRouter} (h : Proper cfg r) (config : UserStorageConfig) :
    Proper cfg (r.forConfig deps config).2 := by
  rcases forConfig_router deps r config with heq | ⟨b, -, hb, heq⟩
  · rwa [heq]
  · rw [heq]
    refine ⟨?_, ?_, h.default, fun id b' hid => ?_⟩
    · rw [StorageRouter.get_register_ne _ _ (toText_ne_local _).symm, h.localName]
    · rw [StorageRouter.get_register_ne _ _ (toText_ne_rustfs _).symm, h.rustfsName]
    · by_cases hk : id.toText = config.id.toText
      · rw [hk, StorageRouter.get_register, Option.some.injEq] at hid
        rwa [← hid]
      · rw [StorageRouter.get_register_ne _ _ hk] at hid
        exact h.git id b' hid

/-- Resolving keeps every name registered under its backend. -/
theorem get_forConfig {r : StorageRouter} {name : String} {b : Backend}
    (h : r.get name = some b) (config : UserStorageConfig) :
    (r.forConfig deps config).2.get name = some b := by
  rcases forConfig_router deps r config with heq | ⟨b', hnone, -, heq⟩
  · rwa [heq]
  · have hne : name ≠ config.id.toText := by
      rintro rfl
      rw [h] at hnone
      cases hnone
    rw [heq, StorageRouter.get_register_ne _ _ hne, h]

theorem forConfig_isGit {r : StorageRouter} (h : Proper cfg r) {config : UserStorageConfig}
    {b : Backend} (hb : (r.forConfig deps config).1 = .ok b) (hne : config.provider ≠ "local") :
    b.isGit = true := by
  simp only [StorageRouter.forConfig, if_neg hne] at hb
  split at hb
  · rename_i b' hget
    cases hb
    exact h.git _ _ hget
  · simp only [StorageRouter.getOrCreateGit] at hb
    split at hb
    · cases hb
    · rename_i hgit
      cases hb
      exact isGit_of_gitBackend hgit

variable (cfg deps) in
/-- What `resolve` does to the processes and the requests of a world. -/
theorem resolve_cases (w : World) (p : ℕ) (config : UserStorageConfig) :
    step cfg deps w (.resolve p config) = w ∨
    ∃ r, w.procs[p]? = some r ∧
      (step cfg deps w (.resolve p config)).procs =
        w.procs.set p (r.forConfig deps config).2 ∧
      (step cfg deps w (.resolve p config)).rows = w.rows ∧
      ∀ u ∈ (step cfg deps w (.resolve p config)).uploads, u ∈ w.uploads ∨
        (u.config = config ∧ (r.forConfig deps config).1 = .ok u.backend) := by
  cases hr : w.procs[p]? with
  | none => exact .inl (by simp only [step, hr])
  | some r =>
    refine .inr ⟨r, rfl, ?_⟩
    cases hf : r.forConfig deps config with
    | mk reply r' =>
      cases reply with
      | error e =>
        simp only [step, hr, hf]
        exact ⟨trivial, trivial, fun u hu => .inl hu⟩
      | ok b =>
        simp only [step, hr, hf]
        refine ⟨trivial, trivial, fun u hu => ?_⟩
        rcases List.mem_append.mp hu with hu | hu
        · exact .inl hu
        · rw [List.mem_singleton.mp hu]
          exact .inr ⟨rfl, rfl⟩

theorem consistent_boot (order : List String → ℕ) : Consistent cfg (World.boot cfg order) where
  procs r hr := by
    rw [List.mem_singleton.mp hr]
    exact proper_boot order
  running := List.cons_ne_nil _ _
  uploads u hu := absurd hu List.not_mem_nil
  rows row hrow := absurd hrow List.not_mem_nil

theorem Consistent.step {w : World} (h : Consistent cfg w) (a : Action) :
    Consistent cfg (step cfg deps w a) := by
  cases a with
  | start order =>
    refine ⟨fun r hr => ?_, by simp [BackendHistory.step], h.uploads, h.rows⟩
    rcases List.mem_append.mp hr with hr | hr
    · exact h.procs r hr
    · rw [List.mem_singleton.mp hr]
      exact proper_boot order
  | restart p order =>
    refine ⟨fun r hr => ?_, ?_, fun u hu => h.uploads u (List.mem_of_mem_filter hu), h.rows⟩
    · rcases List.mem_or_eq_of_mem_set hr with hr | rfl
      · exact h.procs r hr
      · exact proper_boot order
    · simpa [BackendHistory.step] using h.running
  | resolve p config =>
    rcases resolve_cases cfg deps w p config with heq |
      ⟨r, hr, hprocs, hrows, huploads⟩
    · rwa [heq]
    · have hproper := h.procs r (List.mem_of_getElem? hr)
      refine ⟨fun q hq => ?_, ?_, fun u hu hne => ?_, ?_⟩
      · rw [hprocs] at hq
        rcases List.mem_or_eq_of_mem_set hq with hq | rfl
        · exact h.procs q hq
        · exact hproper.forConfig config
      · rw [hprocs]
        simpa using h.running
      · rcases huploads u hu with hu | ⟨rfl, hb⟩
        · exact h.uploads u hu hne
        · exact forConfig_isGit hproper hb hne
      · rw [hrows]
        exact h.rows
  | insert i =>
    cases hu : w.uploads[i]? with
    | none => simpa only [BackendHistory.step, hu] using h
    | some u =>
      simp only [BackendHistory.step, hu]
      refine ⟨h.procs, h.running, fun v hv => h.uploads v (List.mem_of_mem_eraseIdx hv),
        fun row hrow => ?_⟩
      rcases List.mem_append.mp hrow with hrow | hrow
      · exact h.rows row hrow
      · rw [List.mem_singleton.mp hrow]
        by_cases hl : u.config.provider = "local"
        · exact .inl (by simp [UserStorageConfig.dbBackend, hl])
        · refine .inr ⟨u.config.id, by simp [UserStorageConfig.dbBackend, hl], ?_⟩
          exact h.uploads u (List.mem_of_getElem? hu) hl

/-- Rows every process resolves by name are read where they were written. -/
theorem readsBack_of_allAnchored {w : World} (h : Consistent cfg w) (ha : AllAnchored cfg w) :
    ReadsBack w := by
  intro row hrow r hr
  rcases ha row hrow with ⟨hname, hplace⟩ | ⟨id, hname, hcached⟩
  · rw [hname, StorageRouter.forBackend_of_get (h.procs r hr).localName, hplace]
  · obtain ⟨b, hb, hplace⟩ := hcached r hr
    rw [hname, StorageRouter.forBackend_of_get hb, hplace]

/-- A default backend that is one of the two own ones serves no Git row. -/
theorem allAnchored_of_readsBack {w : World} (h : Consistent cfg w)
    (hdefault : cfg.defaultBackend = "local" ∨ cfg.defaultBackend = "rustfs")
    (hr : ReadsBack w) : AllAnchored cfg w := by
  intro row hrow
  rcases h.rows row hrow with hname | ⟨id, hname, hgit⟩
  · obtain ⟨r, hmem⟩ := List.exists_mem_of_ne_nil _ h.running
    have hplace := hr row hrow r hmem
    rw [hname, StorageRouter.forBackend_of_get (h.procs r hmem).localName] at hplace
    exact .inl ⟨hname, hplace.symm⟩
  · refine .inr ⟨id, hname, fun r hmem => ?_⟩
    have hplace := hr row hrow r hmem
    have hproper := h.procs r hmem
    cases hget : r.get id.toText with
    | some b =>
      rw [hname, StorageRouter.forBackend_of_get hget] at hplace
      exact ⟨b, rfl, hplace⟩
    | none =>
      rw [hname, StorageRouter.forBackend_of_get_none hget] at hplace
      have hown : r.defaultBackend.isGit = false := by
        rcases hdefault with hd | hd
        · have hname := hproper.localName
          rw [← hd, ← hproper.default] at hname
          rw [StorageRouter.defaultBackend_of_get hname]
          rfl
        · have hname := hproper.rustfsName
          rw [← hd, ← hproper.default] at hname
          rw [StorageRouter.defaultBackend_of_get hname]
          rfl
      exact absurd hplace (Backend.locate_ne_of_isGit hgit hown)

/-- A process just started has no row of a Git configuration cached. -/
theorem local_of_boot {w : World} {order : List String → ℕ} (hmem : cfg.boot order ∈ w.procs)
    {row : Row} (h : Anchored cfg w row) : row.storageBackend = "local" := by
  rcases h with ⟨hname, -⟩ | ⟨id, -, hcached⟩
  · exact hname
  · obtain ⟨b, hb, -⟩ := hcached _ hmem
    rw [boot_get_id] at hb
    cases hb

theorem Anchored.of_local {w w' : World} {row : Row} (h : Anchored cfg w row)
    (hlocal : row.storageBackend = "local") : Anchored cfg w' row := by
  rcases h with hrow | ⟨id, hname, -⟩
  · exact .inl hrow
  · exact absurd (hname.symm.trans hlocal) (toText_ne_local id)

/-- The new row of an upload. -/
theorem anchored_insert_iff {w : World} {u : Upload} :
    Anchored cfg w ⟨u.config.dbBackend, u.backend⟩ ↔
      if u.config.provider = "local" then u.backend.locate = cfg.localBackend.locate
      else ∀ r ∈ w.procs, CachedAt r u.config u.backend := by
  by_cases hl : u.config.provider = "local"
  · simp only [Anchored, UserStorageConfig.dbBackend, hl, if_true, true_and]
    apply or_iff_left
    rintro ⟨id, hid, -⟩
    exact toText_ne_local id hid.symm
  · simp only [Anchored, UserStorageConfig.dbBackend, hl, if_false, toText_ne_local, false_and,
      false_or]
    constructor
    · rintro ⟨id, hid, hcached⟩
      rw [← Uuid.toText_injective hid] at hcached
      exact hcached
    · exact fun hcached => ⟨u.config.id, rfl, hcached⟩

theorem allAnchored_step_iff {w : World} (ha : AllAnchored cfg w) (a : Action) :
    AllAnchored cfg (step cfg deps w a) ↔ SafeAction cfg w a := by
  cases a with
  | start order =>
    constructor
    · intro h row hrow
      exact local_of_boot (List.mem_append_right _ (List.mem_singleton_self _)) (h row hrow)
    · exact fun h row hrow => (ha row hrow).of_local (h row hrow)
  | restart p order =>
    constructor
    · intro h hp row hrow
      exact local_of_boot (List.mem_set hp _) (h row hrow)
    · intro h row hrow
      by_cases hp : p < w.procs.length
      · exact (ha row hrow).of_local (h hp row hrow)
      · have hset : w.procs.set p (cfg.boot order) = w.procs :=
          List.set_eq_of_length_le (Nat.le_of_not_lt hp)
        have hrow' := ha row hrow
        simp only [Anchored, step, hset] at hrow' ⊢
        exact hrow'
  | resolve p config =>
    refine iff_of_true ?_ trivial
    rcases resolve_cases cfg deps w p config with heq |
      ⟨r, hr, hprocs, hrows, -⟩
    · rwa [heq]
    · intro row hrow
      rw [hrows] at hrow
      rcases ha row hrow with hlocal | ⟨id, hname, hcached⟩
      · exact .inl hlocal
      · refine .inr ⟨id, hname, fun q hq => ?_⟩
        rw [hprocs] at hq
        rcases List.mem_or_eq_of_mem_set hq with hq | rfl
        · exact hcached q hq
        · obtain ⟨b, hb, hplace⟩ := hcached r (List.mem_of_getElem? hr)
          exact ⟨b, get_forConfig hb config, hplace⟩
  | insert i =>
    cases hu : w.uploads[i]? with
    | none =>
      apply iff_of_true (by simpa only [step, hu] using ha)
      intro u hu'
      rw [hu] at hu'
      cases hu'
    | some u =>
      have hguard : SafeAction cfg w (.insert i) ↔
          Anchored cfg w ⟨u.config.dbBackend, u.backend⟩ := by
        rw [anchored_insert_iff]
        simp only [SafeAction, hu, Option.some.injEq, forall_eq']
      rw [hguard]
      simp only [AllAnchored, step, hu]
      constructor
      · exact fun h => h _ (List.mem_append_right _ (List.mem_singleton_self _))
      · intro h row hrow
        rcases List.mem_append.mp hrow with hrow | hrow
        · exact ha row hrow
        · rw [List.mem_singleton.mp hrow]
          exact h

variable (cfg deps) in
/-- Rows are read back where they were written if every step of the run is safe. For a
default backend that is registered at startup these are all such runs. -/
theorem rows_read_back_iff (order : List String → ℕ) (as : List Action) :
    let w := World.boot cfg order
    (AllSteps (step cfg deps) (SafeAction cfg) w as →
      AllStates (step cfg deps) ReadsBack w as) ∧
    (cfg.defaultBackend = "local" ∨ cfg.defaultBackend = "rustfs" →
      AllStates (step cfg deps) ReadsBack w as →
        AllSteps (step cfg deps) (SafeAction cfg) w as) := by
  intro w
  have hw : Consistent cfg w := consistent_boot order
  have hiff : AllStates (step cfg deps) (AllAnchored cfg) w as ↔
      AllSteps (step cfg deps) (SafeAction cfg) w as :=
    allStates_iff_allSteps (J := Consistent cfg) (P := AllAnchored cfg) (fun _ a h => h.step a)
      (fun _ a _ ha => allAnchored_step_iff ha a) hw
      (fun _ h => absurd h List.not_mem_nil) as
  constructor
  · exact fun hg => (hiff.mpr hg).imp_of_invariant (J := Consistent cfg)
      (fun _ a h => h.step a) (fun _ h ha => readsBack_of_allAnchored h ha) hw
  · exact fun hdefault hr => hiff.mp (hr.imp_of_invariant (J := Consistent cfg)
      (fun _ a h => h.step a) (fun _ h hb => allAnchored_of_readsBack h hdefault hb) hw)

def homeSettings : Settings := ⟨"/data", "http://pics", "http://s3", "pichost", "local"⟩

def plainDeps : GitDeps := ⟨.ok, fun _ => "missing field"⟩

def githubConfig : UserStorageConfig where
  id := 1
  userId := 7
  name := "GitHub"
  provider := "github"
  isDefault := false
  config := [("token_encrypted", .str "ghp"), ("repo", .str "me/pics"), ("branch", .str "main")]
  createdAt := 0
  updatedAt := 0

/-- An upload to GitHub, then a restart of the process. -/
def restartRun : List Action := [.resolve 0 githubConfig, .insert 0, .restart 0 fun _ => 0]

/-- After a restart the row is looked for in the local directory. -/
theorem rows_not_read_back :
    ¬ ∀ (cfg : Settings) (deps : GitDeps) (order : List String → ℕ) (as : List Action),
      AllStates (step cfg deps) ReadsBack (World.boot cfg order) as := by
  intro h
  have hlast := (h homeSettings plainDeps (fun _ => 0) restartRun).last
  have hlost : ∃ row ∈ (restartRun.foldl (step homeSettings plainDeps)
        (World.boot homeSettings fun _ => 0)).rows,
      ∃ r ∈ (restartRun.foldl (step homeSettings plainDeps)
        (World.boot homeSettings fun _ => 0)).procs,
      (r.forBackend row.storageBackend).locate "" ≠ row.backend.locate "" := by decide +kernel
  obtain ⟨row, hrow, r, hr, hne⟩ := hlost
  exact hne (congrFun (hlast row hrow r hr) "")

end PicHost.BackendHistory
