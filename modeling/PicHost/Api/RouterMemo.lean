import PicHost.Api.BackendHistory
import PicHost.Api.StorageConfigs

/-!
# The memoised backends of changed configurations

The requests of the configuration API beside uploads, reads and worker runs of one process. An
upload and a task fetch the rows they need before they ask the router for the backends.
-/

namespace PicHost.RouterMemo

open KeyedTable LabelledRun UploadConfigs
open BackendHistory (plainDeps initStorageBackends_get_id)

/-- What `for_config` returned for a fetched row, with the row of that identifier as committed
then. -/
structure Use where
  config : UserStorageConfig
  result : Except StorageError Backend
  committed : Option UserStorageConfig
deriving DecidableEq

structure State where
  api : StorageConfigs.State
  router : StorageRouter
  fetched : List UserStorageConfig
  used : List Use

/-- `read` looks up the backend of an image and changes nothing. -/
inductive Action
  | api (a : StorageConfigs.Action)
  | upload (dbUp : Bool) (now : Instant) (userId : Uuid) (storageConfigIds : Option (List Uuid))
  | task (dbUp : Bool) (configId : Uuid)
  | forConfig (i : ℕ)
  | read (backendName : String)

/-- `resolve_upload_configs` and `validate_upload_configs`. -/
def uploadConfigs (dbUp : Bool) (now : Instant) (userId : Uuid)
    (storageConfigIds : Option (List Uuid)) (configs : ConfigTable) : List UserStorageConfig :=
  match resolveUploadConfigs dbUp now userId storageConfigIds configs with
  | .error _ => []
  | .ok found =>
    match validateUploadConfigs found with
    | .error _ => []
    | .ok () => found

/-- `WHERE id = $1`. -/
def fetchStorageConfig (configId : Uuid) (configs : ConfigTable) : Option UserStorageConfig :=
  (configs.select fun c => c.id == configId).head?

def step (config : StorageConfigs.Config) (deps : GitDeps) (s : State) : Action → State
  | .api a => { s with api := StorageConfigs.step config s.api a }
  | .upload dbUp now userId storageConfigIds =>
    { s with
      fetched := s.fetched ++ uploadConfigs dbUp now userId storageConfigIds s.api.configs }
  | .task dbUp configId =>
    if dbUp then
      { s with fetched := s.fetched ++ (fetchStorageConfig configId s.api.configs).toList }
    else s
  -- the row was fetched some steps ago, and may have been changed or deleted since
  | .forConfig i =>
    match s.fetched[i]? with
    | none => s
    | some c =>
      let (result, router) := s.router.forConfig deps c
      { s with router, used := s.used ++ [⟨c, result, fetchStorageConfig c.id s.api.configs⟩] }
  | .read _ => s

/-- A process that has just started. -/
def start (localBasePath publicUrl : String) (rustfs : Option (String × String))
    (defaultBackend : String) (order : List String → ℕ) (configs : ConfigTable) : State where
  api := ⟨configs, []⟩
  router := initStorageBackends localBasePath publicUrl rustfs defaultBackend order
  fetched := []
  used := []

/-- The router returns, and has returned, the backend that the committed row describes. -/
structure Current (deps : GitDeps) (s : State) : Prop where
  rows : ∀ c ∈ s.api.configs.rows, c.provider ≠ "local" →
    (s.router.forConfig deps c).1 = gitBackend deps c
  used : ∀ u ∈ s.used, u.config.provider ≠ "local" → ∀ d, u.committed = some d →
    d.provider ≠ "local" → u.result = gitBackend deps d

/-- Nothing is memoised for the row but the backend it describes. -/
def MemoAgrees (deps : GitDeps) (router : StorageRouter) (c : UserStorageConfig) : Prop :=
  c.provider ≠ "local" → ∀ b, router.get c.id.toText = some b → gitBackend deps c = .ok b

/-- A row is written only while nothing is memoised for it but the backend it describes, and a
row that is not memoised is resolved only while it describes the backend of the committed one. -/
def Fresh (deps : GitDeps) (s : State) : Action → Prop
  | .api (.advance i inp _) => ∀ r, s.api.requests[i]? = some r →
      ∀ c, StorageConfigs.written inp s.api.configs r = some c → MemoAgrees deps s.router c
  | .forConfig i => ∀ c, s.fetched[i]? = some c → c.provider ≠ "local" →
      s.router.get c.id.toText = none → ∀ d ∈ s.api.configs.rows, d.id = c.id →
        d.provider ≠ "local" → gitBackend deps c = gitBackend deps d
  | _ => True

variable {deps : GitDeps}

theorem fetchStorageConfig_eq {configId : Uuid} {configs : ConfigTable} {d : UserStorageConfig} :
    fetchStorageConfig configId configs = some d ↔ d ∈ configs.rows ∧ d.id = configId := by
  constructor
  · intro h
    have hd := Table.mem_of_select_head? h
    exact ⟨hd.1, by simpa using hd.2⟩
  · rintro ⟨hd, rfl⟩
    refine Table.select_head?_of_unique hd (beq_self_eq_true _) fun e he hid => ?_
    exact ConfigTable.eq_of_id he hd (beq_iff_eq.mp hid)

section ForConfig

variable {router : StorageRouter} {c d : UserStorageConfig}

theorem forConfig_of_some (hgit : c.provider ≠ "local") {b : Backend}
    (h : router.get c.id.toText = some b) : router.forConfig deps c = (.ok b, router) := by
  simp only [StorageRouter.forConfig, if_neg hgit, h]

theorem forConfig_of_none (hgit : c.provider ≠ "local") (h : router.get c.id.toText = none) :
    router.forConfig deps c = router.getOrCreateGit deps c := by
  simp only [StorageRouter.forConfig, if_neg hgit, h]

/-- The router returns the backend that the row describes unless it has memoised another. -/
theorem forConfig_eq_iff : (c.provider ≠ "local" →
    (router.forConfig deps c).1 = gitBackend deps c) ↔ MemoAgrees deps router c := by
  apply forall_congr'
  intro hgit
  cases h : router.get c.id.toText with
  | none =>
    rw [forConfig_of_none hgit h, StorageRouter.getOrCreateGit_fst]
    exact iff_of_true rfl fun b hb => by cases hb
  | some b =>
    rw [forConfig_of_some hgit h]
    simp only [Option.some.injEq, forall_eq']
    exact eq_comm

theorem gitBackend_congr (hprovider : c.provider = d.provider) (hconfig : c.config = d.config) :
    gitBackend deps c = gitBackend deps d := by
  simp only [gitBackend, hprovider, hconfig]

theorem MemoAgrees.congr (h : MemoAgrees deps router d)
    (hsame : StorageConfigs.SameContents c d) : MemoAgrees deps router c := by
  obtain ⟨hid, -, hprovider, hconfig⟩ := hsame
  unfold MemoAgrees
  rw [hid, hprovider, gitBackend_congr hprovider hconfig]
  exact h

/-- Resolving memoises at most the backend of the row that was given. -/
theorem memoAgrees_forConfig (hd : MemoAgrees deps router d)
    (hfresh : c.provider ≠ "local" → router.get c.id.toText = none → d.id = c.id →
      d.provider ≠ "local" → gitBackend deps c = gitBackend deps d) :
    MemoAgrees deps (router.forConfig deps c).2 d := by
  by_cases hlocal : c.provider = "local"
  · rwa [StorageRouter.forConfig, if_pos hlocal]
  · cases hget : router.get c.id.toText with
    | some b => rwa [forConfig_of_some hlocal hget]
    | none =>
      rw [forConfig_of_none hlocal hget]
      cases hc : gitBackend deps c with
      | error e => simpa only [StorageRouter.getOrCreateGit, hc] using hd
      | ok b =>
        simp only [StorageRouter.getOrCreateGit, hc]
        intro hgit b' hb'
        by_cases hid : d.id = c.id
        · rw [hid, StorageRouter.get_register, Option.some.injEq] at hb'
          rw [← hfresh hlocal hget hid hgit, hc, hb']
        · have hne : d.id.toText ≠ c.id.toText := fun h => hid (Uuid.toText_injective h)
          rw [StorageRouter.get_register_ne _ _ hne] at hb'
          exact hd hgit b' hb'

end ForConfig

theorem current_iff {s : State} : Current deps s ↔
    (∀ c ∈ s.api.configs.rows, MemoAgrees deps s.router c) ∧
      ∀ u ∈ s.used, u.config.provider ≠ "local" → ∀ d, u.committed = some d →
        d.provider ≠ "local" → u.result = gitBackend deps d := by
  constructor
  · exact fun h => ⟨fun c hc => forConfig_eq_iff.mp (h.rows c hc), h.used⟩
  · exact fun h => ⟨fun c hc => forConfig_eq_iff.mpr (h.1 c hc), h.2⟩

/-- Steps that leave the rows, the router and what it has returned alone. -/
theorem Current.congr {s s' : State} (h : Current deps s)
    (hrows : s'.api.configs = s.api.configs) (hrouter : s'.router = s.router)
    (hused : s'.used = s.used) : Current deps s' := by
  constructor
  · rw [hrows, hrouter]
    exact h.rows
  · rw [hused]
    exact h.used

/-- A statement of the configuration API changes what one row describes, at most. -/
theorem current_api_iff {config : StorageConfigs.Config} {s : State} (h : Current deps s)
    (a : StorageConfigs.Action) :
    Current deps (step config deps s (.api a)) ↔ Fresh deps s (.api a) := by
  cases a with
  | submit call => exact iff_of_true (h.congr rfl rfl rfl) trivial
  | advance i inp images =>
    cases hi : s.api.requests[i]? with
    | none =>
      simp only [step, StorageConfigs.step, Fresh, hi]
      exact iff_of_true h fun r hr => by cases hr
    | some r =>
      have heffect := StorageConfigs.effect config inp images r s.api.configs
      rw [current_iff] at h ⊢
      simp only [step, StorageConfigs.step, Fresh, hi, Option.some.injEq, forall_eq']
      constructor
      · exact fun h' c hc => h'.1 c (StorageConfigs.mem_of_written hc config images)
      · refine fun hfresh => ⟨fun c hc => ?_, h.2⟩
        rcases heffect.contents hc with ⟨d, hd, hsame⟩ | hwritten
        · exact (h.1 d hd).congr hsame
        · exact hfresh c hwritten

theorem current_forConfig_iff {config : StorageConfigs.Config} {s : State} (h : Current deps s)
    (i : ℕ) : Current deps (step config deps s (.forConfig i)) ↔ Fresh deps s (.forConfig i) := by
  cases hi : s.fetched[i]? with
  | none =>
    simp only [step, Fresh, hi]
    exact iff_of_true h fun c hc => by cases hc
  | some c =>
    rw [current_iff] at h ⊢
    simp only [step, Fresh, hi, Option.some.injEq, forall_eq', List.mem_append,
      List.mem_singleton]
    constructor
    · intro h' hgit hget d hd hid hgit'
      have hresult := h'.2 _ (.inr rfl) hgit d (fetchStorageConfig_eq.mpr ⟨hd, hid⟩) hgit'
      rwa [forConfig_of_none hgit hget, StorageRouter.getOrCreateGit_fst] at hresult
    · intro hfresh
      refine ⟨fun d hd => ?_, fun u hu hgit d hd hgit' => ?_⟩
      · exact memoAgrees_forConfig (h.1 d hd) fun hgit hget hid => hfresh hgit hget d hd hid
      · rcases hu with hu | rfl
        · exact h.2 u hu hgit d hd hgit'
        · obtain ⟨hrow, hid⟩ := fetchStorageConfig_eq.mp hd
          dsimp only at hgit
          cases hget : s.router.get c.id.toText with
          | some b =>
            rw [forConfig_of_some hgit hget]
            rw [← hid] at hget
            exact (h.1 d hrow hgit' b hget).symm
          | none =>
            rw [forConfig_of_none hgit hget, StorageRouter.getOrCreateGit_fst]
            exact hfresh hgit hget d hrow hid hgit'

theorem current_start (localBasePath publicUrl : String) (rustfs : Option (String × String))
    (defaultBackend : String) (order : List String → ℕ) (configs : ConfigTable) :
    Current deps (start localBasePath publicUrl rustfs defaultBackend order configs) := by
  refine current_iff.mpr ⟨fun c _ _ b hb => ?_, fun u hu => (List.not_mem_nil hu).elim⟩
  rw [start, initStorageBackends_get_id] at hb
  cases hb

/-- In every state of a run the router returns, and has returned, the backends of the rows as
committed exactly if no statement of the run writes a row that is memoised otherwise, and no row
fetched before such a change is the first to be memoised after it. -/
theorem config_changes_take_effect_iff (config : StorageConfigs.Config) (deps : GitDeps)
    (localBasePath publicUrl : String) (rustfs : Option (String × String))
    (defaultBackend : String) (order : List String → ℕ) (configs : ConfigTable)
    (as : List Action) :
    AllStates (step config deps) (Current deps)
        (start localBasePath publicUrl rustfs defaultBackend order configs) as ↔
      AllSteps (step config deps) (Fresh deps)
        (start localBasePath publicUrl rustfs defaultBackend order configs) as := by
  refine allStates_iff_allSteps (J := fun _ => True) (P := Current deps) (fun _ _ _ => trivial)
    (fun s a _ h => ?_) trivial (current_start ..) as
  cases a with
  | api a => exact current_api_iff h a
  | upload dbUp now userId storageConfigIds =>
    exact iff_of_true (h.congr rfl rfl rfl) trivial
  | task dbUp configId =>
    refine iff_of_true ?_ trivial
    simp only [step]
    split
    · exact h.congr rfl rfl rfl
    · exact h
  | forConfig i => exact current_forConfig_iff h i
  | read backendName => exact iff_of_true h trivial

def owner : AuthUser := ⟨1, false, none⟩

def localRow : UserStorageConfig := ⟨3, 1, "disk", "local", false, [], 0, 0⟩

def githubRow (repo : String) (updatedAt : Instant) : UserStorageConfig :=
  ⟨4, 1, "pics", "github", false,
    [("token_encrypted", .str "ghp_1"), ("repo", .str repo), ("branch", .str "main")], 1, updatedAt⟩

def ownedConfigs : ConfigTable := ⟨[localRow, githubRow "me/old" 1], by decide⟩

def keyConfig : StorageConfigs.Config := ⟨⟨["local"], some "key"⟩, none⟩

def upInput : StorageConfigs.Input :=
  ⟨⟨true, 5, none, none, some "sealed", ""⟩, 8, fun _ _ => .response 200 ""⟩

def uploadToBoth : Action := .upload true 6 owner.id (some [3, 4])

/-- The first upload resolves the configuration, and its user changes the repository. -/
def moveRepo : List Action :=
  [.forConfig 1, .api (.submit (.updateConfig owner 4 { repo := some "me/new" })),
    .api (.advance 0 upInput .empty), .api (.advance 0 upInput .empty)]

def ownedStart : State := start "/data" "http://pics" none "local" (fun _ => 0) ownedConfigs

/-- After the change. -/
def movedState : State := moveRepo.foldl (step keyConfig plainDeps)
  { ownedStart with fetched := [localRow, githubRow "me/old" 1] }

def oldBackend : Backend := .git ⟨.gitHub, "me", "old", "main", none, "ghp_1"⟩

theorem uploadConfigs_owned {configs : ConfigTable} {repo : String} {updatedAt : Instant}
    (h : configs.rows = [localRow, githubRow repo updatedAt]) :
    uploadConfigs true 6 owner.id (some [3, 4]) configs = [localRow, githubRow repo updatedAt] := by
  have hsel : configs.select (idsWhere [3, 4] owner.id) =
      [localRow, githubRow repo updatedAt] := by
    rw [Table.select, h]
    rfl
  have hsort : [localRow, githubRow repo updatedAt].mergeSort
      (fun c d => decide (c.createdAt ≤ d.createdAt)) = [localRow, githubRow repo updatedAt] :=
    List.mergeSort_of_pairwise (List.pairwise_pair.mpr rfl)
  simp only [uploadConfigs, resolveUploadConfigs, fetchConfigsByIds, hsel, hsort]
  rfl

theorem step_uploadToBoth {s : State} {repo : String} {updatedAt : Instant}
    (h : s.api.configs.rows = [localRow, githubRow repo updatedAt]) :
    step keyConfig plainDeps s uploadToBoth =
      { s with fetched := s.fetched ++ [localRow, githubRow repo updatedAt] } := by
  simp only [uploadToBoth, step, uploadConfigs_owned h]

/-- The second upload goes to the repository that the configuration no longer names. -/
theorem config_changes_ignored :
    ¬ ∀ as, AllStates (step keyConfig plainDeps) (Current plainDeps) ownedStart as := by
  intro h
  have hcurrent := (h (uploadToBoth :: (moveRepo ++ [uploadToBoth, .forConfig 3]))).last
  have hfirst : step keyConfig plainDeps ownedStart uploadToBoth =
      { ownedStart with fetched := [localRow, githubRow "me/old" 1] } :=
    step_uploadToBoth rfl
  have hmoved : step keyConfig plainDeps movedState uploadToBoth =
      { movedState with fetched := movedState.fetched ++ [localRow, githubRow "me/new" 5] } :=
    step_uploadToBoth rfl
  rw [List.foldl_cons, List.foldl_append, hfirst, ← movedState, List.foldl_cons, hmoved]
    at hcurrent
  have hused : (step keyConfig plainDeps { movedState with
      fetched := movedState.fetched ++ [localRow, githubRow "me/new" 5] } (.forConfig 3)).used[1]? =
      some ⟨githubRow "me/new" 5, .ok oldBackend, some (githubRow "me/new" 5)⟩ := by
    decide +kernel
  have hresult := hcurrent.used _ (List.mem_of_getElem? hused) (by decide) _ rfl (by decide)
  revert hresult
  decide

end PicHost.RouterMemo
