import PicHost.Api.UploadDedup
import PicHost.Api.UploadFootprint

/-!
# The configurations an upload names

An upload that lists configurations goes to those of them that are the user's. Each pipeline
answers for its own configuration.
-/

namespace PicHost.UploadTargets

open LabelledRun Upload UploadDedup UploadFootprint KeyedTable

variable (deps : Deps) (ctx : UploadCtx)

/-- The identifier is that of a configuration of the user. -/
def Owned (s : Stores) (id : Uuid) : Prop :=
  ∃ c ∈ s.configs.rows, c.id = id ∧ c.userId = ctx.user.id

/-- The listed configurations that are the user's. -/
def ownListed (ids : List Uuid) (s : Stores) : List UserStorageConfig :=
  s.configs.select fun c => decide (c.id ∈ ids) && c.userId == ctx.user.id

/-- The result describes a row with the content under the configuration. The row was there
before, or its bytes are where the backend of the configuration keeps them. -/
structure Stored (s₀ : Stores) (ids : List Uuid) (s : Stores) (config : UserStorageConfig)
    (result : UploadResult) (row : Image) : Prop where
  mem : row ∈ s.images.rows
  id : row.id = result.id
  publicKey : row.publicKey = result.publicKey
  content : SameContent deps ctx row
  under : row.storageConfigId = config.dbConfigId
  bytes : row ∈ s₀.images.rows ∨
    ∃ backend, ResolvesTo deps s₀ (ownListed ctx ids s₀) config backend ∧
    s.objects (backend.locate row.storageKey) = some ctx.bytes
  reported : config.id.isNil = false → result.storageConfig = some (configInfo config)

def StoredOn (s₀ : Stores) (ids : List Uuid) (s : Stores) (config : UserStorageConfig)
    (result : UploadResult) : Prop :=
  ∃ row, Stored deps ctx s₀ ids s config result row

/-- The configuration's rows are those of the start. -/
def Untouched (s₀ s : Stores) (config : UserStorageConfig) : Prop :=
  ∀ r ∈ s.images.rows, r.storageConfigId = config.dbConfigId → r ∈ s₀.images.rows

/-- What a pipeline at this point answers for. -/
def Holds (s₀ : Stores) (ids : List Uuid) (s : Stores) (config : UserStorageConfig) :
    Pipeline → Prop
  | .dedupExists | .fetchDedupRow => Untouched s₀ s config
  | .forConfig => True
  | .generatePublicKey backend | .writeToStorage backend _ =>
    ResolvesTo deps s₀ (ownListed ctx ids s₀) config backend
  | .insertImageRecord backend _ storageKey _ =>
    ResolvesTo deps s₀ (ownListed ctx ids s₀) config backend ∧
      s.objects (backend.locate storageKey) = some ctx.bytes
  | .enqueue backend imageId publicKey storageKey _ =>
    ResolvesTo deps s₀ (ownListed ctx ids s₀) config backend ∧
      s.objects (backend.locate storageKey) = some ctx.bytes ∧
      ∃ row ∈ s.images.rows, row.id = imageId ∧ row.publicKey = publicKey ∧
        row.storageKey = storageKey ∧ SameContent deps ctx row ∧
        row.storageConfigId = config.dbConfigId
  | .done (.ok result) => StoredOn deps ctx s₀ ids s config result
  | .done (.error _) => True

/-- The stores after a call of the pipeline of `config`, seen from the other pipelines. -/
structure Grows (config : UserStorageConfig) (s s' : Stores) : Prop where
  configs : s'.configs = s.configs
  kept : ∀ r ∈ s.images.rows, r ∈ s'.images.rows
  added : ∀ r ∈ s'.images.rows, r ∈ s.images.rows ∨ r.storageConfigId = config.dbConfigId
  objects : ∀ l, s.objects l = some ctx.bytes → s'.objects l = some ctx.bytes

/-- At most two of the listed configurations are the user's, and one of these is local. -/
def Acceptable (ids : List Uuid) (s : Stores) : Prop :=
  (ownListed ctx ids s).length ≤ 2 ∧ ∃ c ∈ ownListed ctx ids s, c.provider = "local"

/-- The configurations a request goes to. -/
structure Targets (s₀ : Stores) (ids : List Uuid) (configs : List UserStorageConfig) : Prop where
  named : configs.Perm (ownListed ctx ids s₀)
  distinct : configs.Pairwise fun c d => c.dbConfigId ≠ d.dbConfigId
  acceptable : Acceptable ctx ids s₀

def Pipeline.failed : Pipeline → Bool
  | .done (.error _) => true
  | _ => false

/-- Where a request that lists configurations stands: one of its pipelines has failed, or all of
them answer for their configurations. -/
def Serves (s₀ : Stores) (ids : List Uuid) (s : Stores) : Stage → Prop
  | .checkQuotas | .resolveConfigs _ => s = s₀
  | .running _ branches => s.configs = s₀.configs ∧ Routed deps s₀ (ownListed ctx ids s₀) s.router ∧
      Targets ctx s₀ ids (branches.map Prod.fst) ∧
      ((∃ branch ∈ branches, Pipeline.failed branch.2 = true) ∨
        ∀ branch ∈ branches, Holds deps ctx s₀ ids s branch.1 branch.2)
  | .done (.ok results) => ∃ configs, Targets ctx s₀ ids configs ∧
      List.Forall₂ (StoredOn deps ctx s₀ ids s) configs results
  | .done (.error _) => s = s₀ ∨ ∃ configs, Targets ctx s₀ ids configs

variable {deps ctx} {s₀ s s' : Stores} {config : UserStorageConfig} {ids : List Uuid}

theorem mem_ownListed {c : UserStorageConfig} :
    c ∈ ownListed ctx ids s ↔ c ∈ s.configs.rows ∧ c.id ∈ ids ∧ c.userId = ctx.user.id := by
  simp only [ownListed, Table.mem_select, Bool.and_eq_true, decide_eq_true_eq, beq_iff_eq]

/-- The query of the identifiers finds the listed configurations of the user. -/
theorem select_idsWhere (ids : List Uuid) (s : Stores) :
    s.configs.select (UploadConfigs.idsWhere ids ctx.user.id) = ownListed ctx ids s := by
  apply List.filter_congr
  intro c hc
  rw [Bool.eq_iff_iff, UploadConfigs.idsWhere_iff, Bool.and_eq_true, decide_eq_true_eq, beq_iff_eq]

theorem targets_of_resolve {up : Bool} {now : Instant} {configs : List UserStorageConfig}
    (hids : ctx.storageConfigIds = some ids)
    (hr : UploadConfigs.resolveUploadConfigs up now ctx.user.id ctx.storageConfigIds s.configs =
      .ok configs)
    (hv : UploadConfigs.validateUploadConfigs configs = .ok ()) : Targets ctx s ids configs := by
  have hperm : configs.Perm (ownListed ctx ids s) := by
    rw [hids] at hr
    by_cases hnil : ids = []
    · subst hnil
      simp only [UploadConfigs.resolveUploadConfigs, if_true] at hr
      cases hr
      simp [ownListed, Table.select]
    · simp only [UploadConfigs.resolveUploadConfigs, if_neg hnil, UploadConfigs.fetchConfigsByIds]
        at hr
      split at hr
      · split at hr
        · cases hr
        · cases hr
          rw [select_idsWhere]
          exact List.mergeSort_perm _ _
      · cases hr
  obtain ⟨hshort, c, hc, hlocal⟩ := UploadConfigs.validateUploadConfigs_ok.mp hv
  exact ⟨hperm, UploadConfigs.resolveUploadConfigs_distinct hr, hperm.length_eq ▸ hshort, c,
    hperm.mem_iff.mp hc, hlocal⟩

theorem Grows.refl {router : StorageRouter} : Grows ctx config s { s with router } :=
  ⟨rfl, fun _ h => h, fun _ h => .inl h, fun _ h => h⟩

theorem grows_call {inp : Input} {p p' : Pipeline} (h : Call deps ctx config inp p s p' s')
    (hp : Pipeline.failed p' = false) : Grows ctx config s s' := by
  cases h with
  | cut => cases hp
  | written =>
    refine ⟨rfl, fun _ h => h, fun _ h => .inl h, fun l hl => ?_⟩
    simp only [Function.update_apply]
    split
    · rfl
    · exact hl
  | inserted hdb h =>
    refine ⟨rfl, fun r hr => (Table.mem_of_insert h).mpr (.inl hr), fun r hr => ?_, fun _ h => h⟩
    rcases (Table.mem_of_insert h).mp hr with hold | rfl
    · exact .inl hold
    · exact .inr rfl
  | enqueued => exact ⟨rfl, fun _ h => h, fun _ h => .inl h, fun _ h => h⟩
  | _ => exact .refl

theorem Stored.grows {c : UserStorageConfig} {result : UploadResult} {row : Image}
    (h : Stored deps ctx s₀ ids s c result row) (hg : Grows ctx config s s') :
    Stored deps ctx s₀ ids s' c result row :=
  { h with
    mem := hg.kept row h.mem
    bytes := h.bytes.imp_right fun ⟨backend, hb, hl⟩ => ⟨backend, hb, hg.objects _ hl⟩ }

/-- A pipeline is not disturbed by the call of one with another configuration. -/
theorem Holds.grows {c : UserStorageConfig} {p : Pipeline} (h : Holds deps ctx s₀ ids s c p)
    (hg : Grows ctx config s s') (hne : c.dbConfigId ≠ config.dbConfigId) :
    Holds deps ctx s₀ ids s' c p := by
  have huntouched : Untouched s₀ s c → Untouched s₀ s' c := fun h r hr hc =>
    (hg.added r hr).elim (fun hold => h r hold hc) fun hnew => absurd (hc.symm.trans hnew) hne
  cases p with
  | dedupExists | fetchDedupRow => exact huntouched h
  | insertImageRecord => exact ⟨h.1, hg.objects _ h.2⟩
  | enqueue =>
    obtain ⟨hb, hl, row, hrow, hrest⟩ := h
    exact ⟨hb, hg.objects _ hl, row, hg.kept row hrow, hrest⟩
  | done result =>
    cases result with
    | error => trivial
    | ok r =>
      obtain ⟨row, hrow⟩ := h
      exact ⟨row, hrow.grows hg⟩
  | _ => exact h

/-- A row under a configuration of the table is reported with it. -/
theorem fromRow_storageConfig {configs : ConfigTable} {r : Image}
    (hc : config ∈ configs.rows) (hnil : config.id.isNil = false)
    (hr : r.storageConfigId = config.dbConfigId) :
    (UploadResult.fromRow (r.joinConfig configs)).storageConfig = some (configInfo config) := by
  have hid : r.storageConfigId = some config.id := by
    rw [hr, UserStorageConfig.dbConfigId, hnil]
    rfl
  have hfind : configs.rows.find? (fun c => c.id == config.id) = some config := by
    have hsome : (configs.rows.find? fun c => c.id == config.id).isSome :=
      List.find?_isSome.mpr ⟨config, hc, beq_self_eq_true _⟩
    obtain ⟨d, hd⟩ := Option.isSome_iff_exists.mp hsome
    have hsame : d.id = config.id := by simpa using List.find?_some hd
    rw [hd, ConfigTable.eq_of_id (List.mem_of_find?_eq_some hd) hc hsame]
  simp only [UploadResult.fromRow, Image.joinConfig, hid, Option.bind_some, hfind,
    Option.map_some, configInfo]

theorem configs_call {inp : Input} {p p' : Pipeline} (h : Call deps ctx config inp p s p' s') :
    s'.configs = s.configs := by
  cases h <;> rfl

/-- A pipeline that has failed stays as it is. -/
theorem failed_call {inp : Input} {p p' : Pipeline} (h : Call deps ctx config inp p s p' s')
    (hp : Pipeline.failed p = true) : Pipeline.failed p' = true := by
  cases h with
  | idle => exact hp
  | refused | cut => rfl
  | _ => cases hp

/-- If none of the pipelines has failed after a call, none had before. -/
theorem not_failed_before {inp : Input} {p p' : Pipeline} {b : ℕ}
    {branches : List (UserStorageConfig × Pipeline)} (hb : branches[b]? = some (config, p))
    (hcall : Call deps ctx config inp p s p' s')
    (hafter : ¬ ∃ branch ∈ branches.set b (config, p'), Pipeline.failed branch.2 = true) :
    ¬ ∃ branch ∈ branches, Pipeline.failed branch.2 = true := by
  rintro ⟨branch, hbranch, hfailed⟩
  obtain ⟨i, hi⟩ := List.getElem?_of_mem hbranch
  by_cases hbi : b = i
  · subst hbi
    cases hb.symm.trans hi
    exact hafter ⟨(config, p'), List.mem_of_getElem? (i := b)
      (List.getElem?_set_self (List.getElem?_eq_some_iff.mp hb).1), failed_call hcall hfailed⟩
  · exact hafter
        ⟨branch, List.mem_of_getElem? (i := i) (by rwa [List.getElem?_set_ne hbi]), hfailed⟩

/-- Each call of a pipeline keeps what it answers for. -/
theorem Holds.call {inp : Input} {p p' : Pipeline} (h : Holds deps ctx s₀ ids s config p)
    (hmem : config ∈ s.configs.rows) (hrouted : Routed deps s₀ (ownListed ctx ids s₀) s.router)
    (hcall : Call deps ctx config inp p s p' s') :
    Holds deps ctx s₀ ids s' config p' := by
  cases hcall with
  | found => exact h
  | notFound => trivial
  | @fetched _ r hr hw =>
    obtain ⟨hc, hid⟩ := dedupWhere_iff.mp hw
    exact ⟨r, hr, rfl, rfl, hc, hid, .inl (h r hr hid), fun hnil =>
      fromRow_storageConfig hmem hnil hid⟩
  | resolved hres => exact ⟨_, hrouted, congrArg Prod.fst hres⟩
  | keyTaken => exact h
  | keyFree => exact h
  | written => exact ⟨h, Function.update_self _ _ _⟩
  | inserted hdb hins =>
    exact ⟨h.1, h.2, _, (Table.mem_of_insert hins).mpr (.inr rfl), rfl, rfl, rfl, ⟨rfl, rfl⟩, rfl⟩
  | enqueued | notEnqueued =>
    obtain ⟨hb, hl, row, hrow, hid, hkey, hstored, hc, hconfig⟩ := h
    exact ⟨row, hrow, hid, hkey, hc, hconfig, .inr ⟨_, hb, hstored ▸ hl⟩, fun _ => rfl⟩
  | refused | cut => trivial
  | idle => exact h

/-- Pipelines that have all succeeded have stored, each on its configuration. -/
theorem storedOn_of_done {branches : List (UserStorageConfig × Pipeline)}
    (h : ∀ branch ∈ branches, Holds deps ctx s₀ ids s branch.1 branch.2)
    {results : List UploadResult}
    (hmap : branches.map Prod.snd = (results.map .ok).map .done) :
    List.Forall₂ (StoredOn deps ctx s₀ ids s) (branches.map Prod.fst) results := by
  induction branches generalizing results with
  | nil =>
    cases results with
    | nil => exact .nil
    | cons => cases hmap
  | cons branch branches ih =>
    obtain ⟨c, p⟩ := branch
    cases results with
    | nil => cases hmap
    | cons r results =>
      obtain ⟨rfl, htail⟩ := List.cons.inj hmap
      exact .cons (h (c, _) List.mem_cons_self)
        (ih (fun b hb => h b (List.mem_cons_of_mem _ hb)) htail)

theorem serves_settle {seen : Option ℤ} {branches : List (UserStorageConfig × Pipeline)}
    (h : Serves deps ctx s₀ ids s (.running seen branches)) :
    Serves deps ctx s₀ ids s (settle seen branches) := by
  rcases settle_cases seen branches with ⟨hrun, -⟩ | ⟨results, hdone, hmap⟩
  · rwa [hrun]
  · obtain ⟨-, -, htargets, hholds⟩ := h
    rw [hdone]
    cases hall : unwrapAll results with
    | error e => exact .inr ⟨_, htargets⟩
    | ok rs =>
      rw [unwrapAll_ok hall] at hmap
      refine ⟨_, htargets, storedOn_of_done (hholds.resolve_left ?_) hmap⟩
      rintro ⟨branch, hbranch, hfailed⟩
      have hdone' := List.mem_map_of_mem (f := Prod.snd) hbranch
      rw [hmap, List.map_map] at hdone'
      obtain ⟨r, -, hr⟩ := List.mem_map.mp hdone'
      rw [← hr] at hfailed
      cases hfailed

/-- Pipelines at different places have different configurations. -/
theorem Targets.distinct_at {branches : List (UserStorageConfig × Pipeline)}
    (h : Targets ctx s₀ ids (branches.map Prod.fst)) {i j : ℕ}
    {x y : UserStorageConfig × Pipeline} (hi : branches[i]? = some x) (hj : branches[j]? = some y)
    (hij : i ≠ j) : x.1.dbConfigId ≠ y.1.dbConfigId := by
  have hpair := List.pairwise_iff_getElem.mp (List.pairwise_map.mp h.distinct)
  obtain ⟨hi', rfl⟩ := List.getElem?_eq_some_iff.mp hi
  obtain ⟨hj', rfl⟩ := List.getElem?_eq_some_iff.mp hj
  rcases Nat.lt_or_gt_of_ne hij with hlt | hlt
  · exact hpair i j hi' hj' hlt
  · exact (hpair j i hj' hi' hlt).symm

/-- Each call of a request keeps what its pipelines answer for. -/
theorem Serves.advance {inp : Input} {b : ℕ} {stage stage' : Stage}
    (hids : ctx.storageConfigIds = some ids) (h : Serves deps ctx s₀ ids s stage)
    (ha : Advance deps ctx inp b s stage stage' s') : Serves deps ctx s₀ ids s' stage' := by
  cases ha with
  | rejected hrej =>
    rcases hrej with rfl | ⟨seen, rfl⟩ <;> exact .inl h
  | checked => exact h
  | idle => exact h
  | started hr hv =>
    rename_i seen configs
    have hs : s = s₀ := h
    subst hs
    have htargets := targets_of_resolve hids hr hv
    have hlen := (UploadConfigs.validateUploadConfigs_ok.mp hv).1
    have hmap : (runBackendUploads configs).map Prod.fst = configs := by
      simp [runBackendUploads, List.take_of_length_le hlen, Function.comp_def]
    refine ⟨rfl, ⟨[], by simp, rfl⟩, by rwa [hmap], .inr fun branch hbranch => ?_⟩
    simp only [runBackendUploads, List.mem_map] at hbranch
    obtain ⟨c, -, rfl⟩ := hbranch
    exact fun r hr _ => hr
  | moved hb hcall =>
    rename_i seen branches config p p'
    obtain ⟨hconfigs, hrouted, htargets, hholds⟩ := h
    have hmap : (branches.set b (config, p')).map Prod.fst = branches.map Prod.fst :=
      map_set_of_eq hb rfl
    have hlisted := htargets.named.mem_iff.mp
      (List.mem_map_of_mem (f := Prod.fst) (List.mem_of_getElem? hb))
    refine serves_settle ⟨(configs_call hcall).trans hconfigs, hrouted.call hlisted hcall,
      by rwa [hmap], or_iff_not_imp_left.mpr fun hafter branch hbranch => ?_⟩
    have hall := hholds.resolve_left (not_failed_before hb hcall hafter)
    have hlen := (List.getElem?_eq_some_iff.mp hb).1
    have hgrows : Grows ctx config s s' := grows_call hcall (Bool.eq_false_of_not_eq_true fun hp =>
      hafter ⟨_, List.mem_of_getElem? (List.getElem?_set_self hlen), hp⟩)
    have hmem : config ∈ s.configs.rows := by
      rw [hconfigs]
      exact (mem_ownListed.mp hlisted).1
    obtain ⟨i, hi⟩ := List.getElem?_of_mem hbranch
    by_cases hbi : b = i
    · subst hbi
      rw [List.getElem?_set_self hlen] at hi
      cases hi
      exact (hall _ (List.mem_of_getElem? hb)).call hmem hrouted hcall
    · rw [List.getElem?_set_ne hbi] at hi
      have hne := htargets.distinct_at hi hb (Ne.symm hbi)
      exact (hall _ (List.mem_of_getElem? hi)).grows hgrows hne

theorem Targets.nodup {configs : List UserStorageConfig} (h : Targets ctx s ids configs) :
    (configs.map (·.id)).Nodup := by
  refine List.pairwise_map.mpr (h.distinct.imp fun {c d} hne heq => hne ?_)
  rw [UserStorageConfig.dbConfigId, UserStorageConfig.dbConfigId, heq]

def Stage.failed : Stage → Bool
  | .done (.error _) => true
  | _ => false

end PicHost.UploadTargets
