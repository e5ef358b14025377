import PicHost.Api.State
import PicHost.Lib.Placeholder

/-! # The storage configurations an upload goes to -/

namespace PicHost

open KeyedTable Placeholder

namespace UserStorageConfig

/-- What `images.storage_backend` records of a configuration. -/
def dbBackend (config : UserStorageConfig) : String :=
  if config.provider = "local" then "local" else config.id.toText

/-- What `images.storage_config_id` records of a configuration. -/
def dbConfigId (config : UserStorageConfig) : Option Uuid :=
  if config.id.isNil then none else some config.id

end UserStorageConfig

namespace UploadConfigs

/-- Used when the user has no configuration. -/
def localFallbackConfig (now : Instant) (userId : Uuid) : UserStorageConfig where
  id := Uuid.nil
  userId := userId
  name := "Local Storage"
  provider := "local"
  isDefault := false
  config := []
  createdAt := now
  updatedAt := now

/-- `WHERE id IN ($1, …, $n) AND user_id = $n+1`. -/
def idsWhere (ids : List Uuid) (userId : Uuid) (c : UserStorageConfig) : Bool :=
  let binds := ids ++ [userId]
  inList binds (placeholders 1 ids.length) c.id && bound binds (ids.length + 1) == some c.userId

def internalError : ApiError := { status := 500, key := "common.internal_error" }

def fetchConfigsByIds (up : Bool) (userId : Uuid) (ids : List Uuid) (configs : ConfigTable) :
    Except ApiError (List UserStorageConfig) :=
  if up then
    let found := (configs.select (idsWhere ids userId)).mergeSort
      fun c d => decide (c.createdAt ≤ d.createdAt)
    -- identifiers that match nothing are not missed as long as another one matches
    if found = [] then .error { status := 400, key := "upload.configs_none_match" }
    else .ok found
  else .error internalError

def fetchDefaultConfig (up : Bool) (userId : Uuid) (configs : ConfigTable) :
    Except ApiError (Option UserStorageConfig) :=
  if up then .ok (configs.select fun c => c.userId == userId && c.isDefault).head?
  else .error internalError

/-- The listed configurations of the user; without a list the default one, or the local
fallback. -/
def resolveUploadConfigs (up : Bool) (now : Instant) (userId : Uuid)
    (storageConfigIds : Option (List Uuid)) (configs : ConfigTable) :
    Except ApiError (List UserStorageConfig) :=
  match storageConfigIds with
  -- nothing is left of an empty list for `validate_upload_configs`, which refuses it then
  | some ids => if ids = [] then .ok [] else fetchConfigsByIds up userId ids configs
  | none =>
    match fetchDefaultConfig up userId configs with
    | .error e => .error e
    | .ok (some config) => .ok [config]
    | .ok none => .ok [localFallbackConfig now userId]

/-- At most two configurations, one of them local. -/
def validateUploadConfigs (configs : List UserStorageConfig) : Except ApiError Unit :=
  if 2 < configs.length then .error { status := 400, key := "upload.configs_too_many" }
  else if configs.any fun c => c.provider == "local" then .ok ()
  else .error { status := 400, key := "upload.configs_need_local" }

theorem idsWhere_iff {ids : List Uuid} {userId : Uuid} {c : UserStorageConfig} :
    idsWhere ids userId c = true ↔ c.id ∈ ids ∧ c.userId = userId := by
  have hin := inList_placeholders [] ids [userId] c.id
  have hu := bound_length ids [userId]
  simp only [List.nil_append, List.length_nil, Nat.zero_add] at hin
  simp only [idsWhere, Bool.and_eq_true, hin, hu, List.getElem?_cons_zero, beq_iff_eq,
    Option.some.injEq]
  rw [@eq_comm _ userId c.userId]

/-- What passes validation is one or two configurations, one of them local. -/
theorem validateUploadConfigs_ok {configs : List UserStorageConfig} :
    validateUploadConfigs configs = .ok () ↔
      configs.length ≤ 2 ∧ ∃ c ∈ configs, c.provider = "local" := by
  unfold validateUploadConfigs
  by_cases hl : 2 < configs.length
  · simp only [hl, if_true, reduceCtorEq, false_iff, not_and]
    omega
  · simp only [hl, if_false, Nat.le_of_not_lt hl, true_and]
    split <;> rename_i h
    · simpa using h
    · simpa using h

/-- An upload goes to configurations of the table or to the local fallback. -/
theorem mem_resolveUploadConfigs {up : Bool} {now : Instant} {userId : Uuid}
    {storageConfigIds : Option (List Uuid)} {configs : ConfigTable}
    {found : List UserStorageConfig}
    (h : resolveUploadConfigs up now userId storageConfigIds configs = .ok found) :
    ∀ c ∈ found, c ∈ configs.rows ∨ c = localFallbackConfig now userId := by
  intro c hc
  cases storageConfigIds with
  | some ids =>
    simp only [resolveUploadConfigs, fetchConfigsByIds] at h
    split at h
    · cases h
      cases hc
    · split at h
      · split at h
        · cases h
        · cases h
          exact .inl (Table.mem_select.mp (List.mem_mergeSort.mp hc)).1
      · cases h
  | none =>
    simp only [resolveUploadConfigs, fetchDefaultConfig] at h
    cases up with
    | false => cases h
    | true =>
      simp only [if_true] at h
      split at h
      · cases h
      · rename_i config hconfig
        cases h
        rw [List.mem_singleton.mp hc]
        exact .inl (Table.mem_of_select_head? (Except.ok.inj hconfig)).1
      · cases h
        exact .inr (List.mem_singleton.mp hc)

theorem dbConfigId_injective {c d : UserStorageConfig} (h : c.dbConfigId = d.dbConfigId) :
    c.id = d.id := by
  have hnil : ∀ e : UserStorageConfig, e.id.isNil = true → e.id = Uuid.nil := fun e he =>
    beq_iff_eq.mp he
  unfold UserStorageConfig.dbConfigId at h
  split at h <;> split at h <;> rename_i hc hd
  · rw [hnil c hc, hnil d hd]
  · cases h
  · cases h
  · exact Option.some.inj h

/-- The configurations an upload resolves to are recorded differently. -/
theorem resolveUploadConfigs_distinct {up : Bool} {now : Instant} {userId : Uuid}
    {storageConfigIds : Option (List Uuid)} {configs : ConfigTable}
    {found : List UserStorageConfig}
    (h : resolveUploadConfigs up now userId storageConfigIds configs = .ok found) :
    found.Pairwise fun c d => c.dbConfigId ≠ d.dbConfigId := by
  cases storageConfigIds with
  | some ids =>
    simp only [resolveUploadConfigs, fetchConfigsByIds] at h
    split at h
    · cases h
      exact List.Pairwise.nil
    · split at h
      · split at h
        · cases h
        · cases h
          have hrows : (configs.select (idsWhere ids userId)).Pairwise
              fun c d => c.dbConfigId ≠ d.dbConfigId :=
            (configs.unique.filter _).imp fun hcd heq => hcd (.inl (dbConfigId_injective heq))
          exact hrows.perm (List.mergeSort_perm _ _).symm Ne.symm
      · cases h
  | none =>
    simp only [resolveUploadConfigs] at h
    split at h
    · cases h
    · cases h
      exact List.pairwise_singleton _ _
    · cases h
      exact List.pairwise_singleton _ _

end UploadConfigs

end PicHost
