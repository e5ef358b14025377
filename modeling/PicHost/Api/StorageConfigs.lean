import PicHost.Api.PartialUpdates
import PicHost.Api.UploadConfigs

/-!
# The storage configuration API

`create_config`, `update_config`, `delete_config` and `set_default`, from one statement to the
next.
-/

namespace PicHost.StorageConfigs

open KeyedTable Serialised
open PartialUpdates (UpdateConfigRequest ownConfig ownConfig_id)
open Registration (badRequest internalError)

structure CreateConfigRequest where
  name : String
  provider : String
  token : String
  repo : String
  branch : Option String := none
  pathPrefix : Option String := none
  isDefault : Option Bool := none

structure Config extends PartialUpdates.Config where
  storageMaxUserConfigs : Option ℕ

/-- What came of a request to the API of a provider. -/
inductive RepoReply
  | unreachable (error : String)
  | response (status : ℕ) (body : String)

/-- `repoReply` answers a request for a URL with a token. -/
structure Input extends PartialUpdates.Input where
  newId : Uuid
  repoReply : String → String → RepoReply

inductive Call
  | createConfig (user : AuthUser) (req : CreateConfigRequest)
  | updateConfig (user : AuthUser) (id : Uuid) (req : UpdateConfigRequest)
  | deleteConfig (user : AuthUser) (id : Uuid)
  | setDefault (user : AuthUser) (id : Uuid)

/-- The rows from which the answers are built. -/
inductive Reply
  | config (row : UserStorageConfig)
  | noContent

/-- The statement that comes next, with what the earlier ones have prepared; `patch` is for those
of `update_config`. -/
inductive Stage
  | received
  | checkNameUnique
  | verifyRepoAccess
  | unsetOtherDefaults (configJson : Object)
  | insertConfig (configJson : Object)
  | patch (stage : PartialUpdates.Stage Unit)
  | countReferences
  | deleteRow
  | unsetDefaults
  | setDefault
  | returned (result : Except ApiError Reply)

structure Request where
  call : Call
  stage : Stage

def notFound : ApiError := { status := 404, key := "storage_config.not_found" }

def fetchUserConfig (inp : Input) (user : AuthUser) (id : Uuid) (configs : ConfigTable) :
    Except ApiError UserStorageConfig :=
  if inp.dbUp then
    match (configs.select (ownConfig user id)).head? with
    | some existing => .ok existing
    | none => .error notFound
  else .error internalError

def unsetDefault (c : UserStorageConfig) : UserStorageConfig := { c with isDefault := false }

def unsetOtherDefaults (inp : Input) (user : AuthUser) (configs : ConfigTable) :
    Option ConfigTable :=
  if inp.dbUp then configs.tryUpdate (fun c => c.userId == user.id) unsetDefault else none

theorem unsetOtherDefaults_eq_some {inp : Input} {user : AuthUser}
    {configs configs' : ConfigTable} : unsetOtherDefaults inp user configs = some configs' ↔
      inp.dbUp = true ∧
        configs.tryUpdate (fun c => c.userId == user.id) unsetDefault = some configs' :=
  Option.ite_none_right_eq_some

/-! ## Creation -/

def checkConfigLimit (config : Config) (inp : Input) (user : AuthUser) (configs : ConfigTable) :
    Except ApiError Unit :=
  if inp.dbUp then
    let max := config.storageMaxUserConfigs.getD 5
    if max ≤ (configs.select fun c => c.userId == user.id).length then
      .error { badRequest "storage_config.limit" with args := [toString max] }
    else .ok ()
  else .error internalError

def checkNameUnique (inp : Input) (user : AuthUser) (name : String) (configs : ConfigTable) :
    Except ApiError Unit :=
  if inp.dbUp then
    if configs.anyRow fun c => c.userId == user.id && c.name == name then
      .error { status := 409, key := "storage_config.name_exists" }
    else .ok ()
  else .error internalError

def apiBaseForProvider (provider : String) : Option String :=
  if provider = "github" then some "https://api.github.com"
  else if provider = "gitcode" then some "https://api.gitcode.com/api/v5"
  else none

def verifyRepoAccess (repoReply : String → String → RepoReply) (provider token repo : String) :
    Except ApiError Unit :=
  match apiBaseForProvider provider with
  | none => .error (badRequest "storage_config.unsupported_type")
  | some apiBase =>
    match repoReply (apiBase ++ "/repos/" ++ repo) token with
    | .unreachable error =>
      .error { badRequest "storage_config.repo_unreachable" with args := [error] }
    | .response code body =>
      if code = 200 ∨ code = 302 then .ok ()
      else if code = 401 ∨ code = 403 then .error (badRequest "storage_config.token_invalid")
      else if code = 404 then .error (badRequest "storage_config.repo_not_found")
      else .error
        { badRequest "storage_config.repo_verify_failed" with args := [toString code, body] }

def buildConfigJson (req : CreateConfigRequest) (encrypted : String) : Object :=
  [("token_encrypted", .str encrypted), ("repo", .str req.repo),
    ("branch", .str (req.branch.getD "main")), ("path_prefix", req.pathPrefix.elim .null .str)]

/-- Up to `check_config_limit`. -/
def createConfig (config : Config) (inp : Input) (user : AuthUser) (req : CreateConfigRequest)
    (configs : ConfigTable) : Stage :=
  if req.provider ∉ ["github", "gitcode"] then
    .returned (.error (badRequest "storage_config.unsupported_provider"))
  else
    match checkConfigLimit config inp user configs with
    | .error e => .returned (.error e)
    | .ok () => .checkNameUnique

/-- From `verify_repo_access` to the next statement. -/
def prepareConfig (config : Config) (inp : Input) (req : CreateConfigRequest) : Stage :=
  match verifyRepoAccess inp.repoReply req.provider req.token req.repo with
  | .error e => .returned (.error e)
  | .ok () =>
    match config.tokenEncryptionKey, inp.encrypted with
    | none, _ => .returned (.error { status := 500, key := "storage_config.encryption_key_missing" })
    -- `encrypt` fails, as for a key that does not decode
    | some _, none => .returned (.error internalError)
    | some _, some encrypted =>
      let configJson := buildConfigJson req encrypted
      if req.isDefault.getD false then .unsetOtherDefaults configJson else .insertConfig configJson

/-- The row of `INSERT INTO user_storage_configs`. -/
def newConfig (inp : Input) (user : AuthUser) (req : CreateConfigRequest) (configJson : Object) :
    UserStorageConfig where
  id := inp.newId
  userId := user.id
  name := req.name
  provider := req.provider
  isDefault := req.isDefault.getD false
  config := configJson
  createdAt := inp.now
  updatedAt := inp.now

def insertConfig (inp : Input) (user : AuthUser) (req : CreateConfigRequest) (configJson : Object)
    (configs : ConfigTable) : Option ConfigTable :=
  if inp.dbUp then configs.insert (newConfig inp user req configJson) else none

theorem insertConfig_eq_some {inp : Input} {user : AuthUser} {req : CreateConfigRequest}
    {configJson : Object} {configs configs' : ConfigTable} :
    insertConfig inp user req configJson configs = some configs' ↔
      inp.dbUp = true ∧ configs.insert (newConfig inp user req configJson) = some configs' :=
  Option.ite_none_right_eq_some

def advanceCreate (config : Config) (inp : Input) (user : AuthUser) (req : CreateConfigRequest)
    (stage : Stage) (configs : ConfigTable) : Stage × ConfigTable :=
  match stage with
  | .received => (createConfig config inp user req configs, configs)
  -- statements of their own, in no transaction: rows may change between any two of them
  | .checkNameUnique =>
    match checkNameUnique inp user req.name configs with
    | .error e => (.returned (.error e), configs)
    | .ok () => (.verifyRepoAccess, configs)
  | .verifyRepoAccess => (prepareConfig config inp req, configs)
  | .unsetOtherDefaults configJson =>
    match unsetOtherDefaults inp user configs with
    | none => (.returned (.error internalError), configs)
    | some configs => (.insertConfig configJson, configs)
  | .insertConfig configJson =>
    match insertConfig inp user req configJson configs with
    | none => (.returned (.error internalError), configs)
    | some configs => (.returned (.ok (.config (newConfig inp user req configJson))), configs)
  | stage => (stage, configs)

/-! ## Updates, deletions and the default -/

def advanceUpdate (config : Config) (inp : Input) (user : AuthUser) (id : Uuid)
    (req : UpdateConfigRequest) (stage : PartialUpdates.Stage Unit) (configs : ConfigTable) :
    PartialUpdates.Stage Unit × ConfigTable :=
  match stage with
  | .received =>
    (PartialUpdates.fetchConfig config.toConfig inp.toInput user id req configs, configs)
  | .checkNameUnique existing =>
    (PartialUpdates.checkNameUnique config.toConfig inp.toInput user req existing configs, configs)
  | .updateConfig existing encryptedToken =>
    match PartialUpdates.updateConfig inp.toInput user id req existing encryptedToken configs with
    | none => (.returned (.error internalError), configs)
    | some (row, configs) => (.returned (.ok (.config row)), configs)
  | stage => (stage, configs)

/-- `WHERE storage_config_id = $1 AND user_id = $2`. -/
def refersTo (id : Uuid) (user : AuthUser) (r : Image) : Bool :=
  r.storageConfigId == some id && r.userId == user.id

def countReferences (inp : Input) (user : AuthUser) (id : Uuid) (images : ImageTable) : Stage :=
  if inp.dbUp then
    if 0 < (images.select (refersTo id user)).length then
      .returned (.error { status := 409, key := "storage_config.in_use" })
    else .deleteRow
  else .returned (.error internalError)

/-- The `DELETE`; the reference from `images` refuses it for a row in use. -/
def deleteConfig (inp : Input) (user : AuthUser) (id : Uuid) (images : ImageTable)
    (configs : ConfigTable) : Option ConfigTable :=
  -- what was counted before may be out of date; the foreign key looks again
  let referenced := configs.anyRow fun c =>
    ownConfig user id c && images.anyRow fun r => r.storageConfigId == some c.id
  if inp.dbUp && !referenced then some (configs.delete (ownConfig user id)) else none

theorem eq_of_deleteConfig {inp : Input} {user : AuthUser} {id : Uuid} {images : ImageTable}
    {configs configs' : ConfigTable} (h : deleteConfig inp user id images configs = some configs') :
    configs' = configs.delete (ownConfig user id) :=
  (Option.some.inj (Option.ite_none_right_eq_some.mp h).2).symm

def advanceDelete (inp : Input) (user : AuthUser) (id : Uuid) (images : ImageTable) (stage : Stage)
    (configs : ConfigTable) : Stage × ConfigTable :=
  match stage with
  | .received =>
    match fetchUserConfig inp user id configs with
    | .error e => (.returned (.error e), configs)
    | .ok _ => (.countReferences, configs)
  | .countReferences => (countReferences inp user id images, configs)
  | .deleteRow =>
    match deleteConfig inp user id images configs with
    | none => (.returned (.error internalError), configs)
    | some configs => (.returned (.ok .noContent), configs)
  | stage => (stage, configs)

def makeDefault (now : Instant) (c : UserStorageConfig) : UserStorageConfig :=
  { c with isDefault := true, updatedAt := now }

def setDefault (inp : Input) (user : AuthUser) (id : Uuid) (configs : ConfigTable) :
    Option (UserStorageConfig × ConfigTable) :=
  if inp.dbUp then configs.updateReturning (ownConfig user id) (makeDefault inp.now) else none

theorem setDefault_eq_some {inp : Input} {user : AuthUser} {id : Uuid} {configs : ConfigTable}
    {result : UserStorageConfig × ConfigTable} : setDefault inp user id configs = some result ↔
      inp.dbUp = true ∧
        configs.updateReturning (ownConfig user id) (makeDefault inp.now) = some result :=
  Option.ite_none_right_eq_some

def advanceDefault (inp : Input) (user : AuthUser) (id : Uuid) (stage : Stage)
    (configs : ConfigTable) : Stage × ConfigTable :=
  match stage with
  | .received =>
    match fetchUserConfig inp user id configs with
    | .error e => (.returned (.error e), configs)
    | .ok _ => (.unsetDefaults, configs)
  | .unsetDefaults =>
    match unsetOtherDefaults inp user configs with
    | none => (.returned (.error internalError), configs)
    | some configs => (.setDefault, configs)
  | .setDefault =>
    match setDefault inp user id configs with
    | none => (.returned (.error internalError), configs)
    | some (row, configs) => (.returned (.ok (.config row)), configs)
  | stage => (stage, configs)

/-- One statement. -/
def advance (config : Config) (inp : Input) (images : ImageTable) (r : Request)
    (configs : ConfigTable) : Stage × ConfigTable :=
  match r.call, r.stage with
  | .createConfig user req, stage => advanceCreate config inp user req stage configs
  | .updateConfig user id req, .received =>
    let (stage, configs) := advanceUpdate config inp user id req .received configs
    (.patch stage, configs)
  | .updateConfig user id req, .patch stage =>
    let (stage, configs) := advanceUpdate config inp user id req stage configs
    (.patch stage, configs)
  | .updateConfig _ _ _, stage => (stage, configs)
  | .deleteConfig user id, stage => advanceDelete inp user id images stage configs
  | .setDefault user id, stage => advanceDefault inp user id stage configs

/-- The configurations and the requests about them. -/
structure State where
  configs : ConfigTable
  requests : List Request

/-- The images are those of the moment. -/
inductive Action
  | submit (call : Call)
  | advance (i : ℕ) (inp : Input) (images : ImageTable)

def step (config : Config) (s : State) : Action → State
  | .submit call => { s with requests := s.requests ++ [⟨call, .received⟩] }
  | .advance i inp images =>
    match s.requests[i]? with
    | none => s
    | some r =>
      let (stage, configs) := advance config inp images r s.configs
      { configs, requests := s.requests.set i { r with stage } }

/-! ## What one statement does to the rows -/

/-- The rows that a statement of a request leaves. -/
inductive Effect (inp : Input) (configs : ConfigTable) : Call → Stage → ConfigTable → Prop
  | same {call stage} : Effect inp configs call stage configs
  | unset {call stage configs'} (user : AuthUser)
      (hrows : configs'.rows = configs.rows.map fun c =>
        if c.userId == user.id then unsetDefault c else c) : Effect inp configs call stage configs'
  | inserted {user req configJson configs'} (hdb : inp.dbUp = true)
      (hins : configs.insert (newConfig inp user req configJson) = some configs') :
      Effect inp configs (.createConfig user req) (.insertConfig configJson) configs'
  | updated {user id req existing encryptedToken row configs'}
      (hupd : PartialUpdates.updateConfig inp.toInput user id req existing encryptedToken configs =
        some (row, configs')) :
      Effect inp configs (.updateConfig user id req) (.patch (.updateConfig existing encryptedToken))
        configs'
  | deleted {user id images configs'}
      (hdel : deleteConfig inp user id images configs = some configs') :
      Effect inp configs (.deleteConfig user id) .deleteRow configs'
  | defaulted {user id row configs'} (hset : setDefault inp user id configs = some (row, configs')) :
      Effect inp configs (.setDefault user id) .setDefault configs'

theorem effect_unset {inp : Input} {user : AuthUser} {configs configs' : ConfigTable} {call : Call}
    {stage : Stage} (h : unsetOtherDefaults inp user configs = some configs') :
    Effect inp configs call stage configs' :=
  .unset user (Table.rows_of_tryUpdate (unsetOtherDefaults_eq_some.mp h).2)

theorem effect_create (config : Config) (inp : Input) (user : AuthUser) (req : CreateConfigRequest)
    (stage : Stage) (configs : ConfigTable) :
    Effect inp configs (.createConfig user req) stage
      (advanceCreate config inp user req stage configs).2 := by
  cases stage with
  | checkNameUnique =>
    simp only [advanceCreate]
    split <;> exact .same
  | unsetOtherDefaults configJson =>
    simp only [advanceCreate]
    split
    · exact .same
    · rename_i hunset
      exact effect_unset hunset
  | insertConfig configJson =>
    simp only [advanceCreate]
    split
    · exact .same
    · rename_i hins
      obtain ⟨hdb, hinsert⟩ := insertConfig_eq_some.mp hins
      exact .inserted hdb hinsert
  | _ => exact .same

theorem effect_update (config : Config) (inp : Input) (user : AuthUser) (id : Uuid)
    (req : UpdateConfigRequest) (stage : PartialUpdates.Stage Unit) (configs : ConfigTable) :
    Effect inp configs (.updateConfig user id req) (.patch stage)
      (advanceUpdate config inp user id req stage configs).2 := by
  cases stage with
  | updateConfig existing encryptedToken =>
    simp only [advanceUpdate]
    split
    · exact .same
    · rename_i hupd
      exact .updated hupd
  | _ => exact .same

theorem effect_delete (inp : Input) (user : AuthUser) (id : Uuid) (images : ImageTable)
    (stage : Stage) (configs : ConfigTable) :
    Effect inp configs (.deleteConfig user id) stage
      (advanceDelete inp user id images stage configs).2 := by
  cases stage with
  | received =>
    simp only [advanceDelete]
    split <;> exact .same
  | deleteRow =>
    simp only [advanceDelete]
    split
    · exact .same
    · rename_i hdel
      exact .deleted hdel
  | _ => exact .same

theorem effect_default (inp : Input) (user : AuthUser) (id : Uuid) (stage : Stage)
    (configs : ConfigTable) :
    Effect inp configs (.setDefault user id) stage
      (advanceDefault inp user id stage configs).2 := by
  cases stage with
  | received =>
    simp only [advanceDefault]
    split <;> exact .same
  | unsetDefaults =>
    simp only [advanceDefault]
    split
    · exact .same
    · rename_i hunset
      exact effect_unset hunset
  | setDefault =>
    simp only [advanceDefault]
    split
    · exact .same
    · rename_i hset
      exact .defaulted hset
  | _ => exact .same

theorem effect (config : Config) (inp : Input) (images : ImageTable) (r : Request)
    (configs : ConfigTable) :
    Effect inp configs r.call r.stage (advance config inp images r configs).2 := by
  obtain ⟨call, stage⟩ := r
  cases call with
  | createConfig user req => exact effect_create config inp user req stage configs
  | updateConfig user id req =>
    cases stage with
    | patch stage => exact effect_update config inp user id req stage configs
    | _ => exact .same
  | deleteConfig user id => exact effect_delete inp user id images stage configs
  | setDefault user id => exact effect_default inp user id stage configs

/-- The row that a statement writes with new contents. -/
def written (inp : Input) (configs : ConfigTable) (r : Request) : Option UserStorageConfig :=
  match r.call, r.stage with
  | .createConfig user req, .insertConfig configJson =>
    (insertConfig inp user req configJson configs).map fun _ => newConfig inp user req configJson
  | .updateConfig user id req, .patch (.updateConfig existing encryptedToken) =>
    (PartialUpdates.updateConfig inp.toInput user id req existing encryptedToken configs).map (·.1)
  | _, _ => none

theorem written_cases {inp : Input} {configs : ConfigTable} {r : Request} {c : UserStorageConfig}
    (h : written inp configs r = some c) :
    (∃ user req configJson configs', r = ⟨.createConfig user req, .insertConfig configJson⟩ ∧
      insertConfig inp user req configJson configs = some configs' ∧
      c = newConfig inp user req configJson) ∨
    ∃ user id req existing encryptedToken configs',
      r = ⟨.updateConfig user id req, .patch (.updateConfig existing encryptedToken)⟩ ∧
        PartialUpdates.updateConfig inp.toInput user id req existing encryptedToken configs =
          some (c, configs') := by
  obtain ⟨call, stage⟩ := r
  unfold written at h
  split at h
  · rename_i user req configJson hcall hstage
    cases hcall
    cases hstage
    obtain ⟨configs', hins, rfl⟩ := Option.map_eq_some_iff.mp h
    exact .inl ⟨user, req, configJson, configs', rfl, hins, rfl⟩
  · rename_i user id req existing encryptedToken hcall hstage
    cases hcall
    cases hstage
    obtain ⟨⟨row, configs'⟩, hupd, rfl⟩ := Option.map_eq_some_iff.mp h
    exact .inr ⟨user, id, req, existing, encryptedToken, configs', rfl, hupd⟩
  · cases h

/-- Either the row is new, or the request has changed a row of its user. -/
theorem of_written {inp : Input} {configs : ConfigTable} {r : Request} {c : UserStorageConfig}
    (h : written inp configs r = some c) :
    (∃ user req configJson, r = ⟨.createConfig user req, .insertConfig configJson⟩ ∧
      c = newConfig inp user req configJson) ∨
    ∃ user id req existing encryptedToken, ∃ d ∈ configs.rows,
      r = ⟨.updateConfig user id req, .patch (.updateConfig existing encryptedToken)⟩ ∧
        ownConfig user id d = true ∧
        c = PartialUpdates.setConfig inp.now req encryptedToken existing d := by
  rcases written_cases h with ⟨user, req, configJson, -, rfl, -, rfl⟩ |
    ⟨user, id, req, existing, encryptedToken, configs', rfl, hupd⟩
  · exact .inl ⟨user, req, configJson, rfl, rfl⟩
  · obtain ⟨-, d, hd, hown, hrow⟩ :=
      Table.row_of_updateReturning (PartialUpdates.updateConfig_eq_some.mp hupd).2
    exact .inr ⟨user, id, req, existing, encryptedToken, d, hd, rfl, hown, hrow⟩

/-- The two rows differ in the default flag or the time of the last update at most. -/
def SameContents (c d : UserStorageConfig) : Prop :=
  c.id = d.id ∧ c.userId = d.userId ∧ c.provider = d.provider ∧ c.config = d.config

/-- A row after a statement has the contents of one before it or is the row written. -/
theorem Effect.contents {inp : Input} {configs configs' : ConfigTable} {r : Request}
    (h : Effect inp configs r.call r.stage configs') {c : UserStorageConfig}
    (hc : c ∈ configs'.rows) :
    (∃ d ∈ configs.rows, SameContents c d) ∨ written inp configs r = some c := by
  obtain ⟨call, stage⟩ := r
  cases h with
  | same => exact .inl ⟨c, hc, rfl, rfl, rfl, rfl⟩
  | unset user hrows =>
    rw [hrows, List.mem_map] at hc
    obtain ⟨d, hd, rfl⟩ := hc
    refine .inl ⟨d, hd, ?_⟩
    split <;> exact ⟨rfl, rfl, rfl, rfl⟩
  | inserted hdb hins =>
    rcases (Table.mem_of_insert hins).mp hc with hold | rfl
    · exact .inl ⟨c, hold, rfl, rfl, rfl, rfl⟩
    · exact .inr (by simp only [written, insertConfig, hdb, if_true, hins, Option.map_some])
  | @updated user id req existing encryptedToken row _ hupd =>
    have hwritten : written inp configs
        ⟨.updateConfig user id req, .patch (.updateConfig existing encryptedToken)⟩ = some row := by
      simp only [written, hupd, Option.map_some]
    obtain ⟨hrows, a, ha, hown, rfl⟩ :=
      Table.row_of_updateReturning (PartialUpdates.updateConfig_eq_some.mp hupd).2
    rw [hrows, Table.mem_updated_iff] at hc
    rcases hc with ⟨hold, -⟩ | ⟨d, hd, hd', rfl⟩
    · exact .inl ⟨c, hold, rfl, rfl, rfl, rfl⟩
    · rw [ConfigTable.eq_of_id hd ha ((ownConfig_id hd').trans (ownConfig_id hown).symm)]
      exact .inr hwritten
  | deleted hdel =>
    rw [eq_of_deleteConfig hdel] at hc
    exact .inl ⟨c, (Table.mem_delete.mp hc).1, rfl, rfl, rfl, rfl⟩
  | defaulted hset =>
    rw [(Table.of_updateReturning (setDefault_eq_some.mp hset).2).1, List.mem_map] at hc
    obtain ⟨d, hd, rfl⟩ := hc
    refine .inl ⟨d, hd, ?_⟩
    split <;> exact ⟨rfl, rfl, rfl, rfl⟩

/-- The row written is one of those after the statement. -/
theorem mem_of_written {inp : Input} {configs : ConfigTable} {r : Request} {c : UserStorageConfig}
    (h : written inp configs r = some c) (config : Config) (images : ImageTable) :
    c ∈ (advance config inp images r configs).2.rows := by
  rcases written_cases h with ⟨user, req, configJson, configs', rfl, hins, rfl⟩ |
    ⟨user, id, req, existing, encryptedToken, configs', rfl, hupd⟩
  · simp only [advance, advanceCreate, hins]
    exact (Table.mem_of_insert (insertConfig_eq_some.mp hins).2).mpr (.inr rfl)
  · simp only [advance, advanceUpdate, hupd]
    obtain ⟨hrows, a, ha, hown, rfl⟩ :=
      Table.row_of_updateReturning (PartialUpdates.updateConfig_eq_some.mp hupd).2
    rw [hrows]
    exact Table.mem_updated_iff.mpr (.inr ⟨a, ha, hown, rfl⟩)

/-! ## Providers -/

/-- A creation that has passed its first check is for a Git provider. -/
def Checked (r : Request) : Prop :=
  ∀ user req, r.call = .createConfig user req →
    req.provider ∈ ["github", "gitcode"] ∨ r.stage = .received ∨ ∃ e, r.stage = .returned (.error e)

structure Git (s : State) : Prop where
  rows : ∀ c ∈ s.configs.rows, c.provider ∈ ["github", "gitcode"]
  requests : ∀ r ∈ s.requests, Checked r

theorem checked_advance (config : Config) (inp : Input) (images : ImageTable) {r : Request}
    (h : Checked r) (configs : ConfigTable) :
    Checked { r with stage := (advance config inp images r configs).1 } := by
  intro user req hcall
  obtain ⟨call, stage⟩ := r
  cases hcall
  rcases h user req rfl with hgit | rfl | ⟨e, rfl⟩
  · exact .inl hgit
  · simp only [advance, advanceCreate, createConfig]
    by_cases hgit : req.provider ∈ ["github", "gitcode"]
    · exact .inl hgit
    · rw [if_pos hgit]
      exact .inr (.inr ⟨_, rfl⟩)
  · exact .inr (.inr ⟨e, rfl⟩)

theorem Git.step {config : Config} {s : State} (h : Git s) (a : Action) :
    Git (step config s a) := by
  cases a with
  | submit call =>
    refine ⟨h.rows, fun r hr => ?_⟩
    rcases List.mem_append.mp hr with hr | hr
    · exact h.requests r hr
    · rw [List.mem_singleton.mp hr]
      exact fun _ _ _ => .inr (.inl rfl)
  | advance i inp images =>
    cases hi : s.requests[i]? with
    | none => simpa only [StorageConfigs.step, hi] using h
    | some r =>
      simp only [StorageConfigs.step, hi]
      have hchecked := h.requests r (List.mem_of_getElem? hi)
      refine ⟨fun c hc => ?_, fun q hq => ?_⟩
      · rcases (effect config inp images r s.configs).contents hc with
          ⟨d, hd, -, -, hprovider, -⟩ | hwritten
        · rw [hprovider]
          exact h.rows d hd
        · rcases of_written hwritten with ⟨user, req, configJson, rfl, rfl⟩ |
            ⟨user, id, req, existing, encryptedToken, d, hd, -, -, rfl⟩
          · rcases hchecked user req rfl with hgit | hreceived | ⟨e, herror⟩
            · exact hgit
            · cases hreceived
            · cases herror
          · exact h.rows d hd
      · rcases List.mem_or_eq_of_mem_set hq with hq | rfl
        · exact h.requests q hq
        · exact checked_advance config inp images hchecked s.configs

theorem Git.provider_ne {s : State} (h : Git s) {c : UserStorageConfig}
    (hc : c ∈ s.configs.rows) : c.provider ≠ "local" := by
  intro hlocal
  have hmem := h.rows c hc
  rw [hlocal] at hmem
  revert hmem
  decide

end PicHost.StorageConfigs
