import PicHost.Api.Admin
import PicHost.Core.Database
import PicHost.Lib.PartialUpdate

/-!
# Updates of some fields of a row

The requests that change users, storage configurations and categories, statement by statement,
and which fields of a row they name. Their bearers have been authorised.
-/

namespace PicHost.PartialUpdates

open KeyedTable PartialUpdate Serialised
open Admin (UserRow UserRows UpdateUserBody UserFields mergeUserFields setFields)
open Registration (badRequest internalError)

structure Category where
  id : Uuid
  userId : Uuid
  name : String
  parentId : Option Uuid
  createdAt : Instant
deriving DecidableEq

structure CategoryKeys where
  id : Uuid
  userId : Uuid
  name : String
  parentId : Option Uuid
deriving DecidableEq

/-- The primary key and `UNIQUE(user_id, name, parent_id)`; no two `NULL`s are equal. -/
def CategoryKeys.Clash (j k : CategoryKeys) : Prop :=
  j.id = k.id ∨
    (j.userId = k.userId ∧ j.name = k.name ∧ j.parentId ≠ none ∧ j.parentId = k.parentId)

instance : DecidableRel CategoryKeys.Clash := fun _ _ => inferInstanceAs (Decidable (_ ∨ _))

def Category.keys (c : Category) : CategoryKeys := ⟨c.id, c.userId, c.name, c.parentId⟩

abbrev Categories := Table Category.keys CategoryKeys.Clash

theorem CategoryKeys.Clash.symm (j k : CategoryKeys) (h : Clash j k) : Clash k j :=
  h.imp Eq.symm fun ⟨hu, hn, hp, he⟩ => ⟨hu.symm, hn.symm, he ▸ hp, he.symm⟩

theorem Categories.eq_of_id {t : Categories} (c : Category) (hc : c ∈ t.rows) (d : Category)
    (hd : d ∈ t.rows) (h : c.id = d.id) : c = d :=
  t.eq_of_clash CategoryKeys.Clash.symm hc hd (.inl h)

/-- In `watermarkConfig` the outer option is whether the field was sent. -/
structure UpdateProfileRequest (J : Type) where
  username : Option String := none
  email : Option String := none
  storageBackend : Option String := none
  watermarkConfig : Option (Option J) := none

structure ChangePasswordRequest where
  currentPassword : String
  newPassword : String

structure UpdateConfigRequest where
  name : Option String := none
  token : Option String := none
  repo : Option String := none
  branch : Option String := none
  pathPrefix : Option String := none

structure UpdateCategoryRequest where
  name : Option String := none

inductive Call (J : Type)
  | updateUser (currentUser : AuthUser) (userId : Uuid) (body : UpdateUserBody J)
  | updateMyProfile (user : AuthUser) (payload : UpdateProfileRequest J)
  | changeMyPassword (user : AuthUser) (payload : ChangePasswordRequest)
  | updateConfig (user : AuthUser) (id : Uuid) (req : UpdateConfigRequest)
  | updateCategory (user : AuthUser) (id : Uuid) (req : UpdateCategoryRequest)

/-- The rows from which the answers are built. -/
inductive Reply (J : Type)
  | user (info : Admin.UserInfo)
  | profile (row : UserRow J)
  | passwordUpdated
  | config (row : UserStorageConfig)
  | category (row : Category)

/-- The statement that comes next, with what the earlier ones have read. -/
inductive Stage (J : Type)
  | received
  | executeUserUpdate (existing : UserFields J) (passwordHash : Option String)
  | ensureEmailAvailable
  | applyProfileUpdate
  | fetchProfileRow
  | updatePasswordHash (newHash : String)
  | checkNameUnique (existing : UserStorageConfig)
  | updateConfig (existing : UserStorageConfig) (encryptedToken : Option String)
  | updateCategory (existing : Category)
  | returned (result : Except ApiError (Reply J))

structure Request (J : Type) where
  call : Call J
  stage : Stage J

/-- `backends` are those of the router. -/
structure Config where
  backends : List String
  tokenEncryptionKey : Option String

/-- What the outside contributes to one step: the answers of the hasher, of the verifier of the
current password and of the cipher, and the driver's text when a statement fails. -/
structure Input where
  dbUp : Bool
  now : Instant
  hashed : Option String
  verified : Option Bool
  encrypted : Option String
  error : String

variable {J : Type}

/-! ## Users -/

def updateUser (inp : Input) (currentUser : AuthUser) (userId : Uuid) (body : UpdateUserBody J)
    (users : UserRows J) : Stage J :=
  if body.isAdmin = some false ∧ currentUser.id = userId then
    .returned (.error (badRequest "admin.cannot_demote_self"))
  else
    match Admin.fetchUserFields inp.dbUp userId users with
    | .error e => .returned (.error e)
    | .ok existing =>
      match Admin.hashPasswordIfProvided inp.hashed body.password with
      | .error e => .returned (.error e)
      | .ok passwordHash => .executeUserUpdate existing passwordHash

def ensureUsernameAvailable (inp : Input) (userId : Uuid) (username : Option String)
    (users : UserRows J) : Except ApiError Unit :=
  match username with
  | none => .ok ()
  | some username =>
    if inp.dbUp then
      if users.anyRow fun u => u.username == username && u.id != userId then
        .error { status := 409, key := "user.username_taken" }
      else .ok ()
    else .error internalError

def ensureEmailAvailable (inp : Input) (userId : Uuid) (email : Option String)
    (users : UserRows J) : Except ApiError Unit :=
  match email with
  | none => .ok ()
  | some email =>
    if inp.dbUp then
      if users.anyRow fun u => u.email == some email && u.id != userId then
        .error { status := 409, key := "user.email_taken" }
      else .ok ()
    else .error internalError

/-- Up to `ensure_username_available`. -/
def updateMyProfile (config : Config) (inp : Input) (user : AuthUser)
    (payload : UpdateProfileRequest J) (users : UserRows J) : Stage J :=
  match payload.storageBackend.filter (· ∉ config.backends) with
  | some backend => .returned (.error { badRequest "user.unknown_backend" with args := [backend] })
  | none =>
    match ensureUsernameAvailable inp user.id payload.username users with
    | .error e => .returned (.error e)
    | .ok () => .ensureEmailAvailable

/-- The assignments of `apply_profile_update`, each from the row itself. -/
def setProfile (payload : UpdateProfileRequest J) (u : UserRow J) : UserRow J :=
  { u with
    username := payload.username.getD u.username
    email := if payload.email.isSome then payload.email else u.email
    storageBackend := payload.storageBackend.getD u.storageBackend
    watermarkConfig := payload.watermarkConfig.getD u.watermarkConfig }

def applyProfileUpdate (inp : Input) (userId : Uuid) (payload : UpdateProfileRequest J)
    (users : UserRows J) : Except ApiError (UserRows J) :=
  if inp.dbUp then
    match users.tryUpdate (fun u => u.id == userId) (setProfile payload) with
    | some users => .ok users
    | none => .error { status := 409, key := "user.username_email_taken" }
  else .error internalError

def fetchProfileRow (inp : Input) (userId : Uuid) (users : UserRows J) :
    Except ApiError (UserRow J) :=
  if inp.dbUp then
    match (users.select fun u => u.id == userId).head? with
    | some u => .ok u
    | none => .error internalError
  else .error internalError

/-- Up to `hash_new_password`. -/
def changeMyPassword (inp : Input) (user : AuthUser) (payload : ChangePasswordRequest)
    (users : UserRows J) : Stage J :=
  if payload.newPassword.utf8ByteSize < 8 then
    .returned (.error (badRequest "user.password_too_weak"))
  else if inp.dbUp then
    match (users.select fun u => u.id == user.id).head? with
    | none => .returned (.error { status := 404, key := "user.not_found" })
    | some _ =>
      match inp.verified, inp.hashed with
      | none, _ | some true, none => .returned (.error internalError)
      | some false, _ =>
        .returned (.error { status := 401, key := "user.current_password_incorrect" })
      | some true, some hash => .updatePasswordHash hash
  else .returned (.error internalError)

def updatePasswordHash (userId : Uuid) (newHash : String) (users : UserRows J) : UserRows J :=
  users.update (fun u => u.id == userId) (fun u => { u with passwordHash := newHash }) fun _ => rfl

/-! ## Storage configurations -/

/-- `WHERE id = $1 AND user_id = $2`. -/
def ownConfig (user : AuthUser) (id : Uuid) (c : UserStorageConfig) : Bool :=
  c.id == id && c.userId == user.id

theorem ownConfig_id {user : AuthUser} {id : Uuid} {c : UserStorageConfig}
    (h : ownConfig user id c = true) : c.id = id :=
  beq_iff_eq.mp ((Bool.and_eq_true _ _).mp h).1

def encryptToken (config : Config) (inp : Input) (req : UpdateConfigRequest)
    (existing : UserStorageConfig) : Stage J :=
  match req.token, config.tokenEncryptionKey, inp.encrypted with
  | none, _, _ => .updateConfig existing none
  | some _, none, _ =>
    .returned (.error { status := 500, key := "storage_config.encryption_key_missing" })
  | some _, some _, none => .returned (.error internalError)
  | some _, some _, some encrypted => .updateConfig existing (some encrypted)

/-- Up to the comparison of the names. -/
def fetchConfig (config : Config) (inp : Input) (user : AuthUser) (id : Uuid)
    (req : UpdateConfigRequest) (configs : ConfigTable) : Stage J :=
  if inp.dbUp then
    match (configs.select (ownConfig user id)).head? with
    | none => .returned (.error { status := 404, key := "storage_config.not_found" })
    | some existing =>
      if req.name.getD existing.name ≠ existing.name then .checkNameUnique existing
      else encryptToken config inp req existing
  else .returned (.error internalError)

def checkNameUnique (config : Config) (inp : Input) (user : AuthUser) (req : UpdateConfigRequest)
    (existing : UserStorageConfig) (configs : ConfigTable) : Stage J :=
  if inp.dbUp then
    if configs.anyRow fun c => c.userId == user.id && c.name == req.name.getD existing.name then
      .returned (.error { status := 409, key := "storage_config.name_exists" })
    else encryptToken config inp req existing
  else .returned (.error internalError)

def setMember (o : Object) (key : String) (value : Option String) : Object :=
  match value with
  | some text => o.set key (.str text)
  | none => o

def mergeConfigDetail (detail : Object) (req : UpdateConfigRequest)
    (encryptedToken : Option String) : Object :=
  let detail := setMember detail "repo" req.repo
  let detail := setMember detail "branch" req.branch
  let detail := setMember detail "path_prefix" req.pathPrefix
  setMember detail "token_encrypted" encryptedToken

/-- The assignments of `update_config`, from the row that was read. -/
def setConfig (now : Instant) (req : UpdateConfigRequest) (encryptedToken : Option String)
    (existing : UserStorageConfig) (c : UserStorageConfig) : UserStorageConfig :=
  { c with
    name := req.name.getD existing.name
    config := mergeConfigDetail existing.config req encryptedToken
    updatedAt := now }

def updateConfig (inp : Input) (user : AuthUser) (id : Uuid) (req : UpdateConfigRequest)
    (existing : UserStorageConfig) (encryptedToken : Option String) (configs : ConfigTable) :
    Option (UserStorageConfig × ConfigTable) :=
  if inp.dbUp then
    configs.updateReturning (ownConfig user id) (setConfig inp.now req encryptedToken existing)
  else none

theorem updateConfig_eq_some {inp : Input} {user : AuthUser} {id : Uuid}
    {req : UpdateConfigRequest} {existing : UserStorageConfig} {encryptedToken : Option String}
    {configs : ConfigTable} {result : UserStorageConfig × ConfigTable} :
    updateConfig inp user id req existing encryptedToken configs = some result ↔
      inp.dbUp = true ∧ configs.updateReturning (ownConfig user id)
        (setConfig inp.now req encryptedToken existing) = some result :=
  Option.ite_none_right_eq_some

/-! ## Categories -/

def ownCategory (user : AuthUser) (id : Uuid) (c : Category) : Bool :=
  c.id == id && c.userId == user.id

theorem ownCategory_id {user : AuthUser} {id : Uuid} {c : Category}
    (h : ownCategory user id c = true) : c.id = id :=
  beq_iff_eq.mp ((Bool.and_eq_true _ _).mp h).1

/-- `p` holds of the category or of one above it. -/
def Category.isUnder (rows : List Category) (p : Category → Bool) : ℕ → Category → Bool
  | 0, c => p c
  | depth + 1, c => p c || rows.any fun d => c.parentId == some d.id && d.isUnder rows p depth

/-- `DELETE … WHERE p`, with the cascade over `parent_id`. -/
def deleteCategories (p : Category → Bool) (categories : Categories) : Categories :=
  categories.delete (Category.isUnder categories.rows p categories.rows.length)

def errorDetail (inp : Input) : ApiError :=
  { status := 500, key := "common.internal_error_detail", args := [inp.error] }

def fetchCategory (inp : Input) (user : AuthUser) (id : Uuid) (categories : Categories) :
    Stage J :=
  if inp.dbUp then
    match (categories.select (ownCategory user id)).head? with
    | some existing => .updateCategory existing
    | none => .returned (.error { status := 404, key := "category.not_found" })
  else .returned (.error (errorDetail inp))

def updateCategory (inp : Input) (user : AuthUser) (id : Uuid) (req : UpdateCategoryRequest)
    (existing : Category) (categories : Categories) : Option (Category × Categories) :=
  if inp.dbUp then
    categories.updateReturning (ownCategory user id)
      fun c => { c with name := req.name.getD existing.name }
  else none

theorem updateCategory_eq_some {inp : Input} {user : AuthUser} {id : Uuid}
    {req : UpdateCategoryRequest} {existing : Category} {categories : Categories}
    {result : Category × Categories} :
    updateCategory inp user id req existing categories = some result ↔
      inp.dbUp = true ∧ categories.updateReturning (ownCategory user id)
        (fun c => { c with name := req.name.getD existing.name }) = some result :=
  Option.ite_none_right_eq_some

/-! ## Fields and what requests name -/

inductive UserField
  | username
  | email
  | passwordHash
  | isAdmin
  | storageBackend
  | storageQuota
  | watermarkConfig

variable (J) in
def UserField.Value : UserField → Type
  | .username | .passwordHash | .storageBackend => String
  | .email => Option String
  | .isAdmin => Bool
  | .storageQuota => Option ℤ
  | .watermarkConfig => Option J

def userColumn (u : UserRow J) : ∀ f, UserField.Value J f
  | .username => u.username
  | .email => u.email
  | .passwordHash => u.passwordHash
  | .isAdmin => u.isAdmin
  | .storageBackend => u.storageBackend
  | .storageQuota => u.storageQuota
  | .watermarkConfig => u.watermarkConfig

/-- A quota of 0 stands for none, and a password is written as its hash. -/
def UpdateUserBody.named (body : UpdateUserBody J) (passwordHash : Option String) :
    Patch (UserField.Value J)
  | .username => body.username
  | .email => body.email.map some
  | .passwordHash => body.password.bind fun _ => passwordHash
  | .isAdmin => body.isAdmin
  | .storageBackend => body.storageBackend
  | .storageQuota => body.storageQuota.map fun quota => if quota = 0 then none else some quota
  | .watermarkConfig => body.watermarkConfig

def UpdateProfileRequest.named (payload : UpdateProfileRequest J) : Patch (UserField.Value J)
  | .username => payload.username
  | .email => payload.email.map some
  | .storageBackend => payload.storageBackend
  | .watermarkConfig => payload.watermarkConfig
  | .passwordHash | .isAdmin | .storageQuota => none

def passwordNamed (newHash : String) : Patch (UserField.Value J)
  | .passwordHash => some newHash
  | _ => none

/-- The name of a configuration and the members of its JSON. -/
inductive ConfigField
  | name
  | member (key : String)

def ConfigField.Value : ConfigField → Type
  | .name => String
  | .member _ => Option Scalar

def configColumn (c : UserStorageConfig) : ∀ f, ConfigField.Value f
  | .name => c.name
  | .member key => c.config.field key

/-- The text that the request gives to a member of the JSON; a token is written encrypted. -/
def UpdateConfigRequest.member (req : UpdateConfigRequest) (encryptedToken : Option String)
    (key : String) : Option String :=
  if key = "repo" then req.repo
  else if key = "branch" then req.branch
  else if key = "path_prefix" then req.pathPrefix
  else if key = "token_encrypted" then req.token.bind fun _ => encryptedToken
  else none

def UpdateConfigRequest.named (req : UpdateConfigRequest) (encryptedToken : Option String) :
    Patch ConfigField.Value
  | .name => req.name
  | .member key => (req.member encryptedToken key).map fun text => some (.str text)

inductive CategoryField
  | name

def CategoryField.Value : CategoryField → Type
  | .name => String

def categoryColumn (c : Category) : ∀ f, CategoryField.Value f
  | .name => c.name

def UpdateCategoryRequest.named (req : UpdateCategoryRequest) : Patch CategoryField.Value
  | .name => req.name

/-- The three tables, and as history what requests have named in their rows. -/
structure State (J : Type) where
  users : UserRows J
  configs : ConfigTable
  categories : Categories
  requests : List (Request J)
  userHistory : History Uuid (UserField.Value J)
  configHistory : History Uuid ConfigField.Value
  categoryHistory : History Uuid CategoryField.Value

inductive Action (J : Type)
  | createUser (user : UserRow J)
  | deleteUser (userId : Uuid)
  | createConfig (config : UserStorageConfig)
  | deleteConfig (id : Uuid)
  | createCategory (category : Category)
  | deleteCategory (id : Uuid)
  | submit (call : Call J)
  | advance (i : ℕ) (inp : Input)

def State.setStage (s : State J) (i : ℕ) (r : Request J) (stage : Stage J) : State J :=
  { s with requests := s.requests.set i { r with stage } }

def executeUserUpdate (inp : Input) (i : ℕ) (r : Request J) (userId : Uuid)
    (body : UpdateUserBody J) (existing : UserFields J) (passwordHash : Option String)
    (s : State J) : State J :=
  let fields := mergeUserFields body existing
  match Admin.executeUserUpdate inp.dbUp userId fields passwordHash s.users with
  | none => s.setStage i r (.returned (.error internalError))
  | some users =>
    { s.setStage i r (.returned (.ok (.user
        { id := userId
          username := fields.username
          email := fields.email
          isAdmin := fields.isAdmin
          storageQuota := fields.storageQuota }))) with
      users
      userHistory := s.userHistory.name userId (UpdateUserBody.named body passwordHash) }

/-- One statement of `update_my_profile` or `change_my_password`. -/
def advanceProfile (config : Config) (inp : Input) (i : ℕ) (r : Request J) (user : AuthUser)
    (payload : UpdateProfileRequest J) (s : State J) : State J :=
  match r.stage with
  | .received => s.setStage i r (updateMyProfile config inp user payload s.users)
  | .ensureEmailAvailable =>
    match ensureEmailAvailable inp user.id payload.email s.users with
    | .error e => s.setStage i r (.returned (.error e))
    | .ok () => s.setStage i r .applyProfileUpdate
  | .applyProfileUpdate =>
    match applyProfileUpdate inp user.id payload s.users with
    | .error e => s.setStage i r (.returned (.error e))
    | .ok users =>
      { s.setStage i r .fetchProfileRow with
        users
        userHistory := s.userHistory.name user.id payload.named }
  | .fetchProfileRow =>
    s.setStage i r (.returned ((fetchProfileRow inp user.id s.users).map .profile))
  | _ => s

def advancePassword (inp : Input) (i : ℕ) (r : Request J) (user : AuthUser)
    (payload : ChangePasswordRequest) (s : State J) : State J :=
  match r.stage with
  | .received => s.setStage i r (changeMyPassword inp user payload s.users)
  | .updatePasswordHash newHash =>
    if inp.dbUp then
      { s.setStage i r (.returned (.ok .passwordUpdated)) with
        users := updatePasswordHash user.id newHash s.users
        userHistory := s.userHistory.name user.id (passwordNamed newHash) }
    else s.setStage i r (.returned (.error internalError))
  | _ => s

def advanceConfig (config : Config) (inp : Input) (i : ℕ) (r : Request J) (user : AuthUser)
    (id : Uuid) (req : UpdateConfigRequest) (s : State J) : State J :=
  match r.stage with
  | .received => s.setStage i r (fetchConfig config inp user id req s.configs)
  | .checkNameUnique existing =>
    s.setStage i r (checkNameUnique config inp user req existing s.configs)
  | .updateConfig existing encryptedToken =>
    match updateConfig inp user id req existing encryptedToken s.configs with
    | none => s.setStage i r (.returned (.error internalError))
    | some (row, configs) =>
      { s.setStage i r (.returned (.ok (.config row))) with
        configs
        configHistory := s.configHistory.name id (req.named encryptedToken) }
  | _ => s

def advanceCategory (inp : Input) (i : ℕ) (r : Request J) (user : AuthUser) (id : Uuid)
    (req : UpdateCategoryRequest) (s : State J) : State J :=
  match r.stage with
  | .received => s.setStage i r (fetchCategory inp user id s.categories)
  | .updateCategory existing =>
    match updateCategory inp user id req existing s.categories with
    | none => s.setStage i r (.returned (.error (errorDetail inp)))
    | some (row, categories) =>
      { s.setStage i r (.returned (.ok (.category row))) with
        categories
        categoryHistory := s.categoryHistory.name id req.named }
  | _ => s

/-- One step of a request. -/
def advance (config : Config) (inp : Input) (i : ℕ) (r : Request J) (s : State J) : State J :=
  match r.call with
  | .updateUser currentUser userId body =>
    match r.stage with
    | .received => s.setStage i r (updateUser inp currentUser userId body s.users)
    | .executeUserUpdate existing passwordHash =>
      executeUserUpdate inp i r userId body existing passwordHash s
    | _ => s
  | .updateMyProfile user payload => advanceProfile config inp i r user payload s
  | .changeMyPassword user payload => advancePassword inp i r user payload s
  | .updateConfig user id req => advanceConfig config inp i r user id req s
  | .updateCategory user id req => advanceCategory inp i r user id req s

def step (config : Config) (s : State J) : Action J → State J
  | .createUser user =>
    match s.users.insert user with
    | some users => { s with users, userHistory := s.userHistory.create user.id (userColumn user) }
    | none => s
  | .deleteUser userId =>
    { s with
      users := s.users.delete fun u => u.id == userId
      configs := s.configs.delete fun c => c.userId == userId
      categories := deleteCategories (fun c => c.userId == userId) s.categories }
  | .createConfig c =>
    match s.configs.insert c with
    | some configs =>
      { s with configs, configHistory := s.configHistory.create c.id (configColumn c) }
    | none => s
  | .deleteConfig id => { s with configs := s.configs.delete fun c => c.id == id }
  | .createCategory c =>
    match s.categories.insert c with
    | some categories =>
      { s with categories, categoryHistory := s.categoryHistory.create c.id (categoryColumn c) }
    | none => s
  | .deleteCategory id =>
    { s with categories := deleteCategories (fun c => c.id == id) s.categories }
  | .submit call => { s with requests := s.requests ++ [⟨call, .received⟩] }
  | .advance i inp =>
    match s.requests[i]? with
    | some r => advance config inp i r s
    | none => s

def start : State J :=
  ⟨.empty, .empty, .empty, [], fun _ => [], fun _ => [], fun _ => []⟩

end PicHost.PartialUpdates
