import PicHost.Api.BatchDelete
import PicHost.Api.Registration

/-!
# Administrators

Requests to change or delete users take their steps in any order. Their bearers are
authorised by what their tokens say.
-/

namespace PicHost.Admin

open KeyedTable LabelledRun Registration

/-- A row of `users`; `J` is what a watermark configuration is stored as. -/
structure UserRow (J : Type) where
  id : Uuid
  username : String
  email : Option String
  passwordHash : String
  isAdmin : Bool
  storageBackend : String
  storageQuota : Option ℤ
  watermarkConfig : Option J
deriving DecidableEq

variable {J : Type}

namespace UserRow

def keys (u : UserRow J) : UserKeys := ⟨u.id, u.username, u.email⟩

def toUser (u : UserRow J) : Auth.User := ⟨u.id, u.username, u.email, u.isAdmin, u.storageQuota⟩

end UserRow

abbrev UserRows (J : Type) := Table (UserRow.keys (J := J)) UserKeys.Clash

/-- In `watermarkConfig` the outer option is whether the field was sent. -/
structure UpdateUserBody (J : Type) where
  username : Option String := none
  email : Option String := none
  password : Option String := none
  isAdmin : Option Bool := none
  storageBackend : Option String := none
  storageQuota : Option ℤ := none
  watermarkConfig : Option (Option J) := none

structure UserFields (J : Type) where
  username : String
  email : Option String
  isAdmin : Bool
  storageBackend : String
  storageQuota : Option ℤ
  watermarkConfig : Option J

structure UserInfo where
  id : Uuid
  username : String
  email : Option String
  isAdmin : Bool
  storageQuota : Option ℤ

inductive Reply
  | updated (info : UserInfo)
  | deleted

inductive Call (J : Type)
  | updateUser (userId : Uuid) (body : UpdateUserBody J)
  | deleteUser (userId : Uuid)

/-- The statement that comes next. -/
inductive Stage (J : Type)
  | authorise
  | handle (user : AuthUser)
  | executeUserUpdate (fields : UserFields J) (passwordHash : Option String)
  | cleanupStorageFiles
  | deleteImages
  | deleteFromDb
  | returned (result : Except ApiError Reply)

structure Request (J : Type) where
  header : Option String
  call : Call J
  stage : Stage J

structure State (J : Type) where
  users : UserRows J
  images : ImageTable
  objects : Objects
  blacklist : Blacklist
  issued : List Auth.TokenPair
  requests : List (Request J)

/-- What the outside contributes to one step; `hashed` is what the hasher answers. -/
structure Input where
  env : Auth.Env
  hashed : Option String
  storage : Location → Option String

/-- `createUser` stands for the inserts of the registrations, `login` for every handler that
hands out the tokens of a user. -/
inductive Action (J : Type)
  | createUser (user : UserRow J)
  | login (now : ℕ) (userId accessJti refreshJti : Uuid)
  | refresh (env : Auth.Env) (refreshToken : String) (accessJti refreshJti : Uuid)
  | logout (env : Auth.Env) (header : Option String)
  | submit (header : Option String) (call : Call J)
  | advance (i : ℕ) (inp : Input)

/-- `fetch_user_fields`. -/
def fetchUserFields (up : Bool) (userId : Uuid) (users : UserRows J) :
    Except ApiError (UserFields J) :=
  if up then
    match (users.select fun u => u.id == userId).head? with
    | some u => .ok
        { username := u.username
          email := u.email
          isAdmin := u.isAdmin
          storageBackend := u.storageBackend
          storageQuota := u.storageQuota
          watermarkConfig := u.watermarkConfig }
    | none => .error { status := 404, key := "user.not_found" }
  else .error internalError

def mergeUserFields (body : UpdateUserBody J) (existing : UserFields J) : UserFields J where
  username := body.username.getD existing.username
  email := body.email.or existing.email
  isAdmin := body.isAdmin.getD existing.isAdmin
  storageBackend := body.storageBackend.getD existing.storageBackend
  storageQuota :=
    if body.storageQuota = some 0 then none else body.storageQuota.or existing.storageQuota
  watermarkConfig := body.watermarkConfig.getD existing.watermarkConfig

def hashPasswordIfProvided (hashed : Option String) (password : Option String) :
    Except ApiError (Option String) :=
  match password with
  | none => .ok none
  | some password =>
    if password.utf8ByteSize < 8 then .error (badRequest "admin.password_too_weak")
    else
      match hashed with
      | some hash => .ok (some hash)
      | none => .error internalError

/-- The assignments of `execute_user_update`. -/
def setFields (fields : UserFields J) (passwordHash : Option String) (u : UserRow J) :
    UserRow J :=
  { u with
    username := fields.username
    email := fields.email
    isAdmin := fields.isAdmin
    storageBackend := fields.storageBackend
    storageQuota := fields.storageQuota
    watermarkConfig := fields.watermarkConfig
    passwordHash := passwordHash.getD u.passwordHash }

/-- `UPDATE users SET … WHERE id = $n`. -/
def executeUserUpdate (up : Bool) (userId : Uuid) (fields : UserFields J)
    (passwordHash : Option String) (users : UserRows J) : Option (UserRows J) :=
  if up then users.tryUpdate (fun u => u.id == userId) (setFields fields passwordHash) else none

theorem rows_executeUserUpdate {up : Bool} {userId : Uuid} {fields : UserFields J}
    {passwordHash : Option String} {users users' : UserRows J}
    (h : executeUserUpdate up userId fields passwordHash users = some users') :
    users'.rows = users.rows.map fun u =>
      if u.id == userId then setFields fields passwordHash u else u :=
  Table.rows_of_tryUpdate (Option.ite_none_right_eq_some.mp h).2

/-- `require_admin`. -/
def requireAdmin (user : AuthUser) : Except ApiError AuthUser :=
  if user.isAdmin then .ok user else .error { status := 403, key := "auth.admin_required" }

/-- What the token handlers see of the state. -/
def State.auth (s : State J) : Auth.State :=
  ⟨s.users.rows.map UserRow.toUser, s.blacklist, s.issued⟩

def State.setAuth (s : State J) (t : Auth.State) : State J :=
  { s with blacklist := t.blacklist, issued := t.issued }

def State.setStage (s : State J) (i : ℕ) (r : Request J) (stage : Stage J) : State J :=
  { s with requests := s.requests.set i { r with stage } }

/-- Where the files of an image are. -/
def imageKeys (image : Image) : List String :=
  image.storageKey :: (image.thumbnailKey.toList ++ image.webpKey.toList)

/-- All of them are deleted from the default backend; the results are dropped. -/
def collectAndCleanupStorageFiles (storage : Backend) (fault : Location → Option String)
    (images : List Image) (objs : Objects) : Objects :=
  (images.flatMap imageKeys).foldl
    (fun objs key => (storage.delete (fault (storage.locate key)) key objs).2) objs

variable (jwt : Auth.Jwt) (config : Auth.AuthConfig) (router : StorageRouter)

/-- The middleware. -/
def authorise (inp : Input) (header : Option String) (s : State J) : Stage J :=
  match (Auth.requireAuth jwt inp.env header s.auth).bind requireAdmin with
  | .ok user => .handle user
  | .error e => .returned (.error e)

def updateUser (inp : Input) (currentUser : AuthUser) (userId : Uuid) (body : UpdateUserBody J)
    (s : State J) : Stage J :=
  if body.isAdmin = some false ∧ currentUser.id = userId then
    .returned (.error (badRequest "admin.cannot_demote_self"))
  else
    match fetchUserFields inp.env.dbUp userId s.users with
    | .error e => .returned (.error e)
    | .ok existing =>
      match hashPasswordIfProvided inp.hashed body.password with
      | .error e => .returned (.error e)
      | .ok passwordHash => .executeUserUpdate (mergeUserFields body existing) passwordHash

/-- Up to `verify_user_exists`. -/
def deleteUser (inp : Input) (currentUser : AuthUser) (userId : Uuid) (s : State J) : Stage J :=
  if currentUser.id = userId then .returned (.error (badRequest "admin.cannot_delete_self"))
  else if inp.env.dbUp then
    if s.users.anyRow fun u => u.id == userId then .cleanupStorageFiles
    else .returned (.error { status := 404, key := "user.not_found" })
  else .returned (.error internalError)

/-- The statements after the checks. -/
def executeUpdate (inp : Input) (i : ℕ) (r : Request J) (userId : Uuid) (fields : UserFields J)
    (passwordHash : Option String) (s : State J) : State J :=
  match executeUserUpdate inp.env.dbUp userId fields passwordHash s.users with
  | none => s.setStage i r (.returned (.error internalError))
  | some users =>
    { s.setStage i r (.returned (.ok (.updated
        { id := userId
          username := fields.username
          email := fields.email
          isAdmin := fields.isAdmin
          storageQuota := fields.storageQuota }))) with users }

def executeDelete (inp : Input) (i : ℕ) (r : Request J) (userId : Uuid) (s : State J) : State J :=
  if inp.env.dbUp then
    match r.stage with
    | .cleanupStorageFiles =>
      { s.setStage i r .deleteImages with
        objects := collectAndCleanupStorageFiles router.defaultBackend inp.storage
          (s.images.select fun image => image.userId == userId) s.objects }
    | .deleteImages =>
      { s.setStage i r .deleteFromDb with
        images := s.images.delete fun image => image.userId == userId }
    | .deleteFromDb =>
      { s.setStage i r (.returned (.ok .deleted)) with
        users := s.users.delete fun u => u.id == userId }
    | _ => s
  else s.setStage i r (.returned (.error internalError))

/-- One step of a request. -/
def advance (inp : Input) (i : ℕ) (r : Request J) (s : State J) : State J :=
  match r.stage, r.call with
  | .authorise, _ => s.setStage i r (authorise jwt inp r.header s)
  | .handle user, .updateUser userId body =>
    s.setStage i r (updateUser inp user userId body s)
  | .handle user, .deleteUser userId => s.setStage i r (deleteUser inp user userId s)
  | .executeUserUpdate fields passwordHash, .updateUser userId _ =>
    executeUpdate inp i r userId fields passwordHash s
  | .cleanupStorageFiles, .deleteUser userId | .deleteImages, .deleteUser userId
  | .deleteFromDb, .deleteUser userId => executeDelete router inp i r userId s
  | _, _ => s

def step (s : State J) : Action J → State J
  | .createUser user =>
    match s.users.insert user with
    | some users => { s with users }
    | none => s
  | .login now userId accessJti refreshJti =>
    match (s.users.select fun u => u.id == userId).head? with
    | some u => s.setAuth (s.auth.issue
        (Auth.generateTokens jwt config now userId u.isAdmin accessJti refreshJti))
    | none => s
  | .refresh env token accessJti refreshJti =>
    s.setAuth (Auth.refresh jwt config env token accessJti refreshJti s.auth).2
  | .logout env header => s.setAuth (Auth.logout jwt env header s.auth).2
  | .submit header call => { s with requests := s.requests ++ [⟨header, call, .authorise⟩] }
  | .advance i inp =>
    match s.requests[i]? with
    | some r => advance jwt router inp i r s
    | none => s

/-- Some user is an administrator. -/
def HasAdmin (s : State J) : Prop := ∃ u ∈ s.users.rows, u.isAdmin = true

/-- An administrator other than this user is there. -/
def AdminBesides (userId : Uuid) (s : State J) : Prop :=
  ∃ u ∈ s.users.rows, u.isAdmin = true ∧ u.id ≠ userId

/-- Before a request takes the role from a user, or the row, another administrator is there. -/
def SparesAt (inp : Input) (s : State J) (r : Request J) : Prop :=
  match r.stage, r.call with
  | .executeUserUpdate fields passwordHash, .updateUser userId _ =>
    fields.isAdmin = false →
      (executeUserUpdate inp.env.dbUp userId fields passwordHash s.users).isSome = true →
      AdminBesides userId s
  | .deleteFromDb, .deleteUser userId => inp.env.dbUp = true → AdminBesides userId s
  | _, _ => True

def SparesAdmin (s : State J) : Action J → Prop
  | .advance i inp => ∀ r ∈ s.requests[i]?, SparesAt inp s r
  | _ => True

/-- The token gives its user the role that the row has now. -/
def UpToDate (header : Option String) (s : State J) : Prop :=
  ∀ claims ∈ Auth.bearerClaims jwt header, ∃ u ∈ s.users.rows,
    Uuid.parseStr claims.sub = some u.id ∧ u.isAdmin = claims.isAdmin

def IsAdmin (userId : Uuid) (s : State J) : Prop :=
  ∃ u ∈ s.users.rows, u.id = userId ∧ u.isAdmin = true

/-- When an administrator is about to be demoted or deleted, the token of the one who asked for
it still tells the truth. An update that does not ask for a role has not read another one. -/
def OrderlyAt (inp : Input) (s : State J) (r : Request J) : Prop :=
  match r.stage, r.call with
  | .executeUserUpdate fields _, .updateUser userId body =>
    inp.env.dbUp = true → IsAdmin userId s → fields.isAdmin = false →
      body.isAdmin.isSome = true ∧ UpToDate jwt r.header s
  | .deleteFromDb, .deleteUser userId =>
    inp.env.dbUp = true → IsAdmin userId s → UpToDate jwt r.header s
  | _, _ => True

def Orderly (s : State J) : Action J → Prop
  | .advance i inp => ∀ r ∈ s.requests[i]?, OrderlyAt jwt inp s r
  | _ => True

/-- The token says administrator, and is somebody else's. -/
def AskedByOther (header : Option String) (userId : Uuid) : Prop :=
  ∃ claims ∈ Auth.bearerClaims jwt header, claims.isAdmin = true ∧
    Uuid.parseStr claims.sub ≠ some userId

/-- What a request has been through. -/
def Passed (r : Request J) : Prop :=
  match r.stage, r.call with
  | .handle user, _ => ∃ claims ∈ Auth.bearerClaims jwt r.header, claims.isAdmin = true ∧
      Uuid.parseStr claims.sub = some user.id
  | .executeUserUpdate fields _, .updateUser userId body => ∀ isAdmin ∈ body.isAdmin,
      fields.isAdmin = isAdmin ∧ (isAdmin = false → AskedByOther jwt r.header userId)
  | .cleanupStorageFiles, .deleteUser userId | .deleteImages, .deleteUser userId
  | .deleteFromDb, .deleteUser userId => AskedByOther jwt r.header userId
  | _, _ => True

variable {jwt config router}

/-- The update leaves an administrator unless it takes the role from the last one. -/
theorem hasAdmin_update_iff {s : State J} (h : HasAdmin s) {up : Bool} {userId : Uuid}
    {fields : UserFields J} {passwordHash : Option String} {users : UserRows J}
    (hexec : executeUserUpdate up userId fields passwordHash s.users = some users) :
    (∃ u ∈ users.rows, u.isAdmin = true) ↔ (fields.isAdmin = false → AdminBesides userId s) := by
  rw [rows_executeUserUpdate hexec]
  constructor
  · intro ⟨u, hu, hadmin⟩ hfields
    rcases Table.mem_updated_iff.mp hu with ⟨hu, hid⟩ | ⟨v, -, -, rfl⟩
    · exact ⟨u, hu, hadmin, by simpa using hid⟩
    · exact absurd (hfields.symm.trans hadmin) (by decide)
  · intro hspare
    cases hfields : fields.isAdmin with
    | true =>
      -- whether the administrator is the one updated or not
      obtain ⟨u, hu, hadmin⟩ := h
      by_cases hid : u.id = userId
      · exact ⟨_, Table.mem_updated_iff.mpr (.inr ⟨u, hu, by simpa using hid, rfl⟩), hfields⟩
      · exact ⟨u, Table.mem_updated_iff.mpr (.inl ⟨hu, by simpa using hid⟩), hadmin⟩
    | false =>
      obtain ⟨u, hu, hadmin, hid⟩ := hspare hfields
      exact ⟨u, Table.mem_updated_iff.mpr (.inl ⟨hu, by simpa using hid⟩), hadmin⟩

theorem hasAdmin_executeUpdate_iff {s : State J} (h : HasAdmin s) (inp : Input) (i : ℕ)
    (r : Request J) (userId : Uuid) (fields : UserFields J) (passwordHash : Option String) :
    HasAdmin (executeUpdate inp i r userId fields passwordHash s) ↔
      (fields.isAdmin = false →
        (executeUserUpdate inp.env.dbUp userId fields passwordHash s.users).isSome = true →
        AdminBesides userId s) := by
  unfold executeUpdate
  cases hexec : executeUserUpdate inp.env.dbUp userId fields passwordHash s.users with
  | none => exact iff_of_true h fun _ hsome => absurd hsome Bool.false_ne_true
  | some users =>
    refine (hasAdmin_update_iff h hexec).trans ?_
    exact ⟨fun hspare hfields _ => hspare hfields, fun hspare hfields => hspare hfields rfl⟩

theorem hasAdmin_delete_iff {s : State J} {userId : Uuid} :
    (∃ u ∈ (s.users.delete fun u => u.id == userId).rows, u.isAdmin = true) ↔
      AdminBesides userId s := by
  constructor
  · intro ⟨u, hu, hadmin⟩
    obtain ⟨hu, hid⟩ := Table.mem_delete.mp hu
    exact ⟨u, hu, hadmin, by simpa using hid⟩
  · intro ⟨u, hu, hadmin, hid⟩
    exact ⟨u, Table.mem_delete.mpr ⟨hu, by simpa using hid⟩, hadmin⟩

variable (router) in
theorem hasAdmin_executeDelete_iff {s : State J} (h : HasAdmin s) (inp : Input) (i : ℕ)
    (r : Request J) (userId : Uuid) :
    HasAdmin (executeDelete router inp i r userId s) ↔
      (r.stage = .deleteFromDb → inp.env.dbUp = true → AdminBesides userId s) := by
  unfold executeDelete
  cases hup : inp.env.dbUp with
  | false => exact iff_of_true h fun _ hup' => absurd hup' Bool.false_ne_true
  | true =>
    rw [if_pos rfl]
    cases hr : r.stage with
    | deleteFromDb =>
      apply hasAdmin_delete_iff.trans
      exact ⟨fun hspare _ _ => hspare, fun hspare => hspare rfl rfl⟩
    | _ => exact iff_of_true h fun hstage => nomatch hstage

theorem hasAdmin_advance_iff {s : State J} (h : HasAdmin s) (inp : Input) (i : ℕ)
    (r : Request J) : HasAdmin (advance jwt router inp i r s) ↔ SparesAt inp s r := by
  cases hr : r.stage with
  | executeUserUpdate fields passwordHash =>
    cases hc : r.call with
    | updateUser userId body =>
      simp only [advance, SparesAt, hr, hc]
      exact hasAdmin_executeUpdate_iff h inp i r userId fields passwordHash
    | deleteUser userId =>
      simp only [advance, SparesAt, hr, hc]
      exact iff_of_true h trivial
  | cleanupStorageFiles | deleteImages | deleteFromDb =>
    cases hc : r.call with
    | updateUser userId body =>
      simp only [advance, SparesAt, hr, hc]
      exact iff_of_true h trivial
    | deleteUser userId =>
      simp only [advance, SparesAt, hr, hc]
      simpa [hr] using hasAdmin_executeDelete_iff router h inp i r userId
  | handle user =>
    -- the checks read the table and leave it alone
    cases hc : r.call <;> simp only [advance, SparesAt, hr, hc] <;> exact iff_of_true h trivial
  | authorise | returned =>
    simp only [advance, SparesAt, hr]
    exact iff_of_true h trivial

/-- A step leaves an administrator exactly when it spares one. -/
theorem hasAdmin_step_iff {s : State J} (h : HasAdmin s) (a : Action J) :
    HasAdmin (step jwt config router s a) ↔ SparesAdmin s a := by
  cases a with
  | createUser user =>
    refine iff_of_true ?_ trivial
    simp only [step]
    split
    · rename_i users hins
      obtain ⟨u, hu, hadmin⟩ := h
      exact ⟨u, (Table.mem_of_insert hins).mpr (.inl hu), hadmin⟩
    · exact h
  | login now userId accessJti refreshJti =>
    refine iff_of_true ?_ trivial
    simp only [step]
    split <;> exact h
  | refresh | logout | submit => exact iff_of_true h trivial
  | advance i inp =>
    simp only [step, SparesAdmin]
    cases hi : s.requests[i]? with
    | none => exact iff_of_true h fun _ hr => nomatch hr
    | some r =>
      rw [hasAdmin_advance_iff h inp i r]
      simp only [Option.mem_some_iff, forall_eq']

/-- The middleware has read the token, and let an administrator through. -/
theorem passed_authorise (inp : Input) (r : Request J) (s : State J) :
    Passed jwt { r with stage := authorise jwt inp r.header s } := by
  unfold authorise
  cases hok : Auth.requireAuth jwt inp.env r.header s.auth with
  | error e => trivial
  | ok user =>
    obtain ⟨claims, hclaims, hadmin, hsub⟩ := Auth.claims_of_requireAuth jwt hok
    cases hrole : user.isAdmin with
    | false =>
      simp only [Except.bind, requireAdmin, hrole, Bool.false_eq_true, if_false]
      trivial
    | true =>
      simp only [Except.bind, requireAdmin, hrole, if_true]
      exact ⟨claims, hclaims, hadmin.symm.trans hrole, hsub⟩

theorem askedByOther_of_handle {r : Request J} {user : AuthUser} {userId : Uuid}
    (h : Passed jwt { r with stage := .handle user }) (hne : user.id ≠ userId) :
    AskedByOther jwt r.header userId := by
  obtain ⟨claims, hclaims, hadmin, hsub⟩ := h
  exact ⟨claims, hclaims, hadmin, fun hself => hne (Option.some.inj (hsub.symm.trans hself))⟩

/-- Nobody demotes himself. -/
theorem passed_updateUser {r : Request J} {user : AuthUser} {userId : Uuid}
    {body : UpdateUserBody J} (h : Passed jwt { r with stage := .handle user })
    (hcall : r.call = .updateUser userId body) (inp : Input) (s : State J) :
    Passed jwt { r with stage := updateUser inp user userId body s } := by
  unfold updateUser
  split
  · trivial
  · rename_i hself
    split
    · trivial
    · split
      · trivial
      · simp only [Passed, hcall]
        intro isAdmin hrole
        rw [Option.mem_def] at hrole
        refine ⟨by simp [mergeUserFields, hrole], fun hdemoted => ?_⟩
        exact askedByOther_of_handle h fun hid => hself ⟨hdemoted ▸ hrole, hid⟩

/-- Nobody deletes himself. -/
theorem passed_deleteUser {r : Request J} {user : AuthUser} {userId : Uuid}
    (h : Passed jwt { r with stage := .handle user }) (hcall : r.call = .deleteUser userId)
    (inp : Input) (s : State J) :
    Passed jwt { r with stage := deleteUser inp user userId s } := by
  unfold deleteUser
  split
  · trivial
  · rename_i hself
    split
    · split
      · simp only [Passed, hcall]
        exact askedByOther_of_handle h hself
      · trivial
    · trivial

variable (router) in
/-- A request that moves has been through what it says. -/
theorem passed_advance {s : State J} {r : Request J} (h : Passed jwt r) (inp : Input) (i : ℕ) :
    ∃ r', Passed jwt r' ∧ ((advance jwt router inp i r s).requests = s.requests.set i r' ∨
      (advance jwt router inp i r s).requests = s.requests) := by
  obtain ⟨header, call, stage⟩ := r
  cases stage with
  | authorise => exact ⟨_, passed_authorise inp ⟨header, call, .authorise⟩ s, .inl rfl⟩
  | handle user =>
    cases call with
    | updateUser userId body => exact ⟨_, passed_updateUser h rfl inp s, .inl rfl⟩
    | deleteUser userId => exact ⟨_, passed_deleteUser h rfl inp s, .inl rfl⟩
  | executeUserUpdate fields passwordHash =>
    cases call with
    | updateUser userId body =>
      simp only [advance, executeUpdate]
      split
      · exact ⟨⟨header, .updateUser userId body, .returned _⟩, trivial, .inl rfl⟩
      · exact ⟨⟨header, .updateUser userId body, .returned _⟩, trivial, .inl rfl⟩
    | deleteUser userId => exact ⟨_, h, .inr rfl⟩
  | cleanupStorageFiles | deleteImages | deleteFromDb =>
    cases call with
    | updateUser userId body => exact ⟨_, h, .inr rfl⟩
    | deleteUser userId =>
      simp only [advance, executeDelete]
      split
      · first
        | exact ⟨⟨header, .deleteUser userId, .deleteImages⟩, h, .inl rfl⟩
        | exact ⟨⟨header, .deleteUser userId, .deleteFromDb⟩, h, .inl rfl⟩
        | exact ⟨⟨header, .deleteUser userId, .returned (.ok .deleted)⟩, trivial, .inl rfl⟩
      · exact ⟨⟨header, .deleteUser userId, .returned _⟩, trivial, .inl rfl⟩
  | returned result => exact ⟨_, h, .inr rfl⟩

theorem passed_step {s : State J} (h : ∀ r ∈ s.requests, Passed jwt r) (a : Action J) :
    ∀ r ∈ (step jwt config router s a).requests, Passed jwt r := by
  cases a with
  | createUser user =>
    simp only [step]
    split <;> exact h
  | login now userId accessJti refreshJti =>
    simp only [step]
    split <;> exact h
  | refresh | logout => exact h
  | submit header call =>
    intro r hr
    rcases List.mem_append.mp hr with hr | hr
    · exact h r hr
    · rw [List.mem_singleton.mp hr]
      trivial
  | advance i inp =>
    simp only [step]
    cases hi : s.requests[i]? with
    | none => exact h
    | some r =>
      obtain ⟨r', hr', hset | hsame⟩ :=
        passed_advance router (s := s) (h r (List.mem_of_getElem? hi)) inp i
      · rw [hset]
        intro q hq
        rcases List.mem_or_eq_of_mem_set hq with hq | rfl
        · exact h q hq
        · exact hr'
      · rw [hsame]
        exact h

/-- The one who asked for it is left. -/
theorem adminBesides_of_upToDate {header : Option String} {userId : Uuid} {s : State J}
    (hasked : AskedByOther jwt header userId) (hdate : UpToDate jwt header s) :
    AdminBesides userId s := by
  obtain ⟨claims, hclaims, hadmin, hother⟩ := hasked
  obtain ⟨u, hu, hsub, hrole⟩ := hdate claims hclaims
  exact ⟨u, hu, hrole.trans hadmin, fun hid => hother (hid ▸ hsub)⟩

/-- Where the target is no administrator, one of those there are is another user. -/
theorem adminBesides_of_not_isAdmin {userId : Uuid} {s : State J} (h : HasAdmin s)
    (htarget : ¬ IsAdmin userId s) : AdminBesides userId s := by
  obtain ⟨u, hu, hadmin⟩ := h
  exact ⟨u, hu, hadmin, fun hid => htarget ⟨u, hu, hid, hadmin⟩⟩

theorem spares_of_orderly {s : State J} (h : HasAdmin s) (hpassed : ∀ r ∈ s.requests, Passed jwt r)
    {a : Action J} (ha : Orderly jwt s a) : SparesAdmin s a := by
  cases a with
  | advance i inp =>
    intro r hr
    have hpast := hpassed r (List.mem_of_getElem? hr)
    have horderly := ha r hr
    obtain ⟨header, call, stage⟩ := r
    cases stage with
    | executeUserUpdate fields passwordHash =>
      cases call with
      | updateUser userId body =>
        intro hfields hexec
        by_cases htarget : IsAdmin userId s
        · have hup : inp.env.dbUp = true := by
            by_contra hdown
            rw [executeUserUpdate, if_neg hdown] at hexec
            cases hexec
          obtain ⟨hasks, hdate⟩ := horderly hup htarget hfields
          obtain ⟨isAdmin, hrole⟩ := Option.isSome_iff_exists.mp hasks
          obtain ⟨hmerged, hasked⟩ := hpast isAdmin hrole
          exact adminBesides_of_upToDate (hasked (hmerged.symm.trans hfields)) hdate
        · exact adminBesides_of_not_isAdmin h htarget
      | deleteUser userId => trivial
    | deleteFromDb =>
      cases call with
      | updateUser userId body => trivial
      | deleteUser userId =>
        intro hup
        by_cases htarget : IsAdmin userId s
        · exact adminBesides_of_upToDate hpast (horderly hup htarget)
        · exact adminBesides_of_not_isAdmin h htarget
    | authorise | handle | cleanupStorageFiles | deleteImages | returned =>
      cases call <;> trivial
  | createUser | login | refresh | logout | submit => trivial

variable (jwt config router) in
/-- Once there is an administrator there is one in every state, as long as whoever demotes or
deletes an administrator has not lost the role in the meantime. -/
theorem administrator_kept (s : State J) (hs : HasAdmin s) (hnone : s.requests = [])
    {as : List (Action J)} (has : AllSteps (step jwt config router) (Orderly jwt) s as) :
    AllStates (step jwt config router) HasAdmin s as := by
  have hstart : ∀ r ∈ s.requests, Passed jwt r := fun r hr => by
    rw [hnone] at hr
    exact absurd hr List.not_mem_nil
  refine (allStates_of_guarded (J := fun s => HasAdmin s ∧ ∀ r ∈ s.requests, Passed jwt r)
    (fun s a h ha => ?_) ⟨hs, hstart⟩ has).mono fun _ h => h.1
  exact ⟨(hasAdmin_step_iff h.1 a).mpr (spares_of_orderly h.1 h.2 ha), passed_step h.2 a⟩

/-- An administrator of the runs below. -/
def administrator (id : Uuid) (username : String) : UserRow Unit :=
  ⟨id, username, none, "", true, "local", none, none⟩

def twoAdmins : State Unit where
  users := ⟨[administrator 1 "root", administrator 2 "toor"], by decide⟩
  images := Table.empty
  objects _ := none
  blacklist := .emptyRedis
  issued := []
  requests := []

/-- Every call succeeds, a minute after the logins. -/
def soon : Input := ⟨⟨60 * Timestamps.secondNanos, true, true, true, true⟩, none, fun _ => none⟩

variable (jwt config) in
def bearer (userId : Uuid) : Option String :=
  some ("Bearer " ++
    (Auth.generateTokens jwt config 0 userId true (userId + 2) (userId + 4)).access)

theorem authorise_bearer {s : State J} (hgood : ∀ jti, s.blacklist.entry jti = none)
    (userId : Uuid) :
    authorise jwt soon (bearer jwt config userId) s =
      .handle ⟨userId, true,
        (s.auth.users.find? fun u => u.id == userId).bind (·.storageQuota)⟩ := by
  rw [authorise, bearer, Auth.requireAuth_access]
  · rfl
  · have hnow : soon.env.seconds = Auth.leeway := by decide
    omega
  · simp [Auth.revoked, soon, State.auth, Blacklist.check, hgood]
  · rfl

/-- The steps of an update of the role of a user. -/
def changeRole (i : ℕ) (header : Option String) (target : Uuid) (isAdmin : Bool) :
    List (Action J) :=
  [.submit header (.updateUser target { isAdmin := some isAdmin }),
    .advance i soon, .advance i soon, .advance i soon]

variable (jwt config router) in
theorem changeRole_users {s : State J} (hgood : ∀ jti, s.blacklist.entry jti = none)
    (userId target : Uuid) (hne : userId ≠ target) (isAdmin : Bool)
    (users users' : UserRows J) (husers : s.users = users) {fields : UserFields J}
    (hfetch : fetchUserFields true target users = .ok fields)
    (hexec : executeUserUpdate true target { fields with isAdmin } none users = some users') :
    ∃ requests, (changeRole s.requests.length (bearer jwt config userId) target isAdmin).foldl
      (step jwt config router) s = { s with users := users', requests } ∧
      requests.length = s.requests.length + 1 := by
  subst husers
  have hmerge : mergeUserFields { isAdmin := some isAdmin } fields =
      { fields with isAdmin } := by simp [mergeUserFields]
  have hup : soon.env.dbUp = true := rfl
  have hblacklist : ∀ stage : Stage J, ∀ jti, ({ s with requests := s.requests ++
      [⟨bearer jwt config userId, .updateUser target { isAdmin := some isAdmin }, stage⟩] } :
      State J).blacklist.entry jti = none := fun _ => hgood
  simp [changeRole, step, advance, authorise_bearer, hgood, State.setStage, updateUser, hne, hup,
    hfetch, hashPasswordIfProvided, hmerge, executeUpdate, hexec]

/-- An administrator who is still one may take the role from another. -/
theorem orderly_changeRole {s : State J} (hgood : ∀ jti, s.blacklist.entry jti = none)
    {userId target : Uuid} (hne : userId ≠ target) (isAdmin : Bool) {fields : UserFields J}
    (hfetch : fetchUserFields true target s.users = .ok fields) (hadmin : IsAdmin userId s) :
    AllSteps (step jwt config router) (Orderly jwt) s
      (changeRole s.requests.length (bearer jwt config userId) target isAdmin) := by
  have hup : soon.env.dbUp = true := rfl
  have hdate : UpToDate jwt (bearer jwt config userId) s := by
    intro claims hclaims
    rw [bearer, Auth.bearerClaims_access] at hclaims
    cases hclaims
    obtain ⟨u, hu, rfl, hrole⟩ := hadmin
    exact ⟨u, hu, Uuid.parseStr_toText _, hrole⟩
  have hdate' : ∀ requests, UpToDate jwt (bearer jwt config userId) { s with requests } :=
    fun _ => hdate
  simp [changeRole, AllSteps, Orderly, OrderlyAt, step, advance, authorise_bearer, hgood,
    State.setStage, updateUser, hne, hup, hfetch, hashPasswordIfProvided, mergeUserFields, hdate']

/-- Nobody has registered yet. -/
def noUsers : State Unit := { twoAdmins with users := Table.empty }

variable (jwt config router) in
/-- After the first registration. -/
def registered : State Unit := step jwt config router noUsers (.createUser (administrator 1 "root"))

def guest : UserRow Unit := { administrator 2 "toor" with isAdmin := false }

variable (jwt config) in
/-- Somebody else registers; the first administrator gives him the role and takes it back. -/
def politeRun : List (Action Unit) :=
  [.createUser guest, .login 0 1 3 5] ++
    (changeRole 0 (bearer jwt config 1) 2 true ++ changeRole 1 (bearer jwt config 1) 2 false)

theorem administrator_kept_polite :
    AllStates (step Auth.plainJwt Auth.shortConfig BatchDelete.localRouter) HasAdmin
      (registered Auth.plainJwt Auth.shortConfig BatchDelete.localRouter)
      (politeRun Auth.plainJwt Auth.shortConfig) := by
  refine administrator_kept _ _ _ _ ⟨administrator 1 "root", List.mem_singleton_self _, rfl⟩ rfl
    (allSteps_append.mpr ⟨⟨trivial, trivial, trivial⟩, allSteps_append.mpr ⟨?_, ?_⟩⟩)
  · exact orderly_changeRole (fun _ => rfl) (by decide) true rfl
      ⟨administrator 1 "root", List.mem_cons_self, rfl, rfl⟩
  · obtain ⟨requests, hfirst, hlength⟩ := changeRole_users Auth.plainJwt Auth.shortConfig
      BatchDelete.localRouter (s := [.createUser guest, .login 0 1 3 5].foldl
        (step Auth.plainJwt Auth.shortConfig BatchDelete.localRouter)
        (registered Auth.plainJwt Auth.shortConfig BatchDelete.localRouter))
      (fun _ => rfl) 1 2 (by decide) true _ twoAdmins.users rfl rfl (by decide +kernel)
    replace hfirst :
        (changeRole 0 (bearer Auth.plainJwt Auth.shortConfig 1) 2 true).foldl _ _ = _ :=
      hfirst
    replace hlength : requests.length = 1 := hlength
    rw [hfirst, ← hlength]
    exact orderly_changeRole (s := State.mk _ _ _ _ _ requests) (fun _ => rfl) (by decide) false rfl
      ⟨administrator 1 "root", List.mem_cons_self, rfl, rfl⟩

variable (jwt config) in
/-- One administrator takes the role from the other, who does the same afterwards with the
token from before. -/
def demotingRun : List (Action Unit) :=
  [.login 0 1 3 5, .login 0 2 4 6] ++ changeRole 0 (bearer jwt config 1) 2 false ++
    changeRole 1 (bearer jwt config 2) 1 false

def demoted (u : UserRow Unit) : UserRow Unit := { u with isAdmin := false }

def oneDemoted : UserRows Unit :=
  ⟨[administrator 1 "root", demoted (administrator 2 "toor")], by decide⟩

def bothDemoted : UserRows Unit :=
  ⟨[demoted (administrator 1 "root"), demoted (administrator 2 "toor")], by decide⟩

variable (jwt config router) in
theorem demotingRun_users : ((demotingRun jwt config).foldl (step jwt config router)
    twoAdmins).users = bothDemoted := by
  obtain ⟨issued, hlogin⟩ : ∃ issued, [.login 0 1 3 5, .login 0 2 4 6].foldl
      (step jwt config router) twoAdmins = { twoAdmins with issued } := ⟨_, rfl⟩
  obtain ⟨requests, hfirst, hlength⟩ := changeRole_users jwt config router
    (s := { twoAdmins with issued }) (fun _ => rfl) 1 2 (by decide) false
    twoAdmins.users oneDemoted rfl rfl (by decide +kernel)
  obtain ⟨_, hsecond, -⟩ := changeRole_users jwt config router
    (s := { twoAdmins with issued, users := oneDemoted, requests }) (fun _ => rfl) 2 1
    (by decide) false oneDemoted bothDemoted rfl rfl (by decide +kernel)
  rw [show State.requests { twoAdmins with issued, users := oneDemoted, requests } = requests
    from rfl, show requests.length = 1 from hlength] at hsecond
  replace hfirst : (changeRole 0 (bearer jwt config 1) 2 false).foldl (step jwt config router)
      { twoAdmins with issued } = _ := hfirst
  rw [demotingRun, List.foldl_append, List.foldl_append, hlogin, hfirst]
  exact congrArg State.users hsecond

/-- Neither demotes himself; the second has lost the role when he takes it from the first. -/
theorem administrator_not_kept :
    HasAdmin twoAdmins ∧
    ¬ AllStates (step Auth.plainJwt Auth.shortConfig BatchDelete.localRouter) HasAdmin twoAdmins
      (demotingRun Auth.plainJwt Auth.shortConfig) := by
  refine ⟨⟨_, List.mem_cons_self, rfl⟩, fun h => ?_⟩
  obtain ⟨u, hu, hadmin⟩ := h.last
  rw [demotingRun_users] at hu
  revert u
  decide

end PicHost.Admin
