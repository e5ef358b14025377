import PicHost.Api.PartialUpdates
import PicHost.Lib.Run

/-!
# What updates leave of the other fields

Every field keeps the value it was last given as long as the updates that write back what they
have read are not overtaken. Profile and password updates take the other fields from the row.
-/

namespace PicHost.PartialUpdates

open KeyedTable LabelledRun PartialUpdate Serialised
open Admin (UserRow UserRows UpdateUserBody UserFields mergeUserFields setFields)
open Registration (internalError)

variable {J : Type}

/-- Every field of every row has the value that the last request which named it gave it. -/
structure FieldsKept (s : State J) : Prop where
  users : Kept UserRow.id userColumn s.userHistory s.users.rows
  configs : Kept UserStorageConfig.id configColumn s.configHistory s.configs.rows
  categories : Kept Category.id categoryColumn s.categoryHistory s.categories.rows

/-- A request that is about to write back what it has read, with the fields it names, finds the
others still as it has read them. -/
def FreshAt (inp : Input) (s : State J) (r : Request J) : Prop :=
  match r.call, r.stage with
  | .updateUser _ userId body, .executeUserUpdate existing passwordHash =>
    (Admin.executeUserUpdate inp.dbUp userId (mergeUserFields body existing) passwordHash
      s.users).isSome = true →
      ∀ u ∈ s.users.rows, u.id = userId → ∀ f, UpdateUserBody.named body passwordHash f = none →
        userColumn (setFields existing none u) f = userColumn u f
  | .updateConfig user id req, .updateConfig existing encryptedToken =>
    (updateConfig inp user id req existing encryptedToken s.configs).isSome = true →
      ∀ c ∈ s.configs.rows, c.id = id → ∀ f, req.named encryptedToken f = none →
        configColumn existing f = configColumn c f
  | .updateCategory user id req, .updateCategory existing =>
    (updateCategory inp user id req existing s.categories).isSome = true →
      ∀ c ∈ s.categories.rows, c.id = id → req.name = none → existing.name = c.name
  | _, _ => True

def Fresh (s : State J) : Action J → Prop
  | .advance i inp => ∀ r ∈ s.requests[i]?, FreshAt inp s r
  | _ => True

/-- There is a hash, or an encrypted token, to write exactly when one was sent. -/
def Prepared (r : Request J) : Prop :=
  match r.call, r.stage with
  | .updateUser _ _ body, .executeUserUpdate _ passwordHash =>
    passwordHash.isSome = body.password.isSome
  | .updateConfig _ _ req, .updateConfig _ encryptedToken =>
    encryptedToken.isSome = req.token.isSome
  | _, _ => True

def AllPrepared (s : State J) : Prop := ∀ r ∈ s.requests, Prepared r

variable {config : Config} {s : State J} {inp : Input} {i : ℕ} {r : Request J}

theorem fieldsKept_start : FieldsKept (start : State J) where
  users _ hr := absurd hr List.not_mem_nil
  configs _ hr := absurd hr List.not_mem_nil
  categories _ hr := absurd hr List.not_mem_nil

/-! What is written besides the texts of the body. -/

theorem isSome_of_hashPassword {hashed password passwordHash : Option String}
    (h : Admin.hashPasswordIfProvided hashed password = .ok passwordHash) :
    passwordHash.isSome = password.isSome := by
  unfold Admin.hashPasswordIfProvided at h
  split at h
  · cases h
    rfl
  · split at h
    · cases h
    · split at h
      · cases h
        rfl
      · cases h

theorem prepared_updateUser (currentUser : AuthUser) (userId : Uuid) (body : UpdateUserBody J)
    (users : UserRows J) :
    Prepared ⟨.updateUser currentUser userId body,
      updateUser inp currentUser userId body users⟩ := by
  unfold updateUser
  split
  · trivial
  · cases Admin.fetchUserFields inp.dbUp userId users with
    | error e => trivial
    | ok existing =>
      dsimp only
      cases hhash : Admin.hashPasswordIfProvided inp.hashed body.password with
      | error e => trivial
      | ok passwordHash => exact isSome_of_hashPassword hhash

theorem prepared_encryptToken (user : AuthUser) (id : Uuid) (req : UpdateConfigRequest)
    (existing : UserStorageConfig) :
    Prepared (J := J) ⟨.updateConfig user id req, encryptToken config inp req existing⟩ := by
  unfold encryptToken
  cases htoken : req.token with
  | none => exact (congrArg Option.isSome htoken).symm
  | some token =>
    cases config.tokenEncryptionKey with
    | none => trivial
    | some key =>
      cases inp.encrypted with
      | none => trivial
      | some encrypted => exact (congrArg Option.isSome htoken).symm

theorem prepared_fetchConfig (user : AuthUser) (id : Uuid) (req : UpdateConfigRequest)
    (configs : ConfigTable) :
    Prepared (J := J) ⟨.updateConfig user id req, fetchConfig config inp user id req configs⟩ := by
  unfold fetchConfig
  split
  · cases (configs.select (ownConfig user id)).head? with
    | none => trivial
    | some existing =>
      dsimp only
      split
      · trivial
      · exact prepared_encryptToken user id req existing
  · trivial

theorem prepared_checkNameUnique (user : AuthUser) (id : Uuid) (req : UpdateConfigRequest)
    (existing : UserStorageConfig) (configs : ConfigTable) :
    Prepared (J := J)
      ⟨.updateConfig user id req, checkNameUnique config inp user req existing configs⟩ := by
  unfold checkNameUnique
  split
  · split
    · trivial
    · exact prepared_encryptToken user id req existing
  · trivial

theorem allPrepared_setStage (h : AllPrepared s) {stage : Stage J}
    (hr : Prepared { r with stage }) : AllPrepared (s.setStage i r stage) := by
  intro r' hr'
  rcases List.mem_or_eq_of_mem_set hr' with hr' | rfl
  · exact h r' hr'
  · exact hr

theorem allPrepared_advance (h : AllPrepared s) : AllPrepared (advance config inp i r s) := by
  obtain ⟨call, stage⟩ := r
  cases call with
  | updateUser currentUser userId body =>
    cases stage with
    | received => exact allPrepared_setStage h (prepared_updateUser currentUser userId body s.users)
    | executeUserUpdate existing passwordHash =>
      show AllPrepared (executeUserUpdate inp i _ userId body existing passwordHash s)
      unfold executeUserUpdate
      dsimp only
      split <;> exact allPrepared_setStage h trivial
    | _ => exact h
  | updateMyProfile user payload =>
    show AllPrepared (advanceProfile config inp i _ user payload s)
    unfold advanceProfile
    split
    · exact allPrepared_setStage h trivial
    · split <;> exact allPrepared_setStage h trivial
    · split <;> exact allPrepared_setStage h trivial
    · exact allPrepared_setStage h trivial
    · exact h
  | changeMyPassword user payload =>
    show AllPrepared (advancePassword inp i _ user payload s)
    unfold advancePassword
    split
    · exact allPrepared_setStage h trivial
    · split <;> exact allPrepared_setStage h trivial
    · exact h
  | updateConfig user id req =>
    cases stage with
    | received => exact allPrepared_setStage h (prepared_fetchConfig user id req s.configs)
    | checkNameUnique existing =>
      exact allPrepared_setStage h (prepared_checkNameUnique user id req existing s.configs)
    | updateConfig existing encryptedToken =>
      show AllPrepared (advanceConfig config inp i _ user id req s)
      unfold advanceConfig
      dsimp only
      split <;> exact allPrepared_setStage h trivial
    | _ => exact h
  | updateCategory user id req =>
    show AllPrepared (advanceCategory inp i _ user id req s)
    unfold advanceCategory
    split
    · exact allPrepared_setStage h trivial
    · split <;> exact allPrepared_setStage h trivial
    · exact h

theorem prepared_received (call : Call J) : Prepared ⟨call, .received⟩ := by
  cases call <;> trivial

theorem allPrepared_step (h : AllPrepared s) (a : Action J) : AllPrepared (step config s a) := by
  unfold step
  split
  · split <;> exact h
  · exact h
  · split <;> exact h
  · exact h
  · split <;> exact h
  · exact h
  · intro r hr
    rcases List.mem_append.mp hr with hr | hr
    · exact h r hr
    · rw [List.mem_singleton.mp hr]
      exact prepared_received _
  · split
    · exact allPrepared_advance h
    · exact h

/-! What the statements do to the fields. -/

/-- What is there exactly when it was sent need not be asked whether it was sent. -/
theorem bind_of_isSome {α β : Type} {sent : Option α} {written : Option β}
    (h : written.isSome = sent.isSome) : (sent.bind fun _ => written) = written := by
  cases sent with
  | none =>
    rw [Option.isSome_none, Option.isSome_eq_false_iff, Option.isNone_iff_eq_none] at h
    exact h.symm
  | some sent => rfl

theorem userColumn_named (body : UpdateUserBody J) (existing : UserFields J)
    {passwordHash : Option String} (hsent : passwordHash.isSome = body.password.isSome)
    (u : UserRow J) (f : UserField) (v : UserField.Value J f)
    (h : UpdateUserBody.named body passwordHash f = some v) :
    userColumn (setFields (mergeUserFields body existing) passwordHash u) f = v := by
  cases f with
  | username => exact (congrArg (·.getD existing.username) h :)
  | email =>
    obtain ⟨email, hemail, rfl⟩ := Option.map_eq_some_iff.mp h
    show body.email.or existing.email = some email
    rw [hemail, Option.some_or]
  | passwordHash =>
    have hhash := (bind_of_isSome hsent).symm.trans h
    exact (congrArg (·.getD u.passwordHash) hhash :)
  | isAdmin => exact (congrArg (·.getD existing.isAdmin) h :)
  | storageBackend => exact (congrArg (·.getD existing.storageBackend) h :)
  | storageQuota =>
    obtain ⟨quota, hquota, rfl⟩ := Option.map_eq_some_iff.mp h
    show (if body.storageQuota = some 0 then none else body.storageQuota.or existing.storageQuota) =
      if quota = 0 then none else some quota
    rw [hquota, Option.some_or]
    simp only [Option.some.injEq]
  | watermarkConfig => exact (congrArg (·.getD existing.watermarkConfig) h :)

/-- A field that is not named is written as it was read. -/
theorem userColumn_unnamed (body : UpdateUserBody J) (existing : UserFields J)
    {passwordHash : Option String} (hsent : passwordHash.isSome = body.password.isSome)
    (u : UserRow J) (f : UserField)
    (h : UpdateUserBody.named body passwordHash f = none) :
    userColumn (setFields (mergeUserFields body existing) passwordHash u) f =
      userColumn (setFields existing none u) f := by
  cases f with
  | username => exact (congrArg (·.getD existing.username) h :)
  | email =>
    show body.email.or existing.email = existing.email
    rw [Option.map_eq_none_iff.mp h, Option.none_or]
  | passwordHash =>
    have hhash := (bind_of_isSome hsent).symm.trans h
    exact (congrArg (·.getD u.passwordHash) hhash :)
  | isAdmin => exact (congrArg (·.getD existing.isAdmin) h :)
  | storageBackend => exact (congrArg (·.getD existing.storageBackend) h :)
  | storageQuota =>
    show (if body.storageQuota = some 0 then none else body.storageQuota.or existing.storageQuota) =
      existing.storageQuota
    rw [Option.map_eq_none_iff.mp h, Option.none_or, if_neg (Option.some_ne_none 0).symm]
  | watermarkConfig => exact (congrArg (·.getD existing.watermarkConfig) h :)

theorem userColumn_setProfile (payload : UpdateProfileRequest J) (u : UserRow J)
    (f : UserField) :
    userColumn (setProfile payload u) f = (payload.named f).getD (userColumn u f) := by
  cases f with
  | email =>
    show (if payload.email.isSome then payload.email else u.email) =
      (payload.email.map some).getD u.email
    cases payload.email <;> rfl
  | username | passwordHash | isAdmin | storageBackend | storageQuota | watermarkConfig => rfl

theorem userColumn_passwordHash (newHash : String) (u : UserRow J) (f : UserField) :
    userColumn { u with passwordHash := newHash } f =
      (passwordNamed newHash f).getD (userColumn u f) := by
  cases f <;> rfl

theorem field_setMember (o : Object) (key : String) (value : Option String) (key' : String) :
    (setMember o key value).field key' =
      if key' = key then (value.map fun text => some (.str text)).getD (o.field key')
      else o.field key' := by
  cases value with
  | none => simp [setMember]
  | some text =>
    rw [setMember, Object.field_set]
    rfl

theorem field_mergeConfigDetail (detail : Object) (req : UpdateConfigRequest)
    {encryptedToken : Option String} (hsent : encryptedToken.isSome = req.token.isSome)
    (key : String) :
    (mergeConfigDetail detail req encryptedToken).field key =
      ((req.member encryptedToken key).map fun text => some (.str text)).getD
        (detail.field key) := by
  simp only [mergeConfigDetail, field_setMember, UpdateConfigRequest.member, bind_of_isSome hsent]
  -- the four keys differ, so at most one of the assignments is to `key`
  by_cases hrepo : key = "repo"
  · subst hrepo
    simp
  · by_cases hbranch : key = "branch"
    · subst hbranch
      simp
    · by_cases hprefix : key = "path_prefix"
      · subst hprefix
        simp
      · by_cases htoken : key = "token_encrypted"
        · subst htoken
          simp
        · simp [hrepo, hbranch, hprefix, htoken]

theorem configColumn_setConfig (now : Instant) (req : UpdateConfigRequest)
    {encryptedToken : Option String} (hsent : encryptedToken.isSome = req.token.isSome)
    (existing c : UserStorageConfig) (f : ConfigField) :
    configColumn (setConfig now req encryptedToken existing c) f =
      (req.named encryptedToken f).getD (configColumn existing f) := by
  cases f with
  | name => rfl
  | member key => exact field_mergeConfigDetail existing.config req hsent key

/-! What a request makes of its row. -/

theorem kept_users_iff (h : FieldsKept s) {users : UserRows J} {userId : Uuid}
    {p : Patch (UserField.Value J)} {g : UserRow J → UserRow J} (hid : ∀ u, (g u).id = u.id)
    (hnamed : ∀ u f v, p f = some v → userColumn (g u) f = v)
    (hrows : users.rows = s.users.rows.map fun u => if u.id == userId then g u else u) :
    Kept UserRow.id userColumn (s.userHistory.name userId p) users.rows ↔
      ∀ u ∈ s.users.rows, u.id = userId → ∀ f, p f = none →
        userColumn (g u) f = userColumn u f := by
  rw [hrows]
  exact kept_name_iff h.users hid (fun _ _ => beq_iff_eq) hnamed

/-- An update that takes each field it does not name from the row itself. -/
theorem kept_users_of_getD (h : FieldsKept s) {users : UserRows J} {userId : Uuid}
    {p : Patch (UserField.Value J)} {g : UserRow J → UserRow J} (hid : ∀ u, (g u).id = u.id)
    (hg : ∀ u f, userColumn (g u) f = (p f).getD (userColumn u f))
    (hrows : users.rows = s.users.rows.map fun u => if u.id == userId then g u else u) :
    Kept UserRow.id userColumn (s.userHistory.name userId p) users.rows := by
  refine (kept_users_iff h hid (fun u f v hv => ?_) hrows).mpr fun u _ _ f hf => ?_
  · rw [hg, hv]
    rfl
  · rw [hg, hf]
    rfl

theorem fieldsKept_setStage (h : FieldsKept s) (stage : Stage J) :
    FieldsKept (s.setStage i r stage) :=
  ⟨h.users, h.configs, h.categories⟩

theorem fieldsKept_executeUserUpdate_iff (h : FieldsKept s) (userId : Uuid)
    (body : UpdateUserBody J) (existing : UserFields J) {passwordHash : Option String}
    (hsent : passwordHash.isSome = body.password.isSome) :
    FieldsKept (executeUserUpdate inp i r userId body existing passwordHash s) ↔
      ((Admin.executeUserUpdate inp.dbUp userId (mergeUserFields body existing) passwordHash
        s.users).isSome = true →
        ∀ u ∈ s.users.rows, u.id = userId → ∀ f, UpdateUserBody.named body passwordHash f = none →
          userColumn (setFields existing none u) f = userColumn u f) := by
  unfold executeUserUpdate
  dsimp only
  cases hexec : Admin.executeUserUpdate inp.dbUp userId (mergeUserFields body existing)
    passwordHash s.users with
  | none => exact iff_of_true (fieldsKept_setStage h _) fun hsome => by cases hsome
  | some users =>
    have hid : ∀ u : UserRow J,
        (setFields (mergeUserFields body existing) passwordHash u).id = u.id := fun _ => rfl
    have hkept := kept_users_iff h hid (userColumn_named body existing hsent)
      (Admin.rows_executeUserUpdate hexec)
    constructor
    · intro hall _ u hu hid f hf
      rw [← userColumn_unnamed body existing hsent u f hf]
      exact hkept.mp hall.users u hu hid f hf
    · intro hfresh
      refine ⟨hkept.mpr fun u hu hid f hf => ?_, h.configs, h.categories⟩
      rw [userColumn_unnamed body existing hsent u f hf]
      exact hfresh rfl u hu hid f hf

theorem fieldsKept_advanceProfile (h : FieldsKept s) (user : AuthUser)
    (payload : UpdateProfileRequest J) :
    FieldsKept (advanceProfile config inp i r user payload s) := by
  unfold advanceProfile
  split
  · exact fieldsKept_setStage h _
  · split <;> exact fieldsKept_setStage h _
  · split
    · exact fieldsKept_setStage h _
    · rename_i users hupdate
      have hid : ∀ u : UserRow J, (setProfile payload u).id = u.id := fun _ => rfl
      refine ⟨kept_users_of_getD h hid (userColumn_setProfile payload) ?_, h.configs,
        h.categories⟩
      unfold applyProfileUpdate at hupdate
      split at hupdate
      · split at hupdate
        · rename_i users' htry
          cases hupdate
          exact Table.rows_of_tryUpdate htry
        · cases hupdate
      · cases hupdate
  · exact fieldsKept_setStage h _
  · exact h

theorem fieldsKept_advancePassword (h : FieldsKept s) (user : AuthUser)
    (payload : ChangePasswordRequest) :
    FieldsKept (advancePassword inp i r user payload s) := by
  unfold advancePassword
  split
  · exact fieldsKept_setStage h _
  · rename_i newHash _
    have hid : ∀ u : UserRow J, { u with passwordHash := newHash }.id = u.id := fun _ => rfl
    split
    · exact ⟨kept_users_of_getD h hid (userColumn_passwordHash newHash) rfl, h.configs,
        h.categories⟩
    · exact fieldsKept_setStage h _
  · exact h

theorem rows_updateConfig {user : AuthUser} {id : Uuid} {req : UpdateConfigRequest}
    {existing row : UserStorageConfig} {encryptedToken : Option String}
    {configs configs' : ConfigTable}
    (h : updateConfig inp user id req existing encryptedToken configs = some (row, configs')) :
    (configs'.rows = configs.rows.map fun c =>
      if ownConfig user id c then setConfig inp.now req encryptedToken existing c else c) ∧
      ∃ c ∈ configs.rows, ownConfig user id c = true :=
  Table.of_updateReturning (updateConfig_eq_some.mp h).2

theorem rows_updateCategory {user : AuthUser} {id : Uuid} {req : UpdateCategoryRequest}
    {existing row : Category} {categories categories' : Categories}
    (h : updateCategory inp user id req existing categories = some (row, categories')) :
    (categories'.rows = categories.rows.map fun c =>
      if ownCategory user id c then { c with name := req.name.getD existing.name } else c) ∧
      ∃ c ∈ categories.rows, ownCategory user id c = true :=
  Table.of_updateReturning (updateCategory_eq_some.mp h).2

theorem kept_updateConfig_iff (h : FieldsKept s) {user : AuthUser} {id : Uuid}
    {req : UpdateConfigRequest} {existing row : UserStorageConfig}
    {encryptedToken : Option String} (hsent : encryptedToken.isSome = req.token.isSome)
    {configs : ConfigTable}
    (hupdate : updateConfig inp user id req existing encryptedToken s.configs =
      some (row, configs)) :
    Kept UserStorageConfig.id configColumn (s.configHistory.name id (req.named encryptedToken))
        configs.rows ↔
      ∀ c ∈ s.configs.rows, c.id = id → ∀ f, req.named encryptedToken f = none →
        configColumn existing f = configColumn c f := by
  obtain ⟨hrows, hown⟩ := rows_updateConfig hupdate
  have hid : ∀ c, (setConfig inp.now req encryptedToken existing c).id = c.id := fun _ => rfl
  have hhit := hit_iff_of_unique (fun c hc d hd => ConfigTable.eq_of_id hc hd)
    (fun _ => ownConfig_id) hown
  have hcolumn := configColumn_setConfig inp.now req hsent existing
  have hnamed : ∀ c f v, req.named encryptedToken f = some v →
      configColumn (setConfig inp.now req encryptedToken existing c) f = v := by
    intro c f v hv
    rw [hcolumn, hv]
    rfl
  rw [hrows, kept_name_iff h.configs hid hhit hnamed]
  constructor
  · intro hsame c hc hci f hf
    have hwritten := hsame c hc hci f hf
    rw [hcolumn, hf] at hwritten
    exact hwritten
  · intro hsame c hc hci f hf
    rw [hcolumn, hf]
    exact hsame c hc hci f hf

theorem kept_updateCategory_iff (h : FieldsKept s) {user : AuthUser} {id : Uuid}
    {req : UpdateCategoryRequest} {existing row : Category} {categories : Categories}
    (hupdate : updateCategory inp user id req existing s.categories = some (row, categories)) :
    Kept Category.id categoryColumn (s.categoryHistory.name id req.named) categories.rows ↔
      ∀ c ∈ s.categories.rows, c.id = id → req.name = none → existing.name = c.name := by
  obtain ⟨hrows, hown⟩ := rows_updateCategory hupdate
  have hid : ∀ c : Category, { c with name := req.name.getD existing.name }.id = c.id :=
    fun _ => rfl
  have hhit := hit_iff_of_unique Categories.eq_of_id (fun _ => ownCategory_id) hown
  have hnamed : ∀ (c : Category) f v, req.named f = some v →
      categoryColumn { c with name := req.name.getD existing.name } f = v := by
    intro c f v hv
    cases f
    exact (congrArg (·.getD existing.name) hv :)
  rw [hrows, kept_name_iff h.categories hid hhit hnamed]
  constructor
  · intro hsame c hc hci hname
    have hwritten : req.name.getD existing.name = c.name := hsame c hc hci .name hname
    rwa [hname] at hwritten
  · intro hsame c hc hci f hf
    cases f
    show req.name.getD existing.name = c.name
    rw [show req.name = none from hf]
    exact hsame c hc hci hf

/-! One step of a request, and of the system. -/

theorem fieldsKept_advanceConfig_iff (h : FieldsKept s) (hprepared : Prepared r)
    {user : AuthUser} {id : Uuid} {req : UpdateConfigRequest}
    (hcall : r.call = .updateConfig user id req) :
    FieldsKept (advanceConfig config inp i r user id req s) ↔ FreshAt inp s r := by
  unfold advanceConfig FreshAt
  unfold Prepared at hprepared
  rw [hcall] at hprepared ⊢
  cases hstage : r.stage with
  | updateConfig existing encryptedToken =>
    rw [hstage] at hprepared
    dsimp only
    cases hupdate : updateConfig inp user id req existing encryptedToken s.configs with
    | none => exact iff_of_true (fieldsKept_setStage h _) fun hsome => by cases hsome
    | some result =>
      have hkept := kept_updateConfig_iff h hprepared hupdate
      exact ⟨fun hall _ => hkept.mp hall.configs,
        fun hfresh => ⟨h.users, hkept.mpr (hfresh rfl), h.categories⟩⟩
  | received | checkNameUnique => exact iff_of_true (fieldsKept_setStage h _) trivial
  | executeUserUpdate | ensureEmailAvailable | applyProfileUpdate | fetchProfileRow
  | updatePasswordHash | updateCategory | returned => exact iff_of_true h trivial

theorem fieldsKept_advanceCategory_iff (h : FieldsKept s) {user : AuthUser} {id : Uuid}
    {req : UpdateCategoryRequest} (hcall : r.call = .updateCategory user id req) :
    FieldsKept (advanceCategory inp i r user id req s) ↔ FreshAt inp s r := by
  unfold advanceCategory FreshAt
  rw [hcall]
  cases hstage : r.stage with
  | updateCategory existing =>
    dsimp only
    cases hupdate : updateCategory inp user id req existing s.categories with
    | none => exact iff_of_true (fieldsKept_setStage h _) fun hsome => by cases hsome
    | some result =>
      have hkept := kept_updateCategory_iff h hupdate
      exact ⟨fun hall _ => hkept.mp hall.categories,
        fun hfresh => ⟨h.users, h.configs, hkept.mpr (hfresh rfl)⟩⟩
  | received => exact iff_of_true (fieldsKept_setStage h _) trivial
  | executeUserUpdate | ensureEmailAvailable | applyProfileUpdate | fetchProfileRow
  | updatePasswordHash | checkNameUnique | updateConfig | returned => exact iff_of_true h trivial

theorem fieldsKept_advance_iff (h : FieldsKept s) (hprepared : Prepared r) :
    FieldsKept (advance config inp i r s) ↔ FreshAt inp s r := by
  unfold advance
  cases hcall : r.call with
  | updateUser currentUser userId body =>
    unfold FreshAt
    unfold Prepared at hprepared
    rw [hcall] at hprepared ⊢
    cases hstage : r.stage with
    | executeUserUpdate existing passwordHash =>
      rw [hstage] at hprepared
      exact fieldsKept_executeUserUpdate_iff h userId body existing hprepared
    | received => exact iff_of_true (fieldsKept_setStage h _) trivial
    | ensureEmailAvailable | applyProfileUpdate | fetchProfileRow | updatePasswordHash
    | checkNameUnique | updateConfig | updateCategory | returned => exact iff_of_true h trivial
  | updateMyProfile user payload =>
    apply iff_of_true (fieldsKept_advanceProfile h user payload)
    unfold FreshAt
    rw [hcall]
    trivial
  | changeMyPassword user payload =>
    apply iff_of_true (fieldsKept_advancePassword h user payload)
    unfold FreshAt
    rw [hcall]
    trivial
  | updateConfig user id req => exact fieldsKept_advanceConfig_iff h hprepared hcall
  | updateCategory user id req => exact fieldsKept_advanceCategory_iff h hcall

theorem kept_insert {α κ F : Type} {V : F → Type} {key : α → κ} {clash : κ → κ → Prop}
    [DecidableRel clash] {id : α → Uuid} {column : α → ∀ f, V f} {history : History Uuid V}
    {t t' : Table key clash} {a : α} (h : Kept id column history t.rows)
    (hclash : ∀ b, id b = id a → clash (key b) (key a)) (hinsert : t.insert a = some t') :
    Kept id column (history.create (id a) (column a)) t'.rows := by
  have hnew : ∀ b ∈ t.rows, id b ≠ id a := fun b hb heq =>
    Table.not_clash_of_insert hinsert b hb (hclash b heq)
  rw [Table.rows_of_insert hinsert]
  exact h.create hnew

theorem fieldsKept_step_iff (hprepared : AllPrepared s) (h : FieldsKept s) (a : Action J) :
    FieldsKept (step config s a) ↔ Fresh s a := by
  cases a with
  | createUser user =>
    refine iff_of_true ?_ trivial
    simp only [step]
    split
    · rename_i users hinsert
      exact ⟨kept_insert h.users (fun _ heq => .inl heq) hinsert, h.configs, h.categories⟩
    · exact h
  | deleteUser userId =>
    exact iff_of_true ⟨h.users.filter _, h.configs.filter _, h.categories.filter _⟩ trivial
  | createConfig c =>
    refine iff_of_true ?_ trivial
    simp only [step]
    split
    · rename_i configs hinsert
      exact ⟨h.users, kept_insert h.configs (fun _ heq => .inl heq) hinsert, h.categories⟩
    · exact h
  | deleteConfig id => exact iff_of_true ⟨h.users, h.configs.filter _, h.categories⟩ trivial
  | createCategory c =>
    refine iff_of_true ?_ trivial
    simp only [step]
    split
    · rename_i categories hinsert
      exact ⟨h.users, h.configs, kept_insert h.categories (fun _ heq => .inl heq) hinsert⟩
    · exact h
  | deleteCategory id => exact iff_of_true ⟨h.users, h.configs, h.categories.filter _⟩ trivial
  | submit call => exact iff_of_true ⟨h.users, h.configs, h.categories⟩ trivial
  | advance i inp =>
    simp only [step, Fresh]
    cases hr : s.requests[i]? with
    | none => exact iff_of_true h fun r hr => absurd hr (Option.not_mem_none r)
    | some r =>
      have hprep : Prepared r := hprepared r (List.mem_of_getElem? hr)
      refine (fieldsKept_advance_iff h hprep).trans ?_
      refine ⟨fun hfresh r' hr' => ?_, fun hfresh => hfresh r rfl⟩
      rwa [← Option.mem_some_iff.mp hr']

/-- Every field keeps the value it was last given, throughout a run, exactly when every update
that writes back what its request has read finds the fields it does not name as read. -/
theorem partial_updates_keep_iff (config : Config) (as : List (Action J)) :
    AllStates (step config) FieldsKept start as ↔ AllSteps (step config) Fresh start as :=
  allStates_iff_allSteps (J := AllPrepared) (P := FieldsKept) (fun _ a h => allPrepared_step h a)
    (fun _ a hprepared h => fieldsKept_step_iff hprepared h a)
    (fun _ hr => absurd hr List.not_mem_nil) fieldsKept_start as

/-- Two administrators change one user: the quota, and whether the user is an administrator. The
first has read the row before the second writes it. -/
def demotionRun : List (Action Unit) :=
  let first : AuthUser := { id := 1, isAdmin := true, storageQuota := none }
  let second : AuthUser := { id := 2, isAdmin := true, storageQuota := none }
  let user : UserRow Unit :=
    { id := 3, username := "ann", email := none, passwordHash := "h", isAdmin := true,
      storageBackend := "local", storageQuota := none, watermarkConfig := none }
  let inp : Input :=
    { dbUp := true, now := 0, hashed := none, verified := none, encrypted := none, error := "" }
  [.createUser user,
    .submit (.updateUser first 3 { storageQuota := some 10 }),
    .submit (.updateUser second 3 { isAdmin := some false }),
    .advance 0 inp, .advance 1 inp, .advance 1 inp, .advance 0 inp]

/-- The user is an administrator again. -/
theorem partial_updates_lose : ¬ ∀ (J : Type) (config : Config) (as : List (Action J)),
    AllStates (step config) FieldsKept start as := by
  intro h
  have hkept := (h Unit ⟨["local"], none⟩ demotionRun).last.users
  have hadmin : some false = some true :=
    hkept ⟨3, "ann", none, "h", true, "local", some 10, none⟩ (by decide +kernel) .isAdmin
  cases hadmin

end PicHost.PartialUpdates
