import PicHost.Api.FieldsKept
import PicHost.Api.StorageConfigs
import PicHost.Core.Crypto
import PicHost.Lib.Base64
import PicHost.Lib.Run
import Mathlib.Data.List.TakeWhile

/-!
# Whether accepted configurations can be used

The requests of the configuration API one after the other, and what the routers of the API and of
the worker make of the rows. Both read the encryption key from the one configuration file.
-/

namespace PicHost.UsableConfigs

open KeyedTable LabelledRun Serialised StorageConfigs
open PartialUpdates (UpdateConfigRequest ownConfig ownConfig_id)

def encryptTokenFromConfig (p : Primitives) (nonce : Nonce) (token encryptionKey : String) :
    Except CryptoError String :=
  match p.decodeKey encryptionKey with
  | .error e => .error e
  | .ok key => p.encryptToken nonce token key

def zeroKey : Key := ⟨List.replicate 32 0, List.length_replicate⟩

/-- `resolve_encryption_key` of the API. -/
def apiKey (p : Primitives) (config : Config) : Except ApiError Key :=
  match config.tokenEncryptionKey with
  | none => .ok zeroKey
  | some encoded =>
    match p.decodeKey encoded with
    | .ok key => .ok key
    -- the worker's function of this name goes on with the zero key instead
    | .error _ => .error { status := 500, key := "upload.encryption_key_invalid" }

/-- `resolve_encryption_key` of the worker. -/
def workerKey (p : Primitives) (config : Config) : Key :=
  (config.tokenEncryptionKey.bind fun encoded => (p.decodeKey encoded).toOption).getD zeroKey

def gitDeps (p : Primitives) (parseError : Object → String) (key : Key) : GitDeps where
  decryptToken encoded := (p.decryptToken encoded key).mapError CryptoError.text
  parseError := parseError

/-- A path `owner/repo`. -/
def IsPath (repo : String) : Prop := '/' ∈ repo.toList

/-- The provider confirms only such paths. -/
def ConfirmsPaths (repoReply : String → String → RepoReply) : Prop :=
  ∀ provider token repo, verifyRepoAccess repoReply provider token repo = .ok () → IsPath repo

/-- One request with what the outside contributes to each of its statements. -/
structure Action where
  call : Call
  inps : List Input
  nonce : Nonce
  images : ImageTable
  confirmsPaths : ∀ inp ∈ inps, ConfirmsPaths inp.repoReply

/-- The token that a request encrypts. -/
def token : Call → Option String
  | .createConfig _ req => some req.token
  | .updateConfig _ _ req => req.token
  | .deleteConfig _ _ => none
  | .setDefault _ _ => none

section Requests

variable (p : Primitives) (config : Config)

/-- The answer of the cipher to a request. -/
def encrypted (nonce : Nonce) (call : Call) : Option String := do
  let token ← token call
  let encryptionKey ← config.tokenEncryptionKey
  (encryptTokenFromConfig p nonce token encryptionKey).toOption

/-- The request alone. -/
def serve (a : Action) (configs : ConfigTable) : Stage × ConfigTable :=
  a.inps.foldl
    (fun s inp => StorageConfigs.advance config
      { inp with encrypted := encrypted p config a.nonce a.call } a.images ⟨a.call, s.1⟩ s.2)
    (.received, configs)

end Requests

/-- What successful requests have last given for a configuration. -/
structure Given where
  token : String
  repo : String
  branch : String
deriving DecidableEq

def Given.merge (g : Given) (req : UpdateConfigRequest) : Given where
  token := req.token.getD g.token
  repo := req.repo.getD g.repo
  branch := req.branch.getD g.branch

structure State where
  configs : ConfigTable
  given : Uuid → Option Given

/-- The row of the answer to a successful creation or update. -/
def success (call : Call) (stage : Stage) : Option UserStorageConfig :=
  match call, stage with
  | .createConfig _ _, .returned (.ok (.config row)) => some row
  | .updateConfig _ _ _, .patch (.returned (.ok (.config row))) => some row
  | _, _ => none

def gives (call : Call) (old : Option Given) : Option Given :=
  match call with
  | .createConfig _ req =>
    some { token := req.token, repo := req.repo, branch := req.branch.getD "main" }
  -- what an update leaves out stays as it was given before
  | .updateConfig _ _ req => old.map fun g => g.merge req
  | _ => old

def record (call : Call) (stage : Stage) (given : Uuid → Option Given) : Uuid → Option Given :=
  match success call stage with
  | some row => Function.update given row.id (gives call (given row.id))
  | none => given

def step (p : Primitives) (config : Config) (s : State) (a : Action) : State :=
  let (stage, configs) := serve p config a s.configs
  { configs, given := record a.call stage s.given }

def init : State := ⟨.empty, fun _ => none⟩

/-- `get_or_create_git` answers, whatever the router has memoised, with what was last given. -/
def Usable (deps : GitDeps) (g : Given) (c : UserStorageConfig) : Prop :=
  ∃ owner repo, splitOnceSlash g.repo = some (owner, repo) ∧ ∃ b : GitStorage,
    (∀ router : StorageRouter, (router.getOrCreateGit deps c).1 = .ok (.git b)) ∧
      b.token = g.token ∧ b.owner = owner ∧ b.repo = repo ∧ b.branch = g.branch

def AllUsable (p : Primitives) (config : Config) (parseError : Object → String) (s : State) :
    Prop :=
  ∀ c ∈ s.configs.rows, ∃ g, s.given c.id = some g ∧
    (∃ key, apiKey p config = .ok key ∧ Usable (gitDeps p parseError key) g c) ∧
    Usable (gitDeps p parseError (workerKey p config)) g c

/-- A repository that a successful update names has a slash in it. -/
def NamesPath (p : Primitives) (config : Config) (s : State) (a : Action) : Prop :=
  ∀ user id req, a.call = .updateConfig user id req →
    (success a.call (serve p config a s.configs).1).isSome →
      ∀ repo, req.repo = some repo → IsPath repo

/-! ## One request -/

/-- Every row is one of the earlier ones, but for the default flag. -/
def Kept (old new : ConfigTable) : Prop := ∀ c ∈ new.rows, ∃ d ∈ old.rows, SameContents c d

/-- What an update assigns to the token. -/
def EncryptedAs (answer : Option String) (req : UpdateConfigRequest)
    (encryptedToken : Option String) : Prop :=
  (req.token = none ∧ encryptedToken = none) ∨
    ∃ e, req.token.isSome ∧ answer = some e ∧ encryptedToken = some e

/-- A creation whose repository the provider has confirmed. -/
structure Confirmed (answer : Option String) (req : CreateConfigRequest) (configJson : Object) :
    Prop where
  provider : req.provider ∈ ["github", "gitcode"]
  path : IsPath req.repo
  json : ∃ e, answer = some e ∧ configJson = buildConfigJson req e

/-- The request has not succeeded so far. -/
inductive Waiting (answer : Option String) (configs : ConfigTable) : Call → Stage → Prop
  | received {call} : Waiting answer configs call .received
  | failed {call e} : Waiting answer configs call (.returned (.error e))
  | checked {user req} (h : req.provider ∈ ["github", "gitcode"]) :
    Waiting answer configs (.createConfig user req) .checkNameUnique
  | unique {user req} (h : req.provider ∈ ["github", "gitcode"]) :
    Waiting answer configs (.createConfig user req) .verifyRepoAccess
  | confirmed {user req configJson} (h : Confirmed answer req configJson) :
    Waiting answer configs (.createConfig user req) (.unsetOtherDefaults configJson)
  | ready {user req configJson} (h : Confirmed answer req configJson) :
    Waiting answer configs (.createConfig user req) (.insertConfig configJson)
  | fetched {user id req existing} (h : existing ∈ configs.rows)
      (hown : ownConfig user id existing = true) :
    Waiting answer configs (.updateConfig user id req) (.patch (.checkNameUnique existing))
  | merged {user id req existing encryptedToken} (h : existing ∈ configs.rows)
      (hown : ownConfig user id existing = true) (he : EncryptedAs answer req encryptedToken) :
    Waiting answer configs (.updateConfig user id req)
      (.patch (.updateConfig existing encryptedToken))
  | patchFailed {user id req e} :
    Waiting answer configs (.updateConfig user id req) (.patch (.returned (.error e)))
  | deleting {user id stage} : Waiting answer configs (.deleteConfig user id) stage
  | defaulting {user id stage} : Waiting answer configs (.setDefault user id) stage

/-- Where a request stands, for the rows it began with. -/
inductive Progress (answer : Option String) (old : ConfigTable) (call : Call) :
    Stage × ConfigTable → Prop
  | waiting {stage configs} (hkept : Kept old configs) (h : Waiting answer configs call stage) :
    Progress answer old call (stage, configs)
  | created {user req configJson inp configs configs'} (hcall : call = .createConfig user req)
      (hkept : Kept old configs) (h : Confirmed answer req configJson)
      (hins : configs.insert (newConfig inp user req configJson) = some configs') :
    Progress answer old call
      (.returned (.ok (.config (newConfig inp user req configJson))), configs')
  | updated {user id req existing encryptedToken now configs configs'}
      (hcall : call = .updateConfig user id req) (hkept : Kept old configs)
      (hexisting : existing ∈ configs.rows) (hown : ownConfig user id existing = true)
      (he : EncryptedAs answer req encryptedToken)
      (hrows : configs'.rows = configs.rows.map fun c => if ownConfig user id c then
        PartialUpdates.setConfig now req encryptedToken existing c else c) :
    Progress answer old call
      (.patch (.returned (.ok (.config
        (PartialUpdates.setConfig now req encryptedToken existing existing)))), configs')

theorem SameContents.trans {b c d : UserStorageConfig} (h : SameContents b c)
    (h' : SameContents c d) : SameContents b d :=
  ⟨h.1.trans h'.1, h.2.1.trans h'.2.1, h.2.2.1.trans h'.2.2.1, h.2.2.2.trans h'.2.2.2⟩

theorem Kept.refl (configs : ConfigTable) : Kept configs configs := fun c hc =>
  ⟨c, hc, rfl, rfl, rfl, rfl⟩

theorem Kept.trans {a b c : ConfigTable} (h : Kept a b) (h' : Kept b c) : Kept a c := by
  intro row hrow
  obtain ⟨row', hrow', hsame⟩ := h' row hrow
  obtain ⟨row'', hrow'', hsame'⟩ := h row' hrow'
  exact ⟨row'', hrow'', SameContents.trans hsame hsame'⟩

theorem kept_of_effect {inp : Input} {configs configs' : ConfigTable} {r : Request}
    (h : Effect inp configs r.call r.stage configs') (hnone : written inp configs r = none) :
    Kept configs configs' := by
  intro c hc
  rcases h.contents hc with hold | hwritten
  · exact hold
  · rw [hnone] at hwritten
    cases hwritten

section Statements

variable {config : Config} {inp : Input} {images : ImageTable} {answer : Option String}
  {old configs : ConfigTable} {user : AuthUser}

variable (config) in
theorem prepareConfig_cases {req : CreateConfigRequest} (hanswer : inp.encrypted = answer)
    (hpaths : ConfirmsPaths inp.repoReply) (h : req.provider ∈ ["github", "gitcode"]) :
    (∃ e, prepareConfig config inp req = .returned (.error e)) ∨
      ∃ configJson, Confirmed answer req configJson ∧
        (prepareConfig config inp req = .unsetOtherDefaults configJson ∨
          prepareConfig config inp req = .insertConfig configJson) := by
  unfold prepareConfig
  cases hverify : verifyRepoAccess inp.repoReply req.provider req.token req.repo with
  | error e => exact .inl ⟨e, rfl⟩
  | ok u =>
    cases hkey : config.tokenEncryptionKey with
    | none => exact .inl ⟨_, rfl⟩
    | some key =>
      cases he : inp.encrypted with
      | none => exact .inl ⟨_, rfl⟩
      | some e =>
        have hconfirmed : Confirmed answer req (buildConfigJson req e) :=
          ⟨h, hpaths _ _ _ hverify, e, hanswer.symm.trans he, rfl⟩
        refine .inr ⟨_, hconfirmed, ?_⟩
        dsimp only
        split
        · exact .inl rfl
        · exact .inr rfl

theorem encryptToken_cases {id : Uuid} {req : UpdateConfigRequest} {existing : UserStorageConfig}
    (hanswer : inp.encrypted = answer) (h : existing ∈ configs.rows)
    (hown : ownConfig user id existing = true) :
    Waiting answer configs (.updateConfig user id req)
      (.patch (PartialUpdates.encryptToken config.toConfig inp.toInput req existing)) := by
  unfold PartialUpdates.encryptToken
  cases htoken : req.token with
  | none => exact .merged h hown (.inl ⟨htoken, rfl⟩)
  | some t =>
    cases config.tokenEncryptionKey with
    | none => exact .patchFailed
    | some key =>
      cases he : inp.encrypted with
      | none => exact .patchFailed
      | some e =>
        refine .merged h hown (.inr ⟨e, ?_, hanswer.symm.trans he, rfl⟩)
        rw [htoken]
        rfl

theorem waiting_fetchConfig {id : Uuid} {req : UpdateConfigRequest}
    (hanswer : inp.encrypted = answer) :
    Waiting answer configs (.updateConfig user id req)
      (.patch (PartialUpdates.fetchConfig config.toConfig inp.toInput user id req configs)) := by
  unfold PartialUpdates.fetchConfig
  split
  · split
    · exact .patchFailed
    · rename_i existing hexisting
      obtain ⟨hmem, hown⟩ := Table.mem_of_select_head? hexisting
      split
      · exact .fetched hmem hown
      · exact encryptToken_cases hanswer hmem hown
  · exact .patchFailed

theorem progress_create {req : CreateConfigRequest} {stage : Stage} (hkept : Kept old configs)
    (h : Waiting answer configs (.createConfig user req) stage) (hanswer : inp.encrypted = answer)
    (hpaths : ConfirmsPaths inp.repoReply) :
    Progress answer old (.createConfig user req)
      (advance config inp images ⟨.createConfig user req, stage⟩ configs) := by
  cases h with
  | received =>
    simp only [advance, advanceCreate, createConfig]
    by_cases hprovider : req.provider ∈ ["github", "gitcode"]
    · rw [if_neg (not_not_intro hprovider)]
      split
      · exact .waiting hkept .failed
      · exact .waiting hkept (.checked hprovider)
    · rw [if_pos hprovider]
      exact .waiting hkept .failed
  | failed => exact .waiting hkept .failed
  | checked hprovider =>
    simp only [advance, advanceCreate]
    split
    · exact .waiting hkept .failed
    · exact .waiting hkept (.unique hprovider)
  | unique hprovider =>
    simp only [advance, advanceCreate]
    rcases prepareConfig_cases config hanswer hpaths hprovider with
      ⟨e, he⟩ | ⟨configJson, hconfirmed, hnext | hnext⟩
    · rw [he]
      exact .waiting hkept .failed
    · rw [hnext]
      exact .waiting hkept (.confirmed hconfirmed)
    · rw [hnext]
      exact .waiting hkept (.ready hconfirmed)
  | @confirmed _ _ configJson hconfirmed =>
    have heffect := effect config inp images
      ⟨.createConfig user req, .unsetOtherDefaults configJson⟩ configs
    have hkept' := hkept.trans (kept_of_effect heffect rfl)
    simp only [advance, advanceCreate] at hkept' ⊢
    split at hkept'
    · exact .waiting hkept .failed
    · exact .waiting hkept' (.ready hconfirmed)
  | @ready _ _ configJson hconfirmed =>
    simp only [advance, advanceCreate]
    split
    · exact .waiting hkept .failed
    · rename_i hins
      exact .created rfl hkept hconfirmed (insertConfig_eq_some.mp hins).2

theorem progress_update {id : Uuid} {req : UpdateConfigRequest} {stage : Stage}
    (hkept : Kept old configs) (h : Waiting answer configs (.updateConfig user id req) stage)
    (hanswer : inp.encrypted = answer) :
    Progress answer old (.updateConfig user id req)
      (advance config inp images ⟨.updateConfig user id req, stage⟩ configs) := by
  cases h with
  | received => exact .waiting hkept (waiting_fetchConfig hanswer)
  | failed => exact .waiting hkept .failed
  | patchFailed => exact .waiting hkept .patchFailed
  | fetched hmem hown =>
    refine .waiting hkept ?_
    unfold PartialUpdates.checkNameUnique
    split
    · split
      · exact .patchFailed
      · exact encryptToken_cases hanswer hmem hown
    · exact .patchFailed
  | @merged _ _ _ existing encryptedToken hmem hown he =>
    simp only [advance, advanceUpdate]
    split
    · exact .waiting hkept .patchFailed
    · rename_i row configs' hupd
      obtain ⟨hrows, d, hd, hd', rfl⟩ :=
        Table.row_of_updateReturning (PartialUpdates.updateConfig_eq_some.mp hupd).2
      rw [ConfigTable.eq_of_id hd hmem ((ownConfig_id hd').trans (ownConfig_id hown).symm)]
      exact .updated rfl hkept hmem hown he hrows

end Statements

/-- One statement of a request that stands alone. -/
theorem progress_advance {config : Config} {inp : Input} {images : ImageTable}
    {answer : Option String} {old : ConfigTable} {call : Call} {s : Stage × ConfigTable}
    (hanswer : inp.encrypted = answer) (hpaths : ConfirmsPaths inp.repoReply)
    (h : Progress answer old call s) :
    Progress answer old call (advance config inp images ⟨call, s.1⟩ s.2) := by
  cases h with
  | @waiting stage configs hkept hwaiting =>
    cases call with
    | createConfig user req => exact progress_create hkept hwaiting hanswer hpaths
    | updateConfig user id req => exact progress_update hkept hwaiting hanswer
    | deleteConfig user id =>
      have heffect := effect config inp images ⟨.deleteConfig user id, stage⟩ configs
      exact .waiting (hkept.trans (kept_of_effect heffect rfl)) .deleting
    | setDefault user id =>
      have heffect := effect config inp images ⟨.setDefault user id, stage⟩ configs
      exact .waiting (hkept.trans (kept_of_effect heffect rfl)) .defaulting
  | created hcall hkept hconfirmed hins =>
    subst hcall
    exact .created rfl hkept hconfirmed hins
  | updated hcall hkept hexisting hown he hrows =>
    subst hcall
    exact .updated rfl hkept hexisting hown he hrows

theorem progress_serve (p : Primitives) (config : Config) (a : Action) (configs : ConfigTable) :
    Progress (encrypted p config a.nonce a.call) configs a.call (serve p config a configs) := by
  have hrun : ∀ inps : List Input, (∀ inp ∈ inps, ConfirmsPaths inp.repoReply) →
      ∀ s, Progress (encrypted p config a.nonce a.call) configs a.call s →
        Progress (encrypted p config a.nonce a.call) configs a.call (inps.foldl (fun s inp =>
          advance config { inp with encrypted := encrypted p config a.nonce a.call } a.images
            ⟨a.call, s.1⟩ s.2) s) := by
    intro inps
    induction inps with
    | nil => exact fun _ s h => h
    | cons inp inps ih =>
      intro hpaths s h
      rw [List.foldl_cons]
      exact ih (fun inp' hmem => hpaths inp' (.tail _ hmem)) _
        (progress_advance rfl (hpaths inp (.head _)) h)
  exact hrun a.inps a.confirmsPaths _ (.waiting (.refl configs) .received)

theorem success_of_waiting {answer : Option String} {configs : ConfigTable} {call : Call}
    {stage : Stage} (h : Waiting answer configs call stage) : success call stage = none := by
  cases h with
  | received => cases call <;> rfl
  | failed => cases call <;> rfl
  | _ => rfl

/-! ## What the rows hold -/

/-- The row holds what was given, with the token encrypted under the key. -/
structure Holds (p : Primitives) (key : Key) (g : Given) (c : UserStorageConfig) : Prop where
  provider : c.provider ∈ ["github", "gitcode"]
  detail : ∃ detail, GitConfigDetail.fromValue c.config = some detail ∧ detail.repo = g.repo ∧
    detail.branch = g.branch ∧ p.decryptToken detail.tokenEncrypted key = .ok g.token

def Recorded (p : Primitives) (key : Key) (s : State) : Prop :=
  ∀ c ∈ s.configs.rows, ∃ g, s.given c.id = some g ∧ Holds p key g c

section Holds

variable {p : Primitives} {key : Key} {g : Given} {c d : UserStorageConfig}

theorem Holds.congr (h : Holds p key g d) (hsame : SameContents c d) : Holds p key g c := by
  obtain ⟨-, -, hprovider, hconfig⟩ := hsame
  refine ⟨?_, ?_⟩
  · rw [hprovider]
    exact h.provider
  · rw [hconfig]
    exact h.detail

theorem splitOnceSlash_isSome {repo : String} : (splitOnceSlash repo).isSome ↔ IsPath repo := by
  unfold splitOnceSlash IsPath
  rw [List.span_eq_takeWhile_dropWhile]
  cases h : repo.toList.dropWhile (· ≠ '/') with
  | nil =>
    simp only [Option.isSome_none, Bool.false_eq_true, false_iff]
    intro hmem
    simpa using List.dropWhile_eq_nil_iff.mp h '/' hmem
  | cons b rest =>
    simp only [Option.isSome_some, true_iff]
    by_contra hnot
    have hnil : repo.toList.dropWhile (· ≠ '/') = [] :=
      List.dropWhile_eq_nil_iff.mpr fun c hc => by
        simpa using fun heq : c = '/' => hnot (heq ▸ hc)
    rw [h] at hnil
    cases hnil

theorem decrypt_encrypted {config : Config} {encryptionKey : String}
    (hkey : config.tokenEncryptionKey = some encryptionKey)
    (hvalid : p.decodeKey encryptionKey = .ok key) {nonce : Nonce} {call : Call} {t e : String}
    (ht : token call = some t) (he : encrypted p config nonce call = some e) :
    p.decryptToken e key = .ok t := by
  simp only [encrypted, ht, hkey, bind, Option.bind_some, encryptTokenFromConfig, hvalid] at he
  cases hencrypt : p.encryptToken nonce t key with
  | error err =>
    rw [hencrypt] at he
    cases he
  | ok e' =>
    rw [hencrypt] at he
    cases he
    exact Primitives.decryptToken_encryptToken hencrypt

theorem fromValue_eq_some {o : Object} {detail : GitConfigDetail} :
    GitConfigDetail.fromValue o = some detail ↔
      o.str "token_encrypted" = some detail.tokenEncrypted ∧ o.str "repo" = some detail.repo ∧
        o.str "branch" = some detail.branch ∧ o.optStr "path_prefix" = some detail.pathPrefix := by
  obtain ⟨tokenEncrypted, repo, branch, pathPrefix⟩ := detail
  simp [GitConfigDetail.fromValue, Option.bind_eq_some_iff]

theorem fromValue_buildConfigJson (req : CreateConfigRequest) (e : String) :
    GitConfigDetail.fromValue (buildConfigJson req e) =
      some ⟨e, req.repo, req.branch.getD "main", req.pathPrefix⟩ := by
  cases hpath : req.pathPrefix <;> simp [buildConfigJson, GitConfigDetail.fromValue, hpath] <;> rfl

theorem str_setMember (o : Object) (name : String) (value : Option String) (name' : String) :
    (PartialUpdates.setMember o name value).str name' =
      if name' = name then value.or (o.str name') else o.str name' := by
  unfold Object.str
  rw [PartialUpdates.field_setMember]
  cases value with
  | none => simp
  | some text => by_cases h : name' = name <;> simp [h]

theorem optStr_setMember (o : Object) (name : String) (value : Option String) (name' : String) :
    (PartialUpdates.setMember o name value).optStr name' =
      if name' = name then (value.map some).or (o.optStr name') else o.optStr name' := by
  unfold Object.optStr
  rw [PartialUpdates.field_setMember]
  cases value with
  | none => simp
  | some text => by_cases h : name' = name <;> simp [h]

theorem fromValue_mergeConfigDetail {o : Object} {detail : GitConfigDetail}
    (h : GitConfigDetail.fromValue o = some detail) (req : UpdateConfigRequest)
    (encryptedToken : Option String) :
    GitConfigDetail.fromValue (PartialUpdates.mergeConfigDetail o req encryptedToken) = some
      { tokenEncrypted := encryptedToken.getD detail.tokenEncrypted
        repo := req.repo.getD detail.repo
        branch := req.branch.getD detail.branch
        pathPrefix := req.pathPrefix.or detail.pathPrefix } := by
  obtain ⟨htoken, hrepo, hbranch, hprefix⟩ := fromValue_eq_some.mp h
  refine fromValue_eq_some.mpr ⟨?_, ?_, ?_, ?_⟩
  · simp [PartialUpdates.mergeConfigDetail, str_setMember, htoken]
  · simp [PartialUpdates.mergeConfigDetail, str_setMember, hrepo]
  · simp [PartialUpdates.mergeConfigDetail, str_setMember, hbranch]
  · simp only [PartialUpdates.mergeConfigDetail, optStr_setMember, hprefix]
    cases req.pathPrefix <;> rfl

theorem holds_newConfig {config : Config} {encryptionKey : String}
    (hkey : config.tokenEncryptionKey = some encryptionKey)
    (hvalid : p.decodeKey encryptionKey = .ok key) {nonce : Nonce} {user : AuthUser}
    {req : CreateConfigRequest} {configJson : Object} {inp : Input}
    (h : Confirmed (encrypted p config nonce (.createConfig user req)) req configJson) :
    Holds p key ⟨req.token, req.repo, req.branch.getD "main"⟩
      (newConfig inp user req configJson) := by
  obtain ⟨e, he, rfl⟩ := h.json
  exact ⟨h.provider, _, fromValue_buildConfigJson req e, rfl, rfl,
    decrypt_encrypted hkey hvalid rfl he⟩

theorem holds_setConfig {config : Config} {encryptionKey : String}
    (hkey : config.tokenEncryptionKey = some encryptionKey)
    (hvalid : p.decodeKey encryptionKey = .ok key) {nonce : Nonce} {user : AuthUser} {id : Uuid}
    {req : UpdateConfigRequest} {encryptedToken : Option String} {now : Instant}
    (h : Holds p key g c)
    (he : EncryptedAs (encrypted p config nonce (.updateConfig user id req)) req encryptedToken) :
    Holds p key (g.merge req) (PartialUpdates.setConfig now req encryptedToken c c) := by
  obtain ⟨detail, hdetail, hrepo, hbranch, htoken⟩ := h.detail
  refine ⟨h.provider, _, fromValue_mergeConfigDetail hdetail req encryptedToken, ?_, ?_, ?_⟩
  · simp only [Given.merge, hrepo]
  · simp only [Given.merge, hbranch]
  · rcases he with ⟨hnone, rfl⟩ | ⟨e, hsome, he, rfl⟩
    · simp only [Given.merge, hnone, Option.getD_none, htoken]
    · obtain ⟨t, ht⟩ := Option.isSome_iff_exists.mp hsome
      simp only [Given.merge, ht, Option.getD_some]
      exact decrypt_encrypted hkey hvalid
        (show token (.updateConfig user id req) = some t from ht) he

theorem gitBackend_of_holds (parseError : Object → String) {owner repo : String}
    (h : Holds p key g c) (hsplit : splitOnceSlash g.repo = some (owner, repo)) :
    ∃ b : GitStorage, gitBackend (gitDeps p parseError key) c = .ok (.git b) ∧
      b.token = g.token ∧ b.owner = owner ∧ b.repo = repo ∧ b.branch = g.branch := by
  obtain ⟨detail, hdetail, hrepo, hbranch, htoken⟩ := h.detail
  have hprovider := h.provider
  simp only [List.mem_cons, List.not_mem_nil, or_false] at hprovider
  rw [← hrepo] at hsplit
  simp only [gitBackend, hdetail, gitDeps, htoken, Except.mapError, hsplit, bind, Except.bind]
  rcases hprovider with hprovider | hprovider <;> rw [hprovider]
  · exact ⟨⟨.gitHub, owner, repo, detail.branch, detail.pathPrefix, g.token⟩, rfl, rfl, rfl, rfl,
      hbranch⟩
  · exact ⟨⟨.gitCode, owner, repo, detail.branch, detail.pathPrefix, g.token⟩, rfl, rfl, rfl, rfl,
      hbranch⟩

/-- The router answers to a row with what it holds, unless the repository has no slash. -/
theorem usable_iff (parseError : Object → String) (h : Holds p key g c) :
    Usable (gitDeps p parseError key) g c ↔ IsPath g.repo := by
  rw [← splitOnceSlash_isSome]
  constructor
  · rintro ⟨owner, repo, hsplit, -⟩
    rw [hsplit]
    rfl
  · intro hsplit
    obtain ⟨⟨owner, repo⟩, hsplit⟩ := Option.isSome_iff_exists.mp hsplit
    obtain ⟨b, hb, hfields⟩ := gitBackend_of_holds parseError h hsplit
    refine ⟨owner, repo, hsplit, b, fun router => ?_, hfields⟩
    rw [StorageRouter.getOrCreateGit_fst, hb]

end Holds

/-! ## Sequences of requests -/

section Runs

variable {p : Primitives} {config : Config} {encryptionKey : String} {key : Key}
  {parseError : Object → String}

theorem apiKey_eq (hkey : config.tokenEncryptionKey = some encryptionKey)
    (hvalid : p.decodeKey encryptionKey = .ok key) : apiKey p config = .ok key := by
  simp only [apiKey, hkey, hvalid]

theorem workerKey_eq (hkey : config.tokenEncryptionKey = some encryptionKey)
    (hvalid : p.decodeKey encryptionKey = .ok key) : workerKey p config = key := by
  simp only [workerKey, hkey, Option.bind_some, hvalid]
  rfl

variable (p config) in
/-- Where a row after a request has its given values from. -/
inductive Origin (s : State) (a : Action) (g : Given) : Prop
  | kept {d} (hd : d ∈ s.configs.rows) (hg : s.given d.id = some g)
  | created (h : IsPath g.repo)
  | updated {d user id req old} (hd : d ∈ s.configs.rows) (hg : s.given d.id = some old)
      (hcall : a.call = .updateConfig user id req)
      (hsuccess : (success a.call (serve p config a s.configs).1).isSome)
      (hmerge : g = old.merge req)

theorem recorded_step (hkey : config.tokenEncryptionKey = some encryptionKey)
    (hvalid : p.decodeKey encryptionKey = .ok key) {s : State} (h : Recorded p key s)
    (a : Action) :
    ∀ c ∈ (step p config s a).configs.rows, ∃ g, (step p config s a).given c.id = some g ∧
      Holds p key g c ∧ Origin p config s a g := by
  have hprogress := progress_serve p config a s.configs
  generalize hserve : serve p config a s.configs = served at hprogress
  have hold : ∀ c d, d ∈ s.configs.rows → SameContents c d →
      ∃ g, s.given c.id = some g ∧ Holds p key g c ∧ Origin p config s a g := by
    intro c d hd hsame
    obtain ⟨g, hg, hholds⟩ := h d hd
    exact ⟨g, by rw [hsame.1, hg], hholds.congr hsame, .kept hd hg⟩
  intro c hc
  simp only [step, hserve] at hc ⊢
  cases hprogress with
  | waiting hkept hwaiting =>
    obtain ⟨d, hd, hsame⟩ := hkept c hc
    simp only [record, success_of_waiting hwaiting]
    exact hold c d hd hsame
  | @created user req configJson inp configs _ hcall hkept hconfirmed hins =>
    simp only [record, hcall, success]
    rcases (Table.mem_of_insert hins).mp hc with hmem | rfl
    · obtain ⟨d, hd, hsame⟩ := hkept c hmem
      have hne : c.id ≠ (newConfig inp user req configJson).id := fun heq =>
        Table.not_clash_of_insert hins c hmem (.inl heq)
      rw [Function.update_of_ne hne]
      exact hold c d hd hsame
    · rw [hcall] at hconfirmed
      rw [Function.update_self]
      exact ⟨_, rfl, holds_newConfig hkey hvalid hconfirmed, .created hconfirmed.path⟩
  | @updated user id req existing encryptedToken now configs _ hcall hkept hexisting hown he hrows =>
    have hid :
        (PartialUpdates.setConfig now req encryptedToken existing existing).id = existing.id :=
      rfl
    simp only [record, hcall, success]
    rw [hrows, Table.mem_updated_iff] at hc
    rcases hc with ⟨hmem, hnot⟩ | ⟨d, hmem, hd', rfl⟩
    · obtain ⟨d, hd, hsame⟩ := hkept c hmem
      have hne : c.id ≠ existing.id := fun heq => by
        rw [ConfigTable.eq_of_id hmem hexisting heq, hown] at hnot
        cases hnot
      rw [hid, Function.update_of_ne hne]
      exact hold c d hd hsame
    · obtain rfl := ConfigTable.eq_of_id hmem hexisting
        ((ownConfig_id hd').trans (ownConfig_id hown).symm)
      obtain ⟨d', hd, hsame⟩ := hkept d hmem
      obtain ⟨g, hg, hholds⟩ := h d' hd
      rw [hcall] at he
      rw [hid, Function.update_self, hsame.1, hg]
      refine ⟨g.merge req, rfl, holds_setConfig hkey hvalid (hholds.congr hsame) he,
        .updated hd hg hcall ?_ rfl⟩
      rw [hserve, hcall]
      rfl

theorem Recorded.step (hkey : config.tokenEncryptionKey = some encryptionKey)
    (hvalid : p.decodeKey encryptionKey = .ok key) {s : State} (h : Recorded p key s)
    (a : Action) : Recorded p key (step p config s a) := by
  intro c hc
  obtain ⟨g, hg, hholds, -⟩ := recorded_step hkey hvalid h a c hc
  exact ⟨g, hg, hholds⟩

theorem allUsable_iff (hkey : config.tokenEncryptionKey = some encryptionKey)
    (hvalid : p.decodeKey encryptionKey = .ok key) {s : State} (h : Recorded p key s) :
    AllUsable p config parseError s ↔
      ∀ c ∈ s.configs.rows, ∀ g, s.given c.id = some g → IsPath g.repo := by
  unfold AllUsable
  rw [apiKey_eq hkey hvalid, workerKey_eq hkey hvalid]
  constructor
  · intro hup c hc g hg
    obtain ⟨g', hg', -, husable⟩ := hup c hc
    obtain ⟨held, hheld, hholds⟩ := h c hc
    rw [hg, Option.some.injEq] at hg' hheld
    subst hg'
    subst hheld
    exact (usable_iff _ hholds).mp husable
  · intro hpath c hc
    obtain ⟨g, hg, hholds⟩ := h c hc
    have husable := (usable_iff parseError hholds).mpr (hpath c hc g hg)
    exact ⟨g, hg, ⟨key, rfl, husable⟩, husable⟩

/-- A successful update has left its row with what the request names. -/
theorem mem_of_success {s : State} {a : Action} {user : AuthUser} {id : Uuid}
    {req : UpdateConfigRequest} (hcall : a.call = .updateConfig user id req)
    (hsuccess : (success a.call (serve p config a s.configs).1).isSome)
    (h : Recorded p key s) :
    ∃ c ∈ (step p config s a).configs.rows, ∃ g : Given,
      (step p config s a).given c.id = some (g.merge req) := by
  have hprogress := progress_serve p config a s.configs
  simp only [step]
  generalize serve p config a s.configs = served at hprogress hsuccess ⊢
  cases hprogress with
  | waiting hkept hwaiting =>
    rw [success_of_waiting hwaiting] at hsuccess
    cases hsuccess
  | created hcall' =>
    rw [hcall] at hcall'
    cases hcall'
  | @updated user id req existing encryptedToken now configs _ hcall' hkept hexisting hown he hrows =>
    rw [hcall] at hcall'
    cases hcall'
    obtain ⟨d, hd, hsame⟩ := hkept existing hexisting
    obtain ⟨g, hg, -⟩ := h d hd
    refine ⟨PartialUpdates.setConfig now req encryptedToken existing existing, ?_, g, ?_⟩
    · rw [hrows]
      exact Table.mem_updated_iff.mpr (.inr ⟨existing, hexisting, hown, rfl⟩)
    · have hid : (PartialUpdates.setConfig now req encryptedToken existing existing).id = d.id :=
        hsame.1
      simp only [record, hcall, success, hid, Function.update_self, hg]
      rfl

theorem allUsable_step_iff (hkey : config.tokenEncryptionKey = some encryptionKey)
    (hvalid : p.decodeKey encryptionKey = .ok key) {s : State} (h : Recorded p key s)
    (hup : AllUsable p config parseError s) (a : Action) :
    AllUsable p config parseError (step p config s a) ↔ NamesPath p config s a := by
  rw [allUsable_iff hkey hvalid h] at hup
  rw [allUsable_iff hkey hvalid (h.step hkey hvalid a)]
  constructor
  · intro hup' user id req hcall hsuccess repo hrepo
    obtain ⟨c, hc, g, hg⟩ := mem_of_success hcall hsuccess h
    simpa only [Given.merge, hrepo, Option.getD_some] using hup' c hc _ hg
  · intro hnames c hc g hg
    obtain ⟨g', hg', -, horigin⟩ := recorded_step hkey hvalid h a c hc
    rw [hg, Option.some.injEq] at hg'
    subst hg'
    cases horigin with
    | kept hd hg => exact hup _ hd _ hg
    | created hpath => exact hpath
    | @updated d user id req old hd hg hcall hsuccess hmerge =>
      rw [hmerge, Given.merge]
      cases hrepo : req.repo with
      | none =>
        show IsPath old.repo
        exact hup d hd old hg
      | some repo => exact hnames user id req hcall hsuccess repo hrepo

/-- After every request of a sequence the router builds, in the API and in the worker, each row's
backend from the token, the repository and the branch last given for it, exactly if no successful
update of the sequence names a repository without a slash. -/
theorem accepted_configs_usable_iff (parseError : Object → String)
    (hkey : config.tokenEncryptionKey = some encryptionKey)
    (hvalid : p.decodeKey encryptionKey = .ok key) (as : List Action) :
    AllStates (step p config) (AllUsable p config parseError) init as ↔
      AllSteps (step p config) (NamesPath p config) init as := by
  refine allStates_iff_allSteps (J := Recorded p key) (P := AllUsable p config parseError)
    (fun _ a h => h.step hkey hvalid a) (fun _ a h hup => allUsable_step_iff hkey hvalid h hup a)
    ?_ ?_ as
  · exact fun c hc => (List.not_mem_nil hc).elim
  · exact fun c hc => (List.not_mem_nil hc).elim

end Runs

def zeroKeyText : String := "AAAAAAAAAAAAAAAAAAAAAAAAAAAAAAAAAAAAAAAAAAA="

def sevens : Nonce := ⟨List.replicate 12 7, List.length_replicate⟩

/-- `ghp_1` under the zero key and that nonce. -/
def sealedToken : Bytes :=
  [26, 160, 216, 148, 89, 9, 196, 88, 121, 131, 176, 15, 5, 201, 210, 139, 196, 123, 162, 203, 197]

/-- The cipher on the one token of the runs below; it stands for AES only there. -/
def tokenGcm : Aes256Gcm where
  encrypt key nonce plaintext :=
    if key = zeroKey ∧ nonce = sevens ∧ plaintext = utf8Bytes "ghp_1" then .ok sealedToken
    else .ok (plaintext ++ List.replicate 16 0)
  decrypt key nonce ciphertext :=
    if key = zeroKey ∧ nonce = sevens ∧ ciphertext = sealedToken then some (utf8Bytes "ghp_1")
    else some (ciphertext.take (ciphertext.length - 16))
  decrypt_encrypt {key nonce plaintext ciphertext} h := by
    split at h
    · rename_i hinput
      obtain ⟨rfl, rfl, rfl⟩ := hinput
      rw [← Except.ok.inj h, if_pos ⟨rfl, rfl, rfl⟩]
    · rw [← Except.ok.inj h, if_neg]
      · simp
      · rintro ⟨-, -, hsealed⟩
        have hlast := congrArg List.getLast? hsealed
        rw [List.getLast?_append_of_ne_nil _ (by simp)] at hlast
        exact absurd hlast (by decide)
  tag {key nonce plaintext ciphertext} h := by
    split at h
    · rw [← Except.ok.inj h]
      decide
    · rw [← Except.ok.inj h]
      simp

def tokenPrimitives : Primitives := ⟨Base64.codec, tokenGcm⟩

/-- GitHub has one repository. -/
def onlyPics (url _token : String) : RepoReply :=
  if url = "https://api.github.com" ++ "/repos/" ++ "me/pics" then .response 200 ""
  else .response 404 "Not Found"

theorem confirmsPaths_onlyPics : ConfirmsPaths onlyPics := by
  intro provider token repo h
  unfold verifyRepoAccess apiBaseForProvider onlyPics at h
  split at h
  · cases h
  · rename_i apiBase hbase
    by_cases hurl :
        apiBase ++ "/repos/" ++ repo = "https://api.github.com" ++ "/repos/" ++ "me/pics"
    · split at hbase
      · cases hbase
        rw [(String.append_right_inj _).mp hurl]
        show '/' ∈ "me/pics".toList
        decide
      · split at hbase
        · cases hbase
          have hchar := congrArg (fun s : String => s.toList[15]?) hurl
          rw [String.append_assoc, String.toList_append, List.getElem?_append_left (by decide)]
            at hchar
          exact absurd hchar (by decide)
        · cases hbase
    · rw [if_neg hurl] at h
      cases h

def owner : AuthUser := ⟨1, false, none⟩

def keyConfig : Config := ⟨⟨["local"], some zeroKeyText⟩, none⟩

def upInput : Input := ⟨⟨true, 5, none, none, none, ""⟩, 8, onlyPics⟩

def ask (call : Call) : Action where
  call := call
  inps := List.replicate 4 upInput
  nonce := sevens
  images := .empty
  confirmsPaths inp h := by
    rw [List.eq_of_mem_replicate h]
    exact confirmsPaths_onlyPics

def createPics : Action := ask <| .createConfig owner
  { name := "pics", provider := "github", token := "ghp_1", repo := "me/pics" }

def renameRepo : Action := ask <| .updateConfig owner 8 { repo := some "pics" }

theorem accepted_configs_usable_iff_github :
    AllStates (step tokenPrimitives keyConfig) (AllUsable tokenPrimitives keyConfig fun _ => "")
        init [createPics] ↔
      AllSteps (step tokenPrimitives keyConfig) (NamesPath tokenPrimitives keyConfig) init
        [createPics] :=
  accepted_configs_usable_iff (fun _ => "")
    (show keyConfig.tokenEncryptionKey = some zeroKeyText from rfl)
    (show tokenPrimitives.decodeKey zeroKeyText = .ok zeroKey by decide +kernel) [createPics]

/-- The update is not verified, and the router refuses what it has written. -/
theorem accepted_config_not_usable :
    ¬ ∀ as, AllStates (step tokenPrimitives keyConfig)
      (AllUsable tokenPrimitives keyConfig fun _ => "") init as := by
  intro h
  have hlast := (h [createPics, renameRepo]).last
  have hrow : ∃ c ∈ ([createPics, renameRepo].foldl (step tokenPrimitives keyConfig)
      init).configs.rows, c.id = 8 := by
    decide +kernel
  have hgiven : ([createPics, renameRepo].foldl (step tokenPrimitives keyConfig) init).given 8 =
      some ⟨"ghp_1", "pics", "main"⟩ := by
    decide +kernel
  obtain ⟨c, hc, hid⟩ := hrow
  obtain ⟨g, hg, -, owner, repo, hsplit, -⟩ := hlast c hc
  rw [hid, hgiven, Option.some.injEq] at hg
  have hnone : splitOnceSlash "pics" = none := by decide +kernel
  rw [← hg, hnone] at hsplit
  cases hsplit

end PicHost.UsableConfigs
