import Mathlib
import PicHost.Api.Registration

/-!
# Signing in through a provider

The handlers take their statements one by one. What the endpoints of a provider answer is up to
the provider, at every request anew.
-/

namespace PicHost.OAuth

open KeyedTable
open Auth (Jwt AuthConfig User TokenPair)
open Registration (UserTable badRequest)

/-- `serde_json::Number`, a float by its bits. -/
inductive Number
  | posInt (n : UInt64)
  | negInt (n : Int64)
  | float (bits : UInt64)

/-- `serde_json::Value`. -/
inductive Json
  | null
  | bool (b : Bool)
  | number (n : Number)
  | string (s : String)
  | array (items : List Json)
  | object (members : List (String × Json))

namespace Json

/-- `value[key]`. -/
def index (v : Json) (key : String) : Json :=
  match v with
  | .object members => (members.lookup key).getD .null
  | _ => .null

def asU64 : Json → Option UInt64
  | .number (.posInt n) => some n
  | _ => none

def asStr : Json → Option String
  | .string s => some s
  | _ => none

end Json

structure OAuthConfig where
  publicUrl : String
  oauthGithubClientId : Option String
  oauthGithubClientSecret : Option String
  oauthGoogleClientId : Option String
  oauthGoogleClientSecret : Option String

structure OAuthClient where
  clientId : String
  clientSecret : String
  authUrl : String
  tokenUrl : String
  redirectUrl : String
deriving DecidableEq

inductive OAuthClientError
  | missingClientId (provider : String)
  | missingClientSecret (provider : String)

def clientErrorResponse : OAuthClientError → ApiError
  | .missingClientId provider =>
    { status := 400, key := "auth.oauth_not_configured", args := [provider] }
  | .missingClientSecret provider =>
    { status := 400, key := "auth.oauth_secret_not_configured", args := [provider] }

/-- `oauth_client!`. -/
def oauthClient (publicUrl : String) (clientId clientSecret : Option String)
    (authUrl tokenUrl provider : String) : Except OAuthClientError OAuthClient :=
  match clientId, clientSecret with
  | none, _ => .error (.missingClientId provider)
  | some _, none => .error (.missingClientSecret provider)
  | some clientId, some clientSecret => .ok
    { clientId, clientSecret, authUrl, tokenUrl,
      redirectUrl := publicUrl ++ "/api/v1/auth/oauth/" ++ provider ++ "/callback" }

def makeGithubClient (config : OAuthConfig) : Except OAuthClientError OAuthClient :=
  oauthClient config.publicUrl config.oauthGithubClientId config.oauthGithubClientSecret
    "https://github.com/login/oauth/authorize" "https://github.com/login/oauth/access_token"
    "github"

def makeGoogleClient (config : OAuthConfig) : Except OAuthClientError OAuthClient :=
  oauthClient config.publicUrl config.oauthGoogleClientId config.oauthGoogleClientSecret
    "https://accounts.google.com/o/oauth2/v2/auth" "https://oauth2.googleapis.com/token" "google"

/-- The URL a browser is sent to. -/
structure AuthorizeUrl where
  authUrl : String
  clientId : String
  redirectUrl : String
  scopes : List String
  state : String
deriving DecidableEq

def authorizeUrl (client : OAuthClient) (scopes : List String) (csrfToken : String) :
    AuthorizeUrl :=
  ⟨client.authUrl, client.clientId, client.redirectUrl, scopes, csrfToken⟩

/-- `csrfToken` is what `CsrfToken::new_random` draws; the URL is all it goes into. -/
def githubRedirect (config : OAuthConfig) (csrfToken : String) : Except ApiError AuthorizeUrl :=
  match makeGithubClient config with
  | .error e => .error (clientErrorResponse e)
  | .ok client => .ok (authorizeUrl client ["read:user", "user:email"] csrfToken)

def googleRedirect (config : OAuthConfig) (csrfToken : String) : Except ApiError AuthorizeUrl :=
  match makeGoogleClient config with
  | .error e => .error (clientErrorResponse e)
  | .ok client => .ok (authorizeUrl client ["openid", "email", "profile"] csrfToken)

/-- The providers as a request finds them: the token endpoints turn a code into an access
token, the user endpoints answer a `GET` that bears one. -/
structure Remote where
  buildsClient : Bool
  exchangeCode : OAuthClient → String → Option String
  get : String → String → Option Json

structure OAuthUserInfo where
  providerUserId : String
  email : Option String
  login : Option String

def githubUserUrl : String := "https://api.github.com/user"

def googleUserUrl : String := "https://www.googleapis.com/oauth2/v2/userinfo"

def fetchGithubUser (remote : Remote) (token : String) : Option OAuthUserInfo :=
  (remote.get githubUserUrl token).map fun resp =>
    -- `as_u64().unwrap_or(0)`: without a number the person is number 0
    { providerUserId := toString ((resp.index "id").asU64.getD 0)
      email := (resp.index "email").asStr
      login := (resp.index "login").asStr }

def fetchGoogleUser (remote : Remote) (token : String) : Option OAuthUserInfo :=
  (remote.get googleUserUrl token).map fun resp =>
    -- Google's identifiers are texts, and the stand-in is one, too
    { providerUserId := (resp.index "id").asStr.getD "0"
      email := (resp.index "email").asStr
      login := (resp.index "name").asStr }

def internalError : ApiError := { status := 500, key := "auth.internal_error" }

/-- The first half of `oauth_exchange_and_fetch_user`. -/
def exchange (config : OAuthConfig) (remote : Remote) (provider code : String) :
    Except ApiError String :=
  let client :=
    if provider = "github" then (makeGithubClient config).mapError clientErrorResponse
    -- the `state` of the callback is not among the arguments: nothing compares it
    else if provider = "google" then (makeGoogleClient config).mapError clientErrorResponse
    else .error (badRequest "auth.unknown_provider")
  match client with
  | .error e => .error e
  | .ok client =>
    if remote.buildsClient then
      match remote.exchangeCode client code with
      | some token => .ok token
      | none => .error (badRequest "auth.invalid_oauth_code")
    else .error internalError

def oauthExchangeAndFetchUser (config : OAuthConfig) (remote : Remote) (provider code : String) :
    Except ApiError OAuthUserInfo :=
  match exchange config remote provider code with
  | .error e => .error e
  | .ok token =>
    let user :=
      if provider = "github" then fetchGithubUser remote token else fetchGoogleUser remote token
    match user with
    | some info => .ok info
    | none => .error { status := 500, key := "auth.oauth_userinfo_failed" }

/-- What a provider knows a person by. -/
inductive Identity
  | github (id : UInt64)
  | google (id : String)
deriving DecidableEq

namespace Identity

def provider : Identity → String
  | .github _ => "github"
  | .google _ => "google"

def text : Identity → String
  | .github id => toString id
  | .google id => id

/-- The identity in the body of a user endpoint, if there is one. -/
def ofBody (provider : String) (resp : Json) : Option Identity :=
  if provider = "github" then (resp.index "id").asU64.map .github
  else (resp.index "id").asStr.map .google

end Identity

/-- The body that the user endpoint answers with. -/
def userBody (config : OAuthConfig) (remote : Remote) (provider code : String) : Option Json :=
  match exchange config remote provider code with
  | .error _ => none
  | .ok token => remote.get (if provider = "github" then githubUserUrl else googleUserUrl) token

structure OAuthAccount where
  userId : Uuid
  provider : String
  providerUserId : String
deriving DecidableEq

/-- `UNIQUE(provider, provider_user_id)`. -/
def OAuthAccount.key (a : OAuthAccount) : String × String := (a.provider, a.providerUserId)

abbrev OAuthAccounts := Table OAuthAccount.key Eq

structure OAuthCallbackQuery where
  code : String
  state : String
deriving DecidableEq

structure OAuthLinkRequest where
  provider : String
  code : String

/-- `oauthLink` comes with the user whom the middleware has authenticated. -/
inductive Call
  | githubCallback (query : OAuthCallbackQuery)
  | googleCallback (query : OAuthCallbackQuery)
  | oauthLink (user : AuthUser) (body : OAuthLinkRequest)

namespace Call

def provider : Call → String
  | .githubCallback _ => "github"
  | .googleCallback _ => "google"
  | .oauthLink _ body => body.provider

def code : Call → String
  | .githubCallback query | .googleCallback query => query.code
  | .oauthLink _ body => body.code

end Call

inductive Reply
  | tokens (pair : TokenPair) (user : User)
  | linked

/-- What a request does next. -/
inductive Stage
  | fetch
  | lookupAccount (info : OAuthUserInfo)
  | lookupUser (userId : Uuid)
  | insertAccount (info : OAuthUserInfo)
  | returned (result : Except ApiError Reply)

/-- `identity` is history: what the body of the user endpoint said. -/
structure Request where
  call : Call
  identity : Option Identity
  stage : Stage

/-- `linked` is history: who has been linked to which identity by a request of theirs. -/
structure State where
  users : UserTable
  accounts : OAuthAccounts
  requests : List Request
  linked : List (Uuid × Identity)

structure Input where
  dbUp : Bool
  remote : Remote
  now : ℕ
  accessJti : Uuid
  refreshJti : Uuid

inductive Action
  | createUser (user : User)
  | setUser (user : User)
  | deleteUser (userId : Uuid)
  | submit (call : Call)
  | advance (i : ℕ) (inp : Input)

variable (jwt : Jwt) (authConfig : AuthConfig) (config : OAuthConfig)

def fetch (inp : Input) (call : Call) : Stage :=
  match oauthExchangeAndFetchUser config inp.remote call.provider call.code with
  | .error e => .returned (.error e)
  | .ok info =>
    match call with
    | .githubCallback _ | .googleCallback _ => .lookupAccount info
    | .oauthLink _ _ => .insertAccount info

/-- `lookup_oauth_user`, first statement. -/
def lookupAccount (inp : Input) (provider : String) (info : OAuthUserInfo)
    (accounts : OAuthAccounts) : Stage :=
  if inp.dbUp then
    match (accounts.select fun a =>
        a.provider == provider && a.providerUserId == info.providerUserId).head? with
    | some a => .lookupUser a.userId
    | none => .returned (.error { status := 404, key := "auth.oauth_no_link" })
  else .returned (.error internalError)

/-- `lookup_oauth_user`, second statement, and the tokens. -/
def lookupUser (inp : Input) (userId : Uuid) (users : UserTable) : Stage :=
  if inp.dbUp then
    match (users.select fun u => u.id == userId).head? with
    | some user => .returned (.ok (.tokens (Auth.generateTokens jwt authConfig inp.now user.id
        user.isAdmin inp.accessJti inp.refreshJti) user))
    | none => .returned (.error { status := 404, key := "auth.user_not_found" })
  else .returned (.error internalError)

/-- `INSERT … ON CONFLICT (provider, provider_user_id) DO NOTHING`. A row that is inserted
needs its user. -/
def insertAccount (up : Bool) (account : OAuthAccount) (users : UserTable)
    (accounts : OAuthAccounts) : Option OAuthAccounts :=
  if up then
    match accounts.insert account with
    -- DO NOTHING also when the row that is there belongs to another user
    | none => some accounts
    | some accounts' =>
      if users.anyRow fun u => u.id == account.userId then some accounts' else none
  else none

def State.setRequest (s : State) (i : ℕ) (r : Request) : State :=
  { s with requests := s.requests.set i r }

/-- The identities that a link request of the user has put in place. -/
def newLinks (account : OAuthAccount) (identity : Option Identity) (accounts : OAuthAccounts) :
    List (Uuid × Identity) :=
  if account ∈ accounts.rows then identity.toList.map fun id => (account.userId, id) else []

def oauthLink (inp : Input) (i : ℕ) (r : Request) (user : AuthUser) (body : OAuthLinkRequest)
    (info : OAuthUserInfo) (s : State) : State :=
  let account := ⟨user.id, body.provider, info.providerUserId⟩
  match insertAccount inp.dbUp account s.users s.accounts with
  | none => s.setRequest i { r with stage := .returned (.error internalError) }
  | some accounts =>
    { s.setRequest i { r with stage := .returned (.ok .linked) } with
      accounts
      linked := s.linked ++ newLinks account r.identity accounts }

/-- The request with its user fetched. -/
def fetched (inp : Input) (r : Request) : Request :=
  { r with
    stage := fetch config inp r.call
    identity := (userBody config inp.remote r.call.provider r.call.code).bind
      (Identity.ofBody r.call.provider) }

/-- One step of a request. -/
def advance (inp : Input) (i : ℕ) (r : Request) (s : State) : State :=
  match r.stage, r.call with
  | .fetch, _ => s.setRequest i (fetched config inp r)
  | .lookupAccount info, _ => s.setRequest i
    { r with stage := lookupAccount inp r.call.provider info s.accounts }
  | .lookupUser userId, _ => s.setRequest i
    { r with stage := lookupUser jwt authConfig inp userId s.users }
  | .insertAccount info, .oauthLink user body => oauthLink inp i r user body info s
  | .insertAccount _, _ | .returned _, _ => s

/-- The accounts of a user go with the user: `ON DELETE CASCADE`. -/
def step (s : State) : Action → State
  | .createUser user =>
    match s.users.insert user with
    | some users => { s with users }
    | none => s
  | .setUser user =>
    match s.users.tryUpdate (fun u => u.id == user.id) fun _ => user with
    | some users => { s with users }
    | none => s
  | .deleteUser userId =>
    { s with
      users := s.users.delete fun u => u.id == userId
      accounts := s.accounts.delete fun a => a.userId == userId }
  | .submit call => { s with requests := s.requests ++ [⟨call, none, .fetch⟩] }
  | .advance i inp =>
    match s.requests[i]? with
    | some r => advance jwt authConfig config inp i r s
    | none => s

def start : State := ⟨.empty, .empty, [], []⟩

variable {jwt authConfig config}

theorem githubRedirect_state {csrfToken : String} {url : AuthorizeUrl}
    (h : githubRedirect config csrfToken = .ok url) : url.state = csrfToken := by
  unfold githubRedirect at h
  split at h
  · cases h
  · cases h
    rfl

theorem googleRedirect_state {csrfToken : String} {url : AuthorizeUrl}
    (h : googleRedirect config csrfToken = .ok url) : url.state = csrfToken := by
  unfold googleRedirect at h
  split at h
  · cases h
  · cases h
    rfl

theorem Identity.text_injective {a b : Identity} (hp : a.provider = b.provider)
    (ht : a.text = b.text) : a = b := by
  cases a with
  | github m =>
    cases b with
    | github n => exact congrArg Identity.github (UInt64.toNat_inj.mp (Nat.repr_injective ht))
    | google t => simp [Identity.provider] at hp
  | google t =>
    cases b with
    | github n => simp [Identity.provider] at hp
    | google u => exact congrArg Identity.google ht

theorem Identity.provider_ofBody {provider : String} {resp : Json} {id : Identity}
    (hp : provider = "github" ∨ provider = "google") (h : ofBody provider resp = some id) :
    id.provider = provider := by
  unfold ofBody at h
  split at h
  · rename_i hgithub
    obtain ⟨n, -, rfl⟩ := Option.map_eq_some_iff.mp h
    exact hgithub.symm
  · rename_i hgithub
    obtain ⟨t, -, rfl⟩ := Option.map_eq_some_iff.mp h
    exact (hp.resolve_left hgithub).symm

theorem exchange_provider {remote : Remote} {provider code token : String}
    (h : exchange config remote provider code = .ok token) :
    provider = "github" ∨ provider = "google" := by
  by_contra hp
  rw [not_or] at hp
  simp [exchange, hp.1, hp.2] at h

/-- A body without an identity is read as one with the identity 0. -/
theorem oauthExchangeAndFetchUser_ok {remote : Remote} {provider code : String}
    {info : OAuthUserInfo} (h : oauthExchangeAndFetchUser config remote provider code = .ok info) :
    (provider = "github" ∨ provider = "google") ∧
      ∃ resp, userBody config remote provider code = some resp ∧
        info.providerUserId = ((Identity.ofBody provider resp).map Identity.text).getD "0" := by
  unfold oauthExchangeAndFetchUser at h
  unfold userBody
  cases hexchange : exchange config remote provider code with
  | error e => simp [hexchange] at h
  | ok token =>
    refine ⟨exchange_provider hexchange, ?_⟩
    simp only [hexchange] at h
    by_cases hp : provider = "github"
    · simp only [hp, if_true, fetchGithubUser] at h
      cases hget : remote.get githubUserUrl token with
      | none => simp [hget] at h
      | some resp =>
        simp only [hget, Option.map_some] at h
        cases h
        refine ⟨resp, by simp only [hp, if_true, hget], ?_⟩
        cases hid : (resp.index "id").asU64 <;> simp [Identity.ofBody, hp, hid, Identity.text]
        rfl
    · simp only [hp, if_false, fetchGoogleUser] at h
      cases hget : remote.get googleUserUrl token with
      | none => simp [hget] at h
      | some resp =>
        simp only [hget, Option.map_some] at h
        cases h
        refine ⟨resp, by simp only [hp, if_false, hget], ?_⟩
        cases hid : (resp.index "id").asStr <;> simp [Identity.ofBody, hp, hid, Identity.text]

variable (config) in
theorem fetch_cases (inp : Input) (call : Call) :
    (∃ e, fetch config inp call = .returned (.error e)) ∨
      ∃ info, oauthExchangeAndFetchUser config inp.remote call.provider call.code = .ok info ∧
        (fetch config inp call = .lookupAccount info ∨
          fetch config inp call = .insertAccount info) := by
  unfold fetch
  cases oauthExchangeAndFetchUser config inp.remote call.provider call.code with
  | error e => exact .inl ⟨e, rfl⟩
  | ok info =>
    refine .inr ⟨info, rfl, ?_⟩
    cases call with
    | githubCallback query => exact .inl rfl
    | googleCallback query => exact .inl rfl
    | oauthLink user body => exact .inr rfl

theorem lookupAccount_cases (inp : Input) (provider : String) (info : OAuthUserInfo)
    (accounts : OAuthAccounts) :
    (∃ e, lookupAccount inp provider info accounts = .returned (.error e) ∧
      (inp.dbUp = true → ∀ a ∈ accounts.rows, a.key ≠ (provider, info.providerUserId))) ∨
      ∃ a ∈ accounts.rows, a.key = (provider, info.providerUserId) ∧ inp.dbUp = true ∧
        lookupAccount inp provider info accounts = .lookupUser a.userId := by
  unfold lookupAccount
  by_cases hup : inp.dbUp = true
  · simp only [hup, if_true]
    cases hrow : (accounts.select fun a =>
        a.provider == provider && a.providerUserId == info.providerUserId).head? with
    | none =>
      refine .inl ⟨_, rfl, fun _ a ha hkey => ?_⟩
      have hmem := List.head?_eq_none_iff.mp hrow
      simp only [OAuthAccount.key, Prod.mk.injEq] at hkey
      exact List.not_mem_nil (hmem ▸ Table.mem_select.mpr ⟨ha, by simp [hkey]⟩)
    | some a =>
      obtain ⟨ha, hkey⟩ := Table.mem_of_select_head? hrow
      simp only [Bool.and_eq_true, beq_iff_eq] at hkey
      exact .inr ⟨a, ha, Prod.ext hkey.1 hkey.2, trivial, rfl⟩
  · exact .inl ⟨_, if_neg hup, fun h => absurd h hup⟩

variable (jwt authConfig) in
theorem lookupUser_cases (inp : Input) (userId : Uuid) (users : UserTable) :
    (∃ e, lookupUser jwt authConfig inp userId users = .returned (.error e)) ∨
      ∃ pair, ∃ user ∈ users.rows, user.id = userId ∧ inp.dbUp = true ∧
        lookupUser jwt authConfig inp userId users = .returned (.ok (.tokens pair user)) := by
  unfold lookupUser
  split
  · rename_i hup
    cases hrow : (users.select fun u => u.id == userId).head? with
    | none => exact .inl ⟨_, rfl⟩
    | some user =>
      obtain ⟨huser, hid⟩ := Table.mem_of_select_head? hrow
      exact .inr ⟨_, user, huser, beq_iff_eq.mp hid, hup, rfl⟩
  · exact .inl ⟨_, rfl⟩

/-- The rows after the statement, and whether the row asked for is among them. -/
theorem insertAccount_some {up : Bool} {account : OAuthAccount} {users : UserTable}
    {accounts accounts' : OAuthAccounts}
    (h : insertAccount up account users accounts = some accounts') :
    up = true ∧ (∀ a ∈ accounts'.rows, a ∈ accounts.rows ∨ a = account) ∧
      (account ∈ accounts'.rows ↔
        ∀ a ∈ accounts.rows, a.key = account.key → a.userId = account.userId) := by
  unfold insertAccount at h
  cases up with
  | false => cases h
  | true =>
    simp only [if_true] at h
    cases hinsert : accounts.insert account with
    | none =>
      rw [hinsert] at h
      cases h
      obtain ⟨b, hb, hkey⟩ := Table.insert_eq_none.mp hinsert
      refine ⟨rfl, fun a ha => .inl ha, fun hmem a ha hk => ?_, fun hsame => ?_⟩
      · rw [Table.eq_of_clash (fun _ _ => Eq.symm) ha hmem hk]
      · have hrow : b = account := by
          have hid := hsame b hb hkey
          simp only [OAuthAccount.key, Prod.mk.injEq] at hkey
          cases b
          cases account
          simp_all
        exact hrow ▸ hb
    | some accounts'' =>
      rw [hinsert] at h
      dsimp only at h
      split at h
      · cases h
        have hrows := Table.rows_of_insert hinsert
        refine ⟨rfl, fun a ha => ?_, iff_of_true ?_ fun a ha hk => ?_⟩
        · exact (Table.mem_of_insert hinsert).mp ha
        · exact (Table.mem_of_insert hinsert).mpr (.inr rfl)
        · exact absurd hk (Table.not_clash_of_insert hinsert a ha)
      · cases h

/-- A statement that fails has met no row with the key. -/
theorem insertAccount_none {up : Bool} {account : OAuthAccount} {users : UserTable}
    {accounts : OAuthAccounts} (h : insertAccount up account users accounts = none)
    (hup : up = true) : ∀ a ∈ accounts.rows, a.key ≠ account.key := by
  subst hup
  simp only [insertAccount, if_true] at h
  cases hinsert : accounts.insert account with
  | none =>
    rw [hinsert] at h
    cases h
  | some accounts' => exact Table.not_clash_of_insert hinsert

def githubConfig : OAuthConfig := ⟨"https://pichost", some "id", some "secret", none, none⟩

/-- GitHub takes every code, and answers with this body. -/
def githubAnswers (body : Json) : Input :=
  ⟨true, ⟨true, fun _ _ => some "token", fun _ _ => some body⟩, 0, 3, 4⟩

def numberSeven : Json := .object [("id", .number (.posInt 7))]

end PicHost.OAuth
