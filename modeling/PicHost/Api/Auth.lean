import PicHost.Api.State
import PicHost.Core.Blacklist
import PicHost.Lib.Codec
import PicHost.Lib.Run

/-!
# Access and refresh tokens

Both kinds are signed with one secret. The times in a token are seconds since the epoch, the
clock shows nanoseconds.
-/

namespace PicHost.Auth

open Serialised LabelledRun Timestamps

/-- The JWT library under the server's secret: a signed claims object verifies. -/
structure Jwt where
  sign : Object → String
  verify : String → Option Object
  verify_sign : ∀ claims, verify (sign claims) = some claims

/-- `Validation::new` tolerates this many seconds past the expiry. -/
def leeway : ℕ := 60

/-- `decode`: the claims of a token whose signature and, when asked for, expiry are valid; `now`
is in seconds. -/
def Jwt.decode (jwt : Jwt) (validateExp : Bool) (now : ℕ) (token : String) : Option Object := do
  let claims ← jwt.verify token
  let exp ← claims.nat "exp"
  if validateExp = true ∧ exp + leeway < now then none else some claims

structure AccessTokenClaims where
  sub : String
  jti : String
  exp : ℕ
  iat : ℕ
  isAdmin : Bool
  typ : String

structure RefreshTokenClaims where
  sub : String
  jti : String
  exp : ℕ
  iat : ℕ
  isAdmin : Bool
  typ : String
  accessJti : String
  accessExp : ℕ

namespace AccessTokenClaims

def toValue (c : AccessTokenClaims) : Object :=
  [("sub", .str c.sub), ("jti", .str c.jti), ("exp", .num c.exp), ("iat", .num c.iat),
    ("is_admin", .bool c.isAdmin), ("typ", .str c.typ)]

/-- Members it does not know are ignored. -/
def fromValue (v : Object) : Option AccessTokenClaims := do
  let sub ← v.str "sub"
  let jti ← v.str "jti"
  let exp ← v.nat "exp"
  let iat ← v.nat "iat"
  let isAdmin ← v.bool "is_admin"
  let typ ← v.str "typ"
  return { sub, jti, exp, iat, isAdmin, typ }

end AccessTokenClaims

namespace RefreshTokenClaims

def toValue (c : RefreshTokenClaims) : Object :=
  [("sub", .str c.sub), ("jti", .str c.jti), ("exp", .num c.exp), ("iat", .num c.iat),
    ("is_admin", .bool c.isAdmin), ("typ", .str c.typ), ("access_jti", .str c.accessJti),
    ("access_exp", .num c.accessExp)]

def fromValue (v : Object) : Option RefreshTokenClaims := do
  let sub ← v.str "sub"
  let jti ← v.str "jti"
  let exp ← v.nat "exp"
  let iat ← v.nat "iat"
  let isAdmin ← v.bool "is_admin"
  let typ ← v.str "typ"
  let accessJti ← v.str "access_jti"
  let accessExp ← v.nat "access_exp"
  return { sub, jti, exp, iat, isAdmin, typ, accessJti, accessExp }

/-- The claims as the reader of access tokens sees them. -/
def asAccess (c : RefreshTokenClaims) : AccessTokenClaims :=
  ⟨c.sub, c.jti, c.exp, c.iat, c.isAdmin, c.typ⟩

end RefreshTokenClaims

structure User where
  id : Uuid
  username : String
  email : Option String
  isAdmin : Bool
  storageQuota : Option ℤ

structure AuthConfig where
  accessTokenTtl : ℕ
  refreshTokenTtl : ℕ

structure TokenPair where
  access : String
  refresh : String
  accessClaims : AccessTokenClaims
  refreshClaims : RefreshTokenClaims

inductive TokenKind
  | access
  | refresh
deriving DecidableEq

/-- `issued` is history: the pairs of tokens handed out. -/
structure State where
  users : List User
  blacklist : Blacklist
  issued : List TokenPair

/-- Which calls of one request reach their store. -/
structure Env where
  now : ℕ
  checkUp : Bool
  dbUp : Bool
  revokeRefreshUp : Bool
  revokeAccessUp : Bool

/-- `Utc::now().timestamp()`. -/
def Env.seconds (env : Env) : ℕ := env.now / secondNanos

variable (jwt : Jwt) (config : AuthConfig)

def generateTokens (now : ℕ) (userId : Uuid) (isAdmin : Bool) (accessJti refreshJti : Uuid) :
    TokenPair :=
  let accessExp := now + config.accessTokenTtl
  let refreshExp := now + config.refreshTokenTtl
  let accessClaims : AccessTokenClaims :=
    { sub := userId.toText, jti := accessJti.toText, exp := accessExp, iat := now, isAdmin,
      typ := "access" }
  let refreshClaims : RefreshTokenClaims :=
    { sub := userId.toText, jti := refreshJti.toText, exp := refreshExp, iat := now, isAdmin,
      typ := "refresh", accessJti := accessJti.toText, accessExp }
  { access := jwt.sign accessClaims.toValue
    refresh := jwt.sign refreshClaims.toValue
    accessClaims, refreshClaims }

/-- `s.strip_prefix(pre)`. -/
def stripPrefix (pre s : String) : Option String :=
  if pre.toList.isPrefixOf s.toList then some (String.ofList (s.toList.drop pre.toList.length))
  else none

def unauthorized (key : String) : ApiError := { status := 401, key }

def extractBearerToken (header : Option String) : Except ApiError String :=
  match header with
  | none => .error (unauthorized "auth.missing_header")
  | some value =>
    match stripPrefix "Bearer " value with
    | none => .error (unauthorized "auth.invalid_header_format")
    | some token => .ok token

def decodeAndValidateJwt (now : ℕ) (token : String) : Except ApiError AccessTokenClaims :=
  -- no look at `typ`: whatever has the members of access claims passes
  match (jwt.decode true now token).bind AccessTokenClaims.fromValue with
  | some claims => .ok claims
  | none => .error (unauthorized "auth.invalid_or_expired_token")

/-- `blacklist.check(jti).await.unwrap_or(true)`. -/
def revoked (env : Env) (jti : String) (s : State) : Bool :=
  if env.checkUp then s.blacklist.check env.now jti else true

def checkBlacklistAndQuota (env : Env) (claims : AccessTokenClaims) (s : State) :
    Except ApiError AuthUser :=
  if revoked env claims.jti s then .error (unauthorized "auth.token_revoked")
  else
    match Uuid.parseStr claims.sub with
    | none => .error (unauthorized "auth.invalid_subject")
    | some userId =>
      if env.dbUp then
        .ok
          { id := userId
            -- the role is the token's, the quota the row's; without a row there is no quota
            isAdmin := claims.isAdmin
            storageQuota := (s.users.find? fun u => u.id == userId).bind (·.storageQuota) }
      else .error { status := 500, key := "common.internal_error" }

def requireAuth (env : Env) (header : Option String) (s : State) : Except ApiError AuthUser :=
  match extractBearerToken header with
  | .error e => .error e
  | .ok token =>
    match decodeAndValidateJwt jwt env.seconds token with
    | .error e => .error e
    | .ok claims => checkBlacklistAndQuota env claims s

/-- `blacklist.revoke` with a lifetime in seconds, its failure ignored. -/
def revoke (up : Bool) (jti : String) (now ttl : ℕ) (blacklist : Blacklist) : Blacklist :=
  if up then (blacklist.revoke now jti (ttl * secondNanos)).getD blacklist else blacklist

def revokeOldTokens (env : Env) (claims : RefreshTokenClaims) (blacklist : Blacklist) :
    Blacklist :=
  let blacklist :=
    revoke env.revokeRefreshUp claims.jti env.now (claims.exp - env.seconds) blacklist
  -- the access token of the pair is revoked only while it is alive
  let accessTtl := claims.accessExp - env.seconds
  if 0 < accessTtl then revoke env.revokeAccessUp claims.accessJti env.now accessTtl blacklist
  else blacklist

def lookupUserForRefresh (env : Env) (sub : String) (s : State) : Except ApiError User :=
  match Uuid.parseStr sub with
  | none => .error (unauthorized "auth.invalid_subject")
  | some userId =>
    if env.dbUp then
      match s.users.find? fun u => u.id == userId with
      | some user => .ok user
      | none => .error (unauthorized "auth.user_not_found")
    else .error { status := 500, key := "auth.internal_error" }

/-- A pair of tokens is handed out. -/
def State.issue (s : State) (pair : TokenPair) : State :=
  { s with issued := s.issued ++ [pair] }

/-- `refresh`: the old pair is revoked once the new one exists. -/
def refresh (env : Env) (refreshToken : String) (accessJti refreshJti : Uuid) (s : State) :
    Except ApiError (TokenPair × User) × State :=
  match (jwt.decode true env.seconds refreshToken).bind RefreshTokenClaims.fromValue with
  | none => (.error (unauthorized "auth.invalid_refresh_token"), s)
  | some claims =>
    if claims.typ ≠ "refresh" then (.error (unauthorized "auth.invalid_token_type"), s)
    else if revoked env claims.jti s then
      (.error (unauthorized "auth.refresh_token_revoked"), s)
    else
      match lookupUserForRefresh env claims.sub s with
      | .error e => (.error e, s)
      | .ok user =>
        let pair := generateTokens jwt config env.seconds user.id user.isAdmin accessJti refreshJti
        (.ok (pair, user),
          { s.issue pair with blacklist := revokeOldTokens env claims s.blacklist })

def logout (env : Env) (header : Option String) (s : State) : Except ApiError String × State :=
  match header.bind (stripPrefix "Bearer ") with
  | none => (.error (unauthorized "auth.missing_header"), s)
  | some token =>
    -- expired tokens can be logged out, too
    match (jwt.decode false env.seconds token).bind AccessTokenClaims.fromValue with
    | none => (.error (unauthorized "auth.invalid_token"), s)
    | some claims =>
      if claims.typ ≠ "access" then
        (.error { status := 400, key := "auth.logout_access_only" }, s)
      else
        let ttl := claims.exp - env.seconds
        let blacklist :=
          if 0 < ttl then revoke env.revokeAccessUp claims.jti env.now ttl s.blacklist
          else s.blacklist
        (.ok "logged out successfully", { s with blacklist })

/-- `login` stands for every handler that hands out the tokens of a user: register, login
and the OAuth callback; its `now` is in seconds. -/
inductive Action
  | setUsers (users : List User)
  | login (now : ℕ) (userId : Uuid) (isAdmin : Bool) (accessJti refreshJti : Uuid)
  | refresh (env : Env) (refreshToken : String) (accessJti refreshJti : Uuid)
  | logout (env : Env) (header : Option String)
  | requireAuth (env : Env) (header : Option String)

def step (s : State) : Action → State
  | .setUsers users => { s with users }
  | .login now userId isAdmin accessJti refreshJti =>
    s.issue (generateTokens jwt config now userId isAdmin accessJti refreshJti)
  | .refresh env token accessJti refreshJti =>
    (refresh jwt config env token accessJti refreshJti s).2
  | .logout env header => (logout jwt env header s).2
  | .requireAuth _ _ => s

/-- A token was handed out as one of its kind. -/
def IssuedAs (s : State) (token : String) : TokenKind → Prop
  | .access => ∃ pair ∈ s.issued, pair.access = token
  | .refresh => ∃ pair ∈ s.issued, pair.refresh = token

/-- An issued token authenticates a request only as an access token, and is exchanged only
as a refresh token. -/
def Separated (s : State) : Action → Prop
  | .requireAuth env header => ∀ token user, extractBearerToken header = .ok token →
      requireAuth jwt env header s = .ok user → ∀ kind, IssuedAs s token kind → kind = .access
  | .refresh env token accessJti refreshJti => ∀ reply,
      (refresh jwt config env token accessJti refreshJti s).1 = .ok reply →
        ∀ kind, IssuedAs s token kind → kind = .refresh
  | _ => True

/-- A refresh token sent as a bearer token is past its expiry or revoked, or a store is down. -/
def NoLiveRefreshToken (s : State) : Action → Prop
  | .requireAuth env header => ∀ pair ∈ s.issued, extractBearerToken header = .ok pair.refresh →
      pair.refreshClaims.exp + leeway < env.seconds ∨ revoked env pair.refreshClaims.jti s = true ∨
        env.dbUp = false
  | _ => True

/-- What the bearer token of a request says. -/
def bearerClaims (header : Option String) : Option AccessTokenClaims :=
  match extractBearerToken header with
  | .ok token => (jwt.verify token).bind AccessTokenClaims.fromValue
  | .error _ => none

/-- Every pair handed out was generated for some user at some time. -/
def WellIssued (s : State) : Prop :=
  ∀ pair ∈ s.issued, ∃ now userId isAdmin accessJti refreshJti,
    pair = generateTokens jwt config now userId isAdmin accessJti refreshJti

theorem stripPrefix_append (pre s : String) : stripPrefix pre (pre ++ s) = some s := by
  simp [stripPrefix]

theorem extractBearerToken_bearer (token : String) :
    extractBearerToken (some ("Bearer " ++ token)) = .ok token := by
  simp only [extractBearerToken, stripPrefix_append]

theorem access_fromValue_access (c : AccessTokenClaims) :
    AccessTokenClaims.fromValue c.toValue = some c := by
  simp [AccessTokenClaims.fromValue, AccessTokenClaims.toValue, Object.str, Object.nat,
    Object.bool, Object.field]

/-- The members of refresh claims include those of access claims. -/
theorem access_fromValue_refresh (c : RefreshTokenClaims) :
    AccessTokenClaims.fromValue c.toValue = some c.asAccess := by
  simp [AccessTokenClaims.fromValue, RefreshTokenClaims.toValue, RefreshTokenClaims.asAccess,
    Object.str, Object.nat, Object.bool, Object.field]

/-- Access claims have no `access_jti`. -/
theorem refresh_fromValue_access (c : AccessTokenClaims) :
    RefreshTokenClaims.fromValue c.toValue = none := by
  simp [RefreshTokenClaims.fromValue, AccessTokenClaims.toValue, Object.str, Object.nat,
    Object.bool, Object.field]

theorem refresh_fromValue_refresh (c : RefreshTokenClaims) :
    RefreshTokenClaims.fromValue c.toValue = some c := by
  simp [RefreshTokenClaims.fromValue, RefreshTokenClaims.toValue, Object.str, Object.nat,
    Object.bool, Object.field]

theorem exp_access (c : AccessTokenClaims) : Object.nat c.toValue "exp" = some c.exp := by
  simp [AccessTokenClaims.toValue, Object.nat, Object.field]

theorem exp_refresh (c : RefreshTokenClaims) : Object.nat c.toValue "exp" = some c.exp := by
  simp [RefreshTokenClaims.toValue, Object.nat, Object.field]

variable {jwt} in
theorem verify_of_decode {validateExp : Bool} {now : ℕ} {token : String} {claims : Object}
    (h : jwt.decode validateExp now token = some claims) : jwt.verify token = some claims := by
  simp only [Jwt.decode, Option.bind_eq_bind, Option.bind_eq_some_iff] at h
  obtain ⟨claims', hverify, exp, -, hclaims⟩ := h
  split at hclaims
  · cases hclaims
  · rw [hverify, hclaims]

/-- A signed claims object decodes unless its expiry is asked for and past. -/
theorem decode_sign {claims : Object} {exp : ℕ} (hexp : claims.nat "exp" = some exp)
    (validateExp : Bool) (now : ℕ) :
    jwt.decode validateExp now (jwt.sign claims) =
      if validateExp = true ∧ exp + leeway < now then none else some claims := by
  simp [Jwt.decode, jwt.verify_sign, hexp]

/-- A signed claims object is a valid bearer token until it expires, if it has the members
of access claims. -/
theorem decodeAndValidateJwt_sign {claims : Object} {c : AccessTokenClaims}
    (hexp : claims.nat "exp" = some c.exp) (hc : AccessTokenClaims.fromValue claims = some c)
    (now : ℕ) :
    decodeAndValidateJwt jwt now (jwt.sign claims) =
      if c.exp + leeway < now then .error (unauthorized "auth.invalid_or_expired_token")
      else .ok c := by
  rw [decodeAndValidateJwt, decode_sign jwt hexp]
  by_cases h : c.exp + leeway < now
  · simp [h]
  · simp [h, hc]

/-- Exchanging an access token is refused: its claims do not deserialise. -/
theorem refresh_of_access (env : Env) (c : AccessTokenClaims) (accessJti refreshJti : Uuid)
    (s : State) :
    refresh jwt config env (jwt.sign c.toValue) accessJti refreshJti s =
      (.error (unauthorized "auth.invalid_refresh_token"), s) := by
  have hnone : (jwt.decode true env.seconds (jwt.sign c.toValue)).bind
      RefreshTokenClaims.fromValue =
      none := by
    rw [decode_sign jwt (exp_access c)]
    split
    · rfl
    · exact refresh_fromValue_access c
  simp only [refresh, hnone]

/-- When the middleware lets the bearer of such a token through. -/
theorem requireAuth_sign_iff {env : Env} {header : Option String} {s : State} {claims : Object}
    {c : AccessTokenClaims} {userId : Uuid} (hexp : claims.nat "exp" = some c.exp)
    (hc : AccessTokenClaims.fromValue claims = some c) (hsub : c.sub = userId.toText)
    (hheader : extractBearerToken header = .ok (jwt.sign claims)) :
    (∃ user, requireAuth jwt env header s = .ok user) ↔
      ¬ (c.exp + leeway < env.seconds ∨ revoked env c.jti s = true ∨ env.dbUp = false) := by
  simp only [requireAuth, hheader, decodeAndValidateJwt_sign jwt hexp hc]
  by_cases hlate : c.exp + leeway < env.seconds
  · simp [hlate]
  · simp only [hlate, if_false, false_or, checkBlacklistAndQuota, hsub, Uuid.parseStr_toText]
    cases revoked env c.jti s with
    | true => simp
    | false =>
      cases env.dbUp with
      | true => simp
      | false => simp

/-- An access token is accepted until it expires or is revoked. -/
theorem requireAuth_access_iff {env : Env} {header : Option String} {s : State} (now : ℕ)
    (userId : Uuid) (isAdmin : Bool) (a r : Uuid)
    (hheader : extractBearerToken header =
      .ok (generateTokens jwt config now userId isAdmin a r).access) :
    (∃ user, requireAuth jwt env header s = .ok user) ↔
      ¬ (now + config.accessTokenTtl + leeway < env.seconds ∨ revoked env a.toText s = true ∨
        env.dbUp = false) :=
  requireAuth_sign_iff jwt (exp_access _) (access_fromValue_access _) rfl hheader

/-- So is a refresh token. -/
theorem requireAuth_refresh_iff {env : Env} {header : Option String} {s : State} (now : ℕ)
    (userId : Uuid) (isAdmin : Bool) (a r : Uuid)
    (hheader : extractBearerToken header =
      .ok (generateTokens jwt config now userId isAdmin a r).refresh) :
    (∃ user, requireAuth jwt env header s = .ok user) ↔
      ¬ (now + config.refreshTokenTtl + leeway < env.seconds ∨ revoked env r.toText s = true ∨
        env.dbUp = false) :=
  requireAuth_sign_iff jwt (exp_refresh _) (access_fromValue_refresh _) rfl hheader

/-- The bearer of a live access token has the role the token names. -/
theorem requireAuth_access {env : Env} {s : State} {now : ℕ} {userId : Uuid} {isAdmin : Bool}
    {a r : Uuid} (hlive : env.seconds ≤ now + config.accessTokenTtl + leeway)
    (hgood : revoked env a.toText s = false) (hup : env.dbUp = true) :
    requireAuth jwt env
      (some ("Bearer " ++ (generateTokens jwt config now userId isAdmin a r).access)) s =
      .ok ⟨userId, isAdmin, (s.users.find? fun u => u.id == userId).bind (·.storageQuota)⟩ := by
  simp only [requireAuth, extractBearerToken_bearer, generateTokens,
    decodeAndValidateJwt_sign jwt (exp_access _) (access_fromValue_access _),
    if_neg (Nat.not_lt.mpr hlive), checkBlacklistAndQuota, hgood, Uuid.parseStr_toText, hup,
    Bool.false_eq_true, if_false, if_true]

/-- Who is let in is the user the token names, with the role it gives. -/
theorem claims_of_requireAuth {env : Env} {header : Option String} {s : State} {user : AuthUser}
    (h : requireAuth jwt env header s = .ok user) : ∃ claims ∈ bearerClaims jwt header,
      user.isAdmin = claims.isAdmin ∧ Uuid.parseStr claims.sub = some user.id := by
  unfold requireAuth at h
  split at h
  · cases h
  · rename_i token htoken
    split at h
    · cases h
    · rename_i claims hclaims
      refine ⟨claims, ?_, ?_⟩
      · unfold decodeAndValidateJwt at hclaims
        split at hclaims
        · rename_i hdecode
          cases hclaims
          obtain ⟨object, hobject, hvalue⟩ := Option.bind_eq_some_iff.mp hdecode
          rw [bearerClaims, htoken]
          exact Option.bind_eq_some_iff.mpr ⟨object, verify_of_decode hobject, hvalue⟩
        · cases hclaims
      · unfold checkBlacklistAndQuota at h
        split at h
        · cases h
        · split at h
          · cases h
          · rename_i userId hsub
            split at h
            · cases h
              exact ⟨rfl, hsub⟩
            · cases h

theorem bearerClaims_access (now : ℕ) (userId : Uuid) (isAdmin : Bool) (a r : Uuid) :
    bearerClaims jwt
        (some ("Bearer " ++ (generateTokens jwt config now userId isAdmin a r).access)) =
      some (generateTokens jwt config now userId isAdmin a r).accessClaims := by
  rw [bearerClaims, extractBearerToken_bearer]
  show (jwt.verify (jwt.sign (AccessTokenClaims.toValue _))).bind _ = _
  rw [jwt.verify_sign]
  exact access_fromValue_access _

theorem wellIssued_issue {s : State} (h : WellIssued jwt config s) (now : ℕ) (userId : Uuid)
    (isAdmin : Bool) (accessJti refreshJti : Uuid) :
    WellIssued jwt config
      (s.issue (generateTokens jwt config now userId isAdmin accessJti refreshJti)) := by
  intro pair hpair
  rcases List.mem_append.mp hpair with hpair | hpair
  · exact h pair hpair
  · exact ⟨now, userId, isAdmin, accessJti, refreshJti, List.mem_singleton.mp hpair⟩

theorem WellIssued.step {s : State} (h : WellIssued jwt config s) (a : Action) :
    WellIssued jwt config (step jwt config s a) := by
  cases a with
  | setUsers users => exact h
  | login now userId isAdmin accessJti refreshJti => exact wellIssued_issue jwt config h _ _ _ _ _
  | refresh env token accessJti refreshJti =>
    simp only [Auth.step, refresh]
    split
    · exact h
    · split
      · exact h
      · split
        · exact h
        · split
          · exact h
          · exact wellIssued_issue jwt config h _ _ _ _ _
  | logout env header =>
    simp only [Auth.step, logout]
    split
    · exact h
    · split
      · exact h
      · split <;> exact h
  | requireAuth env header => exact h

/-- The two kinds are kept apart at a step exactly when no live refresh token is presented. -/
theorem separated_iff {s : State} (h : WellIssued jwt config s) (a : Action) :
    Separated jwt config s a ↔ NoLiveRefreshToken s a := by
  cases a with
  | setUsers | login | logout => exact Iff.rfl
  | refresh env token accessJti refreshJti =>
    refine iff_of_true (fun reply hok kind hkind => ?_) trivial
    cases kind with
    | refresh => rfl
    | access =>
      obtain ⟨pair, hpair, rfl⟩ := hkind
      obtain ⟨now, userId, isAdmin, a, r, rfl⟩ := h pair hpair
      simp only [generateTokens, refresh_of_access] at hok
      cases hok
  | requireAuth env header =>
    constructor
    · intro hsep pair hpair hheader
      by_contra hlive
      have hissued : IssuedAs s pair.refresh .refresh := ⟨pair, hpair, rfl⟩
      obtain ⟨now, userId, isAdmin, a, r, rfl⟩ := h pair hpair
      obtain ⟨user, hok⟩ :=
        (requireAuth_refresh_iff jwt config now userId isAdmin a r hheader).mpr hlive
      exact absurd (hsep _ user hheader hok .refresh hissued) (by decide)
    · intro hdead token user hheader hok kind hkind
      cases kind with
      | access => rfl
      | refresh =>
        obtain ⟨pair, hpair, rfl⟩ := hkind
        have hgone := hdead pair hpair hheader
        obtain ⟨now, userId, isAdmin, a, r, rfl⟩ := h pair hpair
        have hlive :=
          (requireAuth_refresh_iff jwt config now userId isAdmin a r hheader).mp ⟨user, hok⟩
        exact absurd hgone hlive

/-- Nobody has a token yet. -/
def State.fresh (users : List User) (blacklist : Blacklist) : State := ⟨users, blacklist, []⟩

/-- Tokens of the two kinds are kept apart in exactly the runs in which no live refresh token
is sent as a bearer token: the middleware never looks at `typ`. -/
theorem token_kinds_separated_iff (users : List User) (blacklist : Blacklist)
    (as : List Action) :
    AllSteps (step jwt config) (Separated jwt config) (State.fresh users blacklist) as ↔
      AllSteps (step jwt config) NoLiveRefreshToken (State.fresh users blacklist) as :=
  allSteps_congr (fun _ a hs => hs.step jwt config a) (fun _ a hs => separated_iff jwt config hs a)
    (fun _ h => absurd h List.not_mem_nil) as

/-- Tokens that spell their claims out. -/
def plainJwt : Jwt where
  sign claims := String.ofList (List.replicate (Encodable.encode claims) 'a')
  verify token := Encodable.decode token.length
  verify_sign claims := by simp

def shortConfig : AuthConfig := ⟨900, 604800⟩

/-- User 1 logs in and sends the refresh token as a bearer token after the access token
expired. -/
def bearerRun : List Action :=
  [.login 0 1 false 2 3,
    .requireAuth ⟨3600 * secondNanos, true, true, true, true⟩
      (some ("Bearer " ++ (generateTokens plainJwt shortConfig 0 1 false 2 3).refresh))]

/-- Neither blacklist has entries. -/
theorem token_kinds_not_separated :
    ¬ AllSteps (step plainJwt shortConfig) (Separated plainJwt shortConfig)
        (State.fresh [⟨1, "a", none, false, none⟩] .emptyRedis) bearerRun ∧
    ¬ AllSteps (step plainJwt shortConfig) (Separated plainJwt shortConfig)
        (State.fresh [⟨1, "a", none, false, none⟩] .emptySqlite) bearerRun := by
  have hmixed : ∀ blacklist : Blacklist, (∀ jti, blacklist.entry jti = none) →
      ¬ AllSteps (step plainJwt shortConfig) (Separated plainJwt shortConfig)
        (State.fresh [⟨1, "a", none, false, none⟩] blacklist) bearerRun := by
    intro blacklist hempty h
    rcases ((token_kinds_separated_iff plainJwt shortConfig _ _ _).mp h).2.1 _
      (List.mem_singleton_self _) (extractBearerToken_bearer _) with hexp | hrevoked | hdb
    · exact absurd hexp (by decide)
    · rw [revoked, if_pos rfl] at hrevoked
      exact absurd hrevoked (by simp [Blacklist.check, step, State.issue, State.fresh, hempty])
    · cases hdb
  exact ⟨hmixed _ fun _ => rfl, hmixed _ fun _ => rfl⟩

end PicHost.Auth
