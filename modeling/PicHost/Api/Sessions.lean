import PicHost.Api.Auth
import PicHost.Core.Blacklist

/-!
# Sessions

The handlers that issue and revoke tokens, over the blacklist of either mode and a clock that
shows nanoseconds. The stores are there. A request presents a token the server issued: no other
text verifies.
-/

namespace PicHost.Auth.TokenPair

def text (p : TokenPair) : TokenKind → String
  | .access => p.access
  | .refresh => p.refresh

def jti (p : TokenPair) : TokenKind → String
  | .access => p.accessClaims.jti
  | .refresh => p.refreshClaims.jti

def exp (p : TokenPair) : TokenKind → ℕ
  | .access => p.accessClaims.exp
  | .refresh => p.refreshClaims.exp

end PicHost.Auth.TokenPair

namespace PicHost.Sessions

open Serialised LabelledRun Timestamps
open Auth (Jwt AuthConfig User TokenPair TokenKind AccessTokenClaims RefreshTokenClaims leeway)

/-- `issued` is history. -/
structure State where
  now : ℕ
  users : List User
  blacklist : Blacklist
  issued : List TokenPair

namespace State

/-- `Utc::now().timestamp()`. -/
def seconds (s : State) : ℕ := s.now / secondNanos

/-- What the handlers work on. -/
def auth (s : State) : Auth.State := ⟨s.users, s.blacklist, s.issued⟩

def setAuth (s : State) (t : Auth.State) : State := ⟨s.now, t.users, t.blacklist, t.issued⟩

def env (s : State) : Auth.Env := ⟨s.now, true, true, true, true⟩

/-- Nobody has a token yet. -/
def start (now : ℕ) (users : List User) (blacklist : Blacklist) : State :=
  ⟨now, users, blacklist, []⟩

/-- The identifiers occur nowhere, as new ones never do. -/
def fresh (s : State) (accessJti refreshJti : Uuid) : Bool :=
  accessJti != refreshJti && [accessJti.toText, refreshJti.toText].all fun jti =>
    (s.blacklist.entry jti).isNone && s.issued.all fun p =>
      p.jti .access != jti && p.jti .refresh != jti

def issue (s : State) (pair : TokenPair) : State := { s with issued := s.issued ++ [pair] }

/-- `blacklist.revoke`, its failure ignored. -/
def revoke (s : State) (jti : String) (ttl : ℕ) : State :=
  { s with blacklist := Auth.revoke true jti s.now ttl s.blacklist }

end State

variable (jwt : Jwt) (config : AuthConfig)

def requireAuth (header : Option String) (s : State) : Except ApiError AuthUser :=
  Auth.requireAuth jwt s.env header s.auth

def revokeOldTokens (claims : RefreshTokenClaims) (s : State) : State :=
  { s with blacklist := Auth.revokeOldTokens s.env claims s.blacklist }

def refresh (refreshToken : String) (accessJti refreshJti : Uuid) (s : State) :
    Except ApiError (TokenPair × User) × State :=
  (Auth.refresh jwt config s.env refreshToken accessJti refreshJti s.auth).map id s.setAuth

def logout (header : Option String) (s : State) : Except ApiError String × State :=
  (Auth.logout jwt s.env header s.auth).map id s.setAuth

def bearer (token : String) : Option String := some ("Bearer " ++ token)

/-- `login` stands for every handler that hands out the tokens of a user. A request for a
refresh or a logout presents the token of the `i`-th pair that is meant for it. -/
inductive Action
  | tick (d : ℕ)
  | setUsers (users : List User)
  | login (userId : Uuid) (isAdmin : Bool) (accessJti refreshJti : Uuid)
  | refresh (i : ℕ) (accessJti refreshJti : Uuid)
  | logout (i : ℕ)

def step (s : State) : Action → State
  | .tick d => { s with now := s.now + d }
  | .setUsers users => { s with users }
  | .login userId isAdmin accessJti refreshJti =>
    if s.fresh accessJti refreshJti then
      s.issue (Auth.generateTokens jwt config s.seconds userId isAdmin accessJti refreshJti)
    else s
  | .refresh i accessJti refreshJti =>
    match s.issued[i]? with
    | some pair =>
      if s.fresh accessJti refreshJti then
        (refresh jwt config pair.refresh accessJti refreshJti s).2
      else s
    | none => s
  | .logout i =>
    match s.issued[i]? with
    | some pair => (logout jwt (bearer pair.access) s).2
    | none => s

def run (now : ℕ) (users : List User) (blacklist : Blacklist) (as : List Action) : State :=
  as.foldl (step jwt config) (.start now users blacklist)

/-- Neither the middleware nor an exchange accepts the token. -/
def Refused (s : State) (token : String) : Prop :=
  (∀ header user, Auth.extractBearerToken header = .ok token →
    requireAuth jwt header s ≠ .ok user) ∧
  ∀ accessJti refreshJti reply, (refresh jwt config token accessJti refreshJti s).1 ≠ .ok reply

/-- Nor will they ever. -/
def Out (s : State) (token : String) : Prop :=
  ∀ as : List Action, Refused jwt config (as.foldl (step jwt config) s) token

/-- The pair was generated for some user at some time. -/
def Generated (pair : TokenPair) : Prop :=
  ∃ now userId isAdmin accessJti refreshJti,
    pair = Auth.generateTokens jwt config now userId isAdmin accessJti refreshJti

variable {jwt config}

@[simp] theorem auth_revoked (s : State) (jti : String) :
    Auth.revoked s.env jti s.auth = s.blacklist.check s.now jti := rfl

theorem State.revoke_eq (s : State) (jti : String) (ttl : ℕ) :
    s.revoke jti ttl =
      { s with blacklist :=
          (s.blacklist.revoke s.now jti (ttl * secondNanos)).getD s.blacklist } := by
  rw [State.revoke, Auth.revoke, if_pos rfl]

theorem revokeOldTokens_eq (claims : RefreshTokenClaims) (s : State) :
    revokeOldTokens claims s =
      if 0 < claims.accessExp - s.seconds then
        (s.revoke claims.jti (claims.exp - s.seconds)).revoke claims.accessJti
          (claims.accessExp - s.seconds)
      else s.revoke claims.jti (claims.exp - s.seconds) := by
  unfold revokeOldTokens Auth.revokeOldTokens
  dsimp only
  split
  · rename_i hpos
    exact (if_pos hpos).symm
  · rename_i hneg
    exact (if_neg hneg).symm

variable (jwt config) in
/-- An exchange changes the state only if it is accepted. -/
theorem refresh_eq (token : String) (accessJti refreshJti : Uuid) (s : State) :
    (∃ e, refresh jwt config token accessJti refreshJti s = (.error e, s)) ∨
    ∃ claims user, (jwt.decode true s.seconds token).bind RefreshTokenClaims.fromValue =
        some claims ∧ s.blacklist.check s.now claims.jti = false ∧
      refresh jwt config token accessJti refreshJti s =
        (.ok (Auth.generateTokens jwt config s.seconds user.id user.isAdmin accessJti refreshJti,
            user),
          revokeOldTokens claims (s.issue (Auth.generateTokens jwt config s.seconds user.id
            user.isAdmin accessJti refreshJti))) := by
  rw [refresh, Auth.refresh, show s.env.seconds = s.seconds from rfl]
  cases (jwt.decode true s.seconds token).bind RefreshTokenClaims.fromValue with
  | none => exact .inl ⟨_, rfl⟩
  | some claims =>
    dsimp only
    split
    · exact .inl ⟨_, rfl⟩
    · rw [auth_revoked]
      cases hcheck : s.blacklist.check s.now claims.jti with
      | true => exact .inl ⟨_, rfl⟩
      | false =>
        cases Auth.lookupUserForRefresh s.env claims.sub s.auth with
        | error e => exact .inl ⟨e, rfl⟩
        | ok user => exact .inr ⟨claims, user, rfl, hcheck, rfl⟩

variable (jwt) in
/-- A logout revokes the token if it is an access token. -/
theorem logout_eq (header : Option String) (s : State) :
    (∃ e, logout jwt header s = (.error e, s)) ∨
    ∃ claims : AccessTokenClaims, logout jwt header s = (.ok "logged out successfully",
      if 0 < claims.exp - s.seconds then s.revoke claims.jti (claims.exp - s.seconds) else s) := by
  rw [logout, Auth.logout, show s.env.seconds = s.seconds from rfl]
  split
  · exact .inl ⟨_, rfl⟩
  · split
    · exact .inl ⟨_, rfl⟩
    · rename_i claims _
      split
      · exact .inl ⟨_, rfl⟩
      · refine .inr ⟨claims, ?_⟩
        dsimp only
        split <;> rfl

/-- What an exchange of an issued refresh token does. -/
theorem refresh_of_generated {pair : TokenPair} (hpair : Generated jwt config pair)
    (accessJti refreshJti : Uuid) (s : State) :
    (∃ e, refresh jwt config pair.refresh accessJti refreshJti s = (.error e, s)) ∨
    ¬ (pair.exp .refresh + leeway < s.seconds) ∧
      s.blacklist.check s.now (pair.jti .refresh) = false ∧
      ∃ user, refresh jwt config pair.refresh accessJti refreshJti s =
        (.ok (Auth.generateTokens jwt config s.seconds user.id user.isAdmin accessJti refreshJti,
            user),
          revokeOldTokens pair.refreshClaims (s.issue (Auth.generateTokens jwt config s.seconds
            user.id user.isAdmin accessJti refreshJti))) := by
  obtain ⟨now, userId, isAdmin, a, r, rfl⟩ := hpair
  generalize hclaims : (Auth.generateTokens jwt config now userId isAdmin a r).refreshClaims = c
  have htoken : (Auth.generateTokens jwt config now userId isAdmin a r).refresh =
      jwt.sign c.toValue := by rw [← hclaims]; rfl
  rw [htoken]
  simp only [TokenPair.exp, TokenPair.jti, hclaims]
  rcases refresh_eq jwt config (jwt.sign c.toValue) accessJti refreshJti s
    with herror | ⟨claims, user, hdecode, hgood, hok⟩
  · exact .inl herror
  · rw [Auth.decode_sign jwt (Auth.exp_refresh c)] at hdecode
    by_cases hdead : c.exp + leeway < s.seconds
    · rw [if_pos ⟨rfl, hdead⟩] at hdecode
      cases hdecode
    · rw [if_neg fun h => hdead h.2, Option.bind_some, Auth.refresh_fromValue_refresh,
        Option.some.injEq] at hdecode
      subst hdecode
      exact .inr ⟨hdead, hgood, user, hok⟩

/-- An exchange of a live refresh token of a user who is there is accepted. -/
theorem refresh_generateTokens {now : ℕ} {userId : Uuid} {isAdmin : Bool} {a r : Uuid} {s : State}
    {user : User} (hlive : ¬ now + config.refreshTokenTtl + leeway < s.seconds)
    (hgood : s.blacklist.check s.now r.toText = false)
    (huser : (s.users.find? fun u => u.id == userId) = some user) (accessJti refreshJti : Uuid) :
    refresh jwt config (Auth.generateTokens jwt config now userId isAdmin a r).refresh accessJti
        refreshJti s =
      (.ok (Auth.generateTokens jwt config s.seconds user.id user.isAdmin accessJti refreshJti,
          user),
        revokeOldTokens (Auth.generateTokens jwt config now userId isAdmin a r).refreshClaims
          (s.issue (Auth.generateTokens jwt config s.seconds user.id user.isAdmin accessJti
            refreshJti))) := by
  generalize hclaims : (Auth.generateTokens jwt config now userId isAdmin a r).refreshClaims = c
  have htoken : (Auth.generateTokens jwt config now userId isAdmin a r).refresh =
      jwt.sign c.toValue := by rw [← hclaims]; rfl
  have hdecode : (jwt.decode true s.env.seconds (jwt.sign c.toValue)).bind
      RefreshTokenClaims.fromValue = some c := by
    rw [Auth.decode_sign jwt (Auth.exp_refresh c), if_neg, Option.bind_some,
      Auth.refresh_fromValue_refresh]
    rw [← hclaims]
    exact fun h => hlive h.2
  have hlookup : Auth.lookupUserForRefresh s.env c.sub s.auth = .ok user := by
    rw [← hclaims, Auth.lookupUserForRefresh]
    simp only [Auth.generateTokens, Uuid.parseStr_toText, State.env, State.auth, huser, if_true]
  have hcheck : Auth.revoked s.env c.jti s.auth = false := by
    rw [auth_revoked, ← hclaims]
    exact hgood
  have htyp : c.typ = "refresh" := by rw [← hclaims]; rfl
  rw [refresh, Auth.refresh, htoken, hdecode]
  simp only [htyp, ne_eq, not_true_eq_false, if_false, hcheck, hlookup, Bool.false_eq_true]
  rfl

/-- The middleware accepts a token of an issued pair until it expires or is revoked. -/
theorem requireAuth_generated_iff {pair : TokenPair} (hpair : Generated jwt config pair)
    (kind : TokenKind) {env : Auth.Env} {header : Option String} {s : Auth.State}
    (hheader : Auth.extractBearerToken header = .ok (pair.text kind)) :
    (∃ user, Auth.requireAuth jwt env header s = .ok user) ↔
      ¬ (pair.exp kind + leeway < env.seconds ∨ Auth.revoked env (pair.jti kind) s = true ∨
        env.dbUp = false) := by
  obtain ⟨now, userId, isAdmin, a, r, rfl⟩ := hpair
  cases kind with
  | access => exact Auth.requireAuth_access_iff jwt config now userId isAdmin a r hheader
  | refresh => exact Auth.requireAuth_refresh_iff jwt config now userId isAdmin a r hheader

theorem requireAuth_iff {pair : TokenPair} (hpair : Generated jwt config pair) (kind : TokenKind)
    {header : Option String} {s : State}
    (hheader : Auth.extractBearerToken header = .ok (pair.text kind)) :
    (∃ user, requireAuth jwt header s = .ok user) ↔
      ¬ (pair.exp kind + leeway < s.seconds ∨
        s.blacklist.check s.now (pair.jti kind) = true) := by
  have hup : s.env.dbUp = true := rfl
  have hnow : s.env.seconds = s.seconds := rfl
  refine (requireAuth_generated_iff hpair kind hheader).trans ?_
  simp only [auth_revoked, hup, hnow, Bool.true_eq_false, or_false]

/-- A token of an issued pair is refused while it is on the blacklist and once it is past its
expiry and the leeway. -/
theorem refused_iff {pair : TokenPair} (hpair : Generated jwt config pair) (kind : TokenKind)
    (s : State) : Refused jwt config s (pair.text kind) ↔
      pair.exp kind + leeway < s.seconds ∨ s.blacklist.check s.now (pair.jti kind) = true := by
  constructor
  · rintro ⟨hauth, -⟩
    by_contra hlive
    have hheader := Auth.extractBearerToken_bearer (pair.text kind)
    obtain ⟨user, hok⟩ := (requireAuth_iff hpair kind hheader).mpr hlive
    exact hauth _ user hheader hok
  · intro hdead
    refine ⟨fun header user hheader hok => ?_, fun a r reply hok => ?_⟩
    · exact (requireAuth_iff hpair kind hheader).mp ⟨user, hok⟩ hdead
    · cases kind with
      | access =>
        obtain ⟨now, userId, isAdmin, a', r', rfl⟩ := hpair
        rw [refresh, show TokenPair.text _ .access = jwt.sign (AccessTokenClaims.toValue _)
          from rfl, Auth.refresh_of_access] at hok
        cases hok
      | refresh =>
        rcases refresh_of_generated hpair a r s with ⟨e, he⟩ | ⟨hlive, hgood, -⟩
        · rw [show pair.text .refresh = pair.refresh from rfl, he] at hok
          cases hok
        · rcases hdead with h | h
          · exact hlive h
          · rw [hgood] at h
            cases h

theorem logout_of_generated {pair : TokenPair} (hpair : Generated jwt config pair) (s : State) :
    logout jwt (bearer pair.access) s = (.ok "logged out successfully",
      if 0 < pair.exp .access - s.seconds then
        s.revoke (pair.jti .access) (pair.exp .access - s.seconds)
      else s) := by
  obtain ⟨now, userId, isAdmin, a, r, rfl⟩ := hpair
  generalize hclaims : (Auth.generateTokens jwt config now userId isAdmin a r).accessClaims = c
  have htyp : c.typ = "access" := by rw [← hclaims]; rfl
  have htoken : (Auth.generateTokens jwt config now userId isAdmin a r).access =
      jwt.sign c.toValue := by rw [← hclaims]; rfl
  simp only [TokenPair.exp, TokenPair.jti, hclaims, htoken, logout, Auth.logout, bearer,
    Option.bind_some, Auth.stripPrefix_append, Auth.decode_sign jwt (Auth.exp_access c),
    Bool.false_eq_true, false_and, if_false, Auth.access_fromValue_access, htyp, ne_eq,
    not_true_eq_false, show s.env.seconds = s.seconds from rfl]
  split <;> rfl

/-- A refresh token names the access token it came with. -/
theorem revokeOldTokens_of_generated {pair : TokenPair} (hpair : Generated jwt config pair)
    (s : State) : revokeOldTokens pair.refreshClaims s =
      let s' := s.revoke (pair.jti .refresh) (pair.exp .refresh - s.seconds)
      if 0 < pair.exp .access - s.seconds then
        s'.revoke (pair.jti .access) (pair.exp .access - s.seconds)
      else s' := by
  obtain ⟨now, userId, isAdmin, a, r, rfl⟩ := hpair
  exact revokeOldTokens_eq _ s

namespace State

theorem entry_revoke_ne (s : State) {jti jti' : String} (ttl : ℕ) (hne : jti' ≠ jti) :
    (s.revoke jti ttl).blacklist.entry jti' = s.blacklist.entry jti' := by
  rw [revoke_eq]
  cases h : s.blacklist.revoke s.now jti (ttl * secondNanos) with
  | none => rfl
  | some blacklist => exact Blacklist.entry_revoke_ne h hne

@[simp] theorem isRedis_revoke (s : State) (jti : String) (ttl : ℕ) :
    (s.revoke jti ttl).blacklist.isRedis = s.blacklist.isRedis := by
  rw [revoke_eq]
  cases h : s.blacklist.revoke s.now jti (ttl * secondNanos) with
  | none => rfl
  | some blacklist => exact Blacklist.isRedis_revoke h

/-- SQLite takes every lifetime. -/
theorem entry_revoke_sqlite {s : State} (hsqlite : s.blacklist.isRedis = false) (jti : String)
    (ttl : ℕ) : (s.revoke jti ttl).blacklist.entry jti =
      some (.sqlite (chronoFormat (s.now + fromStd (ttl * secondNanos)))) := by
  cases hb : s.blacklist with
  | redis deadlines =>
    rw [hb] at hsqlite
    cases hsqlite
  | sqlite expiresAt =>
    rw [revoke_eq, hb]
    exact Blacklist.entry_revoke (show Blacklist.revoke _ _ _ (.sqlite expiresAt) = some _ from rfl)

/-- A revocation until the second `exp` lapses within that second. -/
theorem lapses_revoke {s : State} {jti : String} {exp : ℕ}
    (hpos : 0 < exp - s.seconds ∨ s.blacklist.isRedis = true)
    (hold : ∀ e ∈ s.blacklist.entry jti, e.Lapses ((exp + 1) * secondNanos)) :
    ∀ e ∈ (s.revoke jti (exp - s.seconds)).blacklist.entry jti,
      e.Lapses ((exp + 1) * secondNanos) := by
  have hclock : s.now < (s.seconds + 1) * secondNanos := by
    simp only [seconds, secondNanos]
    omega
  rw [revoke_eq]
  cases h : s.blacklist.revoke s.now jti ((exp - s.seconds) * secondNanos) with
  | none => exact hold
  | some blacklist =>
    have hpos : 0 < exp - s.seconds :=
      hpos.elim id fun hr => Nat.pos_of_mul_pos_right (Blacklist.pos_of_revoke hr h)
    rw [Option.getD_some, Blacklist.entry_revoke h]
    rintro e ⟨⟩
    apply Blacklist.lapses_newEntry
    simp only [secondNanos] at hclock ⊢
    omega

theorem fresh_iff {s : State} {a r : Uuid} :
    s.fresh a r = true ↔ a ≠ r ∧ ∀ id ∈ [a, r], s.blacklist.entry id.toText = none ∧
      ∀ p ∈ s.issued, ∀ k, p.jti k ≠ id.toText := by
  have hkinds : ∀ (p : TokenPair) (jti : String),
      (∀ k, p.jti k ≠ jti) ↔ p.jti .access ≠ jti ∧ p.jti .refresh ≠ jti := fun p jti =>
    ⟨fun h => ⟨h _, h _⟩, fun h k => by cases k with
      | access => exact h.1
      | refresh => exact h.2⟩
  simp [fresh, hkinds]

end State

/-! What a request leaves alone. -/

@[simp] theorem revokeOldTokens_now (claims : RefreshTokenClaims) (s : State) :
    (revokeOldTokens claims s).now = s.now := rfl

@[simp] theorem revokeOldTokens_issued (claims : RefreshTokenClaims) (s : State) :
    (revokeOldTokens claims s).issued = s.issued := rfl

@[simp] theorem isRedis_revokeOldTokens (claims : RefreshTokenClaims) (s : State) :
    (revokeOldTokens claims s).blacklist.isRedis = s.blacklist.isRedis := by
  rw [revokeOldTokens_eq]
  split <;> simp only [State.isRedis_revoke]

/-- What every request leaves alone: the clock does not go back, what was issued stays issued,
and the blacklist is of the same mode. -/
structure Frame (s s' : State) : Prop where
  now : s.now ≤ s'.now
  issued : s.issued <+: s'.issued
  isRedis : s'.blacklist.isRedis = s.blacklist.isRedis

theorem Frame.refl (s : State) : Frame s s := ⟨le_rfl, List.prefix_rfl, rfl⟩

theorem frame_issue (s : State) (pair : TokenPair) : Frame s (s.issue pair) :=
  ⟨le_rfl, List.prefix_append _ _, rfl⟩

theorem frame_refresh (token : String) (a r : Uuid) (s : State) :
    Frame s (refresh jwt config token a r s).2 := by
  rcases refresh_eq jwt config token a r s with ⟨e, h⟩ | ⟨_, _, -, -, h⟩
  · rw [h]
    exact .refl s
  · rw [h]
    exact ⟨by simp [State.issue], by simp [State.issue], by simp [State.issue]⟩

theorem frame_logout (header : Option String) (s : State) : Frame s (logout jwt header s).2 := by
  rcases logout_eq jwt header s with ⟨e, h⟩ | ⟨claims, h⟩
  · rw [h]
    exact .refl s
  · rw [h]
    dsimp only
    split
    · exact ⟨le_rfl, List.prefix_rfl, State.isRedis_revoke ..⟩
    · exact .refl s

theorem frame_step (s : State) (a : Action) : Frame s (step jwt config s a) := by
  cases a with
  | tick d => exact ⟨Nat.le_add_right _ _, List.prefix_rfl, rfl⟩
  | setUsers users => exact ⟨le_rfl, List.prefix_rfl, rfl⟩
  | login userId isAdmin a r =>
    simp only [step]
    split
    · exact frame_issue s _
    · exact .refl s
  | refresh i a r =>
    simp only [step]
    split
    · split
      · exact frame_refresh _ a r s
      · exact .refl s
    · exact .refl s
  | logout i =>
    simp only [step]
    split
    · exact frame_logout _ s
    · exact .refl s

/-- Only time moves the clock. -/
theorem refresh_now (token : String) (a r : Uuid) (s : State) :
    (refresh jwt config token a r s).2.now = s.now := rfl

theorem logout_now (header : Option String) (s : State) :
    (logout jwt header s).2.now = s.now := rfl

theorem entry_revokeOldTokens_ne {q : TokenPair} (hq : Generated jwt config q) {s : State}
    {jti : String} (hne : ∀ k, jti ≠ q.jti k) :
    (revokeOldTokens q.refreshClaims s).blacklist.entry jti = s.blacklist.entry jti := by
  rw [revokeOldTokens_of_generated hq]
  dsimp only
  split
  · rw [State.entry_revoke_ne _ _ (hne .access), State.entry_revoke_ne _ _ (hne .refresh)]
  · exact State.entry_revoke_ne _ _ (hne .refresh)

/-- The access token is revoked after the refresh token, under another identifier. -/
theorem entry_revokeOldTokens_refresh {q : TokenPair} (hq : Generated jwt config q) {s : State}
    (hne : q.jti .refresh ≠ q.jti .access) :
    (revokeOldTokens q.refreshClaims s).blacklist.entry (q.jti .refresh) =
      (s.revoke (q.jti .refresh) (q.exp .refresh - s.seconds)).blacklist.entry
        (q.jti .refresh) := by
  rw [revokeOldTokens_of_generated hq]
  dsimp only
  split
  · exact State.entry_revoke_ne _ _ hne
  · rfl

/-- Identifiers belong to one token each, and its entry on the blacklist lapses in the second
of its expiry. SQLite also takes entries of refresh tokens past that. -/
structure WellFormed (jwt : Jwt) (config : AuthConfig) (s : State) : Prop where
  generated : ∀ p ∈ s.issued, Generated jwt config p
  unique : ∀ p ∈ s.issued, ∀ q ∈ s.issued, ∀ k l, p.jti k = q.jti l → p = q ∧ k = l
  lapses : ∀ p ∈ s.issued, ∀ k, k = .access ∨ s.blacklist.isRedis = true →
    ∀ e ∈ s.blacklist.entry (p.jti k), e.Lapses ((p.exp k + 1) * secondNanos)

theorem wellFormed_start (now : ℕ) (users : List User) (blacklist : Blacklist) :
    WellFormed jwt config (.start now users blacklist) where
  generated _ hp := absurd hp List.not_mem_nil
  unique _ hp := absurd hp List.not_mem_nil
  lapses _ hp := absurd hp List.not_mem_nil

namespace WellFormed

variable {s : State} (h : WellFormed jwt config s)
include h

theorem revoke {p : TokenPair} (hp : p ∈ s.issued) (k : TokenKind)
    (hk : k = .access → 0 < p.exp k - s.seconds) :
    WellFormed jwt config (s.revoke (p.jti k) (p.exp k - s.seconds)) where
  generated := h.generated
  unique := h.unique
  lapses q hq l hl := by
    rw [State.isRedis_revoke] at hl
    by_cases hjti : q.jti l = p.jti k
    · obtain ⟨rfl, rfl⟩ := h.unique q hq p hp l k hjti
      refine State.lapses_revoke ?_ (h.lapses q hq l hl)
      exact hl.imp_left hk
    · rw [State.entry_revoke_ne s _ hjti]
      exact h.lapses q hq l hl

theorem issue {a r : Uuid} (hfresh : s.fresh a r = true) (now : ℕ) (userId : Uuid)
    (isAdmin : Bool) :
    WellFormed jwt config (s.issue (Auth.generateTokens jwt config now userId isAdmin a r)) := by
  obtain ⟨hne, hnew⟩ := State.fresh_iff.mp hfresh
  obtain ⟨ha, ha'⟩ := hnew a List.mem_cons_self
  obtain ⟨hr, hr'⟩ := hnew r (List.mem_cons_of_mem _ List.mem_cons_self)
  generalize hp : Auth.generateTokens jwt config now userId isAdmin a r = p
  have hpa : p.jti .access = a.toText := by rw [← hp]; rfl
  have hpr : p.jti .refresh = r.toText := by rw [← hp]; rfl
  -- the identifiers of the new pair are nobody else's
  have hother : ∀ q ∈ s.issued, ∀ k l, q.jti l ≠ p.jti k := by
    intro q hq k l
    cases k with
    | access => rw [hpa]; exact ha' q hq l
    | refresh => rw [hpr]; exact hr' q hq l
  have hself : ∀ k l, p.jti k = p.jti l → k = l := by
    intro k l hkl
    cases k with
    | access =>
      cases l with
      | access => rfl
      | refresh =>
        rw [hpa, hpr] at hkl
        exact absurd (Uuid.toText_injective hkl) hne
    | refresh =>
      cases l with
      | access =>
        rw [hpa, hpr] at hkl
        exact absurd (Uuid.toText_injective hkl).symm hne
      | refresh => rfl
  have hmem : ∀ q ∈ (s.issue p).issued, q ∈ s.issued ∨ q = p := fun q hq =>
    (List.mem_append.mp hq).imp_right List.mem_singleton.mp
  refine ⟨fun q hq => ?_, fun q hq q' hq' k l hkl => ?_, fun q hq k hk => ?_⟩
  · rcases hmem q hq with hq | rfl
    · exact h.generated q hq
    · exact ⟨now, userId, isAdmin, a, r, hp.symm⟩
  · rcases hmem q hq with hold | hnew
    · rcases hmem q' hq' with hold' | rfl
      · exact h.unique q hold q' hold' k l hkl
      · exact absurd hkl (hother q hold l k)
    · subst hnew
      rcases hmem q' hq' with hold' | rfl
      · exact absurd hkl.symm (hother q' hold' k l)
      · exact ⟨rfl, hself k l hkl⟩
  · rcases hmem q hq with hq | rfl
    · exact h.lapses q hq k hk
    · intro e he
      cases k with
      | access => simp [State.issue, hpa, ha] at he
      | refresh => simp [State.issue, hpr, hr] at he

theorem revokeOldTokens {p : TokenPair} (hp : p ∈ s.issued) :
    WellFormed jwt config (revokeOldTokens p.refreshClaims s) := by
  rw [revokeOldTokens_of_generated (h.generated p hp)]
  have hrefresh := h.revoke hp .refresh fun hk => by cases hk
  dsimp only
  split
  · rename_i hpos
    exact hrefresh.revoke hp .access fun _ => hpos
  · exact hrefresh

theorem step (a : Action) : WellFormed jwt config (step jwt config s a) := by
  cases a with
  | tick d => exact ⟨h.generated, h.unique, h.lapses⟩
  | setUsers users => exact ⟨h.generated, h.unique, h.lapses⟩
  | login userId isAdmin a r =>
    simp only [Sessions.step]
    split
    · rename_i hfresh
      exact h.issue hfresh _ _ _
    · exact h
  | refresh i a r =>
    simp only [Sessions.step]
    split
    · rename_i pair hi
      have hpair : pair ∈ s.issued := List.mem_of_getElem? hi
      split
      · rename_i hfresh
        rcases refresh_of_generated (h.generated pair hpair) a r s with ⟨e, he⟩ | ⟨-, -, user, he⟩
        · rw [he]
          exact h
        · rw [he]
          exact (h.issue hfresh _ _ _).revokeOldTokens (List.mem_append_left _ hpair)
      · exact h
    · exact h
  | logout i =>
    simp only [Sessions.step]
    split
    · rename_i pair hi
      have hpair : pair ∈ s.issued := List.mem_of_getElem? hi
      rw [logout_of_generated (h.generated pair hpair)]
      split
      · rename_i hpos
        exact h.revoke hpair .access fun _ => hpos
      · exact h
    · exact h

/-- The entry of a token changes only when an exchange of its pair is accepted, or a logout
presents it. -/
theorem entry_step {p : TokenPair} (hp : p ∈ s.issued) (k : TokenKind) (a : Action) :
    (Sessions.step jwt config s a).blacklist.entry (p.jti k) = s.blacklist.entry (p.jti k) ∨
    (∃ i accessJti refreshJti, a = .refresh i accessJti refreshJti ∧ s.issued[i]? = some p ∧
      ¬ (p.exp .refresh + leeway < s.seconds) ∧
      s.blacklist.check s.now (p.jti .refresh) = false) ∨
    ∃ i, a = .logout i ∧ s.issued[i]? = some p ∧ k = .access := by
  cases a with
  | tick d => exact .inl rfl
  | setUsers users => exact .inl rfl
  | login userId isAdmin a r =>
    refine .inl ?_
    simp only [Sessions.step]
    split <;> rfl
  | refresh i a r =>
    simp only [Sessions.step]
    split
    · rename_i q hi
      have hq : q ∈ s.issued := List.mem_of_getElem? hi
      split
      · rcases refresh_of_generated (h.generated q hq) a r s with ⟨e, he⟩ | ⟨hlive, hgood, user, he⟩
        · rw [he]
          exact .inl rfl
        · rw [he]
          by_cases hqp : q = p
          · subst hqp
            exact .inr (.inl ⟨i, a, r, rfl, hi, hlive, hgood⟩)
          · refine .inl (entry_revokeOldTokens_ne (h.generated q hq) fun l hl => ?_)
            exact hqp (h.unique p hp q hq k l hl).1.symm
      · exact .inl rfl
    · exact .inl rfl
  | logout i =>
    simp only [Sessions.step]
    split
    · rename_i q hi
      have hq : q ∈ s.issued := List.mem_of_getElem? hi
      rw [logout_of_generated (h.generated q hq)]
      split
      · by_cases hqp : p.jti k = q.jti .access
        · obtain ⟨rfl, rfl⟩ := h.unique p hp q hq k .access hqp
          exact .inr (.inr ⟨i, rfl, hi, rfl⟩)
        · exact .inl (State.entry_revoke_ne s _ hqp)
      · exact .inl rfl
    · exact .inl rfl

end WellFormed

theorem wellFormed_run (now : ℕ) (users : List User) (blacklist : Blacklist) (as : List Action) :
    WellFormed jwt config (run jwt config now users blacklist as) :=
  invariant (step jwt config) (J := WellFormed jwt config) (fun _ a hs => hs.step a)
    (wellFormed_start now users blacklist) as

end PicHost.Sessions
