import PicHost.Api.Admin
import PicHost.Api.Sessions

/-!
# Deleted and demoted users

What their tokens are still good for. The middleware takes the role from the token, and makes
do without a row.
-/

namespace PicHost.RevokedAccounts

open LabelledRun KeyedTable
open Auth (Jwt AuthConfig TokenPair TokenKind leeway)
open Sessions (Generated)

variable {J : Type}

/-- `removed` and `demoted` are history: the tokens that deleted users had by then, and the
users from whom an update has taken the role, until one gives it back. -/
structure State (J : Type) where
  server : Admin.State J
  removed : List TokenPair
  demoted : List Uuid

/-- `request` is one to any other route behind the middleware. -/
inductive Action (J : Type)
  | admin (a : Admin.Action J)
  | request (env : Auth.Env) (header : Option String)

def issuedTo (userId : Uuid) (s : Admin.State J) : List TokenPair :=
  s.issued.filter fun pair => pair.accessClaims.sub == userId.toText

/-- The statement of a request that is about to be executed. -/
def remember (inp : Admin.Input) (r : Admin.Request J) (s : State J) : State J :=
  match r.stage, r.call with
  | .executeUserUpdate fields passwordHash, .updateUser userId _ =>
    if (s.server.users.anyRow fun u => u.id == userId) ∧
        (Admin.executeUserUpdate inp.env.dbUp userId fields passwordHash s.server.users).isSome then
      { s with demoted :=
          if fields.isAdmin then s.demoted.filter (· ≠ userId) else userId :: s.demoted }
    else s
  | .deleteFromDb, .deleteUser userId =>
    if inp.env.dbUp then { s with removed := s.removed ++ issuedTo userId s.server } else s
  | _, _ => s

variable (jwt : Jwt) (config : AuthConfig) (router : StorageRouter)

def step (s : State J) : Action J → State J
  | .admin a =>
    let s' :=
      match a with
      | .advance i inp =>
        match s.server.requests[i]? with
        | some r => remember inp r s
        | none => s
      | _ => s
    { s' with server := Admin.step jwt config router s.server a }
  | .request _ _ => s

/-- Nobody has a token yet. -/
def start (server : Admin.State J) : State J := ⟨{ server with issued := [] }, [], []⟩

/-- What the step hands to the middleware. -/
def presented (s : Admin.State J) : Action J → Option (Auth.Env × Option String)
  | .request env header => some (env, header)
  | .admin (.advance i inp) =>
    match s.requests[i]? with
    | some ⟨header, _, .authorise⟩ => some (inp.env, header)
    | _ => none
  | .admin _ => none

/-- No token of a deleted user authenticates. -/
def NotAuthenticated (env : Auth.Env) (header : Option String) (s : State J) : Prop :=
  ∀ pair ∈ s.removed, ∀ kind, Auth.extractBearerToken header = .ok (pair.text kind) →
    ∀ user, Auth.requireAuth jwt env header s.server.auth ≠ .ok user

/-- The pair was issued to a user who has been demoted. -/
def Demoted (pair : TokenPair) (s : State J) : Prop :=
  ∃ userId ∈ s.demoted, pair.accessClaims.sub = userId.toText

/-- No token of a demoted user gets past `require_admin`. -/
def NotAdmin (env : Auth.Env) (header : Option String) (s : State J) : Prop :=
  ∀ pair ∈ s.server.issued, Demoted pair s → ∀ kind,
    Auth.extractBearerToken header = .ok (pair.text kind) →
      ∀ user, (Auth.requireAuth jwt env header s.server.auth).bind Admin.requireAdmin ≠ .ok user

def StaysOut (s : State J) (a : Action J) : Prop :=
  ∀ env header, presented s.server a = some (env, header) →
    NotAuthenticated jwt env header s ∧ NotAdmin jwt env header s

/-- The token is past its expiry and the leeway, or revoked, or the database is down. -/
def Dead (env : Auth.Env) (pair : TokenPair) (kind : TokenKind) (s : State J) : Prop :=
  pair.exp kind + leeway < env.seconds ∨ Auth.revoked env (pair.jti kind) s.server.auth = true ∨
    env.dbUp = false

/-- A deleted user presents a dead token, a demoted user a dead one or one without the role. -/
def OnlyDeadTokens (s : State J) (a : Action J) : Prop :=
  ∀ env header, presented s.server a = some (env, header) → ∀ kind,
    (∀ pair ∈ s.removed, Auth.extractBearerToken header = .ok (pair.text kind) →
      Dead env pair kind s) ∧
    ∀ pair ∈ s.server.issued, Demoted pair s →
      Auth.extractBearerToken header = .ok (pair.text kind) →
        Dead env pair kind s ∨ pair.accessClaims.isAdmin = false

/-- The server has generated all tokens there are. -/
structure WellIssued (s : State J) : Prop where
  issued : ∀ pair ∈ s.server.issued, Generated jwt config pair
  removed : ∀ pair ∈ s.removed, Generated jwt config pair

variable {jwt config router}

theorem isAdmin_of_sign {claims : Serialised.Object} {c : Auth.AccessTokenClaims}
    (hexp : claims.nat "exp" = some c.exp) (hc : Auth.AccessTokenClaims.fromValue claims = some c)
    {env : Auth.Env} {header : Option String} {s : Auth.State}
    (hheader : Auth.extractBearerToken header = .ok (jwt.sign claims)) {user : AuthUser}
    (hok : Auth.requireAuth jwt env header s = .ok user) : user.isAdmin = c.isAdmin := by
  simp only [Auth.requireAuth, hheader, Auth.decodeAndValidateJwt_sign jwt hexp hc] at hok
  by_cases hlate : c.exp + leeway < env.seconds
  · simp [hlate] at hok
  · simp only [hlate, if_false, Auth.checkBlacklistAndQuota] at hok
    split at hok
    · cases hok
    · split at hok
      · cases hok
      · split at hok
        · cases hok
          rfl
        · cases hok

/-- The bearer of either token has the role the pair was generated with. -/
theorem isAdmin_of_requireAuth {pair : TokenPair} (hpair : Generated jwt config pair)
    (kind : TokenKind) {env : Auth.Env} {header : Option String} {s : Auth.State}
    (hheader : Auth.extractBearerToken header = .ok (pair.text kind)) {user : AuthUser}
    (hok : Auth.requireAuth jwt env header s = .ok user) :
    user.isAdmin = pair.accessClaims.isAdmin := by
  obtain ⟨now, userId, isAdmin, a, r, rfl⟩ := hpair
  cases kind with
  | access =>
    exact isAdmin_of_sign (Auth.exp_access _) (Auth.access_fromValue_access _) hheader hok
  | refresh =>
    exact isAdmin_of_sign (Auth.exp_refresh _) (Auth.access_fromValue_refresh _) hheader hok

/-- A token is turned away exactly when it is dead. -/
theorem rejected_iff {pair : TokenPair} (hpair : Generated jwt config pair) {kind : TokenKind}
    {env : Auth.Env} {header : Option String} {s : State J}
    (hheader : Auth.extractBearerToken header = .ok (pair.text kind)) :
    (∀ user, Auth.requireAuth jwt env header s.server.auth ≠ .ok user) ↔ Dead env pair kind s := by
  rw [← not_exists, Sessions.requireAuth_generated_iff hpair kind hheader, not_not, Dead]

theorem requireAdmin_rejected_iff {pair : TokenPair} (hpair : Generated jwt config pair)
    {kind : TokenKind} {env : Auth.Env} {header : Option String} {s : State J}
    (hheader : Auth.extractBearerToken header = .ok (pair.text kind)) :
    (∀ user, (Auth.requireAuth jwt env header s.server.auth).bind Admin.requireAdmin ≠
      .ok user) ↔ Dead env pair kind s ∨ pair.accessClaims.isAdmin = false := by
  rw [← rejected_iff hpair hheader]
  cases hok : Auth.requireAuth jwt env header s.server.auth with
  | error e => exact iff_of_true (fun user h => by cases h) (.inl fun user h => by cases h)
  | ok user =>
    have hrole := isAdmin_of_requireAuth hpair kind hheader hok
    have hlive : ¬ ∀ user', Except.ok user ≠ (.ok user' : Except ApiError AuthUser) :=
      fun h => h user rfl
    rw [or_iff_right hlive, ← hrole]
    cases hadmin : user.isAdmin with
    | true =>
      refine iff_of_false (fun h => h user ?_) (by decide)
      simp [Except.bind, Admin.requireAdmin, hadmin]
    | false =>
      refine iff_of_true (fun user' h => ?_) rfl
      simp [Except.bind, Admin.requireAdmin, hadmin] at h

theorem issued_executeUpdate (inp : Admin.Input) (i : ℕ) (r : Admin.Request J) (userId : Uuid)
    (fields : Admin.UserFields J) (passwordHash : Option String) (s : Admin.State J) :
    (Admin.executeUpdate inp i r userId fields passwordHash s).issued = s.issued := by
  unfold Admin.executeUpdate
  split <;> rfl

theorem issued_executeDelete (inp : Admin.Input) (i : ℕ) (r : Admin.Request J) (userId : Uuid)
    (s : Admin.State J) : (Admin.executeDelete router inp i r userId s).issued = s.issued := by
  unfold Admin.executeDelete
  split
  · split <;> rfl
  · rfl

/-- Changing and deleting users hands out no tokens. -/
theorem issued_advance (inp : Admin.Input) (i : ℕ) (r : Admin.Request J) (s : Admin.State J) :
    (Admin.advance jwt router inp i r s).issued = s.issued := by
  unfold Admin.advance
  split
  case h_4 => exact issued_executeUpdate ..
  case h_5 | h_6 | h_7 => exact issued_executeDelete ..
  all_goals rfl

theorem generated_step {s : Admin.State J} (h : ∀ pair ∈ s.issued, Generated jwt config pair)
    (a : Admin.Action J) :
    ∀ pair ∈ (Admin.step jwt config router s a).issued, Generated jwt config pair := by
  cases a with
  | createUser user =>
    simp only [Admin.step]
    split <;> exact h
  | login now userId accessJti refreshJti =>
    simp only [Admin.step]
    split
    · exact Auth.wellIssued_issue jwt config (s := s.auth) h _ _ _ _ _
    · exact h
  | refresh env token accessJti refreshJti =>
    exact Auth.WellIssued.step jwt config (s := s.auth) h (.refresh env token accessJti refreshJti)
  | logout env header => exact Auth.WellIssued.step jwt config (s := s.auth) h (.logout env header)
  | submit header call => exact h
  | advance i inp =>
    simp only [Admin.step]
    split
    · rw [issued_advance]
      exact h
    · exact h

/-- What is remembered of a deleted user has been issued. -/
theorem mem_removed_remember {inp : Admin.Input} {r : Admin.Request J} {s : State J}
    {pair : TokenPair} (hpair : pair ∈ (remember inp r s).removed) :
    pair ∈ s.removed ∨ pair ∈ s.server.issued := by
  unfold remember at hpair
  split at hpair
  · split at hpair <;> exact .inl hpair
  · split at hpair
    · exact (List.mem_append.mp hpair).imp_right fun h => (List.mem_filter.mp h).1
    · exact .inl hpair
  · exact .inl hpair

namespace WellIssued

variable {s : State J} (h : WellIssued jwt config s)
include h

theorem step (a : Action J) : WellIssued jwt config (step jwt config router s a) := by
  cases a with
  | request env header => exact h
  | admin a =>
    refine ⟨generated_step h.issued a, fun pair hpair => ?_⟩
    simp only [RevokedAccounts.step] at hpair
    split at hpair
    · split at hpair
      · exact (mem_removed_remember hpair).elim (h.removed pair) (h.issued pair)
      · exact h.removed pair hpair
    · exact h.removed pair hpair

/-- Deleted and demoted users stay out in a step exactly when they present dead tokens only. -/
theorem staysOut_iff (a : Action J) : StaysOut jwt s a ↔ OnlyDeadTokens s a := by
  constructor
  · intro hout env header hp kind
    obtain ⟨hauth, hadmin⟩ := hout env header hp
    refine ⟨fun pair hpair hheader => ?_, fun pair hpair hdemoted hheader => ?_⟩
    · exact (rejected_iff (h.removed pair hpair) hheader).mp (hauth pair hpair kind hheader)
    · exact (requireAdmin_rejected_iff (h.issued pair hpair) hheader).mp
        (hadmin pair hpair hdemoted kind hheader)
  · intro hdead env header hp
    refine ⟨fun pair hpair kind hheader => ?_, fun pair hpair hdemoted kind hheader => ?_⟩
    · exact (rejected_iff (h.removed pair hpair) hheader).mpr
        ((hdead env header hp kind).1 pair hpair hheader)
    · exact (requireAdmin_rejected_iff (h.issued pair hpair) hheader).mpr
        ((hdead env header hp kind).2 pair hpair hdemoted hheader)

end WellIssued

theorem wellIssued_start (server : Admin.State J) : WellIssued jwt config (start server) :=
  ⟨fun _ h => absurd h List.not_mem_nil, fun _ h => absurd h List.not_mem_nil⟩

variable (jwt config router) in
/-- Deleted users and demoted administrators stay out in exactly the runs in which they present
dead tokens only. -/
theorem accounts_stay_out_iff (server : Admin.State J) (as : List (Action J)) :
    AllSteps (step jwt config router) (StaysOut jwt) (start server) as ↔
      AllSteps (step jwt config router) OnlyDeadTokens (start server) as :=
  allSteps_congr (J := WellIssued jwt config) (fun _ a hs => hs.step a)
    (fun _ a hs => hs.staysOut_iff a) (wellIssued_start server) as

variable (jwt config) in
/-- What user 2 is given at his login in the runs below. -/
def issuedToTwo : TokenPair := Auth.generateTokens jwt config 0 2 true 4 6

variable (jwt config) in
/-- Both administrators log in, and the first has asked for something about the second. -/
def bothLoggedIn (call : Admin.Call Unit) (stage : Admin.Stage Unit) : Admin.State Unit :=
  { Admin.twoAdmins with
    issued := [Auth.generateTokens jwt config 0 1 true 3 5, issuedToTwo jwt config]
    requests := [⟨Admin.bearer jwt config 1, call, stage⟩] }

variable (jwt config) in
def asking (call : Admin.Call Unit) : List (Action Unit) :=
  [.admin (.login 0 1 3 5), .admin (.login 0 2 4 6),
    .admin (.submit (Admin.bearer jwt config 1) call), .admin (.advance 0 Admin.soon)]

variable (jwt config router) in
theorem foldl_asking (call : Admin.Call Unit) :
    (asking jwt config call).foldl (step jwt config router) (start Admin.twoAdmins) =
      ⟨bothLoggedIn jwt config call (.handle ⟨1, true, none⟩), [], []⟩ := by
  have hauth : Admin.authorise jwt Admin.soon (Admin.bearer jwt config 1)
      (bothLoggedIn jwt config call .authorise) = .handle ⟨1, true, none⟩ :=
    Admin.authorise_bearer (fun _ => rfl) 1
  calc (asking jwt config call).foldl (step jwt config router) (start Admin.twoAdmins)
      = ⟨bothLoggedIn jwt config call (Admin.authorise jwt Admin.soon (Admin.bearer jwt config 1)
          (bothLoggedIn jwt config call .authorise)), [], []⟩ := rfl
    _ = _ := by rw [hauth]

variable (jwt config) in
/-- One administrator deletes the other. -/
def deletingRun : List (Action Unit) :=
  asking jwt config (.deleteUser 2) ++ List.replicate 4 (.admin (.advance 0 Admin.soon))

variable (jwt config) in
/-- Or takes the role from him. -/
def demotingRun : List (Action Unit) :=
  asking jwt config (.updateUser 2 { isAdmin := some false }) ++
    List.replicate 2 (.admin (.advance 0 Admin.soon))

variable (jwt config) in
def requestByTwo : Action Unit := .request Admin.soon.env (Admin.bearer jwt config 2)

theorem live_requestByTwo {s : State Unit} (hgood : s.server.blacklist = .emptyRedis) :
    ¬ Dead Admin.soon.env (issuedToTwo jwt config) .access s := by
  rintro (hlate | hrevoked | hdown)
  · have hexp : (issuedToTwo jwt config).exp .access = 0 + config.accessTokenTtl := rfl
    have hnow : Admin.soon.env.seconds = leeway := by decide
    omega
  · simp [Auth.revoked, Admin.soon, Admin.State.auth, hgood, Blacklist.check, Blacklist.entry,
      Blacklist.emptyRedis] at hrevoked
  · cases hdown

theorem presents_requestByTwo :
    Auth.extractBearerToken (Admin.bearer jwt config 2) =
      .ok ((issuedToTwo jwt config).text .access) :=
  Auth.extractBearerToken_bearer _

variable (jwt config router) in
theorem foldl_deletingRun : ∃ s' : State Unit,
    (deletingRun jwt config).foldl (step jwt config router) (start Admin.twoAdmins) = s' ∧
      s'.server.blacklist = .emptyRedis ∧ issuedToTwo jwt config ∈ s'.removed := by
  refine ⟨_, rfl, ?_⟩
  rw [deletingRun, List.foldl_append, foldl_asking]
  refine ⟨rfl, ?_⟩
  have hremoved : ((List.replicate 4 (.admin (.advance 0 Admin.soon))).foldl
      (step jwt config router)
      ⟨bothLoggedIn jwt config (.deleteUser 2) (.handle ⟨1, true, none⟩), [], []⟩).removed =
      issuedTo 2 (bothLoggedIn jwt config (.deleteUser 2) .deleteFromDb) := rfl
  rw [hremoved]
  exact List.mem_filter.mpr ⟨List.mem_cons_of_mem _ List.mem_cons_self, beq_self_eq_true _⟩

variable (jwt config router) in
theorem foldl_demotingRun : ∃ s' : State Unit,
    (demotingRun jwt config).foldl (step jwt config router) (start Admin.twoAdmins) = s' ∧
      s'.server.blacklist = .emptyRedis ∧ issuedToTwo jwt config ∈ s'.server.issued ∧
      s'.demoted = [2] := by
  refine ⟨_, rfl, ?_⟩
  rw [demotingRun, List.foldl_append, foldl_asking]
  exact ⟨rfl, List.mem_cons_of_mem _ List.mem_cons_self, rfl⟩

/-- The deleted user is let in, and the demoted one into the administration. -/
theorem accounts_do_not_stay_out :
    ¬ AllSteps (step Auth.plainJwt Auth.shortConfig BatchDelete.localRouter)
        (StaysOut Auth.plainJwt) (start Admin.twoAdmins)
        (deletingRun Auth.plainJwt Auth.shortConfig ++
          [requestByTwo Auth.plainJwt Auth.shortConfig]) ∧
    ¬ AllSteps (step Auth.plainJwt Auth.shortConfig BatchDelete.localRouter)
        (StaysOut Auth.plainJwt) (start Admin.twoAdmins)
        (demotingRun Auth.plainJwt Auth.shortConfig ++
          [requestByTwo Auth.plainJwt Auth.shortConfig]) := by
  have hgenerated : Generated Auth.plainJwt Auth.shortConfig
      (issuedToTwo Auth.plainJwt Auth.shortConfig) := ⟨0, 2, true, 4, 6, rfl⟩
  constructor
  · intro h
    have hlast := h.last
    obtain ⟨s', hs', hgood, hremoved⟩ :=
      foldl_deletingRun Auth.plainJwt Auth.shortConfig BatchDelete.localRouter
    rw [hs'] at hlast
    obtain ⟨hauth, -⟩ := hlast _ _ rfl
    exact live_requestByTwo hgood ((rejected_iff hgenerated presents_requestByTwo).mp
      (hauth _ hremoved .access presents_requestByTwo))
  · intro h
    have hlast := h.last
    obtain ⟨s', hs', hgood, hissued, hdemoted⟩ :=
      foldl_demotingRun Auth.plainJwt Auth.shortConfig BatchDelete.localRouter
    rw [hs'] at hlast
    obtain ⟨-, hadmin⟩ := hlast _ _ rfl
    have hwas : Demoted (issuedToTwo Auth.plainJwt Auth.shortConfig) s' :=
      ⟨2, by rw [hdemoted]; exact List.mem_singleton_self _, rfl⟩
    rcases (requireAdmin_rejected_iff hgenerated presents_requestByTwo).mp
      (hadmin _ hissued hwas .access presents_requestByTwo) with hdead | hrole
    · exact live_requestByTwo hgood hdead
    · cases hrole

end PicHost.RevokedAccounts
