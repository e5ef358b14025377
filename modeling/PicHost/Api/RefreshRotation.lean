import PicHost.Api.Sessions

/-!
# Refresh rotation

Any number of exchanges of one refresh token, each call of `refresh` to a store a step of its
own. The rest of the server goes on between the steps.
-/

namespace PicHost.Rotation

open LabelledRun Timestamps
open Auth (Jwt AuthConfig User TokenPair RefreshTokenClaims)

abbrev Reply := TokenPair × User

/-- Where an exchange has got to; `now` is read once for both revocations. -/
inductive Stage
  | decode
  | check (claims : RefreshTokenClaims)
  | lookupUser (claims : RefreshTokenClaims)
  | generate (claims : RefreshTokenClaims) (user : User)
  | revokeRefresh (claims : RefreshTokenClaims) (reply : Reply)
  | revokeAccess (claims : RefreshTokenClaims) (reply : Reply) (now : ℕ)
  | returned (result : Except ApiError Reply)

namespace Stage

def claims : Stage → Option RefreshTokenClaims
  | .decode | .returned _ => none
  | .check c | .lookupUser c | .generate c _ | .revokeRefresh c _ | .revokeAccess c _ _ => some c

/-- Past its check, with the token not revoked yet. -/
def unrevoked : Stage → Bool
  | .lookupUser _ | .generate _ _ | .revokeRefresh _ _ => true
  | _ => false

/-- Answered with a new pair. -/
def replied : Stage → Bool
  | .returned (.ok _) => true
  | _ => false

/-- Past its revocation of the token, successful or not. -/
def revoked : Stage → Bool
  | .revokeAccess _ _ _ => true
  | stage => stage.replied

def passed (stage : Stage) : Bool := stage.unrevoked || stage.revoked

theorem passed_of_replied {stage : Stage} (h : stage.replied = true) : stage.passed = true := by
  cases stage with
  | returned result => exact h
  | decode | check | lookupUser | generate | revokeRefresh | revokeAccess => cases h

end Stage

/-- `unrecorded` is history: the store did not take a revocation of the token. -/
structure State where
  server : Sessions.State
  requests : List Stage
  unrecorded : Bool

def State.setStage (s : State) (i : ℕ) (stage : Stage) : State :=
  { s with requests := s.requests.set i stage }

/-- Whether the step's store is reachable, and the identifiers it draws. -/
structure Input where
  up : Bool
  accessJti : Uuid
  refreshJti : Uuid

variable (jwt : Jwt) (config : AuthConfig) (token : String)

def decode (s : Sessions.State) : Stage :=
  match (jwt.decode true s.seconds token).bind RefreshTokenClaims.fromValue with
  | none => .returned (.error (Auth.unauthorized "auth.invalid_refresh_token"))
  | some claims =>
    if claims.typ ≠ "refresh" then
      .returned (.error (Auth.unauthorized "auth.invalid_token_type"))
    else .check claims

/-- `blacklist.check(&claims.jti).await.unwrap_or(true)`. -/
def check (inp : Input) (claims : RefreshTokenClaims) (s : Sessions.State) : Stage :=
  if inp.up = true ∧ s.blacklist.check s.now claims.jti = false then .lookupUser claims
  else .returned (.error (Auth.unauthorized "auth.refresh_token_revoked"))

def lookupUser (inp : Input) (claims : RefreshTokenClaims) (s : Sessions.State) : Stage :=
  match Auth.lookupUserForRefresh { s.env with dbUp := inp.up } claims.sub s.auth with
  | .error e => .returned (.error e)
  | .ok user => .generate claims user

def generate (inp : Input) (i : ℕ) (claims : RefreshTokenClaims) (user : User) (s : State) :
    State :=
  let pair := Auth.generateTokens jwt config s.server.seconds user.id user.isAdmin inp.accessJti
    inp.refreshJti
  { s.setStage i (.revokeRefresh claims (pair, user)) with server := s.server.issue pair }

def revokeRefresh (inp : Input) (i : ℕ) (claims : RefreshTokenClaims) (reply : Reply)
    (s : State) : State :=
  let now := s.server.seconds
  let s' := s.setStage i (.revokeAccess claims reply now)
  let ttl := (claims.exp - now) * secondNanos
  match if inp.up then s.server.blacklist.revoke s.server.now claims.jti ttl else none with
  | some blacklist => { s' with server := { s.server with blacklist } }
  | none => { s' with unrecorded := true }

def revokeAccess (inp : Input) (i : ℕ) (claims : RefreshTokenClaims) (reply : Reply) (now : ℕ)
    (s : State) : State :=
  let s' := s.setStage i (.returned (.ok reply))
  let ttl := claims.accessExp - now
  if 0 < ttl ∧ inp.up = true then { s' with server := s.server.revoke claims.accessJti ttl }
  else s'

def advance (inp : Input) (i : ℕ) (stage : Stage) (s : State) : State :=
  match stage with
  | .decode => s.setStage i (decode jwt token s.server)
  | .check claims => s.setStage i (check inp claims s.server)
  | .lookupUser claims => s.setStage i (lookupUser inp claims s.server)
  | .generate claims user => generate jwt config inp i claims user s
  | .revokeRefresh claims reply => revokeRefresh inp i claims reply s
  | .revokeAccess claims reply now => revokeAccess inp i claims reply now s
  | .returned _ => s

/-- `other` is a request of somebody else, or time. -/
inductive Action
  | other (a : Sessions.Action)
  | submit
  | advance (i : ℕ) (inp : Input)

/-- It is an exchange of the token, too. -/
def presents (s : Sessions.State) : Sessions.Action → Bool
  | .refresh i _ _ => s.issued[i]?.any fun pair => pair.refresh == token
  | _ => false

def step (s : State) : Action → State
  | .other a =>
    if presents token s.server a then s
    else { s with server := Sessions.step jwt config s.server a }
  | .submit => { s with requests := s.requests ++ [.decode] }
  | .advance i inp =>
    match s.requests[i]? with
    | some stage => advance jwt config token inp i stage s
    | none => s

def start (server : Sessions.State) : State := ⟨server, [], false⟩

def Replied (s : State) (i : ℕ) : Prop := s.requests[i]?.any Stage.replied = true

instance (s : State) (i : ℕ) : Decidable (Replied s i) := inferInstanceAs (Decidable (_ = true))

def AtMostOne (s : State) : Prop := ∀ i j, Replied s i → Replied s j → i = j

/-- A request that finds the token off the blacklist finds nobody between the check and the
revocation, none whose revocation has failed, and no entry that has lapsed. -/
def OrderlyAt (inp : Input) (s : State) : Stage → Prop
  | .check claims => inp.up = true → s.server.blacklist.check s.server.now claims.jti = false →
      (∀ q ∈ s.requests, q.unrevoked = false) ∧ s.unrecorded = false ∧
        s.server.blacklist.entry claims.jti = none
  | _ => True

instance (inp : Input) (s : State) : DecidablePred (OrderlyAt inp s)
  | .check _ => inferInstanceAs
      (Decidable (_ = true → _ = false → (∀ q ∈ s.requests, _ = false) ∧ _ = false ∧ _ = none))
  | .decode | .lookupUser _ | .generate _ _ | .revokeRefresh _ _ | .revokeAccess _ _ _
  | .returned _ => isTrue trivial

def Orderly (s : State) : Action → Prop
  | .advance i inp => ∀ stage ∈ s.requests[i]?, OrderlyAt inp s stage
  | .other _ | .submit => True

instance (s : State) : DecidablePred (Orderly s)
  | .advance _ _ => Option.decidableForallMem _
  | .other _ | .submit => isTrue trivial

/-- What the token says, whoever presents it. -/
def claimsOf : Option RefreshTokenClaims := (jwt.verify token).bind RefreshTokenClaims.fromValue

/-- One request at most has passed its check, and the token of one that has revoked it has an
entry, unless the revocation failed. -/
structure Consistent (s : State) : Prop where
  claims : ∀ q ∈ s.requests, ∀ c ∈ q.claims, claimsOf jwt token = some c
  one : ∀ (i j : ℕ) (r q : Stage), s.requests[i]? = some r → s.requests[j]? = some q →
    r.passed = true → q.passed = true → i = j
  recorded : ∀ q ∈ s.requests, q.revoked = true → s.unrecorded = true ∨
    ∀ c, claimsOf jwt token = some c → s.server.blacklist.entry c.jti ≠ none

variable {jwt config token}

/-! Entries of the blacklist are overwritten, never removed. -/

theorem entry_ne_none_revoke {blacklist blacklist' : Blacklist} {now ttl : ℕ} {jti jti' : String}
    (h : blacklist.revoke now jti ttl = some blacklist') (hentry : blacklist.entry jti' ≠ none) :
    blacklist'.entry jti' ≠ none := by
  by_cases hjti : jti' = jti
  · subst hjti
    rw [Blacklist.entry_revoke h]
    exact Option.some_ne_none _
  · rwa [Blacklist.entry_revoke_ne h hjti]

theorem entry_ne_none_state_revoke {s : Sessions.State} {jti' : String} (jti : String) (ttl : ℕ)
    (hentry : s.blacklist.entry jti' ≠ none) :
    (s.revoke jti ttl).blacklist.entry jti' ≠ none := by
  rw [Sessions.State.revoke_eq]
  cases h : s.blacklist.revoke s.now jti (ttl * secondNanos) with
  | none => exact hentry
  | some blacklist => exact entry_ne_none_revoke h hentry

theorem entry_ne_none_refresh {s : Sessions.State} {jti' : String} (text : String) (a r : Uuid)
    (hentry : s.blacklist.entry jti' ≠ none) :
    (Sessions.refresh jwt config text a r s).2.blacklist.entry jti' ≠ none := by
  rcases Sessions.refresh_eq jwt config text a r s with
    ⟨e, h⟩ | ⟨claims, user, -, -, h⟩
  · rw [h]
    exact hentry
  · rw [h, Sessions.revokeOldTokens_eq]
    split
    · exact entry_ne_none_state_revoke _ _ (entry_ne_none_state_revoke _ _ hentry)
    · exact entry_ne_none_state_revoke _ _ hentry

theorem entry_ne_none_logout {s : Sessions.State} {jti' : String} (header : Option String)
    (hentry : s.blacklist.entry jti' ≠ none) :
    (Sessions.logout jwt header s).2.blacklist.entry jti' ≠ none := by
  rcases Sessions.logout_eq jwt header s with ⟨e, h⟩ | ⟨claims, h⟩
  · rw [h]
    exact hentry
  · rw [h]
    dsimp only
    split
    · exact entry_ne_none_state_revoke _ _ hentry
    · exact hentry

theorem entry_ne_none_step {s : Sessions.State} {jti' : String} (a : Sessions.Action)
    (hentry : s.blacklist.entry jti' ≠ none) :
    (Sessions.step jwt config s a).blacklist.entry jti' ≠ none := by
  cases a with
  | tick d => exact hentry
  | setUsers users => exact hentry
  | login userId isAdmin a r =>
    simp only [Sessions.step]
    split <;> exact hentry
  | refresh i a r =>
    simp only [Sessions.step]
    split
    · split
      · exact entry_ne_none_refresh _ a r hentry
      · exact hentry
    · exact hentry
  | logout i =>
    simp only [Sessions.step]
    split
    · exact entry_ne_none_logout _ hentry
    · exact hentry

theorem claimsOf_of_decode {s : Sessions.State} {c : RefreshTokenClaims}
    (h : (decode jwt token s).claims = some c) : claimsOf jwt token = some c := by
  unfold decode at h
  cases hverify : jwt.verify token with
  | none => simp [Jwt.decode, hverify, Stage.claims] at h
  | some claims =>
    simp only [Jwt.decode, hverify, Option.bind_eq_bind, Option.bind_some] at h
    cases hexp : claims.nat "exp" with
    | none => simp [hexp, Stage.claims] at h
    | some exp =>
      simp only [hexp, Option.bind_some] at h
      by_cases hlate : exp + Auth.leeway < s.seconds
      · simp [hlate, Stage.claims] at h
      · simp only [hlate, and_false, if_false, Option.bind_some] at h
        rw [claimsOf, hverify, Option.bind_some]
        split at h
        · cases h
        · rename_i hclaims
          split at h
          · cases h
          · cases h
            exact hclaims

theorem passed_decode (s : Sessions.State) : (decode jwt token s).passed = false := by
  unfold decode
  split
  · rfl
  · split <;> rfl

theorem consistent_start (server : Sessions.State) : Consistent jwt token (start server) where
  claims _ hq := absurd hq List.not_mem_nil
  one _ _ _ _ hi := by simp [start] at hi
  recorded _ hq := absurd hq List.not_mem_nil

namespace Consistent

variable {s : State} (h : Consistent jwt token s)
include h

/-- A request moves on, and the stores with it. -/
theorem move {i : ℕ} {stage : Stage} (hi : s.requests[i]? = some stage) (stage' : Stage)
    {server : Sessions.State} {unrecorded : Bool}
    (hclaims : ∀ c ∈ stage'.claims, claimsOf jwt token = some c)
    (hpassed : stage'.passed = true →
      stage.passed = true ∨ ∀ q ∈ s.requests, q.passed = false)
    (hrevoked : stage'.revoked = true → stage.revoked = true ∨ unrecorded = true ∨
      ∀ c, claimsOf jwt token = some c → server.blacklist.entry c.jti ≠ none)
    (hkept : ∀ jti, s.server.blacklist.entry jti ≠ none → server.blacklist.entry jti ≠ none)
    (hun : s.unrecorded = true → unrecorded = true) :
    Consistent jwt token { s.setStage i stage' with server, unrecorded } := by
  have hrec : ∀ q ∈ s.requests, q.revoked = true → unrecorded = true ∨
      ∀ c, claimsOf jwt token = some c → server.blacklist.entry c.jti ≠ none := fun q hq hr =>
    (h.recorded q hq hr).imp hun fun hall c hc => hkept _ (hall c hc)
  have hset : ∀ j q, (s.requests.set i stage')[j]? = some q →
      j = i ∧ q = stage' ∨ s.requests[j]? = some q := by
    intro j q hj
    by_cases hji : j = i
    · subst hji
      rw [List.getElem?_set_self (List.getElem?_eq_some_iff.mp hi).1] at hj
      exact .inl ⟨rfl, (Option.some.inj hj).symm⟩
    · rw [List.getElem?_set_ne (Ne.symm hji)] at hj
      exact .inr hj
  -- a request that has passed now had passed before, or nobody else had
  have hother : ∀ j q, s.requests[j]? = some q → q.passed = true → stage'.passed = true →
      j = i := by
    intro j q hj hq hs
    rcases hpassed hs with hold | hnone
    · exact h.one j i q stage hj hi hq hold
    · rw [hnone q (List.mem_of_getElem? hj)] at hq
      cases hq
  refine ⟨fun q hq => ?_, fun j k r q hj hk hr hq => ?_, fun q hq => ?_⟩
  · rcases List.mem_or_eq_of_mem_set hq with hq | rfl
    · exact h.claims q hq
    · exact hclaims
  · rcases hset j r hj with ⟨rfl, rfl⟩ | hj'
    · rcases hset k q hk with ⟨rfl, -⟩ | hk'
      · rfl
      · exact (hother k q hk' hq hr).symm
    · rcases hset k q hk with ⟨rfl, rfl⟩ | hk'
      · exact hother j r hj' hr hq
      · exact h.one j k r q hj' hk' hr hq
  · rcases List.mem_or_eq_of_mem_set hq with hq | rfl
    · exact hrec q hq
    · intro hr
      rcases hrevoked hr with hs | hnew
      · exact hrec stage (List.mem_of_getElem? hi) hs
      · exact hnew

/-- A check that is passed in an orderly run is passed by nobody else. -/
theorem check {i : ℕ} {claims : RefreshTokenClaims} (hi : s.requests[i]? = some (.check claims))
    (inp : Input) (hg : OrderlyAt inp s (.check claims)) :
    Consistent jwt token (s.setStage i (check inp claims s.server)) := by
  have hclaims : claimsOf jwt token = some claims :=
    h.claims _ (List.mem_of_getElem? hi) claims rfl
  unfold Rotation.check
  split
  · rename_i hpass
    obtain ⟨hnone, hrecorded, hentry⟩ := hg hpass.1 hpass.2
    refine h.move hi (.lookupUser claims) (fun c hc => ?_) (fun _ => .inr fun q hq => ?_)
      (fun hr => by cases hr) (fun _ he => he) fun hun => hun
    · cases hc
      exact hclaims
    · cases hr : q.revoked with
      | false => simp [Stage.passed, hnone q hq, hr]
      | true =>
        rcases h.recorded q hq hr with hun | hlisted
        · rw [hrecorded] at hun
          cases hun
        · exact absurd hentry (hlisted claims hclaims)
  · exact h.move hi (.returned (.error _)) (fun c hc => by cases hc) (fun hp => by cases hp)
      (fun hr => by cases hr) (fun _ he => he) fun hun => hun

theorem revokeRefresh {i : ℕ} {claims : RefreshTokenClaims} {reply : Reply}
    (hi : s.requests[i]? = some (.revokeRefresh claims reply)) (inp : Input) :
    Consistent jwt token (revokeRefresh inp i claims reply s) := by
  have hclaims : claimsOf jwt token = some claims :=
    h.claims _ (List.mem_of_getElem? hi) claims rfl
  have hown : ∀ c ∈ (Stage.revokeAccess claims reply s.server.seconds).claims,
      claimsOf jwt token = some c := by
    intro c hc
    cases hc
    exact hclaims
  unfold Rotation.revokeRefresh
  dsimp only
  split
  · rename_i blacklist hrevoke
    cases hup : inp.up with
    | false => simp [hup] at hrevoke
    | true =>
      rw [hup, if_pos rfl] at hrevoke
      have hlisted : ∀ c, claimsOf jwt token = some c → blacklist.entry c.jti ≠ none := by
        intro c hc
        cases hclaims.symm.trans hc
        exact fun he => Option.some_ne_none _ ((Blacklist.entry_revoke hrevoke).symm.trans he)
      exact h.move hi _ hown (fun _ => .inl rfl) (fun _ => .inr (.inr hlisted))
        (fun jti he => entry_ne_none_revoke hrevoke he) fun hun => hun
  · exact h.move hi _ hown (fun _ => .inl rfl) (fun _ => .inr (.inl rfl)) (fun _ he => he)
      fun _ => rfl

theorem advance {i : ℕ} {stage : Stage} (hi : s.requests[i]? = some stage) (inp : Input)
    (hg : OrderlyAt inp s stage) :
    Consistent jwt token (advance jwt config token inp i stage s) := by
  have hown : ∀ c ∈ stage.claims, claimsOf jwt token = some c :=
    h.claims stage (List.mem_of_getElem? hi)
  cases stage with
  | decode =>
    have hpassed : (decode jwt token s.server).passed = false := passed_decode s.server
    refine h.move hi _ (fun c hc => claimsOf_of_decode hc) (fun hp => ?_) (fun hr => ?_)
      (fun _ he => he) fun hun => hun
    · rw [hpassed] at hp
      cases hp
    · rw [Stage.passed, hr, Bool.or_true] at hpassed
      cases hpassed
  | check claims => exact h.check hi inp hg
  | lookupUser claims =>
    simp only [Rotation.advance, Rotation.lookupUser]
    split
    · exact h.move hi (.returned (.error _)) (fun c hc => by cases hc) (fun hp => by cases hp)
        (fun hr => by cases hr) (fun _ he => he) fun hun => hun
    · exact h.move hi (.generate claims _) hown (fun _ => .inl rfl) (fun hr => by cases hr)
        (fun _ he => he) fun hun => hun
  | generate claims user =>
    exact h.move hi (.revokeRefresh claims _) hown (fun _ => .inl rfl) (fun hr => by cases hr)
      (fun _ he => he) fun hun => hun
  | revokeRefresh claims reply => exact h.revokeRefresh hi inp
  | revokeAccess claims reply now =>
    have hdone : ∀ c ∈ (Stage.returned (.ok reply)).claims, claimsOf jwt token = some c :=
      fun c hc => by cases hc
    simp only [Rotation.advance, Rotation.revokeAccess]
    split
    · exact h.move hi _ hdone (fun _ => .inl rfl) (fun _ => .inl rfl)
        (fun _ he => entry_ne_none_state_revoke _ _ he) fun hun => hun
    · exact h.move hi _ hdone (fun _ => .inl rfl) (fun _ => .inl rfl) (fun _ he => he)
        fun hun => hun
  | returned result => exact h

theorem step (a : Action) (hg : Orderly s a) :
    Consistent jwt token (step jwt config token s a) := by
  cases a with
  | other a =>
    simp only [Rotation.step]
    split
    · exact h
    · exact ⟨h.claims, h.one, fun q hq hr => (h.recorded q hq hr).imp_right fun hall c hc =>
        entry_ne_none_step a (hall c hc)⟩
  | submit =>
    have hnew : ∀ (j : ℕ) (q : Stage), (s.requests ++ [.decode])[j]? = some q →
        q.passed = true → s.requests[j]? = some q := by
      intro j q hj hq
      by_cases hlt : j < s.requests.length
      · rwa [List.getElem?_append_left hlt] at hj
      · rw [List.getElem?_append_right (Nat.le_of_not_lt hlt)] at hj
        rw [List.mem_singleton.mp (List.mem_of_getElem? hj)] at hq
        cases hq
    refine ⟨fun q hq => ?_, fun i j r q hi hj hr hq => ?_, fun q hq hr => ?_⟩
    · rcases List.mem_append.mp hq with hq | hq
      · exact h.claims q hq
      · rw [List.mem_singleton.mp hq]
        exact fun c hc => by cases hc
    · exact h.one i j r q (hnew i r hi hr) (hnew j q hj hq) hr hq
    · rcases List.mem_append.mp hq with hq | hq
      · exact h.recorded q hq hr
      · rw [List.mem_singleton.mp hq] at hr
        cases hr
  | advance i inp =>
    simp only [Rotation.step]
    split
    · rename_i stage hi
      exact h.advance hi inp (hg stage hi)
    · exact h

theorem atMostOne : AtMostOne s := by
  have hpassed : ∀ i, Replied s i → ∃ q, s.requests[i]? = some q ∧ q.passed = true := by
    intro i hi
    rw [Replied] at hi
    cases hq : s.requests[i]? with
    | none => simp [hq] at hi
    | some q =>
      rw [hq, Option.any_some] at hi
      exact ⟨q, rfl, Stage.passed_of_replied hi⟩
  intro i j hi hj
  obtain ⟨r, hr, hrp⟩ := hpassed i hi
  obtain ⟨q, hq, hqp⟩ := hpassed j hj
  exact h.one i j r q hr hq hrp hqp

end Consistent

/-- In an orderly run one exchange of the token at most is answered with a new pair. -/
theorem refresh_rotation (jwt : Jwt) (config : AuthConfig) (token : String)
    (server : Sessions.State) (as : List Action)
    (horderly : AllSteps (step jwt config token) Orderly (start server) as) :
    AllStates (step jwt config token) AtMostOne (start server) as :=
  (allStates_of_guarded (fun _ a h hg => h.step a hg) (consistent_start server) horderly).mono
    fun _ h => h.atMostOne

theorem foldl_returned (n : ℕ) (inp : Input) (server : Sessions.State)
    (result : Except ApiError Reply) (unrecorded : Bool) :
    (List.replicate n (Action.advance 0 inp)).foldl (step jwt config token)
        ⟨server, [.returned result], unrecorded⟩ = ⟨server, [.returned result], unrecorded⟩ := by
  induction n with
  | zero => rfl
  | succ n ih => exact ih

theorem foldl_advance (n : ℕ) (inp : Input) (server : Sessions.State) (stage : Stage)
    (unrecorded : Bool) :
    (List.replicate (n + 1) (Action.advance 0 inp)).foldl (step jwt config token)
        ⟨server, [stage], unrecorded⟩ =
      (List.replicate n (Action.advance 0 inp)).foldl (step jwt config token)
        (advance jwt config token inp 0 stage ⟨server, [stage], unrecorded⟩) :=
  rfl

theorem revokeRefresh_of_up (a r : Uuid) (claims : RefreshTokenClaims) (reply : Reply)
    (s : State) :
    ∃ unrecorded, revokeRefresh ⟨true, a, r⟩ 0 claims reply s =
      { s.setStage 0 (.revokeAccess claims reply s.server.seconds) with
        server := s.server.revoke claims.jti (claims.exp - s.server.seconds)
        unrecorded } := by
  rw [revokeRefresh, Sessions.State.revoke_eq]
  cases s.server.blacklist.revoke s.server.now claims.jti
    ((claims.exp - s.server.seconds) * secondNanos) with
  | none => exact ⟨true, rfl⟩
  | some blacklist => exact ⟨s.unrecorded, rfl⟩

theorem foldl_revoke (a r : Uuid) (server : Sessions.State) (claims : RefreshTokenClaims)
    (reply : Reply) :
    ∃ unrecorded, (List.replicate 2 (Action.advance 0 ⟨true, a, r⟩)).foldl
        (step jwt config token) ⟨server, [.revokeRefresh claims reply], false⟩ =
      ⟨Sessions.revokeOldTokens claims server, [.returned (.ok reply)], unrecorded⟩ := by
  obtain ⟨unrecorded, hrevoke⟩ :=
    revokeRefresh_of_up a r claims reply ⟨server, [.revokeRefresh claims reply], false⟩
  refine ⟨unrecorded, ?_⟩
  rw [foldl_advance, advance, hrevoke, State.setStage, List.set_cons_zero, foldl_advance, advance,
    revokeAccess, Sessions.revokeOldTokens_eq]
  by_cases httl : 0 < claims.accessExp - server.seconds
  · dsimp only
    rw [if_pos ⟨httl, rfl⟩, if_pos httl]
    rfl
  · dsimp only
    rw [if_neg fun h => httl h.1, if_neg httl]
    rfl

/-- A request that runs alone does what the handler does in one go. -/
theorem foldl_alone (a r : Uuid) (server : Sessions.State) :
    ∃ unrecorded, (List.replicate 6 (Action.advance 0 ⟨true, a, r⟩)).foldl
        (step jwt config token) ⟨server, [.decode], false⟩ =
      ⟨(Sessions.refresh jwt config token a r server).2,
        [.returned (Sessions.refresh jwt config token a r server).1], unrecorded⟩ := by
  rw [foldl_advance, advance, decode, Sessions.refresh, Auth.refresh,
    show server.env.seconds = server.seconds from rfl]
  cases (jwt.decode true server.seconds token).bind RefreshTokenClaims.fromValue with
  | none => exact ⟨_, foldl_returned ..⟩
  | some claims =>
    dsimp only
    by_cases htyp : claims.typ = "refresh"
    · simp only [htyp, ne_eq, not_true_eq_false, if_false]
      rw [State.setStage, List.set_cons_zero, foldl_advance, advance, check]
      rw [Sessions.auth_revoked]
      cases server.blacklist.check server.now claims.jti with
      | true => exact ⟨_, foldl_returned ..⟩
      | false =>
        rw [if_pos ⟨rfl, rfl⟩, State.setStage, List.set_cons_zero, foldl_advance, advance,
          lookupUser]
        have henv : ({ server.env with dbUp := true } : Auth.Env) = server.env := rfl
        simp only [henv, Bool.false_eq_true, if_false]
        cases Auth.lookupUserForRefresh server.env claims.sub server.auth with
        | error e => exact ⟨_, foldl_returned ..⟩
        | ok user => exact foldl_revoke a r _ claims _
    · simp only [htyp, ne_eq, not_false_eq_true, if_true]
      exact ⟨_, foldl_returned ..⟩

/-- A signed token decodes until it is past its expiry and the leeway. -/
theorem decode_sign {c : RefreshTokenClaims} {s : Sessions.State} (htyp : c.typ = "refresh")
    (hlive : ¬ c.exp + Auth.leeway < s.seconds) : decode jwt (jwt.sign c.toValue) s = .check c := by
  simp [decode, Auth.decode_sign jwt (Auth.exp_refresh c), hlive, Auth.refresh_fromValue_refresh,
    htyp]

/-- User 1, logged in. -/
def onePair : TokenPair := Auth.generateTokens Auth.plainJwt Auth.shortConfig 0 1 false 2 3

def loggedIn : Sessions.State := ⟨0, [⟨1, "a", none, false, none⟩], .emptyRedis, [onePair]⟩

def up (accessJti refreshJti : Uuid) : Input := ⟨true, accessJti, refreshJti⟩

def twoDecoded : List Action := [.submit, .submit, .advance 0 (up 4 5), .advance 1 (up 6 7)]

/-- The second request checks when the first has been answered. -/
def politeRun : List Action :=
  twoDecoded ++ List.replicate 5 (.advance 0 (up 4 5)) ++ [.advance 1 (up 6 7)]

/-- Both check before either revokes. -/
def racingRun : List Action :=
  twoDecoded ++ [.advance 0 (up 4 5), .advance 1 (up 6 7)] ++
    List.replicate 4 (.advance 0 (up 4 5)) ++ List.replicate 4 (.advance 1 (up 6 7))

/-- The first revocation fails. -/
def failingRun : List Action :=
  twoDecoded ++ List.replicate 3 (.advance 0 (up 4 5)) ++
    List.replicate 2 (.advance 0 ⟨false, 4, 5⟩) ++ List.replicate 5 (.advance 1 (up 6 7))

theorem foldl_twoDecoded :
    twoDecoded.foldl (step Auth.plainJwt Auth.shortConfig onePair.refresh) (start loggedIn) =
      ⟨loggedIn, [.check onePair.refreshClaims, .check onePair.refreshClaims], false⟩ := by
  have hdecode : decode Auth.plainJwt onePair.refresh loggedIn = .check onePair.refreshClaims :=
    decode_sign rfl (by decide)
  simp [twoDecoded, step, start, advance, State.setStage, hdecode]

theorem refresh_rotation_polite :
    AllStates (step Auth.plainJwt Auth.shortConfig onePair.refresh) AtMostOne (start loggedIn)
      politeRun := by
  refine refresh_rotation _ _ _ _ _ ⟨trivial, trivial, ?_, ?_, ?_⟩
  · rintro stage ⟨⟩
    exact trivial
  · rintro stage ⟨⟩
    exact trivial
  · have h := foldl_twoDecoded
    simp only [twoDecoded, List.foldl_cons, List.foldl_nil] at h
    rw [h]
    decide +kernel

theorem refresh_not_rotated :
    ¬ AllStates (step Auth.plainJwt Auth.shortConfig onePair.refresh) AtMostOne (start loggedIn)
      racingRun ∧
    ¬ AllStates (step Auth.plainJwt Auth.shortConfig onePair.refresh) AtMostOne (start loggedIn)
      failingRun := by
  constructor
  · intro h
    have hlast := h.last
    rw [racingRun, List.append_assoc, List.append_assoc, List.foldl_append,
      foldl_twoDecoded] at hlast
    exact absurd (hlast 0 1 (by decide +kernel) (by decide +kernel)) (by decide)
  · intro h
    have hlast := h.last
    rw [failingRun, List.append_assoc, List.append_assoc, List.foldl_append,
      foldl_twoDecoded] at hlast
    exact absurd (hlast 0 1 (by decide +kernel) (by decide +kernel)) (by decide)

end PicHost.Rotation
