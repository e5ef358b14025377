import PicHost.Api.Revocation

/-!
# The end of a session

A login, exchanges of the current refresh token, and a logout with the current access token. The
pairs issued in such a run are the lineage of the login.
-/

namespace PicHost.Sessions

open LabelledRun Timestamps
open Auth (Jwt AuthConfig User TokenPair TokenKind leeway)

/-- An exchange some time after what came before. -/
structure Exchange where
  wait : ℕ
  accessJti : Uuid
  refreshJti : Uuid

variable (jwt : Jwt) (config : AuthConfig)

/-- The refresh token of the last pair is presented. -/
def exchange (s : State) (e : Exchange) : State :=
  step jwt config (step jwt config s (.tick e.wait))
    (.refresh (s.issued.length - 1) e.accessJti e.refreshJti)

/-- The session of a login, at the instant of its logout. -/
def session (s : State) (userId : Uuid) (isAdmin : Bool) (accessJti refreshJti : Uuid)
    (exchanges : List Exchange) (wait : ℕ) : State :=
  step jwt config
    (exchanges.foldl (exchange jwt config)
      (step jwt config s (.login userId isAdmin accessJti refreshJti)))
    (.tick wait)

/-- `logout` with the current access token. -/
def logoutCurrent (s : State) : State := step jwt config s (.logout (s.issued.length - 1))

/-- The lifetime of a token. -/
def lifetime (config : AuthConfig) : TokenKind → ℕ
  | .access => config.accessTokenTtl
  | .refresh => config.refreshTokenTtl

/-- The current pair is the last to expire, and its refresh token was never revoked. -/
structure Current (jwt : Jwt) (config : AuthConfig) (s : State) : Prop where
  wellFormed : WellFormed jwt config s
  exp : ∀ p ∈ s.issued, ∀ kind, p.exp kind ≤ s.seconds + lifetime config kind
  last : ∀ pair ∈ s.issued.getLast?, s.blacklist.entry (pair.jti .refresh) = none ∧
    ∀ p ∈ s.issued, ∀ kind, p.exp kind ≤ pair.exp kind

variable {jwt config}

theorem exp_generateTokens (now : ℕ) (userId : Uuid) (isAdmin : Bool) (a r : Uuid)
    (kind : TokenKind) : (Auth.generateTokens jwt config now userId isAdmin a r).exp kind =
      now + lifetime config kind := by
  cases kind <;> rfl

namespace Current

variable {s : State} (h : Current jwt config s)
include h

theorem tick (d : ℕ) : Current jwt config (step jwt config s (.tick d)) where
  wellFormed := h.wellFormed.step _
  exp p hp kind := (h.exp p hp kind).trans
    (Nat.add_le_add_right (seconds_mono (frame_step s (.tick d)).now) _)
  last := h.last

/-- A new pair takes over. -/
theorem issue {a r : Uuid} (hfresh : s.fresh a r = true) (userId : Uuid) (isAdmin : Bool) :
    Current jwt config
      (s.issue (Auth.generateTokens jwt config s.seconds userId isAdmin a r)) where
  wellFormed := h.wellFormed.issue hfresh _ _ _
  exp p hp kind := by
    rcases List.mem_append.mp hp with hp | hp
    · exact h.exp p hp kind
    · rw [List.mem_singleton.mp hp, exp_generateTokens]
      exact le_rfl
  last pair hpair := by
    rw [State.issue, List.getLast?_concat] at hpair
    cases hpair
    have hr := (State.fresh_iff.mp hfresh).2 r (List.mem_cons_of_mem _ List.mem_cons_self)
    refine ⟨hr.1, fun p hp kind => ?_⟩
    rw [exp_generateTokens]
    rcases List.mem_append.mp hp with hp | hp
    · exact h.exp p hp kind
    · rw [List.mem_singleton.mp hp, exp_generateTokens]

/-- The exchange revokes the pair it was presented, not the one it issues. -/
theorem refresh {pair : TokenPair} (hpair : pair ∈ s.issued) {a r : Uuid}
    (hfresh : s.fresh a r = true) :
    Current jwt config (refresh jwt config pair.refresh a r s).2 := by
  have hgen := h.wellFormed.generated pair hpair
  rcases refresh_of_generated hgen a r s with ⟨e, he⟩ | ⟨-, -, user, he⟩
  · rw [he]
    exact h
  · rw [he]
    have hnew := h.issue hfresh user.id user.isAdmin
    refine ⟨hnew.wellFormed.revokeOldTokens (List.mem_append_left _ hpair), ?_, ?_⟩
    · intro p hp kind
      rw [revokeOldTokens_issued] at hp
      rw [State.seconds, revokeOldTokens_now]
      exact hnew.exp p hp kind
    · intro last hlast
      rw [revokeOldTokens_issued] at hlast ⊢
      obtain ⟨hentry, hexp⟩ := hnew.last last hlast
      refine ⟨?_, hexp⟩
      rw [entry_revokeOldTokens_ne hgen, hentry]
      intro kind hjti
      rw [State.issue, List.getLast?_concat] at hlast
      cases hlast
      have hr := (State.fresh_iff.mp hfresh).2 r (List.mem_cons_of_mem _ List.mem_cons_self)
      exact hr.2 pair hpair kind hjti.symm

theorem step_refresh (i : ℕ) (a r : Uuid) :
    Current jwt config (step jwt config s (.refresh i a r)) := by
  simp only [step]
  split
  · rename_i pair hi
    split
    · rename_i hfresh
      exact h.refresh (List.mem_of_getElem? hi) hfresh
    · exact h
  · exact h

end Current

/-- Nobody's session yet, or none at all. -/
theorem current_start (now : ℕ) (users : List User) (blacklist : Blacklist) :
    Current jwt config (.start now users blacklist) where
  wellFormed := wellFormed_start now users blacklist
  exp _ hp := absurd hp List.not_mem_nil
  last _ hp := by cases hp

theorem current_session (now : ℕ) (users : List User) (blacklist : Blacklist) (userId : Uuid)
    (isAdmin : Bool) (a r : Uuid) (exchanges : List Exchange) (wait : ℕ) :
    Current jwt config
      (session jwt config (.start now users blacklist) userId isAdmin a r exchanges wait) := by
  have hlogin : Current jwt config
      (step jwt config (.start now users blacklist) (.login userId isAdmin a r)) := by
    simp only [step]
    split
    · rename_i hfresh
      exact (current_start now users blacklist).issue hfresh userId isAdmin
    · exact current_start now users blacklist
  exact (invariant (exchange jwt config) (J := Current jwt config)
    (fun s e hs => (hs.tick e.wait).step_refresh _ _ _) hlogin exchanges).tick wait

/-- All tokens of the lineage are out exactly when those of the current pair were past their
expiry and the leeway before the logout. -/
theorem out_logoutCurrent_iff {s : State} (h : Current jwt config s) {pair : TokenPair}
    (hpair : s.issued.getLast? = some pair) :
    (∀ p ∈ s.issued, ∀ kind, Out jwt config (logoutCurrent jwt config s) (p.text kind)) ↔
      ∀ kind, Dead s (pair.exp kind) := by
  have hmem : pair ∈ s.issued := List.mem_of_getLast? hpair
  have hgen := h.wellFormed.generated pair hmem
  have hindex : s.issued[s.issued.length - 1]? = some pair := by
    rw [← List.getLast?_eq_getElem?, hpair]
  have hok : (Revocation.logout (s.issued.length - 1)).Succeeds jwt config s :=
    ⟨pair, hindex, _, congrArg Prod.fst (logout_of_generated hgen s)⟩
  have hnow : (logoutCurrent jwt config s).now = s.now :=
    step_action_now jwt config s (.logout (s.issued.length - 1))
  have hdead : ∀ exp, Dead (logoutCurrent jwt config s) exp ↔ Dead s exp := fun exp => by
    rw [Dead, State.seconds, hnow, Dead, State.seconds]
  constructor
  · intro hout kind
    cases kind with
    | access =>
      have hrevokes : (Revocation.logout (s.issued.length - 1)).revokes .access = true := rfl
      have haccess := (out_revoked_iff h.wellFormed (.logout _) hindex hok hrevokes).mp
        (hout pair hmem .access)
      exact haccess.resolve_right fun hk => by cases hk.1
    | refresh =>
      -- nothing put the refresh token on the blacklist
      by_contra halive
      refine not_out hgen (mt (hdead _).mp halive) (fun t _ _ _ => ?_) (hout pair hmem .refresh)
      have hentry : (logoutCurrent jwt config s).blacklist.entry (pair.jti .refresh) = none := by
        rcases h.wellFormed.entry_step hmem .refresh (.logout (s.issued.length - 1)) with
          hsame | ⟨_, _, _, ha, -⟩ | ⟨_, -, -, hk⟩
        · exact hsame.trans (h.last pair hpair).1
        · cases ha
        · cases hk
      rw [Blacklist.check, hentry]
      rfl
  · intro hlate p hp kind
    refine out_of_dead (h.wellFormed.generated p hp) ((hdead _).mpr ?_)
    exact lt_of_le_of_lt (Nat.add_le_add_right ((h.last pair hpair).2 p hp kind) _) (hlate kind)

/-- A logout with the current access token succeeds. It ends the session, so that no token of
the lineage is accepted again, exactly when both current tokens were past their expiry and the
leeway anyway. -/
theorem session_end_iff (now : ℕ) (users : List User) (blacklist : Blacklist) (userId : Uuid)
    (isAdmin : Bool) (a r : Uuid) (exchanges : List Exchange) (wait : ℕ) (s : State)
    (hs : s = session jwt config (.start now users blacklist) userId isAdmin a r exchanges wait)
    (pair : TokenPair) (hpair : s.issued.getLast? = some pair) :
    (logout jwt (bearer pair.access) s).1 = .ok "logged out successfully" ∧
    ((∀ p ∈ s.issued, ∀ kind, Out jwt config (logoutCurrent jwt config s) (p.text kind)) ↔
      ∀ kind, Dead s (pair.exp kind)) := by
  have hcurrent : Current jwt config s := hs ▸ current_session now users blacklist userId isAdmin
    a r exchanges wait
  have hgen := hcurrent.wellFormed.generated pair (List.mem_of_getLast? hpair)
  exact ⟨congrArg Prod.fst (logout_of_generated hgen s), out_logoutCurrent_iff hcurrent hpair⟩

/-- User 1 exchanges the refresh token a minute after the login and waits for eight days. -/
def exchangedSession : State :=
  session Auth.plainJwt Auth.shortConfig (.start 0 [⟨1, "a", none, false, none⟩] .emptyRedis)
    1 false 2 3 [⟨60 * secondNanos, 4, 5⟩] (691200 * secondNanos)

def secondPair (jwt : Jwt) : TokenPair := Auth.generateTokens jwt Auth.shortConfig 60 1 false 4 5

/-- The state in which the exchange is presented. -/
def minuteAfter : State :=
  ⟨60 * secondNanos, [⟨1, "a", none, false, none⟩], .emptyRedis, [firstPair Auth.plainJwt]⟩

theorem exchangedSession_eq : exchangedSession =
    { revokeOldTokens (firstPair Auth.plainJwt).refreshClaims
        (minuteAfter.issue (secondPair Auth.plainJwt)) with
      now := 691260 * secondNanos } := by
  have hrefresh : refresh Auth.plainJwt Auth.shortConfig (firstPair Auth.plainJwt).refresh 4 5
      minuteAfter = _ :=
    refresh_generateTokens (by decide) rfl rfl 4 5
  have hfresh : minuteAfter.fresh 4 5 = true := by decide +kernel
  have hexchange : step Auth.plainJwt Auth.shortConfig minuteAfter (.refresh 0 4 5) =
      revokeOldTokens (firstPair Auth.plainJwt).refreshClaims
        (minuteAfter.issue (secondPair Auth.plainJwt)) := by
    have hfirst : minuteAfter.issued[0]? = some (firstPair Auth.plainJwt) := rfl
    simp only [step, hfirst, hfresh, if_true]
    rw [hrefresh]
    rfl
  have hlogin : step Auth.plainJwt Auth.shortConfig
      (.start 0 [⟨1, "a", none, false, none⟩] .emptyRedis) (.login 1 false 2 3) =
        { minuteAfter with now := 0 } := rfl
  have hwait : step Auth.plainJwt Auth.shortConfig { minuteAfter with now := 0 }
      (.tick (60 * secondNanos)) = minuteAfter := rfl
  rw [exchangedSession, session, List.foldl_cons, List.foldl_nil, exchange, hlogin, hwait]
  exact congrArg (fun s => step Auth.plainJwt Auth.shortConfig s (.tick (691200 * secondNanos)))
    hexchange

/-- A logout eight days after the exchange, when the refresh token is no longer good. -/
theorem session_end_late : (logout Auth.plainJwt (bearer (secondPair Auth.plainJwt).access)
      exchangedSession).1 = .ok "logged out successfully" ∧
    ∀ p ∈ exchangedSession.issued, ∀ kind, Out Auth.plainJwt Auth.shortConfig
      (logoutCurrent Auth.plainJwt Auth.shortConfig exchangedSession) (p.text kind) := by
  have hissued : exchangedSession.issued = [firstPair Auth.plainJwt, secondPair Auth.plainJwt] := by
    rw [exchangedSession_eq]
    rfl
  have hseconds : exchangedSession.seconds = 691260 := by
    rw [State.seconds, exchangedSession_eq]
    rfl
  obtain ⟨hok, hiff⟩ := session_end_iff 0 _ .emptyRedis 1 false 2 3 _ _ exchangedSession rfl
    (secondPair Auth.plainJwt) (by rw [hissued]; rfl)
  refine ⟨hok, hiff.mpr fun kind => ?_⟩
  rw [Dead, hseconds]
  cases kind <;> decide

/-- After a logout right after the login the refresh token is still good. -/
theorem session_not_ended :
    (logout Auth.plainJwt (bearer (firstPair Auth.plainJwt).access)
      (session Auth.plainJwt Auth.shortConfig (.start 0 [] .emptyRedis) 1 false 2 3 [] 0)).1 =
        .ok "logged out successfully" ∧
    ¬ ∀ p ∈ (session Auth.plainJwt Auth.shortConfig (.start 0 [] .emptyRedis) 1 false 2 3 []
        0).issued, ∀ kind, Out Auth.plainJwt Auth.shortConfig
      (logoutCurrent Auth.plainJwt Auth.shortConfig (session Auth.plainJwt Auth.shortConfig
        (.start 0 [] .emptyRedis) 1 false 2 3 [] 0)) (p.text kind) := by
  have hcurrent : Current Auth.plainJwt Auth.shortConfig _ :=
    current_session 0 [] .emptyRedis 1 false 2 3 [] 0
  have hlast : List.getLast? [firstPair Auth.plainJwt] = some (firstPair Auth.plainJwt) := rfl
  refine ⟨congrArg Prod.fst (logout_of_generated ⟨0, 1, false, 2, 3, rfl⟩ _), fun hout => ?_⟩
  have hdead := (out_logoutCurrent_iff hcurrent hlast).mp hout
  exact absurd (hdead .refresh) (by decide)

end PicHost.Sessions
