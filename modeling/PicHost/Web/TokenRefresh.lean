import PicHost.Lib.Run
import Mathlib.Data.Nat.Notation
import Mathlib.Logic.Function.Basic

/-!
# The refresh after a 401 in the web interface

Every request that is refused refreshes the tokens of local storage by itself. The server rotates:
it accepts each refresh token once. What runs between two awaits is one step.
-/

namespace PicHost.Web.TokenRefresh

open LabelledRun

/-- Pairs are numbered in the order in which they are issued. An access token is revoked when the
refresh token of its pair is used. -/
structure Server where
  issued : ℕ
  used : ℕ → Bool
  revoked : ℕ → Bool
  expired : ℕ → Bool
  fresh : ∀ k, issued ≤ k → used k = false ∧ revoked k = false

namespace Server

def accepts (s : Server) (access : ℕ) : Bool :=
  decide (access < s.issued) && !s.revoked access && !s.expired access

/-- `POST /auth/refresh`: a new pair, or 401. -/
def refresh (token : ℕ) (s : Server) : Option ℕ × Server :=
  if h : token < s.issued ∧ s.used token = false then
    (some s.issued,
      { s with
        issued := s.issued + 1
        used := Function.update s.used token true
        revoked := Function.update s.revoked token true
        fresh := fun k hk => by
          have hne : k ≠ token := by omega
          rw [Function.update_of_ne hne, Function.update_of_ne hne]
          exact s.fresh k (by omega) })
  else (none, s)

def expire (access : ℕ) (s : Server) : Server :=
  { s with expired := Function.update s.expired access true }

/-- The refresh token is accepted, and the access token until it expires. -/
def Holds (s : Server) (pair : ℕ) : Prop :=
  pair < s.issued ∧ s.used pair = false ∧ s.revoked pair = false

end Server

/-- Where a request is. Sent again, it has the header `x-refresh-retried`. -/
inductive Stage
  | idle
  | sent (access : Option ℕ) (retried : Bool)
  | unauthorized
  | refreshing (token : ℕ)
  | replied (pair : Option ℕ)
  | refreshed (ok : Bool)
  | finished
deriving DecidableEq

/-- The page with its local storage, and the server. -/
structure Page where
  accessToken : Option ℕ
  refreshToken : Option ℕ
  stage : ℕ → Stage
  sends : ℕ → ℕ
  forcedLogout : Bool
  server : Server

namespace Page

def setStage (p : Page) (i : ℕ) (stage : Stage) : Page :=
  { p with stage := Function.update p.stage i stage }

/-- A request goes out with the token that is in local storage then. -/
def send (p : Page) (i : ℕ) (retried : Bool) : Page :=
  { p.setStage i (.sent p.accessToken retried) with
    sends := Function.update p.sends i (p.sends i + 1) }

/-- The `afterResponse` hook up to the import of the store. -/
def afterResponse (p : Page) (i : ℕ) (status401 retried : Bool) : Page :=
  if status401 = true ∧ retried = false then p.setStage i .unauthorized else p.setStage i .finished

/-- `refresh` up to the call of the API; without a token it throws and returns `false`. -/
def callRefresh (p : Page) (i : ℕ) : Page :=
  match p.refreshToken with
  | none => p.setStage i (.refreshed false)
  | some token => p.setStage i (.refreshing token)

def rotate (p : Page) (i token : ℕ) : Page :=
  let reply := p.server.refresh token
  { p.setStage i (.replied reply.1) with server := reply.2 }

/-- The rest of `refresh`. -/
def store (p : Page) (i : ℕ) : Option ℕ → Page
  | none => p.setStage i (.refreshed false)
  | some pair =>
    { p.setStage i (.refreshed true) with accessToken := some pair, refreshToken := some pair }

def forceLogout (p : Page) : Page :=
  { p with accessToken := none, refreshToken := none, forcedLogout := true }

/-- The rest of the hook. -/
def resume (p : Page) (i : ℕ) (refreshed : Bool) : Page :=
  if refreshed then p.send i true else (p.setStage i .finished).forceLogout

end Page

/-- `refuse` stands for a 401 although the token is accepted. -/
inductive Action
  | request (i : ℕ)
  | respond (i : ℕ) (refuse : Bool)
  | callRefresh (i : ℕ)
  | rotate (i : ℕ)
  | store (i : ℕ)
  | resume (i : ℕ)
  | expire (access : ℕ)

def step (p : Page) : Action → Page
  | .request i =>
    match p.stage i with
    | .idle => p.send i false
    | _ => p
  | .respond i refuse =>
    match p.stage i with
    | .sent access retried =>
      p.afterResponse i (refuse || !access.any p.server.accepts) retried
    | _ => p
  | .callRefresh i =>
    match p.stage i with
    | .unauthorized => p.callRefresh i
    | _ => p
  | .rotate i =>
    match p.stage i with
    | .refreshing token => p.rotate i token
    | _ => p
  | .store i =>
    match p.stage i with
    | .replied pair => p.store i pair
    | _ => p
  | .resume i =>
    match p.stage i with
    | .refreshed ok => p.resume i ok
    | _ => p
  | .expire access => { p with server := p.server.expire access }

/-- A refresh is between its reading of local storage and its writing. -/
def Stage.underway : Stage → Bool
  | .refreshing _ | .replied _ => true
  | _ => false

/-- Some refresh has not come back to its hook. -/
def Stage.refreshes : Stage → Bool
  | .refreshed _ => true
  | stage => stage.underway

/-- Nothing has been sent; the stored pair is one of the server's. -/
structure Start (p : Page) : Prop where
  idle : ∀ i, p.stage i = .idle
  sends : ∀ i, p.sends i = 0
  loggedIn : p.forcedLogout = false
  stored : ∃ pair, p.accessToken = some pair ∧ p.refreshToken = some pair ∧ p.server.Holds pair

structure Kept (p : Page) : Prop where
  loggedIn : p.forcedLogout = false
  sends : ∀ i, p.sends i ≤ 2
  stored : (∀ i, (p.stage i).underway = false) →
    ∃ pair, p.accessToken = some pair ∧ p.refreshToken = some pair ∧ p.server.Holds pair

/-- A refresh reads local storage only while no other is under way. -/
def Alone (p : Page) : Action → Prop
  | .callRefresh i => p.stage i = .unauthorized → ∀ j, (p.stage j).underway = false
  | _ => True

def Settled (p : Page) : Prop := ∀ i, (p.stage i).refreshes = false

/-! ## What a step does -/

/-- The effects of the actions, with the stage of the request that each needs. -/
inductive Move (p : Page) : Action → Page → Prop
  | stay (a : Action) : Move p a p
  | request (i : ℕ) (h : p.stage i = .idle) : Move p (.request i) (p.send i false)
  | refused (i : ℕ) (refuse : Bool) (access : Option ℕ) (h : p.stage i = .sent access false) :
      Move p (.respond i refuse) (p.setStage i .unauthorized)
  | answered (i : ℕ) (refuse : Bool) (access : Option ℕ) (retried : Bool)
      (h : p.stage i = .sent access retried) :
      Move p (.respond i refuse) (p.setStage i .finished)
  | read (i token : ℕ) (h : p.stage i = .unauthorized) (htoken : p.refreshToken = some token) :
      Move p (.callRefresh i) (p.setStage i (.refreshing token))
  | missing (i : ℕ) (h : p.stage i = .unauthorized) (htoken : p.refreshToken = none) :
      Move p (.callRefresh i) (p.setStage i (.refreshed false))
  | rotate (i token : ℕ) (h : p.stage i = .refreshing token) : Move p (.rotate i) (p.rotate i token)
  | store (i : ℕ) (reply : Option ℕ) (h : p.stage i = .replied reply) :
      Move p (.store i) (p.store i reply)
  | retry (i : ℕ) (h : p.stage i = .refreshed true) : Move p (.resume i) (p.send i true)
  | logout (i : ℕ) (h : p.stage i = .refreshed false) :
      Move p (.resume i) (p.setStage i .finished).forceLogout
  | expire (access : ℕ) : Move p (.expire access) { p with server := p.server.expire access }

theorem move_step (p : Page) (a : Action) : Move p a (step p a) := by
  cases a with
  | request i =>
    simp only [step]
    split
    · exact .request i ‹_›
    · exact .stay _
  | respond i refuse =>
    simp only [step]
    split
    · rename_i access retried h
      unfold Page.afterResponse
      split
      · rename_i hrefused
        rw [hrefused.2] at h
        exact .refused i refuse access h
      · exact .answered i refuse access retried h
    · exact .stay _
  | callRefresh i =>
    simp only [step]
    split
    · rename_i h
      unfold Page.callRefresh
      split
      · exact .missing i h ‹_›
      · exact .read i _ h ‹_›
    · exact .stay _
  | rotate i =>
    simp only [step]
    split
    · exact .rotate i _ ‹_›
    · exact .stay _
  | store i =>
    simp only [step]
    split
    · exact .store i _ ‹_›
    · exact .stay _
  | resume i =>
    simp only [step]
    split
    · rename_i ok h
      cases ok with
      | true => exact .retry i h
      | false => exact .logout i h
    · exact .stay _
  | expire access => exact .expire access

section Moves

variable {p q : Page}

/-! ## A request is sent at most twice -/

/-- As often as a request in this stage can have been sent. -/
def Stage.sends : Stage → ℕ
  | .idle => 0
  | .sent _ retried => if retried then 2 else 1
  | .unauthorized | .refreshing _ | .replied _ | .refreshed _ => 1
  | .finished => 2

theorem Stage.sends_le (stage : Stage) : stage.sends ≤ 2 := by
  cases stage with
  | sent access retried => cases retried <;> simp [Stage.sends]
  | idle => exact Nat.zero_le 2
  | unauthorized | refreshing | replied | refreshed => exact Nat.le_succ 1
  | finished => exact Nat.le_refl 2

/-- No request has been sent more often than its stage says. -/
def SendsBounded (p : Page) : Prop := ∀ i, p.sends i ≤ (p.stage i).sends

theorem SendsBounded.setStage (h : SendsBounded p) {i : ℕ} {stage : Stage}
    (hle : (p.stage i).sends ≤ stage.sends) : SendsBounded (p.setStage i stage) := by
  intro j
  show p.sends j ≤ (Function.update p.stage i stage j).sends
  by_cases hj : j = i
  · subst hj
    rw [Function.update_self]
    exact Nat.le_trans (h j) hle
  · rw [Function.update_of_ne hj]
    exact h j

theorem SendsBounded.send (h : SendsBounded p) {i : ℕ} {retried : Bool}
    (hlt : (p.stage i).sends < (Stage.sent p.accessToken retried).sends) :
    SendsBounded (p.send i retried) := by
  intro j
  show Function.update p.sends i _ j ≤ (Function.update p.stage i _ j).sends
  by_cases hj : j = i
  · subst hj
    rw [Function.update_self, Function.update_self]
    exact Nat.lt_of_le_of_lt (h j) hlt
  · rw [Function.update_of_ne hj, Function.update_of_ne hj]
    exact h j

theorem SendsBounded.move {a : Action} (h : SendsBounded p) (hmove : Move p a q) :
    SendsBounded q := by
  cases hmove with
  | stay | expire => exact h
  | request i hi => exact h.send (by rw [hi]; exact Nat.zero_lt_one)
  | retry i hi => exact h.send (by rw [hi]; exact Nat.one_lt_two)
  | refused i refuse access hi => exact h.setStage (by rw [hi]; exact Nat.le_refl 1)
  | answered | logout => exact h.setStage (Stage.sends_le _)
  | read i token hi | missing i hi => exact h.setStage (by rw [hi]; exact Nat.le_refl 1)
  | rotate i token hi => exact h.setStage (by rw [hi]; exact Nat.le_refl 1)
  | store i reply hi => cases reply <;> exact h.setStage (by rw [hi]; exact Nat.le_refl 1)

/-! ## Refreshes one after the other -/

/-- While no two refreshes overlap: every token that a refresh carries is the stored one and
holds, and so does every pair on its way back. -/
structure Sound (p : Page) : Prop where
  loggedIn : p.forcedLogout = false
  stored : ∃ pair, p.accessToken = some pair ∧ p.refreshToken = some pair ∧
    ((∀ i, (p.stage i).underway = false) → p.server.Holds pair)
  refreshing : ∀ i token, p.stage i = .refreshing token →
    p.refreshToken = some token ∧ p.server.Holds token
  replied : ∀ i reply, p.stage i = .replied reply →
    (∃ pair, reply = some pair ∧ p.server.Holds pair) ∧
      ∃ old, p.refreshToken = some old ∧ p.server.used old = true
  refreshed : ∀ i, p.stage i ≠ .refreshed false
  alone : ∀ i j, (p.stage i).underway = true → (p.stage j).underway = true → i = j

/-- Requests that are not refreshing go on. -/
theorem Sound.setStage (h : Sound p) {i : ℕ} {stage : Stage} (sends : ℕ → ℕ)
    (hold : (p.stage i).underway = false) (hnew : stage.underway = false)
    (hstage : stage ≠ .refreshed false) : Sound { p.setStage i stage with sends } := by
  have hunderway : ∀ j, (Function.update p.stage i stage j).underway = (p.stage j).underway := by
    intro j
    by_cases hj : j = i
    · subst hj
      rw [Function.update_self, hnew, hold]
    · rw [Function.update_of_ne hj]
  have hsame : ∀ j st, st.underway = true → Function.update p.stage i stage j = st →
      p.stage j = st := by
    intro j st hst hj
    by_cases hji : j = i
    · subst hji
      rw [Function.update_self] at hj
      rw [← hj, hnew] at hst
      cases hst
    · rwa [Function.update_of_ne hji] at hj
  obtain ⟨pair, haccess, hrefresh, hholds⟩ := h.stored
  refine ⟨h.loggedIn, ⟨pair, haccess, hrefresh, fun hnone => hholds fun j => ?_⟩,
    fun j token hj => h.refreshing j token (hsame j _ rfl hj),
    fun j reply hj => h.replied j reply (hsame j _ rfl hj),
    fun j (hj : Function.update p.stage i stage j = .refreshed false) => ?_,
    fun j k hj hk => h.alone j k ((hunderway j).symm.trans hj) ((hunderway k).symm.trans hk)⟩
  · rw [← hunderway j]
    exact hnone j
  · by_cases hji : j = i
    · subst hji
      rw [Function.update_self] at hj
      exact hstage hj
    · rw [Function.update_of_ne hji] at hj
      exact h.refreshed j hj

/-- The server's answer to a refresh token that holds. -/
theorem Server.refresh_of_holds {s : Server} {token : ℕ} (h : s.Holds token) :
    (s.refresh token).1 = some s.issued ∧ (s.refresh token).2.Holds s.issued ∧
      (s.refresh token).2.used token = true := by
  have hne : s.issued ≠ token := Nat.ne_of_gt h.1
  obtain ⟨hused, hrevoked⟩ := s.fresh s.issued (Nat.le_refl _)
  rw [Server.refresh, dif_pos ⟨h.1, h.2.1⟩]
  refine ⟨rfl, ⟨Nat.lt_succ_self _, ?_, ?_⟩, Function.update_self ..⟩
  · exact (Function.update_of_ne hne ..).trans hused
  · exact (Function.update_of_ne hne ..).trans hrevoked

/-- The stage of a refresh changes, and no other is under way. -/
theorem Sound.set_alone {i : ℕ} {stage : Stage} (hloggedIn : p.forcedLogout = false)
    (hstage : stage ≠ .refreshed false)
    (hothers : ∀ j, j ≠ i → (p.stage j).underway = false ∧ p.stage j ≠ .refreshed false)
    (hstored : ∃ pair, p.accessToken = some pair ∧ p.refreshToken = some pair ∧
      (stage.underway = false → p.server.Holds pair))
    (hrefreshing : ∀ token, stage = .refreshing token →
      p.refreshToken = some token ∧ p.server.Holds token)
    (hreplied : ∀ reply, stage = .replied reply →
      (∃ pair, reply = some pair ∧ p.server.Holds pair) ∧
        ∃ old, p.refreshToken = some old ∧ p.server.used old = true) :
    Sound (p.setStage i stage) := by
  have hself : (p.setStage i stage).stage i = stage := Function.update_self ..
  have hother : ∀ j, j ≠ i → (p.setStage i stage).stage j = p.stage j := fun j hj =>
    Function.update_of_ne hj ..
  have hunderway : ∀ j, ((p.setStage i stage).stage j).underway = true → j = i := by
    intro j hj
    by_contra hne
    rw [hother j hne, (hothers j hne).1] at hj
    cases hj
  obtain ⟨pair, haccess, hrefresh, hholds⟩ := hstored
  refine ⟨hloggedIn, ⟨pair, haccess, hrefresh, fun hnone => hholds ?_⟩, fun j token hj => ?_,
    fun j reply hj => ?_, fun j hj => ?_,
    fun j k hj hk => (hunderway j hj).trans (hunderway k hk).symm⟩
  · rw [← hself]
    exact hnone i
  · obtain rfl := hunderway j (by rw [hj]; rfl)
    exact hrefreshing token (hself.symm.trans hj)
  · obtain rfl := hunderway j (by rw [hj]; rfl)
    exact hreplied reply (hself.symm.trans hj)
  · by_cases hji : j = i
    · subst hji
      exact hstage (hself.symm.trans hj)
    · exact (hothers j hji).2 ((hother j hji).symm.trans hj)

theorem Sound.move {a : Action} (h : Sound p) (hmove : Move p a q) (halone : Alone p a) :
    Sound q := by
  have hothers : ∀ i, (p.stage i).underway = true →
      ∀ j, j ≠ i → (p.stage j).underway = false ∧ p.stage j ≠ .refreshed false := by
    intro i hi j hj
    exact ⟨eq_false_of_ne_true fun hunderway => hj (h.alone j i hunderway hi), h.refreshed j⟩
  cases hmove with
  | stay => exact h
  | request i hi | retry i hi => exact h.setStage _ (by rw [hi]; rfl) rfl nofun
  | refused i refuse access hi | answered i refuse access retried hi =>
    exact h.setStage p.sends (by rw [hi]; rfl) rfl nofun
  | read i token hi htoken =>
    obtain ⟨pair, haccess, hrefresh, hholds⟩ := h.stored
    obtain rfl := Option.some.inj (htoken.symm.trans hrefresh)
    have hheld := hholds (halone hi)
    exact .set_alone h.loggedIn nofun (fun j _ => ⟨halone hi j, h.refreshed j⟩)
      ⟨token, haccess, hrefresh, fun _ => hheld⟩
      (fun t ht => by cases ht; exact ⟨hrefresh, hheld⟩) fun reply hreply => by cases hreply
  | missing i hi htoken =>
    obtain ⟨pair, -, hrefresh, -⟩ := h.stored
    rw [htoken] at hrefresh
    cases hrefresh
  | rotate i token hi =>
    obtain ⟨hrefresh, hholds⟩ := h.refreshing i token hi
    obtain ⟨hreply, hnew, hused⟩ := Server.refresh_of_holds hholds
    obtain ⟨pair, haccess, hpair, -⟩ := h.stored
    show Sound (({ p with server := (p.server.refresh token).2 } : Page).setStage i
      (.replied (p.server.refresh token).1))
    rw [hreply]
    exact .set_alone h.loggedIn nofun (hothers i (by rw [hi]; rfl))
      ⟨pair, haccess, hpair, nofun⟩ nofun fun reply hreply => by
        cases hreply
        exact ⟨⟨_, rfl, hnew⟩, token, hrefresh, hused⟩
  | store i reply hi =>
    obtain ⟨⟨pair, rfl, hholds⟩, -⟩ := h.replied i reply hi
    show Sound (({ p with accessToken := some pair, refreshToken := some pair } : Page).setStage i
      (.refreshed true))
    exact .set_alone h.loggedIn nofun (hothers i (by rw [hi]; rfl))
      ⟨pair, rfl, rfl, fun _ => hholds⟩ nofun nofun
  | logout i hi => exact (h.refreshed i hi).elim
  | expire access => exact ⟨h.loggedIn, h.stored, h.refreshing, h.replied, h.refreshed, h.alone⟩

/-! ## Refreshes that overlap -/

def Action.actor : Action → Option ℕ
  | .request i | .respond i _ | .callRefresh i | .rotate i | .store i | .resume i => some i
  | .expire _ => none

theorem Move.stage_eq {a : Action} (hmove : Move p a q) {i : ℕ} (ha : a.actor ≠ some i) :
    q.stage i = p.stage i := by
  have hne : ∀ {k : ℕ}, a.actor = some k → i ≠ k := fun hk heq => ha (heq ▸ hk)
  cases hmove with
  | stay | expire => rfl
  | store k reply => cases reply <;> exact Function.update_of_ne (hne rfl) ..
  | request | refused | answered | read | missing | rotate | retry | logout =>
    exact Function.update_of_ne (hne rfl) ..

theorem Server.used_refresh (s : Server) (token : ℕ) {t : ℕ} (h : s.used t = true) :
    (s.refresh token).2.used t = true := by
  unfold Server.refresh
  split
  · show Function.update s.used token true t = true
    by_cases ht : t = token
    · subst ht
      exact Function.update_self ..
    · rwa [Function.update_of_ne ht]
  · exact h

/-- A refresh token is refused or used up. -/
theorem Server.refresh_cases (s : Server) (token : ℕ) :
    (s.refresh token).1 = none ∨ (s.refresh token).2.used token = true := by
  unfold Server.refresh
  split
  · exact .inr (Function.update_self ..)
  · exact .inl rfl

theorem Move.used {a : Action} (hmove : Move p a q) {token : ℕ}
    (h : p.server.used token = true) : q.server.used token = true := by
  cases hmove with
  | rotate i t => exact p.server.used_refresh t h
  | store i reply => cases reply <;> exact h
  | stay | expire | request | refused | answered | read | missing | retry | logout => exact h

theorem Move.forcedLogout {a : Action} (hmove : Move p a q) (h : p.forcedLogout = true) :
    q.forcedLogout = true := by
  cases hmove with
  | logout => rfl
  | store i reply => cases reply <;> exact h
  | stay | expire | request | refused | answered | read | missing | rotate | retry => exact h

/-- One refresh fails, or two carry the same token. -/
inductive Doomed (p : Page) : Prop
  | loggedOut (h : p.forcedLogout = true)
  | failed (i : ℕ) (h : p.stage i = .refreshed false)
  | refused (i : ℕ) (h : p.stage i = .replied none)
  | spent (i token : ℕ) (h : p.stage i = .refreshing token) (hused : p.server.used token = true)
  | shared (i j token : ℕ) (hne : i ≠ j) (hi : p.stage i = .refreshing token)
      (hj : p.stage j = .refreshing token)

theorem failed_step {i : ℕ} (h : p.stage i = .refreshed false) (a : Action) :
    (step p a).stage i = .refreshed false ∨ (step p a).forcedLogout = true := by
  by_cases ha : a.actor = some i
  · cases a with
    | expire => cases ha
    | resume j =>
      obtain rfl := Option.some.inj ha
      simp only [step, h]
      exact .inr rfl
    | request j | respond j | callRefresh j | rotate j | store j =>
      obtain rfl := Option.some.inj ha
      left
      simp only [step, h]
  · exact .inl (((move_step p a).stage_eq ha).trans h)

theorem refused_step {i : ℕ} (h : p.stage i = .replied none) (a : Action) :
    (step p a).stage i = .replied none ∨ (step p a).stage i = .refreshed false := by
  by_cases ha : a.actor = some i
  · cases a with
    | expire => cases ha
    | store j =>
      obtain rfl := Option.some.inj ha
      simp only [step, h]
      exact .inr (Function.update_self ..)
    | request j | respond j | callRefresh j | rotate j | resume j =>
      obtain rfl := Option.some.inj ha
      left
      simp only [step, h]
  · exact .inl (((move_step p a).stage_eq ha).trans h)

theorem refreshing_step {i token : ℕ} (h : p.stage i = .refreshing token) (a : Action) :
    (step p a).stage i = .refreshing token ∨
      a = .rotate i ∧ (step p a).stage i = .replied (p.server.refresh token).1 ∧
        (step p a).server = (p.server.refresh token).2 := by
  by_cases ha : a.actor = some i
  · cases a with
    | expire => cases ha
    | rotate j =>
      obtain rfl := Option.some.inj ha
      simp only [step, h]
      exact .inr ⟨trivial, Function.update_self .., rfl⟩
    | request j | respond j | callRefresh j | store j | resume j =>
      obtain rfl := Option.some.inj ha
      left
      simp only [step, h]
  · exact .inl (((move_step p a).stage_eq ha).trans h)

/-- The first of two refreshes with one token uses it up. -/
theorem doomed_rotate {i j token : ℕ} (hne : i ≠ j) (hj : p.stage j = .refreshing token)
    (hreply : (step p (.rotate i)).stage i = .replied (p.server.refresh token).1)
    (hserver : (step p (.rotate i)).server = (p.server.refresh token).2) :
    Doomed (step p (.rotate i)) := by
  have hj' : (step p (.rotate i)).stage j = .refreshing token :=
    ((move_step p (.rotate i)).stage_eq fun h => hne (Option.some.inj h)).trans hj
  rcases p.server.refresh_cases token with hnone | hused
  · exact .refused i (hnone ▸ hreply)
  · exact .spent j token hj' (hserver ▸ hused)

theorem doomed_step (h : Doomed p) (a : Action) : Doomed (step p a) := by
  cases h with
  | loggedOut h => exact .loggedOut ((move_step p a).forcedLogout h)
  | failed i h =>
    rcases failed_step h a with h | h
    · exact .failed i h
    · exact .loggedOut h
  | refused i h =>
    rcases refused_step h a with h | h
    · exact .refused i h
    · exact .failed i h
  | spent i token h hused =>
    rcases refreshing_step h a with h | ⟨-, hreply, -⟩
    · exact .spent i token h ((move_step p a).used hused)
    · have hnone : (p.server.refresh token).1 = none := by
        rw [Server.refresh, dif_neg fun hok => Bool.false_ne_true (hok.2.symm.trans hused)]
      exact .refused i (hnone ▸ hreply)
  | shared i j token hne hi hj =>
    rcases refreshing_step hi a with hi' | ⟨rfl, hreply, hserver⟩
    · rcases refreshing_step hj a with hj' | ⟨rfl, hreply, hserver⟩
      · exact .shared i j token hne hi' hj'
      · exact doomed_rotate hne.symm hi hreply hserver
    · exact doomed_rotate hne hj hreply hserver

/-- Once all refreshes have come back, a doomed page is logged out. -/
theorem Doomed.loggedOut_of_settled (h : Doomed p) (hsettled : Settled p) :
    p.forcedLogout = true := by
  cases h with
  | loggedOut h => exact h
  | failed i h | refused i h | spent i token h | shared i j token hne h =>
    have hi := hsettled i
    rw [h] at hi
    cases hi

/-- A refresh that reads local storage while another is under way dooms the page. -/
theorem Sound.doomed_of_overlap (h : Sound p) {a : Action} (halone : ¬Alone p a) :
    Doomed (step p a) := by
  cases a with
  | callRefresh i =>
    simp only [Alone, Classical.not_imp, not_forall, Bool.not_eq_false] at halone
    obtain ⟨hi, j, hj⟩ := halone
    obtain ⟨token, -, hrefresh, -⟩ := h.stored
    have hstep : step p (.callRefresh i) = p.setStage i (.refreshing token) := by
      simp only [step, hi, Page.callRefresh, hrefresh]
    have hne : i ≠ j := by
      rintro rfl
      rw [hi] at hj
      cases hj
    have hself : (p.setStage i (.refreshing token)).stage i = .refreshing token :=
      Function.update_self ..
    have hother : (p.setStage i (.refreshing token)).stage j = p.stage j :=
      Function.update_of_ne hne.symm ..
    rw [hstep]
    cases hstage : p.stage j with
    | refreshing t =>
      obtain rfl := Option.some.inj (hrefresh.symm.trans (h.refreshing j t hstage).1)
      exact .shared i j token hne hself (hother.trans hstage)
    | replied reply =>
      obtain ⟨-, old, hold, hused⟩ := h.replied j reply hstage
      obtain rfl := Option.some.inj (hrefresh.symm.trans hold)
      exact .spent i token hself hused
    | idle | sent | unauthorized | refreshed | finished =>
      rw [hstage] at hj
      cases hj
  | request | respond | rotate | store | resume | expire => exact (halone trivial).elim

theorem Sound.kept (h : Sound p) (hsends : SendsBounded p) : Kept p := by
  obtain ⟨pair, haccess, hrefresh, hholds⟩ := h.stored
  exact ⟨h.loggedIn, fun i => Nat.le_trans (hsends i) (Stage.sends_le _),
    fun hnone => ⟨pair, haccess, hrefresh, hholds hnone⟩⟩

theorem Start.sound (h : Start p) : Sound p := by
  obtain ⟨pair, haccess, hrefresh, hholds⟩ := h.stored
  refine ⟨h.loggedIn, ⟨pair, haccess, hrefresh, fun _ => hholds⟩, fun i token hi => ?_,
    fun i reply hi => ?_, fun i hi => ?_, fun i j hi => ?_⟩ <;> rw [h.idle i] at hi <;> cases hi

theorem Start.sendsBounded (h : Start p) : SendsBounded p := fun i => by
  rw [h.sends i]
  exact Nat.zero_le _

end Moves

theorem doomed_run {p : Page} (h : Doomed p) (as : List Action) : Doomed (as.foldl step p) :=
  invariant (J := Doomed) step (fun _ a h => doomed_step h a) h as

/-- A run that ends with its user logged in and no refresh left had none that overlapped. -/
theorem Sound.alone_of_settled {p : Page} (h : Sound p) {as : List Action}
    (hsettled : Settled (as.foldl step p)) (hloggedIn : (as.foldl step p).forcedLogout = false) :
    AllSteps step Alone p as := by
  induction as generalizing p with
  | nil => trivial
  | cons a as ih =>
    by_cases halone : Alone p a
    · exact ⟨halone, ih (h.move (move_step p a) halone) hsettled hloggedIn⟩
    · have hout := (doomed_run (h.doomed_of_overlap halone) as).loggedOut_of_settled hsettled
      exact (Bool.false_ne_true (hloggedIn.symm.trans hout)).elim

/-- Refreshes that never overlap keep the user logged in. In a run at whose end all refreshes have
come back, nothing else does. -/
theorem refreshes_alone_iff {p : Page} (hp : Start p) (as : List Action) :
    (AllSteps step Alone p as → AllStates step Kept p as) ∧
      (Settled (as.foldl step p) → (AllStates step Kept p as ↔ AllSteps step Alone p as)) := by
  have hguarded : AllSteps step Alone p as → AllStates step Kept p as := fun halone =>
    (allStates_of_guarded (J := fun p => Sound p ∧ SendsBounded p)
      (fun p a h hg => ⟨h.1.move (move_step p a) hg, h.2.move (move_step p a)⟩)
      ⟨hp.sound, hp.sendsBounded⟩ halone).mono fun p h => h.1.kept h.2
  refine ⟨hguarded, fun hsettled => ⟨fun hkept => ?_, hguarded⟩⟩
  have hloggedIn : (as.foldl step p).forcedLogout = false := hkept.last.loggedIn
  exact hp.sound.alone_of_settled hsettled hloggedIn

/-- The stored access token has expired. -/
def expiredPage : Page where
  accessToken := some 0
  refreshToken := some 0
  stage := fun _ => .idle
  sends := fun _ => 0
  forcedLogout := false
  server :=
    { issued := 1
      used := fun _ => false
      revoked := fun _ => false
      expired := fun access => access == 0
      fresh := fun _ _ => ⟨rfl, rfl⟩ }

theorem start_expiredPage : Start expiredPage :=
  ⟨fun _ => rfl, fun _ => rfl, rfl, 0, rfl, rfl, Nat.zero_lt_one, rfl, rfl⟩

/-- Two requests, the second of which refreshes after the first. -/
def consecutiveRun : List Action :=
  [.request 0, .request 1, .respond 0 false, .respond 1 false,
    .callRefresh 0, .rotate 0, .store 0, .resume 0,
    .callRefresh 1, .rotate 1, .store 1, .resume 1, .respond 0 false, .respond 1 false]

theorem refreshes_alone_iff_consecutive :
    AllStates step Kept expiredPage consecutiveRun := by
  refine (refreshes_alone_iff start_expiredPage consecutiveRun).1
    ⟨trivial, trivial, trivial, trivial, fun _ j => ?_, trivial, trivial, trivial, fun _ j => ?_,
      trivial, trivial, trivial, trivial, trivial, trivial⟩ <;>
    rcases j with _ | _ | j <;> rfl

/-- Both requests read the refresh token before the first has a new one. -/
def parallelRun : List Action :=
  [.request 0, .request 1, .respond 0 false, .respond 1 false, .callRefresh 0, .callRefresh 1,
    .rotate 0, .rotate 1, .store 0, .resume 0, .store 1, .resume 1]

theorem parallel_refresh_logs_out : ¬AllStates step Kept expiredPage parallelRun := fun h =>
  absurd h.last.loggedIn (by decide)

end PicHost.Web.TokenRefresh
