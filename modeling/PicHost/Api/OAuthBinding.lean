import PicHost.Api.OAuth
import PicHost.Lib.Run

/-!
# Callbacks and the redirects before them

Browsers, the provider and the server. A redirect draws a state, the provider hands it back with
a code, and a callback brings both.
-/

namespace PicHost.OAuthBinding

open KeyedTable LabelledRun
open Auth (Jwt AuthConfig)
open OAuth (OAuthConfig OAuthCallbackQuery AuthorizeUrl Call Request Stage Input githubConfig
  githubRedirect googleRedirect)

/-- A browser on its way through a provider; with a code the provider has sent it back. -/
structure Flow where
  browser : ℕ
  provider : String
  state : String
  code : Option String
deriving DecidableEq

def Flow.key (f : Flow) : String × String := (f.provider, f.state)

/-- The flow once the provider has answered it with the code. -/
def Flow.answer (browser : ℕ) (provider state code : String) (f : Flow) : Flow :=
  if f = ⟨browser, provider, state, none⟩ then { f with code := some code } else f

def query : Call → Option OAuthCallbackQuery
  | .githubCallback query | .googleCallback query => some query
  | .oauthLink _ _ => none

/-- The provider and the state that a callback is made with. -/
def callKey (call : Call) : Option (String × String) :=
  (query call).map fun q => (call.provider, q.state)

/-- The flow that a callback ends, if there is one. -/
def flowOf (browser : ℕ) (call : Call) : Option Flow :=
  (query call).map fun q => ⟨browser, call.provider, q.state, some q.code⟩

/-- Who has made a request, and whether it has ended a flow of the browser's own. -/
structure Caller where
  browser : ℕ
  followed : Bool

/-- All but `server` is history: the callers of the requests, the states drawn for a provider,
the codes it has given to a browser, and the flows under way. -/
structure State where
  server : OAuth.State
  callers : List Caller
  drawn : List (String × String)
  granted : List (ℕ × String × String)
  flows : List Flow

def State.calls (s : State) : List Call := s.server.requests.map Request.call

/-- In `authorize` somebody consents at the provider's page, wherever the browser has the URL
from. All requests come from browsers. -/
inductive Action
  | githubRedirect (browser : ℕ) (csrfToken : String)
  | googleRedirect (browser : ℕ) (csrfToken : String)
  | authorize (browser : ℕ) (provider state code : String)
  | request (browser : ℕ) (call : Call)
  | server (a : OAuth.Action)

def redirected (browser : ℕ) (provider : String) (result : Except ApiError AuthorizeUrl)
    (s : State) : State :=
  match result with
  | .error _ => s
  | .ok url =>
    { s with
      -- the browser follows the redirect; the server keeps nothing of the state
      drawn := s.drawn ++ [(provider, url.state)]
      flows := s.flows ++ [⟨browser, provider, url.state, none⟩] }

/-- The provider hands the state back as it has been given it. -/
def authorize (browser : ℕ) (provider state code : String) (s : State) : State :=
  { s with
    granted := s.granted ++ [(browser, provider, code)]
    flows := s.flows.map (Flow.answer browser provider state code) }

variable (jwt : Jwt) (authConfig : AuthConfig) (config : OAuthConfig)

def step (s : State) : Action → State
  | .githubRedirect browser csrfToken =>
    redirected browser "github" (githubRedirect config csrfToken) s
  | .googleRedirect browser csrfToken =>
    redirected browser "google" (googleRedirect config csrfToken) s
  | .authorize browser provider state code => authorize browser provider state code s
  | .request browser call =>
    { s with
      server := OAuth.step jwt authConfig config s.server (.submit call)
      -- whether it was the browser's own flow is judged when the callback comes in
      callers := s.callers ++ [⟨browser, (flowOf browser call).any (· ∈ s.flows)⟩]
      flows := s.flows.filter fun f => flowOf browser call ≠ some f }
  | .server (.submit _) => s
  | .server a => { s with server := OAuth.step jwt authConfig config s.server a }

def start : State := ⟨OAuth.start, [], [], [], []⟩

/-- The state was drawn for the provider, no callback before it was made with it, and the code
was given to the browser that brings it. -/
structure BoundAt (s : State) (i : ℕ) (browser : ℕ) (provider : String)
    (q : OAuthCallbackQuery) : Prop where
  drawn : (provider, q.state) ∈ s.drawn
  unused : ∀ call ∈ s.calls.take i, callKey call ≠ some (provider, q.state)
  own : (browser, provider, q.code) ∈ s.granted

def signedIn : Stage → Bool
  | .returned (.ok (.tokens _ _)) => true
  | _ => false

/-- Every callback that has been answered with tokens is bound to a redirect. -/
def Bound (s : State) : Prop :=
  ∀ i r caller, s.server.requests[i]? = some r → s.callers[i]? = some caller →
    signedIn r.stage = true → ∀ q ∈ query r.call, BoundAt s i caller.browser r.call.provider q

/-- Nobody has come across the state before. -/
def New (s : State) (key : String × String) : Prop :=
  key ∉ s.drawn ∧ ∀ call ∈ s.calls, callKey call ≠ some key

instance (s : State) (key : String × String) : Decidable (New s key) :=
  inferInstanceAs (Decidable (_ ∧ _))

/-- Before its last statement a request has ended a flow, or the statement fails. -/
def FollowedAt (inp : Input) (i : ℕ) (s : State) : Stage → Prop
  | .lookupUser userId => inp.dbUp = true →
    (s.server.users.anyRow fun u => u.id == userId) = true →
      ∀ caller ∈ s.callers[i]?, caller.followed = true
  | _ => True

instance (inp : Input) (i : ℕ) (s : State) : DecidablePred (FollowedAt inp i s)
  | .lookupUser _ => inferInstanceAs (Decidable (_ = true → _ = true → ∀ caller ∈ s.callers[i]?,
      caller.followed = true))
  | .fetch | .lookupAccount _ | .insertAccount _ | .returned _ => isTrue trivial

/-- States are new when they are drawn. A callback ends a flow of its browser, or it has the
state of no flow under way and is turned away. -/
def Follows (s : State) : Action → Prop
  | .githubRedirect _ csrfToken => New s ("github", csrfToken)
  | .googleRedirect _ csrfToken => New s ("google", csrfToken)
  | .authorize _ _ _ _ => True
  | .request browser call =>
    ∀ f ∈ flowOf browser call, f ∈ s.flows ∨ ∀ g ∈ s.flows, g.key ≠ f.key
  | .server (.advance i inp) => ∀ r ∈ s.server.requests[i]?, FollowedAt inp i s r.stage
  | .server _ => True

instance (s : State) : DecidablePred (Follows s)
  | .githubRedirect _ _ | .googleRedirect _ _ => inferInstanceAs (Decidable (New s _))
  | .authorize _ _ _ _ => isTrue trivial
  | .request _ _ => Option.decidableForallMem _
  | .server (.advance _ _) => Option.decidableForallMem _
  | .server (.createUser _) | .server (.setUser _) | .server (.deleteUser _)
  | .server (.submit _) => isTrue trivial

/-- Flows have states of their own, and a callback that has ended one is bound to it. -/
structure Coherent (s : State) : Prop where
  aligned : s.callers.length = s.calls.length
  drawn : ∀ f ∈ s.flows, f.key ∈ s.drawn
  granted : ∀ f ∈ s.flows, ∀ code ∈ f.code, (f.browser, f.provider, code) ∈ s.granted
  distinct : ∀ f ∈ s.flows, ∀ g ∈ s.flows, f.key = g.key → f = g
  unused : ∀ f ∈ s.flows, ∀ call ∈ s.calls, callKey call ≠ some f.key
  followed : ∀ i call caller, s.calls[i]? = some call → s.callers[i]? = some caller →
    caller.followed = true → ∀ q ∈ query call, BoundAt s i caller.browser call.provider q
  answered : ∀ (i : ℕ) r caller, s.server.requests[i]? = some r → s.callers[i]? = some caller →
    signedIn r.stage = true → caller.followed = true

variable {jwt authConfig config}

@[simp] theorem Flow.key_answer (browser : ℕ) (provider state code : String) (f : Flow) :
    (f.answer browser provider state code).key = f.key := by
  unfold Flow.answer
  split <;> rfl

theorem Flow.granted_answer {browser : ℕ} {provider state code : String} {f : Flow}
    {granted : List (ℕ × String × String)}
    (h : ∀ c ∈ f.code, (f.browser, f.provider, c) ∈ granted) :
    ∀ c ∈ (f.answer browser provider state code).code,
      ((f.answer browser provider state code).browser,
        (f.answer browser provider state code).provider, c) ∈
          granted ++ [(browser, provider, code)] := by
  intro c hc
  by_cases hf : f = ⟨browser, provider, state, none⟩
  · simp only [Flow.answer, hf, if_true] at hc ⊢
    cases hc
    exact List.mem_append_right _ (List.mem_singleton_self _)
  · simp only [Flow.answer, hf, if_false] at hc ⊢
    exact List.mem_append_left _ (h c hc)

theorem coherent_start : Coherent start where
  aligned := rfl
  drawn _ hf := absurd hf List.not_mem_nil
  granted _ hf := absurd hf List.not_mem_nil
  distinct _ hf := absurd hf List.not_mem_nil
  unused _ hf := absurd hf List.not_mem_nil
  followed _ _ _ hi := by simp [start, State.calls, OAuth.start] at hi
  answered _ _ _ hi := by simp [start, OAuth.start] at hi

theorem Coherent.bound {s : State} (h : Coherent s) : Bound s := by
  intro i r caller hr hcaller hans q hq
  have hcall : s.calls[i]? = some r.call := by
    rw [State.calls, List.getElem?_map, hr]
    rfl
  exact h.followed i r.call caller hcall hcaller (h.answered i r caller hr hcaller hans) q hq

theorem signedIn_fetch (inp : Input) (call : Call) :
    signedIn (OAuth.fetch config inp call) = false := by
  obtain ⟨e, he⟩ | ⟨info, -, he | he⟩ := OAuth.fetch_cases config inp call
  all_goals
    rw [he]
    rfl

theorem signedIn_lookupAccount (inp : Input) (provider : String) (info : OAuth.OAuthUserInfo)
    (accounts : OAuth.OAuthAccounts) :
    signedIn (OAuth.lookupAccount inp provider info accounts) = false := by
  obtain ⟨e, he, -⟩ | ⟨a, -, -, -, he⟩ := OAuth.lookupAccount_cases inp provider info accounts
  all_goals
    rw [he]
    rfl

theorem requests_oauthLink (inp : Input) (i : ℕ) (r : Request) (user : AuthUser)
    (body : OAuth.OAuthLinkRequest) (info : OAuth.OAuthUserInfo) (s : OAuth.State) :
    ∃ result, (OAuth.oauthLink inp i r user body info s).requests =
        s.requests.set i { r with stage := .returned result } ∧
      signedIn (.returned result) = false := by
  unfold OAuth.oauthLink
  dsimp only
  split
  · exact ⟨.error OAuth.internalError, rfl, rfl⟩
  · exact ⟨.ok .linked, rfl, rfl⟩

variable (jwt authConfig config) in
/-- A request stays what it asks for, and is signed in by its last statement only. -/
theorem requests_advance {s : OAuth.State} {i : ℕ} {r : Request} (hi : s.requests[i]? = some r)
    (inp : Input) :
    ∃ r', (OAuth.advance jwt authConfig config inp i r s).requests = s.requests.set i r' ∧
      r'.call = r.call ∧ (signedIn r'.stage = true → signedIn r.stage = true ∨
        ∃ userId, r.stage = .lookupUser userId ∧ inp.dbUp = true ∧
          ∃ u ∈ s.users.rows, u.id = userId) := by
  have hsame : s.requests = s.requests.set i r := by
    obtain ⟨hlt, hget⟩ := List.getElem?_eq_some_iff.mp hi
    rw [← hget, List.set_getElem_self]
  cases hstage : r.stage with
  | fetch =>
    refine ⟨OAuth.fetched config inp r, ?_, rfl, fun hs => ?_⟩
    · rw [OAuth.advance, hstage]
      rfl
    · exact absurd ((signedIn_fetch inp r.call).symm.trans hs) Bool.false_ne_true
  | lookupAccount info =>
    refine ⟨{ r with stage := OAuth.lookupAccount inp r.call.provider info s.accounts }, ?_, rfl,
      fun hs => ?_⟩
    · rw [OAuth.advance, hstage]
      rfl
    · exact absurd ((signedIn_lookupAccount _ _ _ _).symm.trans hs) Bool.false_ne_true
  | lookupUser userId =>
    refine ⟨{ r with stage := OAuth.lookupUser jwt authConfig inp userId s.users }, ?_, rfl,
      fun hs => .inr ⟨userId, rfl, ?_⟩⟩
    · rw [OAuth.advance, hstage]
      rfl
    · obtain ⟨e, he⟩ | ⟨pair, user, huser, hid, hup, -⟩ :=
        OAuth.lookupUser_cases jwt authConfig inp userId s.users
      · rw [he] at hs
        cases hs
      · exact ⟨hup, user, huser, hid⟩
  | insertAccount info =>
    cases hcall : r.call with
    | oauthLink user body =>
      obtain ⟨result, hset, hresult⟩ := requests_oauthLink inp i r user body info s
      refine ⟨{ r with stage := .returned result }, ?_, hcall, fun hs => ?_⟩
      · rw [← hset]
        simp only [OAuth.advance, hstage, hcall]
      · exact absurd (hresult.symm.trans hs) Bool.false_ne_true
    | githubCallback | googleCallback =>
      refine ⟨r, ?_, hcall, fun hs => .inl (hstage ▸ hs)⟩
      rw [OAuth.advance, hstage, hcall]
      exact hsame
  | returned result =>
    refine ⟨r, ?_, rfl, fun hs => .inl (hstage ▸ hs)⟩
    rw [OAuth.advance, hstage]
    exact hsame

variable (jwt authConfig config) in
/-- What a step of the server, other than a request's arrival, does to the requests. -/
theorem requests_server {s : OAuth.State} {a : OAuth.Action} (ha : ∀ call, a ≠ .submit call) :
    (OAuth.step jwt authConfig config s a).requests.map Request.call =
        s.requests.map Request.call ∧
      ∀ (j : ℕ) r', (OAuth.step jwt authConfig config s a).requests[j]? = some r' →
        signedIn r'.stage = true →
          (∃ r, s.requests[j]? = some r ∧ signedIn r.stage = true) ∨
            ∃ inp r userId, a = .advance j inp ∧ s.requests[j]? = some r ∧
              r.stage = .lookupUser userId ∧ inp.dbUp = true ∧
                ∃ u ∈ s.users.rows, u.id = userId := by
  have hsame : ∀ s' : OAuth.State, s'.requests = s.requests →
      s'.requests.map Request.call = s.requests.map Request.call ∧
        ∀ (j : ℕ) r', s'.requests[j]? = some r' → signedIn r'.stage = true →
          (∃ r, s.requests[j]? = some r ∧ signedIn r.stage = true) ∨
            ∃ inp r userId, a = .advance j inp ∧ s.requests[j]? = some r ∧
              r.stage = .lookupUser userId ∧ inp.dbUp = true ∧
                ∃ u ∈ s.users.rows, u.id = userId := by
    intro s' hs'
    rw [hs']
    exact ⟨rfl, fun j r' hr' hs => .inl ⟨r', hr', hs⟩⟩
  cases a with
  | createUser user =>
    apply hsame
    simp only [OAuth.step]
    split <;> rfl
  | setUser user =>
    apply hsame
    simp only [OAuth.step]
    split <;> rfl
  | deleteUser userId => exact hsame _ rfl
  | submit call => exact absurd rfl (ha call)
  | advance i inp =>
    cases hi : s.requests[i]? with
    | none =>
      apply hsame
      simp only [OAuth.step, hi]
    | some r =>
      obtain ⟨r', hset, hcall, hsigned⟩ :=
        requests_advance jwt authConfig config hi inp
      obtain ⟨hlt, hget⟩ := List.getElem?_eq_some_iff.mp hi
      simp only [OAuth.step, hi]
      rw [hset]
      refine ⟨?_, fun j q hq hs => ?_⟩
      · rw [List.map_set, hcall, ← hget, ← List.map_set, List.set_getElem_self]
      · by_cases hj : i = j
        · subst hj
          rw [List.getElem?_set_self hlt] at hq
          cases hq
          rcases hsigned hs with hs | ⟨userId, hstage, hup, hu⟩
          · exact .inl ⟨r, hi, hs⟩
          · exact .inr ⟨inp, r, userId, rfl, hi, hstage, hup, hu⟩
        · rw [List.getElem?_set_ne hj] at hq
          exact .inl ⟨q, hq, hs⟩

/-- A callback stays bound as history grows. -/
theorem BoundAt.mono {s s' : State} {i browser : ℕ} {provider : String} {q : OAuthCallbackQuery}
    (h : BoundAt s i browser provider q) (hcalls : s'.calls.take i = s.calls.take i)
    (hdrawn : ∀ k ∈ s.drawn, k ∈ s'.drawn) (hgranted : ∀ g ∈ s.granted, g ∈ s'.granted) :
    BoundAt s' i browser provider q :=
  ⟨hdrawn _ h.drawn, hcalls ▸ h.unused, hgranted _ h.own⟩

namespace Coherent

variable {s : State} (h : Coherent s)
include h

theorem redirected {provider csrfToken : String} (hnew : New s (provider, csrfToken))
    (browser : ℕ) {result : Except ApiError AuthorizeUrl}
    (hresult : ∀ url, result = .ok url → url.state = csrfToken) :
    Coherent (redirected browser provider result s) := by
  cases result with
  | error e => exact h
  | ok url =>
    have hstate := hresult url rfl
    have hold : ∀ f ∈ s.flows, f.key ≠ (provider, url.state) := fun f hf he =>
      hnew.1 (hstate ▸ he ▸ h.drawn f hf)
    refine ⟨h.aligned, fun f hf => ?_, fun f hf code hcode => ?_, fun f hf g hg hkey => ?_,
      fun f hf call hcall => ?_, fun i call caller hi hc hfol q hq => ?_, h.answered⟩
    · rcases List.mem_append.mp hf with hf | hf
      · exact List.mem_append_left _ (h.drawn f hf)
      · cases List.mem_singleton.mp hf
        exact List.mem_append_right _ (List.mem_singleton_self _)
    · rcases List.mem_append.mp hf with hf | hf
      · exact h.granted f hf code hcode
      · cases List.mem_singleton.mp hf
        cases hcode
    · rcases List.mem_append.mp hf with hf | hf <;> rcases List.mem_append.mp hg with hg | hg
      · exact h.distinct f hf g hg hkey
      · cases List.mem_singleton.mp hg
        exact absurd hkey (hold f hf)
      · cases List.mem_singleton.mp hf
        exact absurd hkey.symm (hold g hg)
      · rw [List.mem_singleton.mp hf, List.mem_singleton.mp hg]
    · rcases List.mem_append.mp hf with hf | hf
      · exact h.unused f hf call hcall
      · cases List.mem_singleton.mp hf
        exact hstate ▸ hnew.2 call hcall
    · exact (h.followed i call caller hi hc hfol q hq).mono rfl
        (fun _ hk => List.mem_append_left _ hk) fun _ hg => hg

theorem authorize (browser : ℕ) (provider state code : String) :
    Coherent (authorize browser provider state code s) := by
  refine ⟨h.aligned, fun f hf => ?_, fun f hf => ?_, fun f hf g hg hkey => ?_,
    fun f hf call hcall => ?_, fun i call caller hi hc hfol q hq => ?_, h.answered⟩
  · obtain ⟨f', hf', rfl⟩ := List.mem_map.mp hf
    rw [Flow.key_answer]
    exact h.drawn f' hf'
  · obtain ⟨f', hf', rfl⟩ := List.mem_map.mp hf
    exact Flow.granted_answer (h.granted f' hf')
  · obtain ⟨f', hf', rfl⟩ := List.mem_map.mp hf
    obtain ⟨g', hg', rfl⟩ := List.mem_map.mp hg
    rw [Flow.key_answer, Flow.key_answer] at hkey
    rw [h.distinct f' hf' g' hg' hkey]
  · obtain ⟨f', hf', rfl⟩ := List.mem_map.mp hf
    rw [Flow.key_answer]
    exact h.unused f' hf' call hcall
  · exact (h.followed i call caller hi hc hfol q hq).mono rfl (fun _ hk => hk)
      fun _ hg => List.mem_append_left _ hg

/-- What ends a flow has its key. -/
theorem bound_of_flow {browser : ℕ} {call : Call} {q : OAuthCallbackQuery}
    (hq : query call = some q) {f : Flow} (hf : f ∈ s.flows)
    (hflow : flowOf browser call = some f) :
    BoundAt s s.calls.length browser call.provider q := by
  simp only [flowOf, hq, Option.map_some, Option.some.injEq] at hflow
  subst hflow
  refine ⟨h.drawn _ hf, fun call' hcall' => ?_, h.granted _ hf q.code rfl⟩
  exact h.unused _ hf call' (List.mem_of_mem_take hcall')

theorem request {browser : ℕ} {call : Call} (hg : Follows s (.request browser call)) :
    Coherent (step jwt authConfig config s (.request browser call)) := by
  have hcalls : (step jwt authConfig config s (.request browser call)).calls =
      s.calls ++ [call] := by
    simp only [step, OAuth.step, State.calls, List.map_append, List.map_singleton]
  have hflows : ∀ f, f ∈ (step jwt authConfig config s (.request browser call)).flows ↔
      f ∈ s.flows ∧ flowOf browser call ≠ some f := fun f => by
    simp only [step, List.mem_filter, decide_eq_true_eq]
  have hkept : ∀ {i b provider q}, i ≤ s.calls.length → BoundAt s i b provider q →
      BoundAt (step jwt authConfig config s (.request browser call)) i b provider q :=
    fun hi hb => hb.mono (by rw [hcalls, List.take_append_of_le_length hi]) (fun _ hk => hk)
      fun _ hk => hk
  refine ⟨?_, fun f hf => h.drawn f ((hflows f).mp hf).1,
    fun f hf => h.granted f ((hflows f).mp hf).1,
    fun f hf g hg hkey => h.distinct f ((hflows f).mp hf).1 g ((hflows g).mp hg).1 hkey,
    fun f hf call' hcall' hkey => ?_, fun i call' caller hi hc hfol q hq => ?_,
    fun i r caller hi hc hs => ?_⟩
  · rw [hcalls]
    simp only [step, List.length_append, List.length_singleton, h.aligned]
  · obtain ⟨hf, hne⟩ := (hflows f).mp hf
    rw [hcalls] at hcall'
    rcases List.mem_append.mp hcall' with hcall' | hcall'
    · exact h.unused f hf call' hcall' hkey
    · cases List.mem_singleton.mp hcall'
      obtain ⟨q, hq, hfkey⟩ := Option.map_eq_some_iff.mp hkey
      have hflow : flowOf browser call = some ⟨browser, call.provider, q.state, some q.code⟩ := by
        rw [flowOf, hq]
        rfl
      rcases hg _ hflow with hmem | hother
      · exact hne (hflow.trans (congrArg some (h.distinct _ hmem f hf hfkey)))
      · exact hother f hf hfkey.symm
  · rw [hcalls] at hi
    rcases getElem?_append_singleton.mp hi with hi | ⟨rfl, rfl⟩ <;>
      rcases getElem?_append_singleton.mp hc with hc | ⟨hlast, hcaller⟩
    · exact hkept (List.getElem?_eq_some_iff.mp hi).1.le
        (h.followed i call' caller hi hc hfol q hq)
    · have hlt := (List.getElem?_eq_some_iff.mp hi).1
      have haligned := h.aligned
      omega
    · have hlt := (List.getElem?_eq_some_iff.mp hc).1
      have haligned := h.aligned
      omega
    · rw [hcaller] at hfol ⊢
      obtain ⟨f, hflow, hmem⟩ := (Option.any_eq_true _ _).mp hfol
      exact hkept le_rfl (h.bound_of_flow hq (of_decide_eq_true hmem) hflow)
  · rcases getElem?_append_singleton.mp hi with hi | ⟨rfl, rfl⟩
    · rcases getElem?_append_singleton.mp hc with hc | ⟨rfl, -⟩
      · exact h.answered i r caller hi hc hs
      · have hlt := (List.getElem?_eq_some_iff.mp hi).1
        have haligned := h.aligned
        rw [State.calls, List.length_map] at haligned
        omega
    · cases hs

/-- A step of the server signs nobody in who has not followed a redirect. -/
theorem server {a : OAuth.Action} (ha : ∀ call, a ≠ .submit call)
    (hg : Follows s (.server a)) :
    Coherent { s with server := OAuth.step jwt authConfig config s.server a } := by
  obtain ⟨hcalls, hsigned⟩ :=
    requests_server jwt authConfig config (s := s.server) ha
  have hsame : State.calls { s with server := OAuth.step jwt authConfig config s.server a } =
      s.calls := hcalls
  refine ⟨hsame ▸ h.aligned, h.drawn, h.granted, h.distinct, hsame ▸ h.unused,
    fun i call caller hi hc hfol q hq => ?_, fun i r caller hi hc hs => ?_⟩
  · rw [hsame] at hi
    exact (h.followed i call caller hi hc hfol q hq).mono (by rw [hsame]) (fun _ hk => hk)
      fun _ hk => hk
  · rcases hsigned i r hi hs with ⟨r', hr', hs'⟩ | ⟨inp, r', userId, rfl, hr', hstage, hup, hu⟩
    · exact h.answered i r' caller hr' hc hs'
    · have hfol : FollowedAt inp i s r'.stage := hg r' hr'
      rw [hstage] at hfol
      obtain ⟨u, hu, hid⟩ := hu
      exact hfol hup (Table.anyRow_iff.mpr ⟨u, hu, beq_iff_eq.mpr hid⟩) caller hc

theorem step (a : Action) (hg : Follows s a) : Coherent (step jwt authConfig config s a) := by
  cases a with
  | githubRedirect browser csrfToken =>
    exact h.redirected hg browser fun _ => OAuth.githubRedirect_state
  | googleRedirect browser csrfToken =>
    exact h.redirected hg browser fun _ => OAuth.googleRedirect_state
  | authorize browser provider state code => exact h.authorize browser provider state code
  | request browser call => exact h.request hg
  | server a =>
    cases a with
    | submit call => exact h
    | createUser | setUser | deleteUser | advance =>
      exact h.server (fun _ he => by cases he) hg

end Coherent

/-- A callback is answered with tokens only for a state that a redirect to the provider drew and
no callback before has used, and a code that its browser was given, when states are new, and
callbacks that end no flow of their browser have the state of no other and are turned away. -/
theorem callbacks_bound (as : List Action)
    (h : AllSteps (step jwt authConfig config) Follows start as) :
    AllStates (step jwt authConfig config) Bound start as :=
  (allStates_of_guarded (J := Coherent) (fun _ a hs hg => hs.step a hg) coherent_start h).mono
    fun _ hs => hs.bound

def github : Input := OAuth.githubAnswers OAuth.numberSeven

/-- User 1 links GitHub's user 7. -/
def linkRun : List Action :=
  [.server (.createUser ⟨1, "a", none, false, none⟩),
    .request 1 (.oauthLink ⟨1, false, none⟩ ⟨"github", "c"⟩),
    .server (.advance 0 github), .server (.advance 0 github)]

def callback (browser i : ℕ) (code state : String) : List Action :=
  .request browser (.githubCallback ⟨code, state⟩) ::
    List.replicate 3 (.server (.advance i github))

/-- Browser 1 signs in. -/
def loginRun : List Action :=
  linkRun ++ [.githubRedirect 1 "s", .authorize 1 "github" "s" "c1"] ++ callback 1 1 "c1" "s"

/-- Browser 1 has browser 0 make the callback, with a state that nobody has drawn. -/
def forgedRun : List Action :=
  linkRun ++ [.githubRedirect 1 "s", .authorize 1 "github" "s" "c1"] ++ callback 0 1 "c1" "t"

/-- Browser 1 makes it twice. -/
def replayedRun : List Action := loginRun ++ callback 1 2 "c1" "s"

theorem callbacks_bound_login :
    ((loginRun.foldl (step Auth.plainJwt Auth.shortConfig githubConfig) start).server.requests.map
        fun r => signedIn r.stage) = [false, true] ∧
      AllStates (step Auth.plainJwt Auth.shortConfig githubConfig) Bound start loginRun :=
  ⟨by decide +kernel, callbacks_bound loginRun (by decide +kernel)⟩

theorem callbacks_not_bound :
    ¬ AllStates (step Auth.plainJwt Auth.shortConfig githubConfig) Bound start forgedRun ∧
      ¬ AllStates (step Auth.plainJwt Auth.shortConfig githubConfig) Bound start replayedRun := by
  constructor
  · intro h
    have hdrawn : ("github", "t") ∈ [("github", "s")] :=
      (h.last 1 _ _ rfl rfl rfl ⟨"c1", "t"⟩ rfl).drawn
    exact absurd hdrawn (by decide)
  · intro h
    have hunused : ∀ call ∈ [Call.oauthLink ⟨1, false, none⟩ ⟨"github", "c"⟩,
        .githubCallback ⟨"c1", "s"⟩], callKey call ≠ some ("github", "s") :=
      (h.last 2 _ _ rfl rfl rfl ⟨"c1", "s"⟩ rfl).unused
    exact hunused _ (List.mem_cons_of_mem _ (List.mem_singleton_self _)) rfl

end PicHost.OAuthBinding
