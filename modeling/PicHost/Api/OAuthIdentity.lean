import PicHost.Api.OAuth
import PicHost.Lib.Run

/-!
# Linked identities

Which user a provider's answer signs in.
-/

namespace PicHost.OAuth

open KeyedTable LabelledRun
open Auth (Jwt AuthConfig)

/-- An answer is resolved to a user only by an identity that the user has linked. -/
def Resolved (s : State) (r : Request) : Prop :=
  match r.stage with
  | .lookupUser userId => ∃ id ∈ r.identity, (userId, id) ∈ s.linked
  | .returned (.ok (.tokens _ user)) => ∃ id ∈ r.identity, (user.id, id) ∈ s.linked
  | _ => True

/-- The account that the request asks for. -/
def accountOf (user : AuthUser) (body : OAuthLinkRequest) (info : OAuthUserInfo) : OAuthAccount :=
  ⟨user.id, body.provider, info.providerUserId⟩

/-- After a link request has succeeded its account is there. -/
def LinkKept (accounts : OAuthAccounts) (r r' : Request) : Prop :=
  match r.stage, r.call, r'.stage with
  | .insertAccount info, .oauthLink user body, .returned (.ok .linked) =>
    accountOf user body info ∈ accounts.rows
  | _, _, _ => True

variable (jwt : Jwt) (authConfig : AuthConfig) (config : OAuthConfig)

def IdentitySound (s : State) (a : Action) : Prop :=
  let s' := step jwt authConfig config s a
  (∀ r ∈ s'.requests, Resolved s' r) ∧
    ∀ i inp, a = .advance i inp → ∀ r ∈ s.requests[i]?, ∀ r' ∈ s'.requests[i]?,
      LinkKept s'.accounts r r'

/-- An answer without an identity finds no account under the identity 0, and one with the
identity 0 finds there only what its user has linked by it. A link request finds no account of
another user. -/
def IdentifiedAt (inp : Input) (s : State) (r : Request) : Prop :=
  match r.stage, r.call with
  | .lookupAccount _, call => inp.dbUp = true →
    ∀ a ∈ s.accounts.rows, a.provider = call.provider → a.providerUserId = "0" →
      r.identity ≠ none ∧ ∀ id ∈ r.identity, id.text = "0" → (a.userId, id) ∈ s.linked
  | .insertAccount info, .oauthLink user body => inp.dbUp = true →
    ∀ a ∈ s.accounts.rows, a.key = (accountOf user body info).key → a.userId = user.id
  | _, _ => True

def Identified (s : State) : Action → Prop
  | .advance i inp => ∀ r ∈ s.requests[i]?, IdentifiedAt inp s r
  | _ => True

/-- The account has been linked by its identity, or has none. -/
def Known (linked : List (Uuid × Identity)) (a : OAuthAccount) : Prop :=
  (∃ id, (a.userId, id) ∈ linked ∧ id.provider = a.provider ∧ id.text = a.providerUserId) ∨
    a.providerUserId = "0"

/-- What the request has read is what the body said. -/
def Read (r : Request) (info : OAuthUserInfo) : Prop :=
  info.providerUserId = (r.identity.map Identity.text).getD "0" ∧
    ∀ id ∈ r.identity, id.provider = r.call.provider

structure Consistent (s : State) : Prop where
  account : ∀ a ∈ s.accounts.rows, Known s.linked a
  lookup : ∀ r ∈ s.requests, ∀ info, r.stage = .lookupAccount info → Read r info
  insert : ∀ r ∈ s.requests, ∀ info, r.stage = .insertAccount info → Read r info
  resolved : ∀ r ∈ s.requests, Resolved s r

variable {jwt authConfig config}

theorem consistent_start : Consistent start where
  account _ ha := absurd ha List.not_mem_nil
  lookup _ hr := absurd hr List.not_mem_nil
  insert _ hr := absurd hr List.not_mem_nil
  resolved _ hr := absurd hr List.not_mem_nil

theorem Resolved.mono {s s' : State} (hlinked : ∀ l ∈ s.linked, l ∈ s'.linked) {r : Request}
    (h : Resolved s r) : Resolved s' r := by
  unfold Resolved at h ⊢
  split at h
  · obtain ⟨id, hid, hl⟩ := h
    exact ⟨id, hid, hlinked _ hl⟩
  · obtain ⟨id, hid, hl⟩ := h
    exact ⟨id, hid, hlinked _ hl⟩
  · trivial

theorem Known.mono {l l' : List (Uuid × Identity)} (hl : ∀ x ∈ l, x ∈ l') {a : OAuthAccount}
    (h : Known l a) : Known l' a :=
  h.imp (fun ⟨id, hid, hp, ht⟩ => ⟨id, hl _ hid, hp, ht⟩) id

theorem read_fetched {inp : Input} {r : Request} {info : OAuthUserInfo}
    (h : oauthExchangeAndFetchUser config inp.remote r.call.provider r.call.code = .ok info) :
    Read (fetched config inp r) info := by
  obtain ⟨hp, resp, hbody, hid⟩ := oauthExchangeAndFetchUser_ok h
  have hof : (fetched config inp r).identity = Identity.ofBody r.call.provider resp := by
    simp only [fetched, hbody, Option.bind_some]
  refine ⟨by rw [hof]; exact hid, fun id hmem => ?_⟩
  rw [hof] at hmem
  exact Identity.provider_ofBody hp hmem

theorem linkKept_self (accounts : OAuthAccounts) (r : Request) : LinkKept accounts r r := by
  unfold LinkKept
  split
  · rename_i hinsert _ hreturned
    cases hinsert.symm.trans hreturned
  · trivial

namespace Consistent

variable {s : State} (h : Consistent s)
include h

/-- The request's next stage, when the tables stay as they are. -/
theorem move (i : ℕ) {r : Request} (hlookup : ∀ info, r.stage = .lookupAccount info → Read r info)
    (hinsert : ∀ info, r.stage = .insertAccount info → Read r info) (hr : Resolved s r) :
    Consistent (s.setRequest i r) where
  account := h.account
  lookup q hq info hstage := by
    rcases List.mem_or_eq_of_mem_set hq with hq | rfl
    · exact h.lookup q hq info hstage
    · exact hlookup info hstage
  insert q hq info hstage := by
    rcases List.mem_or_eq_of_mem_set hq with hq | rfl
    · exact h.insert q hq info hstage
    · exact hinsert info hstage
  resolved q hq := by
    rcases List.mem_or_eq_of_mem_set hq with hq | rfl
    · exact h.resolved q hq
    · exact hr

/-- A request that has been refused. -/
theorem refuse (i : ℕ) (r : Request) (e : ApiError) :
    Consistent (s.setRequest i { r with stage := .returned (.error e) }) :=
  h.move i (fun _ hs => by cases hs) (fun _ hs => by cases hs) trivial

theorem fetch (i : ℕ) (inp : Input) (r : Request) :
    Consistent (s.setRequest i (fetched config inp r)) := by
  have hread : ∀ {info}, (fetched config inp r).stage = .lookupAccount info ∨
      (fetched config inp r).stage = .insertAccount info → Read (fetched config inp r) info := by
    intro info hstage
    obtain ⟨e, he⟩ | ⟨info', hinfo, hstage'⟩ := fetch_cases config inp r.call
    · rw [show (fetched config inp r).stage = .returned (.error e) from he] at hstage
      rcases hstage with hs | hs <;> cases hs
    · have heq : info' = info := by
        rcases hstage with hs | hs <;> rcases hstage' with hs' | hs' <;> cases hs'.symm.trans hs
          <;> rfl
      exact heq ▸ read_fetched hinfo
  refine h.move i (fun info hs => hread (.inl hs)) (fun info hs => hread (.inr hs)) ?_
  obtain ⟨e, he⟩ | ⟨info, -, hs | hs⟩ := fetch_cases config inp r.call
  · simp only [Resolved, fetched, he]
  · simp only [Resolved, fetched, hs]
  · simp only [Resolved, fetched, hs]

/-- The account that a body finds has been linked by the identity in it, except under 0. -/
theorem lookup_iff {r : Request} (hr : r ∈ s.requests) {info : OAuthUserInfo}
    (hstage : r.stage = .lookupAccount info) (inp : Input) :
    Resolved s { r with stage := lookupAccount inp r.call.provider info s.accounts } ↔
      IdentifiedAt inp s r := by
  obtain ⟨htext, hprovider⟩ := h.lookup r hr info hstage
  have hat : IdentifiedAt inp s r ↔ (inp.dbUp = true →
      ∀ a ∈ s.accounts.rows, a.provider = r.call.provider → a.providerUserId = "0" →
        r.identity ≠ none ∧ ∀ id ∈ r.identity, id.text = "0" → (a.userId, id) ∈ s.linked) := by
    simp only [IdentifiedAt, hstage]
  rw [hat]
  obtain ⟨e, he, hnone⟩ | ⟨a, ha, hkey, hup, hfound⟩ :=
    lookupAccount_cases inp r.call.provider info s.accounts
  · apply iff_of_true (by simp only [Resolved, he])
    intro hup a ha hp hzero
    have hne : info.providerUserId ≠ "0" := fun hi =>
      hnone hup a ha (Prod.ext hp (hzero.trans hi.symm))
    cases hid : r.identity with
    | none => exact absurd (by rw [htext, hid]; rfl) hne
    | some id =>
      refine ⟨Option.some_ne_none _, fun id' hid' ht => absurd ?_ hne⟩
      cases hid'
      rw [htext, hid, ← ht]
      rfl
  · simp only [OAuthAccount.key, Prod.mk.injEq] at hkey
    have hres : Resolved s { r with stage := lookupAccount inp r.call.provider info s.accounts } ↔
        ∃ id ∈ r.identity, (a.userId, id) ∈ s.linked := by
      simp only [Resolved, hfound]
    rw [hres]
    cases hid : r.identity with
    | none =>
      refine iff_of_false (by simp) fun hg => (hg hup a ha hkey.1 ?_).1 rfl
      rw [hkey.2, htext, hid]
      rfl
    | some id =>
      have hpid : info.providerUserId = id.text := by
        rw [htext, hid]
        rfl
      by_cases hzero : id.text = "0"
      · constructor
        · rintro ⟨id', hid', hl⟩ - b hb hbp hbz
          cases hid'
          have hba : b = a := Table.eq_of_clash (fun _ _ => Eq.symm) hb ha
            (Prod.ext (hbp.trans hkey.1.symm) (hbz.trans (hkey.2.trans (hpid.trans hzero)).symm))
          exact ⟨Option.some_ne_none _, fun id'' hid'' _ => by cases hid''; exact hba ▸ hl⟩
        · intro hg
          have hrow : a.providerUserId = "0" := hkey.2.trans (hpid.trans hzero)
          exact ⟨id, rfl, (hg hup a ha hkey.1 hrow).2 id rfl hzero⟩
      · refine iff_of_true ⟨id, rfl, ?_⟩ fun _ b hb _ _ =>
          ⟨Option.some_ne_none _, fun id' hid' ht => absurd (by cases hid'; exact ht) hzero⟩
        have hlinked := (h.account a ha).resolve_right fun hz =>
          hzero (hpid.symm.trans (hkey.2.symm.trans hz))
        obtain ⟨id', hl, hp, ht⟩ := hlinked
        have heq : id' = id := Identity.text_injective
          (hp.trans (hkey.1.trans (hprovider id hid).symm)) (ht.trans (hkey.2.trans hpid))
        exact heq ▸ hl

theorem lookupAccount (i : ℕ) {r : Request} (hr : r ∈ s.requests) {info : OAuthUserInfo}
    (hstage : r.stage = .lookupAccount info) (inp : Input) (hg : IdentifiedAt inp s r) :
    Consistent (s.setRequest i
      { r with stage := OAuth.lookupAccount inp r.call.provider info s.accounts }) := by
  have hres := (h.lookup_iff hr hstage inp).mpr hg
  refine h.move i (fun info' hs => ?_) (fun info' hs => ?_) hres
  all_goals
    obtain ⟨e, he, -⟩ | ⟨a, -, -, -, hfound⟩ :=
      lookupAccount_cases inp r.call.provider info s.accounts
    · cases he.symm.trans hs
    · cases hfound.symm.trans hs

theorem lookupUser_resolved {r : Request} (hr : r ∈ s.requests) {userId : Uuid}
    (hstage : r.stage = .lookupUser userId) (inp : Input) :
    Resolved s { r with stage := OAuth.lookupUser jwt authConfig inp userId s.users } := by
  have hres := h.resolved r hr
  simp only [Resolved, hstage] at hres
  obtain ⟨e, he⟩ | ⟨pair, user, -, hid, -, hok⟩ :=
    lookupUser_cases jwt authConfig inp userId s.users
  · simp only [Resolved, he]
  · simp only [Resolved, hok, hid]
    exact hres

theorem lookupUser (i : ℕ) {r : Request} (hr : r ∈ s.requests) {userId : Uuid}
    (hstage : r.stage = .lookupUser userId) (inp : Input) :
    Consistent (s.setRequest i
      { r with stage := OAuth.lookupUser jwt authConfig inp userId s.users }) := by
  refine h.move i (fun info hs => ?_) (fun info hs => ?_) (h.lookupUser_resolved hr hstage inp)
  all_goals
    obtain ⟨e, he⟩ | ⟨pair, user, -, -, -, hok⟩ :=
      lookupUser_cases jwt authConfig inp userId s.users
    · cases he.symm.trans hs
    · cases hok.symm.trans hs

theorem oauthLink (i : ℕ) {r : Request} (hr : r ∈ s.requests) {user : AuthUser}
    {body : OAuthLinkRequest} {info : OAuthUserInfo} (hstage : r.stage = .insertAccount info)
    (hcall : r.call = .oauthLink user body) (inp : Input) :
    Consistent (oauthLink inp i r user body info s) := by
  rw [OAuth.oauthLink]
  cases hinsert : insertAccount inp.dbUp ⟨user.id, body.provider, info.providerUserId⟩ s.users
    s.accounts with
  | none => exact h.refuse i r _
  | some accounts =>
    obtain ⟨-, hrows, -⟩ := insertAccount_some hinsert
    obtain ⟨htext, hprovider⟩ := h.insert r hr info hstage
    have hlinked : ∀ l ∈ s.linked, l ∈ s.linked ++
        newLinks ⟨user.id, body.provider, info.providerUserId⟩ r.identity accounts :=
      fun l hl => List.mem_append_left _ hl
    refine ⟨fun a ha => ?_, fun q hq info' hs => ?_, fun q hq info' hs => ?_, fun q hq => ?_⟩
    · rcases hrows a ha with ha | rfl
      · exact (h.account a ha).mono hlinked
      · cases hid : r.identity with
        | none =>
          right
          rw [htext, hid]
          rfl
        | some id =>
          refine .inl ⟨id, List.mem_append_right _ ?_, ?_, ?_⟩
          · rw [newLinks, if_pos ha]
            exact List.mem_singleton_self _
          · rw [hprovider id hid, hcall]
            rfl
          · rw [htext, hid]
            rfl
    · rcases List.mem_or_eq_of_mem_set hq with hq | rfl
      · exact h.lookup q hq info' hs
      · cases hs
    · rcases List.mem_or_eq_of_mem_set hq with hq | rfl
      · exact h.insert q hq info' hs
      · cases hs
    · rcases List.mem_or_eq_of_mem_set hq with hq | rfl
      · exact (h.resolved q hq).mono hlinked
      · trivial

theorem advance {i : ℕ} {r : Request} (hi : s.requests[i]? = some r) (inp : Input)
    (hg : IdentifiedAt inp s r) : Consistent (advance jwt authConfig config inp i r s) := by
  have hr := List.mem_of_getElem? hi
  cases hstage : r.stage with
  | fetch =>
    rw [OAuth.advance, hstage]
    exact h.fetch i inp r
  | lookupAccount info =>
    rw [OAuth.advance, hstage]
    exact h.lookupAccount i hr hstage inp hg
  | lookupUser userId =>
    rw [OAuth.advance, hstage]
    exact h.lookupUser i hr hstage inp
  | insertAccount info =>
    cases hcall : r.call with
    | oauthLink user body =>
      rw [OAuth.advance, hstage, hcall]
      exact h.oauthLink i hr hstage hcall inp
    | githubCallback | googleCallback =>
      rw [OAuth.advance, hstage, hcall]
      exact h
  | returned result =>
    rw [OAuth.advance, hstage]
    exact h

theorem step (a : Action) (hg : Identified s a) : Consistent (step jwt authConfig config s a) := by
  cases a with
  | createUser user =>
    simp only [OAuth.step]
    split <;> exact ⟨h.account, h.lookup, h.insert, h.resolved⟩
  | setUser user =>
    simp only [OAuth.step]
    split <;> exact ⟨h.account, h.lookup, h.insert, h.resolved⟩
  | deleteUser userId =>
    exact ⟨fun a ha => h.account a (Table.mem_delete.mp ha).1, h.lookup, h.insert, h.resolved⟩
  | submit call =>
    refine ⟨h.account, fun r hr info hs => ?_, fun r hr info hs => ?_, fun r hr => ?_⟩
    all_goals
      rcases List.mem_append.mp hr with hr | hr
    · exact h.lookup r hr info hs
    · cases List.mem_singleton.mp hr
      cases hs
    · exact h.insert r hr info hs
    · cases List.mem_singleton.mp hr
      cases hs
    · exact h.resolved r hr
    · cases List.mem_singleton.mp hr
      trivial
  | advance i inp =>
    simp only [OAuth.step]
    split
    · rename_i r hi
      exact h.advance hi inp (hg r hi)
    · exact h

/-- Only the request that has moved can break what the others keep. -/
theorem sound_of_others {a : Action} (ha : ∀ i inp, a ≠ .advance i inp) :
    IdentitySound jwt authConfig config s a := by
  have hg : Identified s a := by
    cases a with
    | advance i inp => exact absurd rfl (ha i inp)
    | createUser | setUser | deleteUser | submit => trivial
  exact ⟨(h.step a hg).resolved, fun i inp he => absurd he (ha i inp)⟩

theorem sound_of_moved {i : ℕ} {r r' : Request} {inp : Input} {s' : State}
    (hi : s.requests[i]? = some r)
    (hstep : OAuth.step jwt authConfig config s (.advance i inp) = s')
    (hset : s'.requests = s.requests.set i r') (hlinked : ∀ l ∈ s.linked, l ∈ s'.linked) :
    IdentitySound jwt authConfig config s (.advance i inp) ↔
      Resolved s' r' ∧ LinkKept s'.accounts r r' := by
  have hlt : i < s.requests.length := (List.getElem?_eq_some_iff.mp hi).1
  have hself : s'.requests[i]? = some r' := by
    rw [hset, List.getElem?_set_self hlt]
  unfold IdentitySound
  rw [hstep]
  constructor
  · rintro ⟨hres, hkept⟩
    exact ⟨hres r' (List.mem_of_getElem? hself), hkept i inp rfl r hi r' hself⟩
  · rintro ⟨hres, hkept⟩
    refine ⟨fun q hq => ?_, fun j inp' he q hq q' hq' => ?_⟩
    · rw [hset] at hq
      rcases List.mem_or_eq_of_mem_set hq with hq | rfl
      · exact (h.resolved q hq).mono hlinked
      · exact hres
    · cases he
      cases hi.symm.trans hq
      cases hself.symm.trans hq'
      exact hkept

theorem sound_of_stage {i : ℕ} {r r' : Request} {inp : Input} (hi : s.requests[i]? = some r)
    (hstep : OAuth.step jwt authConfig config s (.advance i inp) = s.setRequest i r')
    (hstage : ∀ info, r.stage ≠ .insertAccount info) :
    IdentitySound jwt authConfig config s (.advance i inp) ↔ Resolved s r' := by
  refine (h.sound_of_moved hi hstep rfl fun _ hl => hl).trans (and_iff_left ?_)
  unfold LinkKept
  split
  · rename_i info _ _ hinsert _ _
    exact absurd hinsert (hstage info)
  · trivial

theorem sound_of_unmoved {i : ℕ} {inp : Input}
    (hstep : OAuth.step jwt authConfig config s (.advance i inp) = s) :
    IdentitySound jwt authConfig config s (.advance i inp) := by
  unfold IdentitySound
  rw [hstep]
  refine ⟨h.resolved, fun j inp' _ r hr r' hr' => ?_⟩
  cases hr.symm.trans hr'
  exact linkKept_self s.accounts r

/-- A link request succeeds with its account there exactly when nobody else has it. -/
theorem oauthLink_iff {i : ℕ} {r : Request} (hi : s.requests[i]? = some r) {user : AuthUser}
    {body : OAuthLinkRequest} {info : OAuthUserInfo} (hstage : r.stage = .insertAccount info)
    (hcall : r.call = .oauthLink user body) (inp : Input) :
    IdentitySound jwt authConfig config s (.advance i inp) ↔ IdentifiedAt inp s r := by
  have hat : IdentifiedAt inp s r ↔ (inp.dbUp = true → ∀ a ∈ s.accounts.rows,
      a.key = (accountOf user body info).key → a.userId = user.id) := by
    simp only [IdentifiedAt, hstage, hcall]
  have hstep : OAuth.step jwt authConfig config s (.advance i inp) =
      OAuth.oauthLink inp i r user body info s := by
    simp only [OAuth.step, hi, OAuth.advance, hstage, hcall]
  rw [hat]
  cases hinsert : insertAccount inp.dbUp (accountOf user body info) s.users s.accounts with
  | none =>
    have hfail : OAuth.oauthLink inp i r user body info s =
        s.setRequest i { r with stage := .returned (.error internalError) } := by
      unfold accountOf at hinsert
      rw [OAuth.oauthLink, hinsert]
    refine iff_of_true ?_ fun hup a ha hkey => absurd hkey (insertAccount_none hinsert hup a ha)
    refine (h.sound_of_moved hi (hstep.trans hfail) rfl fun _ hl => hl).mpr ⟨trivial, ?_⟩
    simp only [LinkKept, hstage, hcall]
  | some accounts =>
    have hdone : OAuth.oauthLink inp i r user body info s =
        { s.setRequest i { r with stage := .returned (.ok .linked) } with
          accounts
          linked := s.linked ++ newLinks (accountOf user body info) r.identity accounts } := by
      unfold accountOf at hinsert
      rw [OAuth.oauthLink, hinsert]
      rfl
    obtain ⟨hup, -, hmem⟩ := insertAccount_some hinsert
    refine (h.sound_of_moved hi (hstep.trans hdone) rfl
      fun _ hl => List.mem_append_left _ hl).trans ?_
    have hkept : LinkKept accounts r { r with stage := .returned (.ok .linked) } ↔
        accountOf user body info ∈ accounts.rows := by
      simp only [LinkKept, hstage, hcall]
    refine (and_iff_right trivial).trans (hkept.trans (hmem.trans ?_))
    exact ⟨fun hall _ => hall, fun hall => hall hup⟩

theorem sound_iff (a : Action) :
    IdentitySound jwt authConfig config s a ↔ Identified s a := by
  cases a with
  | createUser | setUser | deleteUser | submit =>
    exact iff_of_true (h.sound_of_others fun _ _ he => by cases he) trivial
  | advance i inp =>
    cases hi : s.requests[i]? with
    | none =>
      refine iff_of_true (h.sound_of_unmoved ?_) fun r hr => by cases hi.symm.trans hr
      simp only [OAuth.step, hi]
    | some r =>
      have hr := List.mem_of_getElem? hi
      have hid : Identified s (.advance i inp) ↔ IdentifiedAt inp s r := by
        simp only [Identified, hi, Option.mem_def, Option.some.injEq, forall_eq']
      rw [hid]
      have hstep : OAuth.step jwt authConfig config s (.advance i inp) =
          OAuth.advance jwt authConfig config inp i r s := by
        simp only [OAuth.step, hi]
      have hlt : i < s.requests.length := (List.getElem?_eq_some_iff.mp hi).1
      cases hstage : r.stage with
      | fetch =>
        have hmoved := hstep.trans (by rw [OAuth.advance, hstage])
        refine iff_of_true ((h.sound_of_stage hi hmoved fun _ hs => ?_).mpr ?_) ?_
        · cases hstage.symm.trans hs
        · exact (h.fetch i inp r).resolved _ (List.mem_set hlt _)
        · simp only [IdentifiedAt, hstage]
      | lookupAccount info =>
        have hmoved := hstep.trans (by rw [OAuth.advance, hstage])
        refine (h.sound_of_stage hi hmoved fun _ hs => ?_).trans (h.lookup_iff hr hstage inp)
        cases hstage.symm.trans hs
      | lookupUser userId =>
        have hmoved := hstep.trans (by rw [OAuth.advance, hstage])
        refine iff_of_true ((h.sound_of_stage hi hmoved fun _ hs => ?_).mpr ?_) ?_
        · cases hstage.symm.trans hs
        · exact h.lookupUser_resolved hr hstage inp
        · simp only [IdentifiedAt, hstage]
      | insertAccount info =>
        cases hcall : r.call with
        | oauthLink user body => exact h.oauthLink_iff hi hstage hcall inp
        | githubCallback | googleCallback =>
          refine iff_of_true (h.sound_of_unmoved (hstep.trans ?_)) ?_
          · rw [OAuth.advance, hstage, hcall]
          · simp only [IdentifiedAt, hstage, hcall]
      | returned result =>
        refine iff_of_true (h.sound_of_unmoved (hstep.trans ?_)) ?_
        · rw [OAuth.advance, hstage]
        · simp only [IdentifiedAt, hstage]

end Consistent

/-- Every answer is resolved by an identity that its user has linked, and every link that has
succeeded is there, exactly when no body without an identity meets an account under 0, no
account that such a body has made is found by the identity 0, and no link request meets an
account of somebody else. -/
theorem oauth_identity_sound_iff (as : List Action) :
    AllSteps (step jwt authConfig config) (IdentitySound jwt authConfig config) start as ↔
      AllSteps (step jwt authConfig config) Identified start as :=
  allSteps_congr_of_guarded (fun _ a hs hg => hs.step a hg) (fun _ a hs => hs.sound_iff a)
    consistent_start as

def badCredentials : Json := .object [("message", .string "Bad credentials")]

def linkRequest (userId : Uuid) : Action :=
  .submit (.oauthLink ⟨userId, false, none⟩ ⟨"github", "code"⟩)

/-- User 1 links what GitHub says, then somebody signs in, and GitHub has an error both times. -/
def anonymousRun : List Action :=
  let inp := githubAnswers badCredentials
  [.createUser ⟨1, "a", none, false, none⟩, linkRequest 1, .advance 0 inp, .advance 0 inp,
    .submit (.githubCallback ⟨"code", "state"⟩), .advance 1 inp, .advance 1 inp]

/-- Users 1 and 2 link the same identity. -/
def sharedRun : List Action :=
  let inp := githubAnswers numberSeven
  [.createUser ⟨1, "a", none, false, none⟩, .createUser ⟨2, "b", none, false, none⟩, linkRequest 1,
    .advance 0 inp, .advance 0 inp, linkRequest 2, .advance 1 inp, .advance 1 inp]

theorem oauth_identity_not_sound :
    ¬ AllSteps (step Auth.plainJwt Auth.shortConfig githubConfig)
        (IdentitySound Auth.plainJwt Auth.shortConfig githubConfig) start anonymousRun ∧
      ¬ AllSteps (step Auth.plainJwt Auth.shortConfig githubConfig)
        (IdentitySound Auth.plainJwt Auth.shortConfig githubConfig) start sharedRun := by
  constructor
  · intro h
    have hlast : IdentitySound Auth.plainJwt Auth.shortConfig githubConfig
        (anonymousRun.dropLast.foldl (step Auth.plainJwt Auth.shortConfig githubConfig) start)
        (.advance 1 (githubAnswers badCredentials)) := AllSteps.last h
    obtain ⟨id, hid, -⟩ := hlast.1 ⟨.githubCallback ⟨"code", "state"⟩, none, .lookupUser 1⟩
      (List.mem_of_mem_getLast? rfl)
    cases hid
  · intro h
    have hlast : IdentitySound Auth.plainJwt Auth.shortConfig githubConfig
        (sharedRun.dropLast.foldl (step Auth.plainJwt Auth.shortConfig githubConfig) start)
        (.advance 1 (githubAnswers numberSeven)) := AllSteps.last h
    have hkept : (⟨2, "github", "7"⟩ : OAuthAccount) ∈ [⟨1, "github", "7"⟩] :=
      hlast.2 1 _ rfl _ rfl _ rfl
    exact absurd hkept (by decide)

end PicHost.OAuth
