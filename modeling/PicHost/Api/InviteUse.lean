import PicHost.Api.Registration

/-! # How often an invite code is used -/

namespace PicHost.Registration

open KeyedTable LabelledRun

variable (storageQuotaDefault : ℕ)

/-- At most one account for each code, and none once the code has expired. -/
structure SingleUse (s : State) : Prop where
  once : s.accounts.Pairwise fun a b => ∀ code ∈ a.code, code ∉ b.code
  live : ∀ a ∈ s.accounts, ∀ code ∈ a.code, ∀ t ∈ s.expiry code, a.createdAt < t

/-- An account that is inserted on the strength of a code finds it unused, nobody about to
consume it, and no failed attempt to do so. -/
def AloneAt (inp : Input) (s : State) (r : Request) : Prop :=
  match r.stage with
  | .insertUser false _ => inp.dbUp = true →
      (s.users.insert (newUser storageQuotaDefault r.req inp.userId false)).isSome = true →
      ∀ code ∈ r.req.inviteCode, s.invites.used s.now code = false ∧ code ∉ s.unconsumed ∧
        ∀ q ∈ s.requests, q.stage.consuming = true → q.req.inviteCode ≠ some code
  | _ => True

instance (inp : Input) (s : State) : DecidablePred (AloneAt storageQuotaDefault inp s)
  | ⟨_, .insertUser false _⟩ => inferInstanceAs (Decidable (_ = true → _ = true → ∀ code ∈ _, _))
  | ⟨_, .insertUser true _⟩ | ⟨_, .countUsers⟩ | ⟨_, .verifyDetail⟩ | ⟨_, .verifyFields⟩
  | ⟨_, .consume _⟩ | ⟨_, .consumeFields _⟩ | ⟨_, .returned _⟩ => isTrue trivial

/-- Besides, no code expires between its acceptance and the account. -/
def Orderly (s : State) : Action → Prop
  | .tick d => ∀ r ∈ s.requests, r.stage.accepted = true → ∀ code ∈ r.req.inviteCode,
      ∀ t ∈ s.expiry code, s.now < t → s.now + d < t
  | .advance i inp => ∀ r ∈ s.requests[i]?, TimelyAt s r ∧ AloneAt storageQuotaDefault inp s r
  | .createInvite _ _ _ | .submit _ => True

instance (s : State) : DecidablePred (Orderly storageQuotaDefault s)
  | .tick _ => inferInstanceAs (Decidable (∀ r ∈ s.requests, _ = true → ∀ code ∈ _, ∀ t ∈ _, _))
  | .advance _ _ => Option.decidableForallMem _
  | .createInvite _ _ _ | .submit _ => isTrue trivial

/-- The code has been used, or somebody is about to use it up, or failed to. -/
def Spent (s : State) (code : String) : Prop :=
  s.invites.used s.now code = true ∨
  (∃ r ∈ s.requests, r.stage.consuming = true ∧ r.req.inviteCode = some code) ∨
  code ∈ s.unconsumed

/-- A code with an account is spent until it expires; a code that is accepted has not expired. -/
structure Consistent (s : State) : Prop where
  linked : s.invites.Linked s.expiry
  ready : ∀ r ∈ s.requests, r.stage.accepted = true →
    ∃ code t, r.req.inviteCode = some code ∧ s.expiry code = some t ∧ s.now < t
  spent : ∀ a ∈ s.accounts, ∀ code ∈ a.code,
    ∃ t, s.expiry code = some t ∧ (t ≤ s.now ∨ Spent s code)
  single : SingleUse s

variable {storageQuotaDefault}

theorem consistent_start (users : UserTable) (mode : InviteMode) (now : Instant) :
    Consistent (start users mode now) where
  linked := Invites.linked_empty mode
  ready _ hr := absurd hr List.not_mem_nil
  spent _ ha := absurd ha List.not_mem_nil
  single := ⟨List.Pairwise.nil, fun _ ha => absurd ha List.not_mem_nil⟩

theorem mem_set_of_mem {requests : List Request} {i : ℕ} {r q : Request} (r' : Request)
    (hi : requests[i]? = some r) (hq : q ∈ requests) : q = r ∨ q ∈ requests.set i r' := by
  obtain ⟨k, hk⟩ := List.mem_iff_getElem?.mp hq
  by_cases hki : k = i
  · subst hki
    rw [hi] at hk
    exact .inl (Option.some.inj hk).symm
  · exact .inr (List.mem_iff_getElem?.mpr ⟨k, by rw [List.getElem?_set_ne (Ne.symm hki), hk]⟩)

namespace Consistent

variable {s : State} (h : Consistent s)
include h

theorem tick (d : ℕ) (hg : Orderly storageQuotaDefault s (.tick d)) :
    Consistent { s with now := s.now + d } where
  linked := h.linked
  ready r hr hacc := by
    obtain ⟨code, t, hcode, ht, hlt⟩ := h.ready r hr hacc
    exact ⟨code, t, hcode, ht, hg r hr hacc code hcode t ht hlt⟩
  spent a ha code hcode := by
    obtain ⟨t, ht, hs⟩ := h.spent a ha code hcode
    refine ⟨t, ht, ?_⟩
    -- the record of a use may vanish, but only with the code, at its expiry
    rcases hs with hle | hused | hs
    · exact .inl (hle.trans (le_add_of_nonneg_right (Int.natCast_nonneg d)))
    · rcases h.linked.used_later hused with hu | ⟨t', ht', hle⟩
      · exact .inr (.inl hu)
      · cases ht.symm.trans ht'
        exact .inl hle
    · exact .inr (.inr hs)
  single := ⟨h.single.once, h.single.live⟩

theorem createInvite {code : String} (hfresh : s.expiry code = none) (createdBy : Uuid)
    (ttlSecs : ℕ) :
    Consistent
      { s with
        invites := s.invites.create s.now code createdBy ttlSecs
        expiry := Function.update s.expiry code (some (s.now + ttlSecs * nanosPerSecond)) } := by
  have hne : ∀ {code' : String} {t : Instant}, s.expiry code' = some t → code' ≠ code := by
    rintro code' t ht rfl
    rw [hfresh] at ht
    cases ht
  refine ⟨h.linked.create s.now hfresh createdBy ttlSecs, ?_, ?_, h.single.once, ?_⟩
  · intro r hr hacc
    obtain ⟨code', t, hcode, ht, hlt⟩ := h.ready r hr hacc
    exact ⟨code', t, hcode, (Function.update_of_ne (hne ht) ..).trans ht, hlt⟩
  · intro a ha code' hcode
    obtain ⟨t, ht, hs⟩ := h.spent a ha code' hcode
    refine ⟨t, (Function.update_of_ne (hne ht) ..).trans ht, hs.imp_right fun hs => ?_⟩
    rcases hs with hu | hs
    · exact .inl ((Invites.used_create_ne _ (hne ht)).trans hu)
    · exact .inr hs
  · intro a ha code' hcode t ht
    obtain ⟨t', ht', -⟩ := h.spent a ha code' hcode
    exact h.single.live a ha code' hcode t ((Function.update_of_ne (hne ht') ..).symm.trans ht)

/-- A request moves on, and the store with it. -/
theorem move {i : ℕ} {r : Request} (hi : s.requests[i]? = some r) (stage : Stage)
    {invites : Invites} {unconsumed : List String} (hlinked : invites.Linked s.expiry)
    (hready : stage.accepted = true →
      ∃ code t, r.req.inviteCode = some code ∧ s.expiry code = some t ∧ s.now < t)
    (hused : ∀ code, s.invites.used s.now code = true → invites.used s.now code = true)
    (hsub : ∀ code ∈ s.unconsumed, code ∈ unconsumed)
    (hdone : r.stage.consuming = true → ∀ code, r.req.inviteCode = some code →
      stage.consuming = true ∨ invites.used s.now code = true ∨ code ∈ unconsumed) :
    Consistent { s.setStage i r.req stage with invites, unconsumed } where
  linked := hlinked
  ready q hq hacc := by
    rcases mem_set_cases hq with rfl | hq
    · exact hready hacc
    · exact h.ready q hq hacc
  spent a ha code hcode := by
    obtain ⟨t, ht, hs⟩ := h.spent a ha code hcode
    refine ⟨t, ht, hs.imp_right fun hs => ?_⟩
    rcases hs with hu | ⟨q, hq, hqs, hqc⟩ | hun
    · exact .inl (hused code hu)
    · rcases mem_set_of_mem ⟨r.req, stage⟩ hi hq with rfl | hq'
      · -- the request that moves was to consume the code
        rcases hdone hqs code hqc with hst | hu | hun
        · refine .inr (.inl ⟨⟨q.req, stage⟩, ?_, hst, hqc⟩)
          exact List.mem_iff_getElem?.mpr ⟨i, by
            rw [State.setStage, List.getElem?_set_self (List.getElem?_eq_some_iff.mp hi).1]⟩
        · exact .inl hu
        · exact .inr (.inr hun)
      · exact .inr (.inl ⟨q, hq', hqs, hqc⟩)
    · exact .inr (.inr (hsub code hun))
  single := ⟨h.single.once, h.single.live⟩

/-- A request that neither consumes nor will insert moves on. -/
theorem setStage {i : ℕ} {r : Request} (hi : s.requests[i]? = some r)
    (hr : r.stage.consuming = false) (stage : Stage)
    (hready : stage.accepted = true →
      ∃ code t, r.req.inviteCode = some code ∧ s.expiry code = some t ∧ s.now < t) :
    Consistent (s.setStage i r.req stage) :=
  h.move hi stage h.linked hready (fun _ hu => hu) (fun _ hun => hun)
    fun hc => absurd hc (by rw [hr]; exact Bool.false_ne_true)

/-- An account is added, whose code nobody else has and is spent. -/
theorem addAccount (users : UserTable) {account : Account}
    (hfree : ∀ code ∈ account.code, ∀ a ∈ s.accounts, code ∉ a.code)
    (hlive : ∀ code ∈ account.code, ∀ t ∈ s.expiry code, account.createdAt < t)
    (hspent : ∀ code ∈ account.code, ∃ t, s.expiry code = some t ∧ (t ≤ s.now ∨ Spent s code)) :
    Consistent { s with users, accounts := s.accounts ++ [account] } where
  linked := h.linked
  ready := h.ready
  spent a ha := by
    rcases List.mem_append.mp ha with ha | ha
    · exact h.spent a ha
    · rw [List.mem_singleton.mp ha]
      exact hspent
  single := by
    refine ⟨List.pairwise_append.mpr ⟨h.single.once, List.pairwise_singleton _ _, ?_⟩,
      fun a ha => ?_⟩
    · intro a ha b hb code hcode hb'
      rw [List.mem_singleton.mp hb] at hb'
      exact hfree code hb' a ha hcode
    · rcases List.mem_append.mp ha with ha | ha
      · exact h.single.live a ha
      · rw [List.mem_singleton.mp ha]
        exact hlive

/-- Nobody has an account on the strength of a code that is not spent. -/
theorem free_of_not_spent {code : String} {t : Instant} (ht : s.expiry code = some t)
    (hlt : s.now < t) (hnot : ¬ Spent s code) : ∀ a ∈ s.accounts, code ∉ a.code := by
  intro a ha hac
  obtain ⟨t', ht', hle | hs⟩ := h.spent a ha code hac
  · cases ht.symm.trans ht'
    exact absurd hlt (not_lt.mpr hle)
  · exact hnot hs

theorem insertUser {i : ℕ} {r : Request} (hi : s.requests[i]? = some r) {isFirst good : Bool}
    (hr : r.stage = .insertUser isFirst good) (inp : Input)
    (hg : AloneAt storageQuotaDefault inp s r) :
    Consistent (insertUser storageQuotaDefault inp i r.req isFirst good s) := by
  have hnot : r.stage.consuming = false := by rw [hr]; rfl
  unfold Registration.insertUser
  split
  · rename_i hup
    split
    · exact h.setStage hi hnot _ fun hacc => (nomatch hacc)
    · rename_i users hins
      cases isFirst with
      | true =>
        -- the account of a first user rests on no code
        have hbase := h.setStage hi hnot (.returned (.ok inp.userId)) fun hacc => (nomatch hacc)
        exact hbase.addAccount users (fun code hcode => (nomatch hcode))
          (fun code hcode => (nomatch hcode)) fun code hcode => (nomatch hcode)
      | false =>
        obtain ⟨code, t, hcode, ht, hlt⟩ :=
          h.ready r (List.mem_of_getElem? hi) (by rw [hr]; rfl)
        simp only [AloneAt, hr] at hg
        obtain ⟨hunused, hun, hnobody⟩ := hg hup (by rw [hins]; rfl) code hcode
        have hfree := h.free_of_not_spent ht hlt fun hs => by
          rcases hs with hu | ⟨q, hq, hqs, hqc⟩ | hun'
          · rw [hunused] at hu
            cases hu
          · exact hnobody q hq hqs hqc
          · exact hun hun'
        have hbase := h.setStage hi hnot (.consume inp.userId) fun hacc => (nomatch hacc)
        have hself : (⟨r.req, .consume inp.userId⟩ : Request) ∈
            s.requests.set i ⟨r.req, .consume inp.userId⟩ :=
          List.mem_iff_getElem?.mpr ⟨i, by
            rw [List.getElem?_set_self (List.getElem?_eq_some_iff.mp hi).1]⟩
        simp only [hcode, Bool.false_eq_true, if_false, reduceCtorEq, or_self]
        refine hbase.addAccount users ?_ ?_ ?_ <;> rintro code' ⟨⟩
        · exact hfree
        · rintro t' ht'
          cases ht.symm.trans ht'
          exact hlt
        · -- the new account's code is still to be consumed
          exact ⟨t, ht, .inr (.inr (.inl ⟨_, hself, rfl, hcode⟩))⟩
  · exact h.setStage hi hnot _ fun hacc => (nomatch hacc)

/-- A request that consumes its code moves on. -/
theorem consumes {i : ℕ} {r : Request} (hi : s.requests[i]? = some r) {code : String}
    (hcode : r.req.inviteCode = some code) {stage : Stage} {invites : Invites}
    {unconsumed : List String} (hc : Consumes s code stage invites unconsumed) :
    Consistent { s.setStage i r.req stage with invites, unconsumed } := by
  refine h.move hi stage (hc.linked h.linked) (fun hacc => ?_) hc.used hc.kept ?_
  · rw [hc.accepted] at hacc
    cases hacc
  · rintro - code' hcode'
    cases hcode.symm.trans hcode'
    exact hc.done

theorem consume {i : ℕ} {r : Request} (hi : s.requests[i]? = some r) {code : String}
    (hcode : r.req.inviteCode = some code) (inp : Input) (userId : Uuid) :
    Consistent (consume inp i r.req code userId s) := by
  obtain ⟨stage, invites, unconsumed, heq, hc⟩ := consume_spec inp i r.req code userId s
  rw [heq]
  exact h.consumes hi hcode hc

theorem consumeFields {i : ℕ} {r : Request} (hi : s.requests[i]? = some r) {code : String}
    (hcode : r.req.inviteCode = some code) (inp : Input) (userId : Uuid) :
    Consistent (consumeFields inp i r.req code userId s) := by
  rcases consumeFields_spec inp i r.req code userId s with heq |
    ⟨stage, invites, unconsumed, heq, hc⟩
  · rwa [heq]
  · rw [heq]
    exact h.consumes hi hcode hc

theorem advance {i : ℕ} {r : Request} (hi : s.requests[i]? = some r) (inp : Input)
    (ht : TimelyAt s r) (hg : AloneAt storageQuotaDefault inp s r) :
    Consistent (advance storageQuotaDefault i inp r.req r.stage s) := by
  -- either look-up accepts good codes only
  have haccept : ∀ code, r.req.inviteCode = some code → ∀ stage,
      (r.stage = .verifyDetail ∧ stage = Registration.verifyDetail inp code s ∨
        r.stage = .verifyFields ∧ stage = Registration.verifyFields inp code s) →
      Consistent (s.setStage i r.req stage) := by
    intro code hcode stage hstage
    refine h.setStage hi ?_ stage fun hacc => ?_
    · rcases hstage with ⟨hr, -⟩ | ⟨hr, -⟩ <;> rw [hr] <;> rfl
    · obtain ⟨-, t, hexp, hlt⟩ := good_of_accepted h.linked ht hcode hstage hacc
      exact ⟨code, t, hcode, hexp, hlt⟩
  cases hr : r.stage with
  | countUsers =>
    apply h.setStage hi (by rw [hr]; rfl)
    intro hacc
    simp only [Registration.countUsers] at hacc
    repeat' split at hacc
    all_goals cases hacc
  | verifyDetail =>
    cases hcode : r.req.inviteCode with
    | none => simpa only [Registration.advance, hcode] using h
    | some code =>
      simpa only [Registration.advance, hcode] using haccept code hcode _ (.inl ⟨hr, rfl⟩)
  | verifyFields =>
    cases hcode : r.req.inviteCode with
    | none => simpa only [Registration.advance, hcode] using h
    | some code =>
      simpa only [Registration.advance, hcode] using haccept code hcode _ (.inr ⟨hr, rfl⟩)
  | insertUser isFirst good => exact h.insertUser hi hr inp hg
  | consume userId =>
    cases hcode : r.req.inviteCode with
    | none => simpa only [Registration.advance, hcode] using h
    | some code => simpa only [Registration.advance, hcode] using h.consume hi hcode inp userId
  | consumeFields userId =>
    cases hcode : r.req.inviteCode with
    | none => simpa only [Registration.advance, hcode] using h
    | some code =>
      simpa only [Registration.advance, hcode] using h.consumeFields hi hcode inp userId
  | returned result => exact h

theorem step (a : Action) (hg : Orderly storageQuotaDefault s a) :
    Consistent (Registration.step storageQuotaDefault s a) := by
  cases a with
  | tick d => exact h.tick d hg
  | createInvite code createdBy ttlSecs =>
    simp only [Registration.step]
    split
    · exact h
    · rename_i hfresh
      exact h.createInvite hfresh createdBy ttlSecs
  | submit req =>
    refine ⟨h.linked, fun r hr hacc => ?_, fun a ha code hcode => ?_,
      h.single.once, h.single.live⟩
    · rcases List.mem_append.mp hr with hr | hr
      · exact h.ready r hr hacc
      · rw [List.mem_singleton.mp hr] at hacc
        cases hacc
    · obtain ⟨t, ht, hs⟩ := h.spent a ha code hcode
      refine ⟨t, ht, hs.imp_right fun hs => ?_⟩
      rcases hs with hu | ⟨q, hq, hq'⟩ | hun
      · exact .inl hu
      · exact .inr (.inl ⟨q, List.mem_append_left _ hq, hq'⟩)
      · exact .inr (.inr hun)
  | advance i inp =>
    simp only [Registration.step]
    split
    · exact h
    · rename_i r hi
      exact h.advance hi inp (hg r hi).1 (hg r hi).2

end Consistent

/-- In an orderly run a code makes at most one account, and none once it has expired. -/
theorem invite_codes_single_use (users : UserTable) (mode : InviteMode) (now : Instant)
    (as : List Action)
    (horderly : AllSteps (step storageQuotaDefault) (Orderly storageQuotaDefault)
      (start users mode now) as) :
    AllStates (step storageQuotaDefault) SingleUse (start users mode now) as :=
  (allStates_of_guarded (fun _ a h hg => h.step a hg) (consistent_start users mode now)
    horderly).mono fun _ h => h.single

/-- The first user, and an invite for a week. -/
def firstUser : Auth.User := ⟨1, "root", none, true, none⟩

def oneUser : UserTable := ⟨[firstUser], List.pairwise_singleton _ _⟩

def guest (name : String) : RegisterRequest := ⟨name, none, "secret", some "code"⟩

def up (userId : Uuid) : Input := ⟨true, true, userId⟩

/-- One guest registers, and another one after that. -/
def politeRun : List Action :=
  [.createInvite "code" 1 604800, .submit (guest "a"), .submit (guest "b")] ++
    List.replicate 6 (.advance 0 (up 2)) ++ List.replicate 6 (.advance 1 (up 3))

theorem invite_codes_single_use_polite :
    AllStates (step 0) SingleUse (start oneUser .redis 0) politeRun :=
  invite_codes_single_use oneUser .redis 0 politeRun (by decide +kernel)

/-- Two guests are accepted before either of them has an account. -/
def racingRun : List Action :=
  [.createInvite "code" 1 604800, .submit (guest "a"), .submit (guest "b")] ++
    [.advance 0 (up 2), .advance 1 (up 3), .advance 0 (up 2), .advance 1 (up 3),
      .advance 0 (up 2), .advance 1 (up 3), .advance 0 (up 2), .advance 1 (up 3)]

/-- In SQLite a code is good for the rest of the minute in which it expires. -/
def lateRun : List Action :=
  [.createInvite "code" 1 604800, .tick 604829500000000, .submit (guest "a")] ++
    List.replicate 3 (.advance 0 (up 2))

/-- Either store lets one code make two accounts, and SQLite one that has expired. -/
theorem invite_codes_reused :
    ¬ AllStates (step 0) SingleUse (start oneUser .redis 0) racingRun ∧
    ¬ AllStates (step 0) SingleUse (start oneUser .sqlite 0) racingRun ∧
    ¬ AllStates (step 0) SingleUse (start oneUser .sqlite 999999999) lateRun := by
  refine ⟨fun h => ?_, fun h => ?_, fun h => ?_⟩
  · exact absurd h.last.once (by decide +kernel)
  · exact absurd h.last.once (by decide +kernel)
  · exact absurd h.last.live (by decide +kernel)

end PicHost.Registration
