import PicHost.Api.InviteUse

/-! # The first administrator -/

namespace PicHost.Registration

open KeyedTable LabelledRun

variable (storageQuotaDefault : ℕ)

/-- One administrator among the accounts, and everybody else was invited with a code that was
good when it was accepted. -/
structure SoleAdmin (s : State) : Prop where
  rows : s.users.rows.map (fun u => (u.id, u.isAdmin)) =
    s.accounts.map fun a => (a.userId, a.isAdmin)
  one : s.users.rows ≠ [] → (s.users.rows.filter (·.isAdmin)).length = 1
  invited : ∀ a ∈ s.accounts, a.isAdmin = false → a.code.isSome = true ∧ a.good = true

/-- The account of a first user is inserted into an empty table. -/
def FirstAt (inp : Input) (s : State) (r : Request) : Prop :=
  match r.stage with
  | .insertUser true _ => inp.dbUp = true →
      (s.users.insert (newUser storageQuotaDefault r.req inp.userId true)).isSome = true →
      s.users.rows = []
  | _ => True

instance (inp : Input) (s : State) : DecidablePred (FirstAt storageQuotaDefault inp s)
  | ⟨_, .insertUser true _⟩ =>
    inferInstanceAs (Decidable (_ = true → _ = true → s.users.rows = []))
  | ⟨_, .insertUser false _⟩ | ⟨_, .countUsers⟩ | ⟨_, .verifyDetail⟩ | ⟨_, .verifyFields⟩
  | ⟨_, .consume _⟩ | ⟨_, .consumeFields _⟩ | ⟨_, .returned _⟩ => isTrue trivial

/-- Besides, codes are looked up in time. -/
def FirstAlone (s : State) : Action → Prop
  | .advance i inp => ∀ r ∈ s.requests[i]?, TimelyAt s r ∧ FirstAt storageQuotaDefault inp s r
  | .tick _ | .createInvite _ _ _ | .submit _ => True

instance (s : State) : DecidablePred (FirstAlone storageQuotaDefault s)
  | .advance _ _ => Option.decidableForallMem _
  | .tick _ | .createInvite _ _ _ | .submit _ => isTrue trivial

/-- Whoever presents a code has seen a user; whoever is accepted presents a good one. -/
structure Invited (s : State) : Prop where
  linked : s.invites.Linked s.expiry
  presenting : ∀ r ∈ s.requests, r.stage.presenting = true → s.users.rows ≠ []
  accepted : ∀ r ∈ s.requests, r.stage.accepted = true →
    r.req.inviteCode.isSome = true ∧ r.stage = .insertUser false true
  sole : SoleAdmin s

variable {storageQuotaDefault}

theorem invited_start (mode : InviteMode) (now : Instant) :
    Invited (start Table.empty mode now) where
  linked := Invites.linked_empty mode
  presenting _ hr := absurd hr List.not_mem_nil
  accepted _ hr := absurd hr List.not_mem_nil
  sole := ⟨rfl, fun h => absurd rfl h, fun _ ha => absurd ha List.not_mem_nil⟩

namespace Invited

variable {s : State} (h : Invited s)
include h

/-- A request moves on, and the store with it; no account is created. -/
theorem move {i : ℕ} (req : RegisterRequest) (stage : Stage) {invites : Invites}
    {unconsumed : List String} (hlinked : invites.Linked s.expiry)
    (hpresenting : stage.presenting = true → s.users.rows ≠ [])
    (haccepted : stage.accepted = true →
      req.inviteCode.isSome = true ∧ stage = .insertUser false true) :
    Invited { s.setStage i req stage with invites, unconsumed } where
  linked := hlinked
  presenting q hq hst := by
    rcases mem_set_cases hq with rfl | hq
    · exact hpresenting hst
    · exact h.presenting q hq hst
  accepted q hq hst := by
    rcases mem_set_cases hq with rfl | hq
    · exact haccepted hst
    · exact h.accepted q hq hst
  sole := ⟨h.sole.rows, h.sole.one, h.sole.invited⟩

theorem setStage {i : ℕ} (req : RegisterRequest) (stage : Stage)
    (hpresenting : stage.presenting = true → s.users.rows ≠ [])
    (haccepted : stage.accepted = true →
      req.inviteCode.isSome = true ∧ stage = .insertUser false true) :
    Invited (s.setStage i req stage) :=
  h.move req stage h.linked hpresenting haccepted

theorem consumes {i : ℕ} (req : RegisterRequest) {code : String} {stage : Stage}
    {invites : Invites} {unconsumed : List String} (hc : Consumes s code stage invites unconsumed) :
    Invited { s.setStage i req stage with invites, unconsumed } := by
  refine h.move req stage (hc.linked h.linked) (fun hst => ?_) (fun hst => ?_)
  · rw [hc.presenting] at hst
    cases hst
  · rw [hc.accepted] at hst
    cases hst

/-- An account is created: by the first user in an empty table, or by an invited one. -/
theorem addAccount {req : RegisterRequest} {account : Account} {users : UserTable}
    (hins : s.users.insert (newUser storageQuotaDefault req account.userId account.isAdmin) =
      some users)
    (hfirst : account.isAdmin = true → s.users.rows = [])
    (hlater : account.isAdmin = false →
      s.users.rows ≠ [] ∧ account.code.isSome = true ∧ account.good = true) :
    Invited { s with users, accounts := s.accounts ++ [account] } := by
  have hrows := Table.rows_of_insert hins
  have hne : users.rows ≠ [] := by
    rw [hrows]
    exact List.append_ne_nil_of_right_ne_nil _ (List.cons_ne_nil _ _)
  refine ⟨h.linked, fun _ _ _ => hne, h.accepted, ?_, fun _ => ?_, fun a ha hadm => ?_⟩
  · simp only [hrows, List.map_append, h.sole.rows]
    rfl
  · cases hadm : account.isAdmin with
    | true =>
      -- the table was empty until now
      simp [hrows, hadm, hfirst hadm, newUser]
    | false =>
      -- there was a user, so there is the administrator already
      have hone := h.sole.one (hlater hadm).1
      simp only [hrows, hadm, List.filter_append, List.length_append, hone]
      rfl
  · rcases List.mem_append.mp ha with ha | ha
    · exact h.sole.invited a ha hadm
    · rw [List.mem_singleton.mp ha] at hadm ⊢
      exact (hlater hadm).2

theorem insertUser {i : ℕ} {r : Request} (hi : s.requests[i]? = some r) {isFirst good : Bool}
    (hr : r.stage = .insertUser isFirst good) (inp : Input)
    (hg : FirstAt storageQuotaDefault inp s r) :
    Invited (insertUser storageQuotaDefault inp i r.req isFirst good s) := by
  have hmem := List.mem_of_getElem? hi
  have hret : ∀ result, Invited (s.setStage i r.req (.returned result)) :=
    fun result => h.setStage r.req _ (fun hst => (nomatch hst)) fun hst => (nomatch hst)
  unfold Registration.insertUser
  split
  · rename_i hup
    split
    · exact hret _
    · rename_i users hins
      -- the request itself presents no code any more
      have hnext : Invited (s.setStage i r.req (if isFirst = true ∨ r.req.inviteCode = none
          then .returned (.ok inp.userId) else .consume inp.userId)) := by
        split
        · exact hret _
        · exact h.setStage r.req _ (fun hst => (nomatch hst)) fun hst => (nomatch hst)
      refine hnext.addAccount hins ?_ ?_ <;> rintro ⟨⟩
      · simp only [FirstAt, hr] at hg
        exact hg hup (by rw [hins]; rfl)
      · have hsome := h.presenting r hmem (by rw [hr]; rfl)
        obtain ⟨hcode, hgood⟩ := h.accepted r hmem (by rw [hr]; rfl)
        rw [hr] at hgood
        cases hgood
        exact ⟨hsome, hcode, rfl⟩
  · exact hret _

theorem advance {i : ℕ} {r : Request} (hi : s.requests[i]? = some r) (inp : Input)
    (ht : TimelyAt s r) (hg : FirstAt storageQuotaDefault inp s r) :
    Invited (advance storageQuotaDefault i inp r.req r.stage s) := by
  have hmem := List.mem_of_getElem? hi
  have haccept : ∀ code, r.req.inviteCode = some code → ∀ stage,
      (r.stage = .verifyDetail ∧ stage = Registration.verifyDetail inp code s ∨
        r.stage = .verifyFields ∧ stage = Registration.verifyFields inp code s) →
      Invited (s.setStage i r.req stage) := by
    intro code hcode stage hstage
    refine h.setStage r.req stage (fun _ => h.presenting r hmem ?_) fun hacc => ?_
    · rcases hstage with ⟨hr, -⟩ | ⟨hr, -⟩ <;> rw [hr] <;> rfl
    · obtain ⟨heq, -⟩ := good_of_accepted h.linked ht hcode hstage hacc
      exact ⟨by rw [hcode]; rfl, heq⟩
  cases hr : r.stage with
  | countUsers =>
    refine h.setStage r.req _ (fun hst => ?_) fun hst => ?_
    · -- only who saw a user is asked for a code
      intro hempty
      simp only [Registration.countUsers, hempty, List.length_nil, if_true] at hst
      repeat' split at hst
      all_goals cases hst
    · simp only [Registration.countUsers] at hst
      repeat' split at hst
      all_goals cases hst
  | verifyDetail =>
    cases hcode : r.req.inviteCode with
    | none => simpa only [Registration.advance, hcode] using h
    | some code =>
      simpa only [Registration.advance, hcode] using haccept code hcode _ (.inl ⟨hr, rfl⟩)
  | verifyFields =>
    cases hcode : r.req.inviteCode with
    | none => simpa only [Registration.advance, hcode] using h
    | some code =>
      simpa only [Registration.advance, hcode] using haccept code hcode _ (.inr ⟨hr, rfl⟩)
  | insertUser isFirst good => exact h.insertUser hi hr inp hg
  | consume userId =>
    cases hcode : r.req.inviteCode with
    | none => simpa only [Registration.advance, hcode] using h
    | some code =>
      obtain ⟨stage, invites, unconsumed, heq, hc⟩ := consume_spec inp i r.req code userId s
      simpa only [Registration.advance, hcode, heq] using h.consumes r.req hc
  | consumeFields userId =>
    cases hcode : r.req.inviteCode with
    | none => simpa only [Registration.advance, hcode] using h
    | some code =>
      rcases consumeFields_spec inp i r.req code userId s with heq |
        ⟨stage, invites, unconsumed, heq, hc⟩
      · simpa only [Registration.advance, hcode, heq] using h
      · simpa only [Registration.advance, hcode, heq] using h.consumes r.req hc
  | returned result => exact h

theorem step (a : Action) (hg : FirstAlone storageQuotaDefault s a) :
    Invited (Registration.step storageQuotaDefault s a) := by
  cases a with
  | tick d =>
    exact ⟨h.linked, h.presenting, h.accepted, h.sole.rows, h.sole.one, h.sole.invited⟩
  | createInvite code createdBy ttlSecs =>
    simp only [Registration.step]
    split
    · exact h
    · rename_i hfresh
      exact ⟨h.linked.create s.now hfresh createdBy ttlSecs, h.presenting, h.accepted,
        h.sole.rows, h.sole.one, h.sole.invited⟩
  | submit req =>
    refine ⟨h.linked, fun r hr hst => ?_, fun r hr hst => ?_, h.sole.rows, h.sole.one,
      h.sole.invited⟩
    · rcases List.mem_append.mp hr with hr | hr
      · exact h.presenting r hr hst
      · rw [List.mem_singleton.mp hr] at hst
        cases hst
    · rcases List.mem_append.mp hr with hr | hr
      · exact h.accepted r hr hst
      · rw [List.mem_singleton.mp hr] at hst
        cases hst
  | advance i inp =>
    simp only [Registration.step]
    split
    · exact h
    · rename_i r hi
      exact h.advance hi inp (hg r hi).1 (hg r hi).2

end Invited

/-- From an empty table on there is one administrator as long as no second request that saw
the table empty inserts its account. -/
theorem first_admin_sole (mode : InviteMode) (now : Instant) (as : List Action)
    (hfirst : AllSteps (step storageQuotaDefault) (FirstAlone storageQuotaDefault)
      (start Table.empty mode now) as) :
    AllStates (step storageQuotaDefault) SoleAdmin (start Table.empty mode now) as :=
  (allStates_of_guarded (fun _ a h hg => h.step a hg) (invited_start mode now) hfirst).mono
    fun _ h => h.sole

/-- The administrator registers and invites a guest. -/
def invitingRun : List Action :=
  .submit ⟨"root", none, "secret", none⟩ :: List.replicate 2 (.advance 0 (up 1)) ++
    [.createInvite "code" 1 604800, .submit (guest "a")] ++ List.replicate 6 (.advance 1 (up 2))

theorem first_admin_sole_inviting :
    AllStates (step 0) SoleAdmin (start Table.empty .redis 0) invitingRun :=
  first_admin_sole .redis 0 invitingRun (by decide +kernel)

def twoAdminsRun : List Action :=
  [.submit ⟨"root", none, "secret", none⟩, .submit ⟨"toor", none, "secret", none⟩,
    .advance 0 (up 1), .advance 1 (up 2), .advance 0 (up 1), .advance 1 (up 2)]

/-- Two requests count no users before either of them has an account. -/
theorem first_admins_two :
    ¬ AllStates (step 0) SoleAdmin (start Table.empty .redis 0) twoAdminsRun ∧
    ¬ AllStates (step 0) SoleAdmin (start Table.empty .sqlite 0) twoAdminsRun := by
  constructor <;> exact fun h => absurd h.last.one (by decide +kernel)

end PicHost.Registration
