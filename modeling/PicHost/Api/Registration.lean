import PicHost.Api.Auth
import PicHost.Api.Invites

/-!
# Registration

Requests to register take their steps in any order: each step is one statement of the
database or one command of the invite store. Time passes in between.
-/

namespace PicHost.Registration

open KeyedTable LabelledRun

/-- The constraints on `users`. -/
structure UserKeys where
  id : Uuid
  username : String
  email : Option String
deriving DecidableEq

def UserKeys.Clash (j k : UserKeys) : Prop :=
  j.id = k.id ∨ j.username = k.username ∨ (j.email ≠ none ∧ j.email = k.email)

instance : DecidableRel UserKeys.Clash := fun _ _ => inferInstanceAs (Decidable (_ ∨ _ ∨ _))

theorem UserKeys.Clash.symm (j k : UserKeys) : UserKeys.Clash j k → UserKeys.Clash k j := by
  rintro (h | h | ⟨hemail, heq⟩)
  · exact .inl h.symm
  · exact .inr (.inl h.symm)
  · exact .inr (.inr ⟨heq ▸ hemail, heq.symm⟩)

def userKeys (u : Auth.User) : UserKeys := ⟨u.id, u.username, u.email⟩

abbrev UserTable := Table userKeys UserKeys.Clash

structure RegisterRequest where
  username : String
  email : Option String
  password : String
  inviteCode : Option String
deriving DecidableEq

/-- The step that comes next. The flags of `insertUser` are `is_first_user` and, for the
record, whether the code was good when it was accepted. -/
inductive Stage
  | countUsers
  | verifyDetail
  | verifyFields
  | insertUser (isFirst good : Bool)
  | consume (userId : Uuid)
  | consumeFields (userId : Uuid)
  | returned (result : Except ApiError Uuid)
deriving DecidableEq

structure Request where
  req : RegisterRequest
  stage : Stage
deriving DecidableEq

/-- An account that was created; `code` is what it was created on the strength of. -/
structure Account where
  userId : Uuid
  isAdmin : Bool
  code : Option String
  good : Bool
  createdAt : Instant
deriving DecidableEq

/-- The last three fields are history: the accounts, the codes whose `consume` failed, and
when the codes expire that were ever created. -/
structure State where
  now : Instant
  users : UserTable
  invites : Invites
  requests : List Request
  accounts : List Account
  unconsumed : List String
  expiry : String → Option Instant

/-- What the outside contributes to one step. -/
structure Input where
  dbUp : Bool
  storeUp : Bool
  userId : Uuid

/-- Codes are drawn afresh. -/
inductive Action
  | tick (d : ℕ)
  | createInvite (code : String) (createdBy : Uuid) (ttlSecs : ℕ)
  | submit (req : RegisterRequest)
  | advance (i : ℕ) (inp : Input)

def badRequest (key : String) : ApiError := { status := 400, key }

def internalError : ApiError := { status := 500, key := "common.internal_error" }

def usernameExists : ApiError := { status := 409, key := "auth.username_exists" }

/-- The code exists, is not used and has not expired. -/
def codeGood (s : State) (code : String) : Bool :=
  match s.expiry code with
  | none => false
  | some t => decide (s.now < t) && !s.invites.used s.now code

/-- What `check_invite_code` makes of a status. -/
def checked (good : Bool) : InviteVerifyStatus → Stage
  | .valid => .insertUser false good
  | .used => .returned (.error (badRequest "invite.used"))
  | .expired => .returned (.error (badRequest "invite.expired"))
  | .notFound => .returned (.error (badRequest "invite.invalid"))

/-- `storageQuotaDefault` as `insert_user` gets it. -/
def storageQuota (storageQuotaDefault : ℕ) : Option ℤ :=
  if 0 < storageQuotaDefault then some storageQuotaDefault else none

variable (storageQuotaDefault : ℕ)

def newUser (req : RegisterRequest) (userId : Uuid) (isFirst : Bool) : Auth.User where
  id := userId
  username := req.username
  email := req.email
  isAdmin := isFirst
  storageQuota := storageQuota storageQuotaDefault

/-- The first statements of `register`. -/
def countUsers (inp : Input) (req : RegisterRequest) (s : State) : Stage :=
  if req.password.utf8ByteSize < 6 then
    .returned (.error (badRequest "validation.password_min_length"))
  else if inp.dbUp then
    if s.users.rows.length = 0 then .insertUser true false
    else
      match req.inviteCode with
      | none => .returned (.error (badRequest "invite.required"))
      | some _ => .verifyDetail
  else .returned (.error internalError)

/-- `verify_detail`: in Redis the first of two commands, `EXISTS`. -/
def verifyDetail (inp : Input) (code : String) (s : State) : Stage :=
  if inp.storeUp then
    match s.invites with
    | .sqlite codes => checked (codeGood s code) (Invites.verifyRow s.now (Invites.row codes code))
    | .redis hashes =>
      if (Invites.lookup hashes s.now code).isSome then .verifyFields
      else checked false .notFound
  else .returned (.error internalError)

/-- The second command, `HGETALL`. -/
def verifyFields (inp : Input) (code : String) (s : State) : Stage :=
  if inp.storeUp then
    match s.invites with
    | .sqlite _ => .verifyFields
    | .redis hashes =>
      checked (codeGood s code) (Invites.verifyFields s.now (Invites.lookup hashes s.now code))
  else .returned (.error internalError)

def State.setStage (s : State) (i : ℕ) (req : RegisterRequest) (stage : Stage) : State :=
  { s with requests := s.requests.set i ⟨req, stage⟩ }

def insertUser (inp : Input) (i : ℕ) (req : RegisterRequest) (isFirst good : Bool) (s : State) :
    State :=
  if inp.dbUp then
    match s.users.insert (newUser storageQuotaDefault req inp.userId isFirst) with
    | none => s.setStage i req (.returned (.error usernameExists))
    | some users =>
      let account : Account :=
        { userId := inp.userId
          isAdmin := isFirst
          code := if isFirst then none else req.inviteCode
          good
          createdAt := s.now }
      let next : Stage :=
        -- a first user's code, if there is one, is not consumed
        if isFirst = true ∨ req.inviteCode = none then .returned (.ok inp.userId)
        else .consume inp.userId
      { s.setStage i req next with users, accounts := s.accounts ++ [account] }
  else s.setStage i req (.returned (.error internalError))

/-- `consume`, whose result is discarded: in Redis the first of two commands, `EXISTS`. -/
def consume (inp : Input) (i : ℕ) (req : RegisterRequest) (code : String) (userId : Uuid)
    (s : State) : State :=
  let s' := s.setStage i req (.returned (.ok userId))
  if inp.storeUp then
    match s.invites with
    | .sqlite codes =>
      let (consumed, codes') := Invites.consumeRow code userId codes
      { s' with
        invites := .sqlite codes'
        unconsumed := if consumed then s.unconsumed else code :: s.unconsumed }
    | .redis hashes =>
      if (Invites.lookup hashes s.now code).isSome then s.setStage i req (.consumeFields userId)
      else { s' with unconsumed := code :: s.unconsumed }
  else { s' with unconsumed := code :: s.unconsumed }

/-- The second command, `HSET`. -/
def consumeFields (inp : Input) (i : ℕ) (req : RegisterRequest) (code : String) (userId : Uuid)
    (s : State) : State :=
  let s' := s.setStage i req (.returned (.ok userId))
  if inp.storeUp then
    match s.invites with
    | .sqlite _ => s
    | .redis hashes =>
      { s' with invites := .redis (Invites.consumeFields s.now code userId hashes) }
  else { s' with unconsumed := code :: s.unconsumed }

/-- One step of `register`. -/
def advance (i : ℕ) (inp : Input) (req : RegisterRequest) (stage : Stage) (s : State) : State :=
  match stage, req.inviteCode with
  | .countUsers, _ => s.setStage i req (countUsers inp req s)
  | .verifyDetail, some code => s.setStage i req (verifyDetail inp code s)
  | .verifyFields, some code => s.setStage i req (verifyFields inp code s)
  | .insertUser isFirst good, _ => insertUser storageQuotaDefault inp i req isFirst good s
  | .consume userId, some code => consume inp i req code userId s
  | .consumeFields userId, some code => consumeFields inp i req code userId s
  | _, _ => s

def step (s : State) : Action → State
  | .tick d => { s with now := s.now + d }
  | .createInvite code createdBy ttlSecs =>
    match s.expiry code with
    | some _ => s
    | none =>
      { s with
        invites := s.invites.create s.now code createdBy ttlSecs
        expiry := Function.update s.expiry code (some (s.now + ttlSecs * nanosPerSecond)) }
  | .submit req => { s with requests := s.requests ++ [⟨req, .countUsers⟩] }
  | .advance i inp =>
    match s.requests[i]? with
    | none => s
    | some r => advance storageQuotaDefault i inp r.req r.stage s

/-- No codes and no requests yet. -/
def start (users : UserTable) (mode : InviteMode) (now : Instant) : State :=
  ⟨now, users, .empty mode, [], [], [], fun _ => none⟩

/-- The request has been accepted with its code and is to insert the account. -/
def Stage.accepted : Stage → Bool
  | .insertUser false _ => true
  | _ => false

/-- The account is there and the code is to be consumed. -/
def Stage.consuming : Stage → Bool
  | .consume _ | .consumeFields _ => true
  | _ => false

/-- In SQLite no code is looked up in the rest of the minute in which it expired, when the
stamps do not tell; in Redis the hash does not vanish between `EXISTS` and `HGETALL`. -/
def TimelyAt (s : State) (r : Request) : Prop :=
  match r.stage with
  | .verifyDetail => s.invites.isSqlite = true → ∀ code ∈ r.req.inviteCode,
      ∀ t ∈ s.expiry code, t ≤ s.now → (Stamp.ofInstant t).le (Stamp.ofInstant s.now) = true
  | .verifyFields => ∀ code ∈ r.req.inviteCode, s.invites.present s.now code = true
  | _ => True

instance (s : State) : DecidablePred (TimelyAt s)
  | ⟨_, .verifyDetail⟩ => inferInstanceAs (Decidable (_ = true → _))
  | ⟨_, .verifyFields⟩ => Option.decidableForallMem _
  | ⟨_, .countUsers⟩ | ⟨_, .insertUser _ _⟩ | ⟨_, .consume _⟩ | ⟨_, .consumeFields _⟩
  | ⟨_, .returned _⟩ => isTrue trivial

variable {storageQuotaDefault}

/-- A code is accepted only if it is good, when it is looked up in time. -/
theorem good_of_accepted {s : State} (hl : s.invites.Linked s.expiry) {r : Request}
    (ht : TimelyAt s r) {inp : Input} {code : String} (hcode : r.req.inviteCode = some code)
    {stage : Stage}
    (hstage : r.stage = .verifyDetail ∧ stage = verifyDetail inp code s ∨
      r.stage = .verifyFields ∧ stage = verifyFields inp code s)
    (hacc : stage.accepted = true) :
    stage = .insertUser false true ∧ ∃ t, s.expiry code = some t ∧ s.now < t := by
  have hdone : ∀ status, (status = .valid → ∃ t, s.expiry code = some t ∧ s.now < t ∧
      s.invites.used s.now code = false) → stage = checked (codeGood s code) status →
      stage = .insertUser false true ∧ ∃ t, s.expiry code = some t ∧ s.now < t := by
    intro status hvalid heq
    cases status with
    | valid =>
      obtain ⟨t, hexp, hlt, hused⟩ := hvalid rfl
      exact ⟨by rw [heq]; simp [checked, codeGood, hexp, hlt, hused], t, hexp, hlt⟩
    | _ =>
      rw [heq] at hacc
      cases hacc
  rcases hstage with ⟨hr, rfl⟩ | ⟨hr, rfl⟩
  · simp only [verifyDetail] at hacc hdone ⊢
    split at hacc
    · rename_i hup
      rw [if_pos hup] at hdone ⊢
      split at hacc
      · rename_i codes hinv
        simp only [hinv] at hdone ⊢
        refine hdone _ (fun hvalid => ?_) rfl
        refine (hinv ▸ hl).good_of_verifyRow ?_ hvalid
        simp only [TimelyAt, hr] at ht
        exact ht (by rw [hinv]; rfl) code hcode
      · split at hacc <;> cases hacc
    · cases hacc
  · simp only [verifyFields] at hacc hdone ⊢
    split at hacc
    · rename_i hup
      rw [if_pos hup] at hdone ⊢
      split at hacc
      · cases hacc
      · rename_i hashes hinv
        simp only [hinv] at hdone ⊢
        refine hdone _ (fun hvalid => ?_) rfl
        refine (hinv ▸ hl).good_of_verifyFields ?_ hvalid
        simp only [TimelyAt, hr] at ht
        have hp := ht code hcode
        rw [hinv] at hp
        exact hp
    · cases hacc

/-- The request presents a code and has no account yet. -/
def Stage.presenting : Stage → Bool
  | .verifyDetail | .verifyFields | .insertUser false _ => true
  | _ => false

/-- What a request leaves that consumes its code: either the code is used afterwards, or its
consumption is still to come or has failed. -/
structure Consumes (s : State) (code : String) (stage : Stage) (invites : Invites)
    (unconsumed : List String) : Prop where
  accepted : stage.accepted = false
  presenting : stage.presenting = false
  linked : s.invites.Linked s.expiry → invites.Linked s.expiry
  used : ∀ code, s.invites.used s.now code = true → invites.used s.now code = true
  kept : ∀ code ∈ s.unconsumed, code ∈ unconsumed
  done : stage.consuming = true ∨ invites.used s.now code = true ∨ code ∈ unconsumed

theorem consumes_failed (s : State) (code : String) (userId : Uuid) :
    Consumes s code (.returned (.ok userId)) s.invites (code :: s.unconsumed) where
  accepted := rfl
  presenting := rfl
  linked := id
  used _ hu := hu
  kept _ hun := List.mem_cons_of_mem _ hun
  done := .inr (.inr List.mem_cons_self)

theorem consume_spec (inp : Input) (i : ℕ) (req : RegisterRequest) (code : String)
    (userId : Uuid) (s : State) : ∃ stage invites unconsumed,
      consume inp i req code userId s = { s.setStage i req stage with invites, unconsumed } ∧
      Consumes s code stage invites unconsumed := by
  unfold consume
  split
  · split
    · rename_i codes hinv
      refine ⟨_, _, _, rfl, rfl, rfl, fun hl => (hinv ▸ hl).consumeRow code userId, ?_, ?_, ?_⟩
      · intro code' hu
        rw [hinv] at hu
        exact Invites.used_consumeRow_of_used hu
      · intro code' hun
        split
        · exact hun
        · exact List.mem_cons_of_mem _ hun
      · cases hc : (Invites.consumeRow code userId codes).1 with
        | true => exact .inr (.inl (Invites.used_consumeRow hc))
        | false =>
          refine .inr (.inr ?_)
          show code ∈ if (Invites.consumeRow code userId codes).1 = true then s.unconsumed
            else code :: s.unconsumed
          rw [hc, if_neg Bool.false_ne_true]
          exact List.mem_cons_self
    · split
      · exact ⟨.consumeFields userId, s.invites, s.unconsumed, rfl, rfl, rfl, id, fun _ hu => hu,
          fun _ hun => hun, .inl rfl⟩
      · exact ⟨_, s.invites, _, rfl, consumes_failed s code userId⟩
  · exact ⟨_, s.invites, _, rfl, consumes_failed s code userId⟩

theorem consumeFields_spec (inp : Input) (i : ℕ) (req : RegisterRequest) (code : String)
    (userId : Uuid) (s : State) : consumeFields inp i req code userId s = s ∨
      ∃ stage invites unconsumed, consumeFields inp i req code userId s =
        { s.setStage i req stage with invites, unconsumed } ∧
        Consumes s code stage invites unconsumed := by
  unfold consumeFields
  split
  · split
    · exact .inl rfl
    · rename_i hashes hinv
      refine .inr ⟨_, _, s.unconsumed, rfl, rfl, rfl,
        fun hl => (hinv ▸ hl).consumeFields s.now code userId, ?_, fun _ hun => hun,
        .inr (.inl Invites.used_consumeFields)⟩
      intro code' hu
      by_cases hc : code' = code
      · subst hc
        exact Invites.used_consumeFields
      · rw [Invites.used_consumeFields_ne hc]
        rwa [hinv] at hu
  · exact .inr ⟨_, s.invites, _, rfl, consumes_failed s code userId⟩

/-- The request that moves, and the others. -/
theorem mem_set_cases {requests : List Request} {i : ℕ} {r q : Request}
    (hq : q ∈ requests.set i r) : q = r ∨ q ∈ requests :=
  (List.mem_or_eq_of_mem_set hq).symm

end PicHost.Registration
