import PicHost.Core.RedisQueue
import PicHost.Lib.Run

/-!
# The Redis queue, command by command

Each call is a client that executes its commands one at a time; those of other clients come
in between. A client may die between two of its commands.
-/

namespace PicHost.RedisCommands

open Serialised

/-- The fields of a task hash; `data` is the serialised payload. -/
structure TaskHash (J : Type) where
  data : Option J := none
  status : Option String := none
  createdAt : Option Instant := none
  updatedAt : Option Instant := none
  error : Option String := none

/-- The lists under `pichost:tasks:`, the identifier pushed last in front, and the hashes. -/
structure Store (J : Type) where
  pending : List Uuid
  processing : List Uuid
  dead : List Uuid
  hash : Uuid → TaskHash J

inductive Field (J : Type)
  | data (text : J)
  | status (status : String)
  | createdAt (now : Instant)
  | updatedAt (now : Instant)
  | error (err : String)
deriving DecidableEq

/-- A command whose reply nobody reads. -/
inductive Command (J : Type)
  | hset (taskId : Uuid) (field : Field J)
  | lpushPending (taskId : Uuid)
  | lpushDead (taskId : Uuid)
deriving DecidableEq

/-- What a call returns. -/
inductive Reply
  | enqueued (taskId : Uuid)
  | dequeued (task : Option TaskPayload)
  | acked
  | nacked (action : NackAction)
  | recovered (tasks : List TaskPayload)
  | failed
deriving DecidableEq

/-- The loop of `recover_stale_tasks`: what is left of the list and what has been recovered. -/
structure Scan where
  cutoff : Instant
  taskIds : List Uuid
  recovered : List TaskPayload
deriving DecidableEq

inductive Next
  | reply (reply : Reply)
  | scan (scan : Scan)
deriving DecidableEq

/-- Where a call is: its next command, or the clock it reads next. -/
inductive Stage (J : Type)
  | brpoplpush
  | hgetData (taskId : Uuid)
  | lremOrphan (taskId : Uuid)
  | dequeueNow (taskId : Uuid) (task : TaskPayload)
  | lremAcked (taskId : Uuid) (now : Instant)
  | nackHgetData (taskId : Uuid) (retryCount maxRetries : ℤ)
  | nackNow (task : TaskPayload)
  | lremNacked (task : TaskPayload) (now : Instant)
  | lrange (timeout : ℕ)
  | cutoffNow (timeout : ℕ) (taskIds : List Uuid)
  | hgetUpdatedAt (scan : Scan)
  | recoverHgetData (scan : Scan) (taskId : Uuid)
  | lremStale (scan : Scan) (taskId : Uuid) (task : TaskPayload)
  | recoverNow (scan : Scan) (taskId : Uuid) (task : TaskPayload)
  | writing (cmds : List (Command J)) (next : Next)
  | returned (reply : Reply)
  | crashed
deriving DecidableEq

variable {J : Type}

namespace Store

def empty : Store J := ⟨[], [], [], fun _ => {}⟩

/-- `BRPOPLPUSH`, when this identifier comes last. -/
def move (taskId : Uuid) (st : Store J) : Store J :=
  { st with
    pending := st.pending.dropLast
    processing := taskId :: st.processing }

/-- `LREM processing 1 id`. -/
def lrem (taskId : Uuid) (st : Store J) : Store J :=
  { st with processing := st.processing.erase taskId }

def hset (taskId : Uuid) (field : Field J) (st : Store J) : Store J :=
  let h := st.hash taskId
  let h' := match field with
    | .data text => { h with data := some text }
    | .status status => { h with status := some status }
    | .createdAt now => { h with createdAt := some now }
    | .updatedAt now => { h with updatedAt := some now }
    | .error err => { h with error := some err }
  { st with hash := Function.update st.hash taskId h' }

def exec (st : Store J) : Command J → Store J
  | .hset taskId field => st.hset taskId field
  | .lpushPending taskId => { st with pending := taskId :: st.pending }
  | .lpushDead taskId => { st with dead := taskId :: st.dead }

end Store

def Next.stage : Next → Stage J
  | .reply r => .returned r
  | .scan sc => .hgetUpdatedAt sc

/-- The remaining commands, if any, and then the next part of the call. -/
def Stage.after : List (Command J) → Next → Stage J
  | [], next => next.stage
  | cmd :: cmds, next => .writing (cmd :: cmds) next

variable (json : Codec TaskPayload J)

/-- The commands of `enqueue_task`. -/
def enqueueCommands (taskId : Uuid) (text : J) (now : Instant) : List (Command J) :=
  [.hset taskId (.data text), .hset taskId (.status "pending"), .hset taskId (.createdAt now),
    .hset taskId (.updatedAt now), .lpushPending taskId]

/-- The commands of `dequeue_task` after the payload is read. -/
def processingCommands (taskId : Uuid) (now : Instant) : List (Command J) :=
  [.hset taskId (.status "processing"), .hset taskId (.updatedAt now)]

/-- The commands of `ack_task` after the `LREM`. -/
def ackCommands (taskId : Uuid) (now : Instant) : List (Command J) :=
  [.hset taskId (.status "done"), .hset taskId (.updatedAt now)]

/-- The commands of `nack_task` after the `LREM`. -/
def nackCommands (task : TaskPayload) (now : Instant) : List (Command J) :=
  [.hset task.taskId (.error "nack: task failed"), .hset task.taskId (.updatedAt now)] ++
    if task.retryCount < task.maxRetries then
      [.hset task.taskId (.data (json.encode { task with retryCount := task.retryCount + 1 })),
        .hset task.taskId (.status "pending"), .lpushPending task.taskId]
    else [.lpushDead task.taskId, .hset task.taskId (.status "dead")]

def nackAction (task : TaskPayload) : NackAction :=
  if task.retryCount < task.maxRetries then .retry else .deadLetter

/-- The commands of `recover_single_task` after the `LREM`. -/
def recoverCommands (taskId : Uuid) (now : Instant) : List (Command J) :=
  [.hset taskId (.status "pending"), .hset taskId (.updatedAt now),
    .hset taskId (.error "recovered: stale"), .lpushPending taskId]

def decoded (st : Store J) (taskId : Uuid) : Option TaskPayload :=
  (st.hash taskId).data.bind json.decode

/-- One step of a call. -/
def Stage.step (now : Instant) : Stage J × Store J → Stage J × Store J
  | (.brpoplpush, st) =>
    match st.pending.getLast? with
    | none => (.returned (.dequeued none), st)
    | some taskId => (.hgetData taskId, st.move taskId)
  | (.hgetData taskId, st) =>
    match (st.hash taskId).data with
    | none => (.lremOrphan taskId, st)
    | some text =>
      match json.decode text with
      -- the identifier stays where it is
      | none => (.returned .failed, st)
      | some task => (.dequeueNow taskId task, st)
  | (.lremOrphan taskId, st) => (.returned .failed, st.lrem taskId)
  | (.dequeueNow taskId task, st) =>
    (.writing (processingCommands taskId now) (.reply (.dequeued (some task))), st)
  | (.lremAcked taskId now, st) =>
    (.writing (ackCommands taskId now) (.reply .acked), st.lrem taskId)
  | (.nackHgetData taskId retryCount maxRetries, st) =>
    match decoded json st taskId with
    | none => (.returned .failed, st)
    | some task => (.nackNow { task with retryCount, maxRetries }, st)
  | (.nackNow task, st) => (.lremNacked task now, st)
  | (.lremNacked task now, st) =>
    (.writing (nackCommands json task now) (.reply (.nacked (nackAction task))),
      st.lrem task.taskId)
  | (.lrange timeout, st) => (.cutoffNow timeout st.processing, st)
  | (.cutoffNow timeout taskIds, st) => (.hgetUpdatedAt ⟨now - timeout, taskIds, []⟩, st)
  | (.hgetUpdatedAt ⟨_, [], recovered⟩, st) => (.returned (.recovered recovered), st)
  | (.hgetUpdatedAt ⟨cutoff, taskId :: taskIds, recovered⟩, st) =>
    match (st.hash taskId).updatedAt with
    | none => (.hgetUpdatedAt ⟨cutoff, taskIds, recovered⟩, st)
    | some updatedAt =>
      if cutoff ≤ updatedAt then (.hgetUpdatedAt ⟨cutoff, taskIds, recovered⟩, st)
      else (.recoverHgetData ⟨cutoff, taskIds, recovered⟩ taskId, st)
  | (.recoverHgetData scan taskId, st) =>
    match decoded json st taskId with
    -- a missing payload is passed over, and so is one that does not deserialise
    | none => (.hgetUpdatedAt scan, st)
    | some task => (.lremStale scan taskId task, st)
  | (.lremStale scan taskId task, st) => (.recoverNow scan taskId task, st.lrem taskId)
  | (.recoverNow scan taskId task, st) =>
    (.writing (recoverCommands taskId now)
      (.scan { scan with recovered := scan.recovered ++ [task] }), st)
  | (.writing [] next, st) => (next.stage, st)
  | (.writing (cmd :: cmds) next, st) => (Stage.after cmds next, st.exec cmd)
  | (.returned r, st) => (.returned r, st)
  | (.crashed, st) => (.crashed, st)

/-- A call of the queue. Identifiers are drawn afresh by whoever enqueues. -/
inductive Call
  | enqueue (taskId : Uuid)
  | dequeue
  | ack (taskId : Uuid)
  | nack (taskId : Uuid) (retryCount maxRetries : ℤ)
  | recoverStaleTasks (timeout : ℕ)

/-- What is serialised for each identifier that is enqueued: a payload of its own, unless it
does not deserialise. -/
structure Texts where
  text : Uuid → J
  own : ∀ taskId task, json.decode (text taskId) = some task → task.taskId = taskId

/-- The other fields are history: the identifiers drawn, enqueued, acknowledged and recovered,
how often a task was handed to a worker, and when a client was handed its task. -/
structure State (J : Type) where
  now : Instant
  store : Store J
  clients : List (Stage J)
  drawn : List Uuid
  enqueued : List Uuid
  acked : List Uuid
  recovered : List Uuid
  starts : Uuid → ℕ
  handedAt : ℕ → Instant

/-- A worker `finish`es a task it was handed and calls `ack` or `nack`. -/
inductive Action
  | tick (d : ℕ)
  | call (call : Call)
  | finish (i : ℕ) (succeeded : Bool)
  | advance (i : ℕ)
  | crash (i : ℕ)

variable {json} (texts : Texts json)

def Call.start (now : Instant) : Call → Stage J
  | .enqueue taskId =>
    .writing (enqueueCommands taskId (texts.text taskId) now) (.reply (.enqueued taskId))
  | .dequeue => .brpoplpush
  | .ack taskId => .lremAcked taskId now
  | .nack taskId retryCount maxRetries => .nackHgetData taskId retryCount maxRetries
  | .recoverStaleTasks timeout => .lrange timeout

/-- The reply a call has just returned. -/
def Stage.completes : Stage J → Stage J → Option Reply
  | .writing _ _, .returned r => some r
  | _, _ => none

def State.setClient (s : State J) (i : ℕ) (stage : Stage J) : State J :=
  { s with clients := s.clients.set i stage }

def State.addClient (s : State J) (stage : Stage J) : State J :=
  { s with clients := s.clients ++ [stage] }

variable (json) in
/-- A call takes a step; the history records what it did. -/
def State.advance (i : ℕ) (stage : Stage J) (s : State J) : State J :=
  let (stage', store) := Stage.step json s.now (stage, s.store)
  { s.setClient i stage' with
    store
    enqueued := match stage.completes stage' with
      | some (.enqueued taskId) => taskId :: s.enqueued
      | _ => s.enqueued
    starts := match stage.completes stage' with
      | some (.dequeued (some task)) =>
        Function.update s.starts task.taskId (s.starts task.taskId + 1)
      | _ => s.starts
    handedAt := match stage.completes stage' with
      | some (.dequeued (some _)) => Function.update s.handedAt i s.now
      | _ => s.handedAt
    acked := match stage with
      | .lremAcked taskId _ => taskId :: s.acked
      | _ => s.acked
    recovered := match stage with
      | .lremStale _ taskId _ => taskId :: s.recovered
      | _ => s.recovered }

theorem advance_store (s : State J) (i : ℕ) (c : Stage J) :
    (s.advance json i c).store = (Stage.step json s.now (c, s.store)).2 := rfl

theorem advance_clients (s : State J) (i : ℕ) (c : Stage J) :
    (s.advance json i c).clients = s.clients.set i (Stage.step json s.now (c, s.store)).1 := rfl

def State.step (s : State J) : Action → State J
  | .tick d => { s with now := s.now + d }
  | .call (.enqueue taskId) =>
    if taskId ∈ s.drawn then s
    else
      { s.addClient ((Call.enqueue taskId).start texts s.now) with drawn := taskId :: s.drawn }
  | .call c => s.addClient (c.start texts s.now)
  | .finish i succeeded =>
    match s.clients[i]? with
    | some (.returned (.dequeued (some task))) =>
      s.setClient i <|
        if succeeded then (Call.ack task.taskId).start texts s.now
        else (Call.nack task.taskId task.retryCount task.maxRetries).start texts s.now
    | _ => s
  | .advance i =>
    match s.clients[i]? with
    | some stage => s.advance json i stage
    | none => s
  | .crash i => s.setClient i .crashed

/-- An empty queue and no calls yet. -/
def State.start (now : Instant) : State J :=
  ⟨now, .empty, [], [], [], [], [], fun _ => 0, fun _ => now⟩

namespace Store

variable (st : Store J) (taskId : Uuid) (field : Field J)

@[simp] theorem hset_pending : (st.hset taskId field).pending = st.pending := rfl

@[simp] theorem hset_processing : (st.hset taskId field).processing = st.processing := rfl

@[simp] theorem hset_dead : (st.hset taskId field).dead = st.dead := rfl

@[simp] theorem lrem_pending : (st.lrem taskId).pending = st.pending := rfl

@[simp] theorem lrem_processing : (st.lrem taskId).processing = st.processing.erase taskId := rfl

@[simp] theorem lrem_dead : (st.lrem taskId).dead = st.dead := rfl

@[simp] theorem lrem_hash : (st.lrem taskId).hash = st.hash := rfl

theorem hset_hash_of_ne {id : Uuid} (h : id ≠ taskId) :
    (st.hset taskId field).hash id = st.hash id := Function.update_of_ne h _ _

/-- Only the command that sets the field changes the payload. -/
theorem hset_data (id : Uuid) : ((st.hset taskId field).hash id).data = (st.hash id).data ∨
    ∃ text, field = .data text ∧ id = taskId ∧
      ((st.hset taskId field).hash id).data = some text := by
  by_cases h : id = taskId
  · subst h
    cases field with
    | data text => exact .inr ⟨text, rfl, rfl, by simp [hset]⟩
    | _ => exact .inl (by simp [hset])
  · rw [hset_hash_of_ne st taskId field h]
    exact .inl rfl

/-- The identifier is waiting or being worked on. -/
def Listed (id : Uuid) : Prop := id ∈ st.pending ∨ id ∈ st.processing

/-- How often the lists have the identifier. -/
def entries (id : Uuid) : ℕ := st.pending.count id + st.processing.count id + st.dead.count id

instance : DecidablePred st.Listed := fun _ => inferInstanceAs (Decidable (_ ∨ _))

variable {st} in
theorem Listed.lrem_of_ne {id : Uuid} (h : st.Listed id) (hne : id ≠ taskId) :
    (st.lrem taskId).Listed id :=
  h.imp_right fun h => (List.mem_erase_of_ne hne).mpr h

/-- The hash has a payload and a time of its last update. -/
def Backed (id : Uuid) : Prop :=
  (st.hash id).data.isSome = true ∧ (st.hash id).updatedAt.isSome = true

/-- What is set stays set. -/
def Filled (st' : Store J) : Prop := ∀ id,
  ((st.hash id).data.isSome = true → (st'.hash id).data.isSome = true) ∧
    ((st.hash id).updatedAt.isSome = true → (st'.hash id).updatedAt.isSome = true)

variable {st} {st' : Store J}

theorem Filled.of_hash (h : st'.hash = st.hash) : st.Filled st' := fun id => by
  rw [h]
  exact ⟨fun hd => hd, fun hu => hu⟩

theorem Filled.backed (h : st.Filled st') {id : Uuid} (hb : st.Backed id) : st'.Backed id :=
  ⟨(h id).1 hb.1, (h id).2 hb.2⟩

theorem filled_exec (st : Store J) (cmd : Command J) : st.Filled (st.exec cmd) := by
  cases cmd with
  | hset taskId field =>
    intro id
    by_cases h : id = taskId
    · subst h
      cases field <;> simp [exec, hset]
    · rw [exec, hset_hash_of_ne st taskId field h]
      exact ⟨fun hd => hd, fun hu => hu⟩
  | lpushPending | lpushDead => exact Filled.of_hash rfl

theorem Filled.exec (h : st.Filled st') (cmd : Command J) :
    (st.exec cmd).Filled (st'.exec cmd) := by
  cases cmd with
  | hset taskId field =>
    intro id
    by_cases hid : id = taskId
    · subst hid
      have := h id
      cases field <;> simp_all [Store.exec, hset]
    · simp only [Store.exec, hset_hash_of_ne _ _ _ hid]
      exact h id
  | lpushPending | lpushDead => exact h

end Store

/-- Whenever an identifier is pushed for processing, its hash is there. -/
def Ready : Store J → List (Command J) → Prop
  | _, [] => True
  | st, cmd :: cmds =>
    (∀ id, cmd = .lpushPending id → st.Backed id) ∧ Ready (st.exec cmd) cmds

theorem Ready.mono {st st' : Store J} {cmds : List (Command J)} (h : Ready st cmds)
    (hf : st.Filled st') : Ready st' cmds := by
  induction cmds generalizing st st' with
  | nil => trivial
  | cons cmd cmds ih =>
    exact ⟨fun id hcmd => hf.backed (h.1 id hcmd), ih h.2 (hf.exec cmd)⟩

def Command.pushes (id : Uuid) : Command J → Bool
  | .lpushPending taskId | .lpushDead taskId => taskId == id
  | .hset _ _ => false

/-- How often the call is still to push the identifier. -/
def Stage.inHand (id : Uuid) : Stage J → ℕ
  | .recoverNow _ taskId _ => if taskId = id then 1 else 0
  | .writing cmds _ => cmds.countP (·.pushes id)
  | _ => 0

theorem entries_exec (st : Store J) (cmd : Command J) (id : Uuid) :
    (st.exec cmd).entries id = st.entries id + if cmd.pushes id then 1 else 0 := by
  cases cmd with
  | hset => rfl
  | lpushPending taskId | lpushDead taskId =>
    simp only [Store.entries, Store.exec, Command.pushes, List.count_cons]
    by_cases h : taskId = id
    · simp only [h, beq_self_eq_true, if_true]
      omega
    · simp [h]

theorem inHand_after (id : Uuid) (cmds : List (Command J)) (next : Next) :
    (Stage.after cmds next).inHand id = cmds.countP (·.pushes id) := by
  cases cmds with
  | nil => cases next <;> rfl
  | cons => rfl

@[simp] theorem inHand_nackCommands (id : Uuid) (task : TaskPayload) (now : Instant) :
    (nackCommands json task now).countP (·.pushes id) = if task.taskId = id then 1 else 0 := by
  unfold nackCommands
  split <;> simp [Command.pushes, List.countP_cons]

@[simp] theorem inHand_recoverCommands (id taskId : Uuid) (now : Instant) :
    (recoverCommands (J := J) taskId now).countP (·.pushes id) =
      if taskId = id then 1 else 0 := by
  simp [recoverCommands, Command.pushes, List.countP_cons]

@[simp] theorem inHand_enqueueCommands (id taskId : Uuid) (text : J) (now : Instant) :
    (enqueueCommands taskId text now).countP (·.pushes id) = if taskId = id then 1 else 0 := by
  simp [enqueueCommands, Command.pushes, List.countP_cons]

variable (json) in
/-- The loop of a recovery reads, and ends or goes on. -/
theorem step_hgetUpdatedAt (now : Instant) (scan : Scan) (st : Store J) :
    (∃ tasks, Stage.step json now (.hgetUpdatedAt scan, st) = (.returned (.recovered tasks), st)) ∨
    (∃ scan', Stage.step json now (.hgetUpdatedAt scan, st) = (.hgetUpdatedAt scan', st)) ∨
    ∃ scan' taskId, Stage.step json now (.hgetUpdatedAt scan, st) =
      (.recoverHgetData scan' taskId, st) ∧ (st.hash taskId).updatedAt.isSome = true := by
  obtain ⟨cutoff, taskIds, recovered⟩ := scan
  cases taskIds with
  | nil => exact .inl ⟨recovered, rfl⟩
  | cons taskId taskIds =>
    cases hupd : (st.hash taskId).updatedAt with
    | none => exact .inr (.inl ⟨⟨cutoff, taskIds, recovered⟩, by simp only [Stage.step, hupd]⟩)
    | some updatedAt =>
      by_cases hcut : cutoff ≤ updatedAt
      · exact .inr (.inl ⟨⟨cutoff, taskIds, recovered⟩, by simp [Stage.step, hupd, hcut]⟩)
      · exact .inr (.inr ⟨⟨cutoff, taskIds, recovered⟩, taskId,
          by simp [Stage.step, hupd, hcut], by rw [hupd]; rfl⟩)

/-- The identifier the next command removes from the processing list. -/
def Stage.lrems : Stage J → Option Uuid
  | .lremOrphan taskId | .lremAcked taskId _ | .lremStale _ taskId _ => some taskId
  | .lremNacked task _ => some task.taskId
  | _ => none

variable (json) in
/-- Everything a step can do to the store. -/
theorem step_store (now : Instant) (c : Stage J) (st : Store J) :
    (c.lrems = none ∧ (c = .brpoplpush → st.pending.getLast? = none) ∧
      (Stage.step json now (c, st)).2 = st) ∨
    (∃ taskId, c = .brpoplpush ∧ st.pending.getLast? = some taskId ∧
      Stage.step json now (c, st) = (.hgetData taskId, st.move taskId)) ∨
    (∃ taskId, c.lrems = some taskId ∧ (Stage.step json now (c, st)).2 = st.lrem taskId) ∨
    ∃ cmd cmds next, c = .writing (cmd :: cmds) next ∧
      (Stage.step json now (c, st)).2 = st.exec cmd := by
  cases c with
  | brpoplpush =>
    cases hlast : st.pending.getLast? with
    | none => exact .inl ⟨rfl, fun _ => rfl, by simp only [Stage.step, hlast]⟩
    | some taskId => exact .inr (.inl ⟨taskId, rfl, rfl, by simp only [Stage.step, hlast]⟩)
  | lremOrphan | lremAcked | lremNacked | lremStale => exact .inr (.inr (.inl ⟨_, rfl, rfl⟩))
  | writing cmds next =>
    cases cmds with
    | nil => exact .inl ⟨rfl, fun h => (nomatch h), rfl⟩
    | cons cmd cmds => exact .inr (.inr (.inr ⟨cmd, cmds, next, rfl, rfl⟩))
  | hgetData taskId =>
    refine .inl ⟨rfl, fun h => (nomatch h), ?_⟩
    simp only [Stage.step]
    split
    · rfl
    · split <;> rfl
  | hgetUpdatedAt scan =>
    refine .inl ⟨rfl, fun h => (nomatch h), ?_⟩
    rcases step_hgetUpdatedAt json now scan st with ⟨_, heq⟩ | ⟨_, heq⟩ | ⟨_, _, heq, -⟩ <;>
      rw [heq]
  | nackHgetData | recoverHgetData =>
    refine .inl ⟨rfl, fun h => (nomatch h), ?_⟩
    simp only [Stage.step]
    split <;> rfl
  | _ => exact .inl ⟨rfl, fun h => (nomatch h), rfl⟩

theorem step_filled (now : Instant) (c : Stage J) (st : Store J) :
    st.Filled (Stage.step json now (c, st)).2 := by
  rcases step_store json now c st with ⟨-, -, heq⟩ | ⟨taskId, -, -, heq⟩ |
    ⟨taskId, -, heq⟩ | ⟨cmd, cmds, next, -, heq⟩
  · exact .of_hash (by rw [heq])
  · exact .of_hash (by rw [heq]; rfl)
  · exact .of_hash (by rw [heq]; rfl)
  · rw [heq]
    exact Store.filled_exec st cmd

/-- What is dead-lettered stays so. -/
theorem step_dead (now : Instant) (c : Stage J) (st : Store J) {id : Uuid} (h : id ∈ st.dead) :
    id ∈ (Stage.step json now (c, st)).2.dead := by
  rcases step_store json now c st with ⟨-, -, heq⟩ | ⟨taskId, -, -, heq⟩ |
    ⟨taskId, -, heq⟩ | ⟨cmd, cmds, next, -, heq⟩
  · rwa [heq]
  · rw [heq]
    exact h
  · rw [heq]
    exact h
  · rw [heq]
    cases cmd with
    | lpushDead => exact List.mem_cons_of_mem _ h
    | hset | lpushPending => exact h

end PicHost.RedisCommands
