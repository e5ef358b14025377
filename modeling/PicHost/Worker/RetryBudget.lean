import PicHost.Worker.QueueHolders

/-!
# The retries of a task of the Redis queue

A retry counts in the payload, a recovery does not. The tasks that were never recovered keep to
their budget; for the others it has to be left over.
-/

namespace PicHost.RedisCommands

open Serialised LabelledRun Weighted

variable {J : Type} {json : Codec TaskPayload J} (texts : Texts json)

def Command.pushesPending (id : Uuid) : Command J → Bool
  | .lpushPending taskId => taskId == id
  | .lpushDead _ | .hset _ _ => false

/-- How often the call is still to start the task or to make it pending. -/
def Stage.toStart (id : Uuid) : Stage J → ℕ
  | .hgetData taskId | .lremOrphan taskId | .recoverNow _ taskId _ => if taskId = id then 1 else 0
  | .dequeueNow _ task => if task.taskId = id then 1 else 0
  | .writing cmds next => next.handsOut id + cmds.countP (·.pushesPending id)
  | _ => 0

/-- The starts there were and those to come without another retry or recovery. -/
def State.outstanding (s : State J) (id : Uuid) : ℕ :=
  s.starts id + s.store.pending.count id + total (Stage.toStart id) s.clients

/-- No task that is not dead-lettered was started more than once and then for each retry. -/
def WithinBudget (s : State J) : Prop := ∀ id ∈ s.enqueued, ∀ task ∈ json.decode (texts.text id),
  id ∉ s.store.dead → (s.starts id : ℤ) ≤ task.maxRetries + 1

/-- One more start is within the retries. -/
def RetryLeft (s : State J) (id : Uuid) : Prop := ∀ task ∈ json.decode (texts.text id),
  (s.outstanding id : ℤ) ≤ task.maxRetries

instance (s : State J) : DecidablePred (RetryLeft texts s) := fun _ => Option.decidableForallMem _

/-- A task that a recovery puts back, or a retry after a recovery, has a retry left. -/
def RetryLeftAt (s : State J) : Stage J → Prop
  | .lremStale _ taskId _ => RetryLeft texts s taskId
  | .lremNacked task _ => task.retryCount < task.maxRetries → task.taskId ∈ s.recovered →
      RetryLeft texts s task.taskId
  | _ => True

instance (s : State J) : DecidablePred (RetryLeftAt texts s)
  | .lremStale _ _ _ => inferInstanceAs (Decidable (RetryLeft _ _ _))
  | .lremNacked _ _ => inferInstanceAs (Decidable (_ < _ → _ ∈ _ → RetryLeft _ _ _))
  | .brpoplpush | .hgetData _ | .lremOrphan _ | .dequeueNow _ _ | .lremAcked _ _
  | .nackHgetData _ _ _ | .nackNow _ | .lrange _ | .cutoffNow _ _
  | .hgetUpdatedAt _ | .recoverHgetData _ _ | .recoverNow _ _ _ | .writing _ _ | .returned _
  | .crashed => isTrue trivial

/-- Besides, the counts of a task that is enqueued are not negative. -/
def SparesRetries (s : State J) : Action → Prop
  | .advance i => ∀ c ∈ s.clients[i]?, RetryLeftAt texts s c
  | .call (.enqueue taskId) => ∀ task ∈ json.decode (texts.text taskId),
      0 ≤ task.retryCount ∧ 0 ≤ task.maxRetries
  | .call .dequeue | .call (.ack _) | .call (.nack _ _ _) | .call (.recoverStaleTasks _) => True
  | .tick _ | .finish _ _ | .crash _ => True

instance (s : State J) : DecidablePred (SparesRetries texts s)
  | .advance _ | .call (.enqueue _) => Option.decidableForallMem _
  | .call .dequeue | .call (.ack _) | .call (.nack _ _ _) | .call (.recoverStaleTasks _) =>
    isTrue trivial
  | .tick _ | .finish _ _ | .crash _ => isTrue trivial

/-- The count a payload carries is at least the starts so far, up to `k`. -/
structure Counted (s : State J) (id : Uuid) (retryCount maxRetries k : ℤ) : Prop where
  starts : (s.starts id : ℤ) ≤ retryCount + k
  max : ∀ task ∈ json.decode (texts.text id), maxRetries = task.maxRetries

/-- The stored payload of a task that was never recovered counts the starts. -/
def StoredCounts (s : State J) (st : Store J) (id : Uuid) : Prop := id ∉ s.recovered →
  ∀ task ∈ decoded json st id, Counted texts s id task.retryCount task.maxRetries 0

/-- It does so whenever the task is made pending, and payloads are stored for that only. -/
def Paid (s : State J) : Store J → List (Command J) → Prop
  | _, [] => True
  | st, cmd :: cmds => (∀ id, cmd = .lpushPending id → StoredCounts texts s st id) ∧
      (∀ id text, cmd = .hset id (.data text) → .lpushPending id ∈ cmds) ∧
      Paid s (st.exec cmd) cmds

/-- What a call knows of the counts of a task that was never recovered. -/
def Stage.Counts (s : State J) : Stage J → Prop
  | .hgetData taskId => StoredCounts texts s s.store taskId
  | .dequeueNow _ task => task.taskId ∉ s.recovered →
      Counted texts s task.taskId task.retryCount task.maxRetries 0
  | .returned (.dequeued (some task)) | .nackNow task | .lremNacked task _ =>
    task.taskId ∉ s.recovered → Counted texts s task.taskId task.retryCount task.maxRetries 1
  | .nackHgetData taskId retryCount maxRetries => taskId ∉ s.recovered →
      Counted texts s taskId retryCount maxRetries 1
  | .recoverNow _ taskId _ => taskId ∈ s.recovered
  | .writing cmds next => Paid texts s s.store cmds ∧
      ∀ task, next = .reply (.dequeued (some task)) → task.taskId ∉ s.recovered →
        Counted texts s task.taskId task.retryCount task.maxRetries 0
  | _ => True

/-- What is stored, started or enqueued was drawn before. -/
structure Drawn (s : State J) : Prop where
  data : ∀ id, (s.store.hash id).data.isSome = true → id ∈ s.drawn
  writes : ∀ cmds next, .writing cmds next ∈ s.clients →
    ∀ id text, .hset id (.data text) ∈ cmds → id ∈ s.drawn
  starts : ∀ id, 0 < s.outstanding id → id ∈ s.drawn
  enqueued : ∀ id ∈ s.enqueued, id ∈ s.drawn

structure Budgeted (s : State J) : Prop where
  sound : Sound texts s
  drawn : Drawn s
  single : ∀ id, id ∉ s.recovered → Single s id
  outstanding : ∀ id ∈ s.drawn, ∀ task ∈ json.decode (texts.text id),
    (s.outstanding id : ℤ) ≤ task.maxRetries + 1
  pending : ∀ id ∈ s.store.pending, StoredCounts texts s s.store id
  clients : ∀ c ∈ s.clients, c.Counts texts s

/-- What the next `LREM` is to make pending again. -/
def Stage.putsBack : Stage J → Option Uuid
  | .lremStale _ taskId _ => some taskId
  | .lremNacked task _ => if task.retryCount < task.maxRetries then some task.taskId else none
  | _ => none

/-- The step hands the task to a worker. -/
def Stage.hands (id : Uuid) (c c' : Stage J) : ℕ :=
  match c.completes c' with
  | some (.dequeued (some task)) => if task.taskId = id then 1 else 0
  | _ => 0

variable {texts}

theorem toStart_le (id : Uuid) (c : Stage J) : c.toStart id ≤ c.engaged id + c.inHand id := by
  have hcount : ∀ cmds : List (Command J),
      cmds.countP (·.pushesPending id) ≤ cmds.countP (·.pushes id) := fun cmds =>
    List.countP_mono_left fun cmd _ hcmd => by
      cases cmd with
      | lpushPending => exact hcmd
      | hset | lpushDead => cases hcmd
  cases c with
  | writing cmds next => exact Nat.add_le_add_left (hcount cmds) _
  | hgetData | lremOrphan | dequeueNow => exact le_rfl
  | recoverNow => simp [Stage.toStart, Stage.engaged, Stage.inHand]
  | _ => exact Nat.zero_le _

variable (json) in
theorem starts_advance (s : State J) (i : ℕ) (c : Stage J) (id : Uuid) :
    (s.advance json i c).starts id =
      s.starts id + c.hands id (Stage.step json s.now (c, s.store)).1 := by
  unfold State.advance Stage.hands
  dsimp only
  generalize c.completes (Stage.step json s.now (c, s.store)).1 = reply
  match reply with
  | some (.dequeued (some task)) =>
    by_cases hid : task.taskId = id
    · subst hid
      simp
    · simp [Function.update_of_ne (Ne.symm hid), hid]
  | none | some (.dequeued none) | some (.enqueued _) | some .acked | some (.nacked _)
  | some (.recovered _) | some .failed => rfl

theorem hands_stage (id : Uuid) (cmds : List (Command J)) (next : Next) :
    (Stage.writing cmds next).hands id next.stage = next.handsOut id := by
  cases next with
  | scan => rfl
  | reply r =>
    cases r with
    | dequeued task => cases task <;> rfl
    | _ => rfl

theorem toStart_stage (id : Uuid) (next : Next) : (next.stage : Stage J).toStart id = 0 := by
  cases next <;> rfl

/-! ## Starts to come -/

variable (json) in
/-- A step makes no more starts possible unless it puts the task back. -/
def Stage.AddsNoStart (now : Instant) (st : Store J) (id : Uuid) (c : Stage J) : Prop :=
  c.hands id (Stage.step json now (c, st)).1 +
      (Stage.step json now (c, st)).2.pending.count id +
      (Stage.step json now (c, st)).1.toStart id ≤
    st.pending.count id + c.toStart id + if c.putsBack = some id then 1 else 0

section AddsNoStart

variable (now : Instant) (st : Store J) (id : Uuid)

/-- The entry becomes a start to come. -/
theorem addsNoStart_brpoplpush : Stage.AddsNoStart json now st id .brpoplpush := by
  rw [Stage.AddsNoStart]
  cases hlast : st.pending.getLast? with
  | none => simp [Stage.step, hlast, Stage.hands, Stage.completes, Stage.toStart]
  | some taskId =>
    have hcount := Store.count_move hlast id
    simp [Stage.step, hlast, Stage.hands, Stage.completes, Stage.toStart, hcount]

theorem addsNoStart_hgetData {st : Store J} (hst : st.Sound texts) (taskId : Uuid) :
    Stage.AddsNoStart json now st id (.hgetData taskId) := by
  simp only [Stage.AddsNoStart, Stage.step]
  split
  · simp [Stage.hands, Stage.completes, Stage.toStart]
  · split
    · simp only [Stage.hands, Stage.completes, Stage.toStart]
      omega
    · rename_i text htext _ task hdec
      obtain ⟨hid, -⟩ := deserialises_of_proper (hst.proper taskId text htext) hdec
      simp [Stage.hands, Stage.completes, Stage.toStart, hid]

/-- A dead-lettered task is not to be pushed for processing. -/
theorem addsNoStart_lremNacked (task : TaskPayload) (since : Instant) :
    Stage.AddsNoStart json now st id (.lremNacked task since) := by
  rw [Stage.AddsNoStart]
  by_cases hretry : task.retryCount < task.maxRetries
  · simp [Stage.step, Stage.hands, Stage.completes, Stage.toStart, Next.handsOut, nackCommands,
      Stage.putsBack, hretry, Command.pushesPending, List.countP_cons]
  · simp [Stage.step, Stage.hands, Stage.completes, Stage.toStart, Next.handsOut, nackCommands,
      hretry, Command.pushesPending]

/-- What is written is what is left to write afterwards, and what has been pushed. -/
theorem addsNoStart_writing (cmds : List (Command J)) (next : Next) :
    Stage.AddsNoStart json now st id (.writing cmds next) := by
  cases cmds with
  | nil =>
    show (Stage.writing [] next).hands id next.stage + st.pending.count id +
      (next.stage : Stage J).toStart id ≤ st.pending.count id + (next.handsOut id + 0) + _
    rw [hands_stage, toStart_stage]
    omega
  | cons cmd cmds =>
    have hafter : (Stage.writing (cmd :: cmds) next).hands id (Stage.after cmds next) +
        (Stage.after cmds next).toStart id =
        next.handsOut id + cmds.countP (·.pushesPending id) := by
      cases cmds with
      | nil => rw [Stage.after, hands_stage, toStart_stage, List.countP_nil]
      | cons => simp [Stage.after, Stage.hands, Stage.completes, Stage.toStart]
    have hexec : (st.exec cmd).pending.count id =
        st.pending.count id + if cmd.pushesPending id then 1 else 0 := by
      cases cmd with
      | lpushPending taskId => simp [Store.exec, Command.pushesPending, List.count_cons]
      | hset | lpushDead => rfl
    show (Stage.writing (cmd :: cmds) next).hands id (Stage.after cmds next) +
      (st.exec cmd).pending.count id + (Stage.after cmds next).toStart id ≤
      st.pending.count id + (next.handsOut id + (cmd :: cmds).countP _) + _
    rw [hexec, List.countP_cons]
    omega

end AddsNoStart

variable (json) in
theorem step_outstanding (now : Instant) {c : Stage J} {st : Store J} (hst : st.Sound texts)
    (id : Uuid) : c.AddsNoStart json now st id := by
  cases c with
  | brpoplpush => exact addsNoStart_brpoplpush now st id
  | hgetData taskId => exact addsNoStart_hgetData now id hst taskId
  | lremNacked task since => exact addsNoStart_lremNacked now st id task since
  | writing cmds next => exact addsNoStart_writing now st id cmds next
  | lremOrphan =>
    simp only [Stage.AddsNoStart, Stage.step, Stage.hands, Stage.completes, Stage.toStart,
      Store.lrem_pending]
    omega
  | dequeueNow | lremAcked =>
    simp [Stage.AddsNoStart, Stage.step, Stage.hands, Stage.completes, Stage.toStart,
      Next.handsOut, processingCommands, ackCommands, Command.pushesPending]
  | lremStale scan taskId task =>
    simp [Stage.AddsNoStart, Stage.step, Stage.hands, Stage.completes, Stage.toStart,
      Stage.putsBack]
  | recoverNow =>
    simp [Stage.AddsNoStart, Stage.step, Stage.hands, Stage.completes, Stage.toStart,
      Next.handsOut, recoverCommands, Command.pushesPending]
  | hgetUpdatedAt scan =>
    rw [Stage.AddsNoStart]
    rcases step_hgetUpdatedAt json now scan st with ⟨_, heq⟩ | ⟨_, heq⟩ | ⟨_, _, heq, -⟩ <;>
      rw [heq] <;> simp [Stage.hands, Stage.completes, Stage.toStart]
  | nackHgetData | recoverHgetData =>
    simp only [Stage.AddsNoStart, Stage.step]
    split <;> simp [Stage.hands, Stage.completes, Stage.toStart]
  | _ => simp [Stage.AddsNoStart, Stage.step, Stage.hands, Stage.completes, Stage.toStart]

/-! ## What other calls leave alone -/

section Frame

variable {s s' : State J} {st st' : Store J} {id : Uuid}

/-- Nothing about the counts of the task has changed. -/
def SameCounts (s s' : State J) (st st' : Store J) (id : Uuid) : Prop :=
  s'.starts id = s.starts id ∧ (st'.hash id).data = (st.hash id).data

theorem Counted.congr {retryCount maxRetries k : ℤ}
    (h : Counted texts s id retryCount maxRetries k) (hstarts : s'.starts id = s.starts id) :
    Counted texts s' id retryCount maxRetries k :=
  ⟨by rw [hstarts]; exact h.starts, h.max⟩

theorem StoredCounts.congr (h : StoredCounts texts s st id)
    (hrec : ∀ id ∈ s.recovered, id ∈ s'.recovered)
    (hsame : id ∉ s'.recovered → SameCounts s s' st st' id) : StoredCounts texts s' st' id := by
  intro hid task htask
  obtain ⟨hstarts, hdata⟩ := hsame hid
  exact (h (fun hmem => hid (hrec id hmem)) task (by rwa [decoded, ← hdata])).congr hstarts

theorem exec_data_congr (h : (st'.hash id).data = (st.hash id).data) (cmd : Command J) :
    ((st'.exec cmd).hash id).data = ((st.exec cmd).hash id).data := by
  cases cmd with
  | hset taskId field =>
    by_cases hid : id = taskId
    · subst hid
      cases field <;> simp [Store.exec, Store.hset, h]
    · simp only [Store.exec, Store.hset_hash_of_ne _ _ _ hid, h]
  | lpushPending | lpushDead => exact h

theorem Paid.congr {cmds : List (Command J)} (h : Paid texts s st cmds)
    (hrec : ∀ id ∈ s.recovered, id ∈ s'.recovered)
    (hsame : ∀ id, id ∉ s'.recovered → .lpushPending id ∈ cmds → SameCounts s s' st st' id) :
    Paid texts s' st' cmds := by
  induction cmds generalizing st st' with
  | nil => trivial
  | cons cmd cmds ih =>
    refine ⟨fun id hcmd => ?_, h.2.1, ih h.2.2 fun id hid hmem => ?_⟩
    · exact (h.1 id hcmd).congr hrec fun hid => hsame id hid (hcmd ▸ List.mem_cons_self)
    · obtain ⟨hstarts, hdata⟩ := hsame id hid (List.mem_cons_of_mem _ hmem)
      exact ⟨hstarts, exec_data_congr hdata cmd⟩

theorem inHand_pos {cmds : List (Command J)} (h : .lpushPending id ∈ cmds) :
    0 < cmds.countP (·.pushes id) :=
  List.countP_pos_iff.mpr ⟨_, h, beq_self_eq_true id⟩

/-- What a call knows of the counts stays true if the tasks it deals with are left alone. -/
theorem Stage.Counts.congr {c : Stage J} (h : c.Counts texts s)
    (hrec : ∀ id ∈ s.recovered, id ∈ s'.recovered)
    (hsame : ∀ id, id ∉ s'.recovered → 0 < c.engaged id + c.inHand id →
      SameCounts s s' s.store s'.store id) : c.Counts texts s' := by
  cases c with
  | hgetData taskId =>
    exact StoredCounts.congr h hrec fun hid => hsame taskId hid (by simp [Stage.engaged])
  | dequeueNow _ task | nackNow task | lremNacked task _ =>
    exact fun hid => (h fun hmem => hid (hrec _ hmem)).congr
      (hsame _ hid (by simp [Stage.engaged])).1
  | nackHgetData taskId retryCount maxRetries =>
    exact fun hid => (h fun hmem => hid (hrec _ hmem)).congr
      (hsame _ hid (by simp [Stage.engaged])).1
  | returned r =>
    cases r with
    | dequeued task =>
      cases task with
      | none => trivial
      | some task =>
        exact fun hid => (h fun hmem => hid (hrec _ hmem)).congr
          (hsame _ hid (by simp [Stage.engaged])).1
    | _ => trivial
  | recoverNow scan taskId task => exact hrec taskId h
  | writing cmds next =>
    refine ⟨h.1.congr hrec fun id hid hmem => hsame id hid ?_, fun task hnext hid => ?_⟩
    · exact Nat.lt_of_lt_of_le (inHand_pos hmem) (Nat.le_add_left _ _)
    · refine (h.2 task hnext fun hmem => hid (hrec _ hmem)).congr (hsame _ hid ?_).1
      simp [Stage.engaged, hnext, Next.handsOut]
  | _ => trivial

end Frame

section Advance

variable {s : State J} {i : ℕ} {c : Stage J} {id : Uuid}

variable (json) in
theorem hands_le (now : Instant) (c : Stage J) (st : Store J) (id : Uuid) :
    c.hands id (Stage.step json now (c, st)).1 ≤ c.engaged id := by
  cases c with
  | writing cmds next =>
    cases cmds with
    | nil => exact (hands_stage id [] next).le
    | cons cmd cmds =>
      cases cmds with
      | nil => exact (hands_stage id [cmd] next).le
      | cons => exact Nat.zero_le _
  | _ => exact Nat.zero_le _

variable (json i) in
/-- A step changes the counts of a task only if its client deals with the task. -/
theorem advance_same (hc : c.Counts texts s) (id : Uuid) :
    SameCounts s (s.advance json i c) s.store (s.advance json i c).store id ∨
      0 < c.engaged id + c.inHand id := by
  have hhands := hands_le json s.now c s.store id
  by_cases hpos : 0 < c.engaged id + c.inHand id
  · exact .inr hpos
  · left
    refine ⟨by rw [starts_advance]; omega, ?_⟩
    rw [advance_store]
    rcases step_store json s.now c s.store with ⟨-, -, heq⟩ | ⟨taskId, -, -, heq⟩ |
      ⟨taskId, -, heq⟩ | ⟨cmd, cmds, next, rfl, heq⟩
    all_goals rw [heq]
    · rfl
    · rfl
    · cases cmd with
      | hset taskId field =>
        rcases Store.hset_data s.store taskId field id with hsame | ⟨text, rfl, rfl, -⟩
        · exact hsame
        · have hmem := hc.1.2.1 id text rfl
          have hhand : 0 < (Command.hset id (.data text) :: cmds).countP (·.pushes id) :=
            inHand_pos (List.mem_cons_of_mem _ hmem)
          exact absurd (Nat.lt_of_lt_of_le hhand (Nat.le_add_left _ _)) hpos
      | lpushPending | lpushDead => rfl

/-- Two clients do not deal with one task that was never recovered. -/
theorem Single.untouched (h : Single s id) {j : ℕ} {c' : Stage J} (hi : s.clients[i]? = some c)
    (hj : s.clients[j]? = some c') (hij : i ≠ j) (hc : 0 < c.engaged id + c.inHand id) :
    c'.engaged id + c'.inHand id = 0 := by
  have hengaged := add_le_total (Stage.engaged id) hi hj hij
  have hhand := add_le_total (Stage.inHand id) hi hj hij
  have := h.once
  have := h.engaged
  simp only [Store.entries] at *
  omega

/-- Nor does a client deal with one that is pending. -/
theorem Single.pending_untouched (h : Single s id) (hi : s.clients[i]? = some c)
    (hpend : id ∈ s.store.pending) : c.engaged id + c.inHand id = 0 := by
  have hengaged := le_total (Stage.engaged id) hi
  have hhand := le_total (Stage.inHand id) hi
  have := h.once
  have := h.engaged
  have := List.count_pos_iff.mpr hpend
  simp only [Store.entries] at *
  omega

variable (json s i c) in
theorem recovered_advance (id : Uuid) (h : id ∈ s.recovered) :
    id ∈ (s.advance json i c).recovered := by
  unfold State.advance
  dsimp only
  split
  · exact List.mem_cons_of_mem _ h
  · exact h

variable (json s i) in
theorem starts_advance_of_reading (h : ∀ cmds next, c ≠ .writing cmds next) :
    (s.advance json i c).starts = s.starts := by
  cases c with
  | writing cmds next => exact absurd rfl (h cmds next)
  | _ => rfl

/-- When a call hands its task out, that is one more start. -/
theorem counts_written {cmds : List (Command J)} {next : Next}
    (hpaid : Paid texts s s.store cmds) (hnext : ∀ task, next = .reply (.dequeued (some task)) →
      task.taskId ∉ s.recovered → Counted texts s task.taskId task.retryCount task.maxRetries 0) :
    (Stage.step json s.now (.writing cmds next, s.store)).1.Counts texts
      (s.advance json i (.writing cmds next)) := by
  have hdone : ∀ cmds, (Stage.step json s.now (.writing cmds next, s.store)).1 = next.stage →
      (next.stage : Stage J).Counts texts (s.advance json i (.writing cmds next)) := by
    intro cmds hstage
    by_cases hreply : ∃ task, next = .reply (.dequeued (some task))
    · obtain ⟨task, rfl⟩ := hreply
      intro hid
      obtain ⟨hstarts, hmax⟩ := hnext task rfl hid
      refine ⟨?_, hmax⟩
      have hhands : (Stage.writing cmds (.reply (.dequeued (some task)))).hands task.taskId
          (.returned (.dequeued (some task)) : Stage J) = 1 := if_pos rfl
      rw [starts_advance, hstage]
      simp only [Next.stage, hhands]
      push_cast
      linarith
    · cases next with
      | scan => trivial
      | reply r =>
        cases r with
        | dequeued task =>
          cases task with
          | none => trivial
          | some task => exact absurd ⟨task, rfl⟩ hreply
        | _ => trivial
  rcases cmds with - | ⟨cmd, - | ⟨cmd', cmds⟩⟩
  · exact hdone [] rfl
  · exact hdone [cmd] rfl
  · refine ⟨hpaid.2.2.congr (fun _ h => h) fun _ _ _ => ⟨rfl, rfl⟩, fun task heq hid => ?_⟩
    exact (hnext task heq hid).congr rfl

/-- A retry is pushed when it has been counted. -/
theorem paid_nackCommands {task : TaskPayload} (now : Instant) (st : Store J)
    (h : task.taskId ∉ s.recovered →
      Counted texts s task.taskId task.retryCount task.maxRetries 1) :
    Paid texts s st (nackCommands json task now) := by
  by_cases hretry : task.retryCount < task.maxRetries
  · have hstored : ∀ st' : Store J, decoded json st' task.taskId =
        some { task with retryCount := task.retryCount + 1 } →
        StoredCounts texts s st' task.taskId := by
      intro st' hdec hid task' htask
      rw [hdec] at htask
      cases htask
      obtain ⟨hstarts, hmax⟩ := h hid
      exact ⟨by push_cast; linarith, hmax⟩
    have hpushed : StoredCounts texts s (((st.hset task.taskId (.error "nack: task failed")).hset
        task.taskId (.updatedAt now)).hset task.taskId (.data (json.encode
          { task with retryCount := task.retryCount + 1 })) |>.hset task.taskId (.status "pending"))
        task.taskId := hstored _ (by simp [decoded, Store.hset, json.decode_encode])
    simpa [Paid, nackCommands, hretry, Store.exec] using hpushed
  · simp [Paid, nackCommands, hretry]

/-- A task is enqueued with a count. -/
theorem paid_enqueueCommands {taskId : Uuid} (now : Instant) (st : Store J)
    (h : ∀ task ∈ json.decode (texts.text taskId), (s.starts taskId : ℤ) ≤ task.retryCount) :
    Paid texts s st (enqueueCommands taskId (texts.text taskId) now) := by
  have hstored : ∀ st' : Store J, decoded json st' taskId = json.decode (texts.text taskId) →
      StoredCounts texts s st' taskId := by
    intro st' hdec _ task htask
    rw [hdec] at htask
    refine ⟨by simpa using h task htask, fun task' htask' => ?_⟩
    cases htask.symm.trans htask'
    rfl
  have hpushed : StoredCounts texts s ((((st.hset taskId (.data (texts.text taskId))).hset taskId
      (.status "pending")).hset taskId (.createdAt now)).hset taskId (.updatedAt now)) taskId :=
    hstored _ (by simp [decoded, Store.hset])
  simpa [Paid, enqueueCommands, Store.exec] using hpushed

/-- What the client of a step knows of the counts afterwards. -/
theorem counts_advance (hs : Sound texts s) (hpending : ∀ id ∈ s.store.pending,
    StoredCounts texts s s.store id) (hc : c.Counts texts s) :
    (Stage.step json s.now (c, s.store)).1.Counts texts (s.advance json i c) := by
  -- only the writes of a call can start a task; all its other commands leave the counts alone
  by_cases hwriting : ∃ cmds next, c = .writing cmds next
  · obtain ⟨cmds, next, rfl⟩ := hwriting
    exact counts_written hc.1 hc.2
  have hstarts := starts_advance_of_reading json s i fun cmds next heq => hwriting ⟨cmds, next, heq⟩
  have hcount : ∀ {id : Uuid} {retryCount maxRetries k : ℤ},
      Counted texts s id retryCount maxRetries k →
      Counted texts (s.advance json i c) id retryCount maxRetries k :=
    fun h => h.congr (congrFun hstarts _)
  have hrec := recovered_advance json s i c
  cases c with
  | writing cmds next => exact absurd ⟨cmds, next, rfl⟩ hwriting
  | brpoplpush =>
    cases hlast : s.store.pending.getLast? with
    | none => simp [Stage.step, hlast, Stage.Counts]
    | some taskId =>
      have hstored := hpending taskId (List.mem_of_getLast? hlast)
      have hstore : (s.advance json i .brpoplpush).store = s.store.move taskId := by
        simp only [advance_store, Stage.step, hlast]
      simp only [Stage.step, hlast, Stage.Counts, hstore]
      exact hstored.congr hrec fun _ => ⟨congrFun hstarts _, rfl⟩
  | hgetData taskId =>
    cases hdata : (s.store.hash taskId).data with
    | none => simp [Stage.step, hdata, Stage.Counts]
    | some text =>
      cases hdec : json.decode text with
      | none => simp [Stage.step, hdata, hdec, Stage.Counts]
      | some task =>
        obtain ⟨rfl, -⟩ := deserialises_of_proper (hs.store.proper taskId text hdata) hdec
        simp only [Stage.step, hdata, hdec, Stage.Counts]
        exact fun hid => hcount (hc (fun h => hid (hrec _ h)) task (by simp [decoded, hdata, hdec]))
  | nackHgetData taskId retryCount maxRetries =>
    cases hdec : decoded json s.store taskId with
    | none => simp [Stage.step, hdec, Stage.Counts]
    | some task =>
      obtain ⟨rfl, -⟩ := decoded_spec hs.store hdec
      simp only [Stage.step, hdec, Stage.Counts]
      exact fun hid => hcount (hc fun h => hid (hrec _ h))
  | nackNow task => exact fun hid => hcount (hc fun h => hid (hrec _ h))
  | dequeueNow taskId task =>
    refine ⟨by simp [Paid, processingCommands], fun task' htask hid => ?_⟩
    cases htask
    exact hcount (hc fun h => hid (hrec _ h))
  | lremAcked taskId now => exact ⟨by simp [Paid, ackCommands], by simp⟩
  | lremNacked task now =>
    refine ⟨paid_nackCommands now _ fun hid => hcount (hc hid), by simp⟩
  | lremStale scan taskId task => exact List.mem_cons_self
  | recoverNow scan taskId task =>
    refine ⟨?_, by simp⟩
    have : taskId ∈ (s.advance json i (.recoverNow scan taskId task)).recovered := hc
    simp [Paid, recoverCommands, StoredCounts, this]
  | hgetUpdatedAt scan =>
    rcases step_hgetUpdatedAt json s.now scan s.store with ⟨_, heq⟩ | ⟨_, heq⟩ | ⟨_, _, heq, -⟩ <;>
      rw [heq] <;> trivial
  | recoverHgetData =>
    simp only [Stage.step]
    split <;> trivial
  | returned r =>
    exact Stage.Counts.congr (c := .returned r) hc hrec fun _ _ _ => ⟨congrFun hstarts _, rfl⟩
  | lrange | cutoffNow | lremOrphan | crashed => trivial

/-- What a call is to store was to be stored before, or is the payload of a retry. -/
theorem step_writes {now : Instant} {st : Store J} {cmds : List (Command J)} {next : Next}
    (h : (Stage.step json now (c, st)).1 = .writing cmds next) {text : J}
    (hmem : .hset id (.data text) ∈ cmds) :
    (∃ cmd, c = .writing (cmd :: cmds) next) ∨ ∃ task now', c = .lremNacked task now' ∧
      task.taskId = id := by
  cases c with
  | lremNacked task now' =>
    cases h
    refine .inr ⟨task, now', rfl, ?_⟩
    unfold nackCommands at hmem
    split at hmem <;> simp at hmem
    exact hmem.1.symm
  | dequeueNow | lremAcked | recoverNow =>
    cases h
    simp [processingCommands, ackCommands, recoverCommands] at hmem
  | writing cmds' next' =>
    rcases cmds' with - | ⟨cmd, - | ⟨cmd', cmds'⟩⟩
    · cases next' <;> cases h
    · cases next' <;> cases h
    · cases h
      exact .inl ⟨cmd, rfl⟩
  | hgetData taskId =>
    simp only [Stage.step] at h
    split at h
    · cases h
    · split at h <;> cases h
  | hgetUpdatedAt scan =>
    rcases step_hgetUpdatedAt json now scan st with ⟨_, heq⟩ | ⟨_, heq⟩ | ⟨_, _, heq, -⟩ <;>
      rw [heq] at h <;> cases h
  | brpoplpush | nackHgetData | recoverHgetData =>
    simp only [Stage.step] at h
    split at h <;> cases h
  | _ => cases h

variable (json) in
theorem outstanding_advance (hs : s.store.Sound texts) (hi : s.clients[i]? = some c) (id : Uuid) :
    (s.advance json i c).outstanding id ≤
      s.outstanding id + if c.putsBack = some id then 1 else 0 := by
  have hstep := step_outstanding json s.now hs id (c := c)
  rw [Stage.AddsNoStart] at hstep
  have hset := total_set (Stage.toStart id) hi (Stage.step json s.now (c, s.store)).1
  unfold State.outstanding
  rw [starts_advance, advance_store, advance_clients]
  omega

theorem Drawn.putsBack (hd : Drawn s) (hc : c.Sound texts s.store) (h : c.putsBack = some id) :
    id ∈ s.drawn := by
  cases c with
  | lremStale scan taskId task =>
    cases h
    exact hd.data _ hc.1
  | lremNacked task now =>
    rw [Stage.putsBack] at h
    split at h
    · cases h
      exact hd.data _ hc.1
    · cases h
  | _ => cases h

theorem Drawn.advance (hd : Drawn s) (hs : Sound texts s) (hi : s.clients[i]? = some c) :
    Drawn (s.advance json i c) := by
  have hmem := List.mem_of_getElem? hi
  have hc := hs.clients c hmem
  have hstarts : ∀ id, 0 < (s.advance json i c).outstanding id → id ∈ s.drawn := by
    intro id hpos
    by_cases hback : c.putsBack = some id
    · exact hd.putsBack hc hback
    · have hle := outstanding_advance json hs.store hi id
      rw [if_neg hback] at hle
      exact hd.starts id (by omega)
  refine ⟨fun id hdata => ?_, fun cmds next hwriting id text hset => ?_, hstarts, fun id henq => ?_⟩
  · rw [advance_store] at hdata
    rcases step_store json s.now c s.store with ⟨-, -, heq⟩ | ⟨taskId, -, -, heq⟩ |
      ⟨taskId, -, heq⟩ | ⟨cmd, cmds, next, rfl, heq⟩
    all_goals rw [heq] at hdata
    · exact hd.data id hdata
    · exact hd.data id hdata
    · exact hd.data id hdata
    · cases cmd with
      | hset taskId field =>
        rcases Store.hset_data s.store taskId field id with hsame | ⟨text, rfl, rfl, -⟩
        · exact hd.data id (by rwa [Store.exec, hsame] at hdata)
        · exact hd.writes _ next hmem id text List.mem_cons_self
      | lpushPending | lpushDead => exact hd.data id hdata
  · rcases List.mem_or_eq_of_mem_set hwriting with hwriting | heq
    · exact hd.writes cmds next hwriting id text hset
    · rcases step_writes heq.symm hset with ⟨cmd, rfl⟩ | ⟨task, now, rfl, rfl⟩
      · exact hd.writes _ next hmem id text (List.mem_cons_of_mem _ hset)
      · exact hd.data _ hc.1
  · rcases mem_enqueued_advance hc henq with henq | hpend
    · exact hd.enqueued id henq
    · have hpos := List.count_pos_iff.mpr hpend
      exact hstarts id (by unfold State.outstanding; omega)

/-- A worker that holds a task that was never recovered holds the only chance to start it. -/
theorem Single.outstanding_of_engaged (h : Single s id) (hi : s.clients[i]? = some c)
    (hengaged : c.engaged id = 1) (hstart : c.toStart id = 0) : s.outstanding id = s.starts id := by
  have honce := h.once
  have hle := h.engaged
  have hown := le_total (Stage.engaged id) hi
  simp only [Store.entries] at honce
  have htotal : total (Stage.toStart id) s.clients = 0 := by
    apply total_eq_zero
    intro c' hc'
    obtain ⟨j, hj⟩ := List.mem_iff_getElem?.mp hc'
    by_cases hij : i = j
    · subst hij
      cases hi.symm.trans hj
      exact hstart
    · have hother := h.untouched hi hj hij (by omega)
      have := toStart_le id c'
      omega
  rw [State.outstanding, htotal]
  omega

/-- Whoever is to push the task is not engaged with it. -/
theorem Single.engaged_of_inHand (h : Single s id) (hi : s.clients[i]? = some c)
    (hhand : 0 < c.inHand id) : c.engaged id = 0 := by
  have honce := h.once
  have hle := h.engaged
  have hown := le_total (Stage.engaged id) hi
  have hpush := le_total (Stage.inHand id) hi
  simp only [Store.entries] at honce
  omega

/-- A task becomes pending by a push. -/
theorem mem_pending_advance (h : id ∈ (s.advance json i c).store.pending) :
    id ∈ s.store.pending ∨ ∃ cmds next, c = .writing (.lpushPending id :: cmds) next := by
  rw [advance_store] at h
  rcases step_store json s.now c s.store with ⟨-, -, heq⟩ | ⟨taskId, -, -, heq⟩ |
    ⟨taskId, -, heq⟩ | ⟨cmd, cmds, next, rfl, heq⟩
  all_goals rw [heq] at h
  · exact .inl h
  · exact .inl (List.mem_of_mem_dropLast h)
  · exact .inl h
  · cases cmd with
    | lpushPending taskId =>
      rcases List.mem_cons.mp h with rfl | h
      · exact .inr ⟨cmds, next, rfl⟩
      · exact .inl h
    | hset | lpushDead => exact .inl h

variable (texts s) in
/-- A new `enqueue` is to hand out its own task once, and no other. -/
theorem outstanding_enqueue (taskId id : Uuid) :
    (s.addClient ((Call.enqueue taskId).start texts s.now)).outstanding id =
      s.outstanding id + if taskId = id then 1 else 0 := by
  have hnew : ((Call.enqueue taskId).start texts s.now).toStart id =
      if taskId = id then 1 else 0 := by
    simp [Call.start, Stage.toStart, Next.handsOut, enqueueCommands, Command.pushesPending,
      List.countP_cons]
  simp only [State.outstanding, State.addClient, total_append, total_cons, total_nil, hnew]
  omega

theorem Drawn.enqueue (hd : Drawn s) (taskId : Uuid) :
    Drawn { s.addClient ((Call.enqueue taskId).start texts s.now) with
      drawn := taskId :: s.drawn } where
  data id hdata := List.mem_cons_of_mem _ (hd.data id hdata)
  writes cmds next hmem id text hset := by
    rcases List.mem_append.mp hmem with hmem | hmem
    · exact List.mem_cons_of_mem _ (hd.writes cmds next hmem id text hset)
    · cases List.mem_singleton.mp hmem
      simp [enqueueCommands] at hset
      exact hset.1 ▸ List.mem_cons_self
  starts id hpos := by
    by_cases hid : taskId = id
    · exact hid ▸ List.mem_cons_self
    · have := (outstanding_enqueue texts s taskId id).symm.trans_gt hpos
      rw [if_neg hid] at this
      exact List.mem_cons_of_mem _ (hd.starts id this)
  enqueued id henq := List.mem_cons_of_mem _ (hd.enqueued id henq)

end Advance

namespace Budgeted

variable {s : State J} {i : ℕ} {c : Stage J}

/-- Whatever puts a task back has a retry left for it. -/
theorem retryLeft (h : Budgeted texts s) (hi : s.clients[i]? = some c)
    (hspares : RetryLeftAt texts s c) {id : Uuid} (hback : c.putsBack = some id) :
    RetryLeft texts s id := by
  cases c with
  | lremStale scan taskId task =>
    cases hback
    exact hspares
  | lremNacked task now =>
    rw [Stage.putsBack] at hback
    split at hback
    · rename_i hretry
      cases hback
      by_cases hid : task.taskId ∈ s.recovered
      · exact hspares hretry hid
      · -- the worker is the only one that deals with the task, and its count pays for the starts
        intro task' htask
        obtain ⟨hstarts, hmax⟩ := h.clients _ (List.mem_of_getElem? hi) hid
        have hone := (h.single _ hid).outstanding_of_engaged hi (if_pos rfl) rfl
        rw [hone, ← hmax task' htask]
        linarith
    · cases hback
  | _ => cases hback

theorem advance (h : Budgeted texts s) (hi : s.clients[i]? = some c)
    (hspares : RetryLeftAt texts s c) : Budgeted texts (s.advance json i c) := by
  have hc := h.clients c (List.mem_of_getElem? hi)
  have hrec := recovered_advance json s i c
  have hsingle : ∀ id, id ∉ (s.advance json i c).recovered → Single s id := fun id hid =>
    h.single id fun hmem => hid (hrec id hmem)
  have hsame := advance_same json i hc
  refine ⟨?_, h.drawn.advance h.sound hi, ?_, ?_, ?_, ?_⟩
  · have := h.sound.step (.advance i)
    simpa only [State.step, hi] using this
  · intro id hid
    refine (hsingle id hid).advance h.sound hi ?_
    -- a recovery that takes the task puts it among the recovered ones
    rintro scan task rfl
    exact absurd List.mem_cons_self hid
  · intro id hdrawn task htask
    have hle := outstanding_advance json h.sound.store hi id
    split at hle
    · rename_i hback
      have := h.retryLeft hi hspares hback task htask
      omega
    · have := h.outstanding id hdrawn task htask
      omega
  · intro id hmem
    rcases mem_pending_advance hmem with hpend | ⟨cmds, next, rfl⟩
    · -- nobody deals with a task that is pending
      refine (h.pending id hpend).congr hrec fun hid => (hsame id).resolve_right fun hown => ?_
      have := (hsingle id hid).pending_untouched hi hpend
      omega
    · -- whoever pushes it does not hand it out in the same step
      refine StoredCounts.congr (hc.1.1 id rfl) hrec fun hid => ⟨?_, rfl⟩
      have hfree := (hsingle id hid).engaged_of_inHand hi (inHand_pos List.mem_cons_self)
      have hhands := hands_le json s.now (.writing (.lpushPending id :: cmds) next)
        s.store id
      rw [starts_advance]
      omega
  -- the client of the step learns new counts; what the others know must not have moved
  · intro c' hc'
    obtain ⟨j, hj⟩ := List.mem_iff_getElem?.mp hc'
    by_cases hij : i = j
    · subst hij
      rw [advance_clients, List.getElem?_set_self'] at hj
      obtain ⟨_, -, rfl⟩ := Option.map_eq_some_iff.mp hj
      exact counts_advance h.sound h.pending hc
    · have hj' : s.clients[j]? = some c' := (List.getElem?_set_ne hij).symm.trans hj
      refine (h.clients c' (List.mem_of_getElem? hj')).congr hrec fun id hid hpos => ?_
      refine (hsame id).resolve_right fun hown => ?_
      have := (hsingle id hid).untouched hi hj' hij hown
      omega

/-- Other clients that are to do no more. -/
theorem withClients (h : Budgeted texts s) {clients : List (Stage J)}
    (hclients : ∀ c ∈ clients, c ∈ s.clients ∨
      c.Sound texts s.store ∧ c.Counts texts s ∧ ∀ cmds next, c ≠ .writing cmds next)
    (hhand : ∀ id, total (Stage.inHand id) clients ≤ total (Stage.inHand id) s.clients)
    (hengaged : ∀ id, total (Stage.engaged id) clients ≤ total (Stage.engaged id) s.clients)
    (hstart : ∀ id, total (Stage.toStart id) clients ≤ total (Stage.toStart id) s.clients) :
    Budgeted texts { s with clients } where
  sound := ⟨h.sound.store, fun c hc => (hclients c hc).elim (h.sound.clients c) (·.1)⟩
  drawn :=
    { data := h.drawn.data
      writes := fun cmds next hmem => (hclients _ hmem).elim (h.drawn.writes cmds next)
        fun hnew => absurd rfl (hnew.2.2 cmds next)
      starts := fun id hpos =>
        h.drawn.starts id (hpos.trans_le (Nat.add_le_add_left (hstart id) _))
      enqueued := h.drawn.enqueued }
  single id hid :=
    { once := (Nat.add_le_add_left (hhand id) _).trans (h.single id hid).once
      engaged := (hengaged id).trans (h.single id hid).engaged
      drawn := fun hpos =>
        (h.single id hid).drawn (hpos.trans_le (Nat.add_le_add_left (hhand id) _)) }
  outstanding id hdrawn task htask := by
    have hle : State.outstanding { s with clients } id ≤ s.outstanding id :=
      Nat.add_le_add_left (hstart id) _
    have := h.outstanding id hdrawn task htask
    omega
  pending id hid := (h.pending id hid).congr (fun _ h => h) fun _ => ⟨rfl, rfl⟩
  clients c hc := by
    have hcounts : c.Counts texts s := (hclients c hc).elim (h.clients c) (·.2.1)
    exact hcounts.congr (fun _ h => h) fun _ _ _ => ⟨rfl, rfl⟩

theorem addClient (h : Budgeted texts s) (hc : c.Sound texts s.store ∧ c.Counts texts s ∧
      ∀ cmds next, c ≠ .writing cmds next) (hidle : ∀ id, c.engaged id + c.inHand id = 0) :
    Budgeted texts (s.addClient c) := by
  apply h.withClients
  · intro c' hc'
    rcases List.mem_append.mp hc' with hc' | hc'
    · exact .inl hc'
    · rw [List.mem_singleton.mp hc']
      exact .inr hc
  all_goals
    intro id
    have := hidle id
    have := toStart_le id c
    simp only [total_append, total_cons, total_nil]
    omega

/-- The call that makes a task known. -/
theorem enqueue (h : Budgeted texts s) {taskId : Uuid}
    (hspares : ∀ task ∈ json.decode (texts.text taskId),
      0 ≤ task.retryCount ∧ 0 ≤ task.maxRetries) :
    Budgeted texts (s.step texts (.call (.enqueue taskId))) := by
  have hsound := h.sound.step (.call (.enqueue taskId))
  have hsingle : ∀ id, id ∉ (s.step texts (.call (.enqueue taskId))).recovered →
      Single (s.step texts (.call (.enqueue taskId))) id := by
    intro id hid
    refine (h.single id fun hmem => hid ?_).step h.sound trivial fun i _ _ heq => by cases heq
    simp only [State.step]
    split <;> exact hmem
  by_cases hdrawn : taskId ∈ s.drawn
  · rwa [State.step, if_pos hdrawn]
  -- the identifier is new, so nothing was started under it
  have hzero : s.outstanding taskId = 0 :=
    Nat.eq_zero_of_not_pos fun hpos => hdrawn (h.drawn.starts taskId hpos)
  have hstarts : s.starts taskId = 0 := by
    rw [State.outstanding] at hzero
    omega
  rw [State.step, if_neg hdrawn] at hsound hsingle ⊢
  refine ⟨hsound, h.drawn.enqueue taskId, hsingle, ?_, ?_, ?_⟩
  · intro id hmem task htask
    refine (congrArg Nat.cast (outstanding_enqueue texts s taskId id)).trans_le ?_
    split
    · rename_i hid
      subst hid
      have := (hspares task htask).2
      rw [hzero]
      push_cast
      linarith
    · rename_i hid
      exact h.outstanding id ((List.mem_cons.mp hmem).resolve_left (Ne.symm hid)) task htask
  · exact fun id hid => (h.pending id hid).congr (fun _ h => h) fun _ => ⟨rfl, rfl⟩
  · intro c hc
    rcases List.mem_append.mp hc with hc | hc
    · exact (h.clients c hc).congr (fun _ h => h) fun _ _ _ => ⟨rfl, rfl⟩
    · rw [List.mem_singleton.mp hc]
      refine ⟨paid_enqueueCommands s.now _ fun task htask => ?_, by simp⟩
      have hcount : (s.starts taskId : ℤ) ≤ task.retryCount := by
        rw [hstarts]
        exact_mod_cast (hspares task htask).1
      exact hcount

/-- A worker counts what it was handed. -/
theorem finish (h : Budgeted texts s) {task : TaskPayload}
    (hi : s.clients[i]? = some (.returned (.dequeued (some task)))) (succeeded : Bool) :
    Budgeted texts (s.setClient i (if succeeded then (Call.ack task.taskId).start texts s.now
      else (Call.nack task.taskId task.retryCount task.maxRetries).start texts s.now)) := by
  have hcounts := h.clients _ (List.mem_of_getElem? hi)
  refine h.withClients (fun c hc => ?_) (fun id => ?_) (fun id => ?_) fun id => ?_
  · rcases List.mem_or_eq_of_mem_set hc with hc | rfl
    · exact .inl hc
    · cases succeeded with
      | true => exact .inr ⟨trivial, trivial, by simp [Call.start]⟩
      | false => exact .inr ⟨trivial, hcounts, by simp [Call.start]⟩
  · exact total_set_le _ (by cases succeeded <;> rfl) i
  · -- the worker stays engaged with what it was handed
    split
    · exact (Nat.add_right_cancel (total_set (Stage.engaged id) hi (.lremAcked _ _))).le
    · exact (Nat.add_right_cancel (total_set (Stage.engaged id) hi (.nackHgetData _ _ _))).le
  · exact total_set_le _ (by cases succeeded <;> rfl) i

theorem step (h : Budgeted texts s) {a : Action} (ha : a.ByWorker)
    (hspares : SparesRetries texts s a) : Budgeted texts (s.step texts a) := by
  cases a with
  | tick d =>
    exact ⟨⟨h.sound.store, h.sound.clients⟩,
      ⟨h.drawn.data, h.drawn.writes, h.drawn.starts, h.drawn.enqueued⟩,
      fun id hid => ⟨(h.single id hid).once, (h.single id hid).engaged, (h.single id hid).drawn⟩,
      h.outstanding,
      fun id hid => (h.pending id hid).congr (fun _ h => h) fun _ => ⟨rfl, rfl⟩,
      fun c hc => (h.clients c hc).congr (fun _ h => h) fun _ _ _ => ⟨rfl, rfl⟩⟩
  | call c =>
    cases c with
    | enqueue taskId => exact h.enqueue hspares
    | ack | nack => exact ha.elim
    | dequeue | recoverStaleTasks =>
      exact h.addClient ⟨trivial, trivial, by simp [Call.start]⟩ fun _ => rfl
  | finish i succeeded =>
    simp only [State.step]
    split
    · rename_i task hi
      exact h.finish hi succeeded
    · exact h
  | advance i =>
    simp only [State.step]
    split
    · rename_i c hi
      exact h.advance hi (hspares c hi)
    · exact h
  | crash i =>
    refine h.withClients (fun c hc => ?_)
      (fun id => total_set_le (Stage.inHand id) (b := .crashed) rfl i)
      (fun id => total_set_le (Stage.engaged id) (b := .crashed) rfl i)
      fun id => total_set_le (Stage.toStart id) (b := .crashed) rfl i
    rcases List.mem_or_eq_of_mem_set hc with hc | rfl
    · exact .inl hc
    · exact .inr ⟨trivial, trivial, by simp⟩

theorem within (h : Budgeted texts s) : WithinBudget texts s := by
  intro id henq task htask _
  have := h.outstanding id (h.drawn.enqueued id henq) task htask
  unfold State.outstanding at this
  omega

end Budgeted

theorem budgeted_start (now : Instant) : Budgeted texts (State.start now) where
  sound := sound_start now
  drawn := ⟨fun _ h => (nomatch h), fun _ _ h => (nomatch h),
    fun _ h => absurd h (Nat.lt_irrefl 0), fun _ h => (nomatch h)⟩
  single _ _ := ⟨Nat.zero_le 1, le_rfl, fun h => absurd h (Nat.lt_irrefl 0)⟩
  outstanding _ h := nomatch h
  pending _ h := nomatch h
  clients _ h := nomatch h

/-- As long as every task that a recovery puts back, or a retry after a recovery, has a retry
left, no task is started more often than its retries allow. -/
theorem redis_tasks_within_budget (texts : Texts json) (now : Instant) (as : List Action)
    (h : AllSteps (State.step texts) (fun s a => a.ByWorker ∧ SparesRetries texts s a)
      (State.start now) as) :
    AllStates (State.step texts) (WithinBudget texts) (State.start now) as :=
  (allStates_of_guarded (J := Budgeted texts) (fun _ _ hb hg => hb.step hg.1 hg.2)
    (budgeted_start now) h).mono fun _ hb => hb.within

/-- The worker that inherited the task fails, and takes it once more. -/
def retryingRun : List Action := List.flatten
  [inheritingRun, .finish 3 false :: List.replicate 8 (.advance 3),
    .call .dequeue :: List.replicate 5 (.advance 4)]

theorem redis_tasks_within_budget_retrying :
    AllStates (State.step plainTexts) (WithinBudget plainTexts) (State.start 0) retryingRun :=
  redis_tasks_within_budget plainTexts 0 retryingRun (by decide +kernel)

/-- So many workers die with the task, and each time the next one recovers and takes it. -/
def recycledRun : ℕ → List Action
  | 0 => takingRun 1
  | n + 1 => List.flatten
    [recycledRun n, [.crash (2 * n + 1), .tick 301],
      .call (.recoverStaleTasks 300) :: List.replicate 11 (.advance (2 * n + 2)),
      .call .dequeue :: List.replicate 5 (.advance (2 * n + 3))]

/-- With three retries the task is started a fifth time. -/
theorem redis_task_recycled :
    (∀ a ∈ recycledRun 4, a.ByWorker) ∧
    ¬ AllStates (State.step plainTexts) (WithinBudget plainTexts) (State.start 0)
      (recycledRun 4) := by
  refine ⟨by decide +kernel, fun h => ?_⟩
  exact absurd (h.last 1 (by decide +kernel) (plainTask 1) (by decide +kernel) (by decide +kernel))
    (by decide +kernel)

end PicHost.RedisCommands
