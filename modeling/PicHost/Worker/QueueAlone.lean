import PicHost.Worker.QueueLoss

/-!
# A call of the Redis queue on its own

Without commands of other clients in between, the commands of a call do what the call does as a
whole.
-/

namespace PicHost.RedisCommands

open Serialised

variable {J : Type} (json : Codec TaskPayload J)

/-- The lists and the payloads that deserialise. -/
def Store.queue (st : Store J) : RedisQueue :=
  ⟨st.pending, st.processing, st.dead, decoded json st⟩

/-- Last updated before the cutoff. -/
def Store.stale (cutoff : Instant) (st : Store J) (taskId : Uuid) : Bool :=
  match (st.hash taskId).updatedAt with
  | none => false
  | some updatedAt => decide (updatedAt < cutoff)

/-- Undisturbed, the call returns the reply and leaves the store. -/
def Returns (now : Instant) (c : Stage J) (st : Store J) (r : Reply) (st' : Store J) : Prop :=
  ∃ n, (Stage.step json now)^[n] (c, st) = (.returned r, st')

/-- The reply of `Queue::dequeue`. -/
def dequeued : Except QueueError (Option TaskPayload) → Reply
  | .ok task => .dequeued task
  | .error _ => .failed

/-- The reply of `Queue::nack`. -/
def nacked : Except QueueError NackAction → Reply
  | .ok action => .nacked action
  | .error _ => .failed

variable {json} {now : Instant} {c c' : Stage J} {st st' st₁ : Store J} {r : Reply}

theorem Returns.of_step (h : Returns json now c' st₁ r st')
    (hstep : Stage.step json now (c, st) = (c', st₁)) : Returns json now c st r st' := by
  obtain ⟨n, hn⟩ := h
  refine ⟨n + 1, ?_⟩
  rw [Function.iterate_succ_apply, hstep, hn]

theorem returns_after (cmds : List (Command J)) (st : Store J) (r : Reply) :
    Returns json now (Stage.after cmds (.reply r)) st r (cmds.foldl Store.exec st) := by
  induction cmds generalizing st with
  | nil => exact ⟨0, rfl⟩
  | cons cmd cmds ih => exact (ih (st.exec cmd)).of_step rfl

section Queue

variable (json) (st) (taskId : Uuid)

theorem queue_data (text : J) : (st.exec (.hset taskId (.data text))).queue json =
    { st.queue json with
      data := Function.update (st.queue json).data taskId (json.decode text) } := by
  have hdata : decoded json (st.hset taskId (.data text)) =
      Function.update (decoded json st) taskId (json.decode text) := by
    funext id
    by_cases hid : id = taskId
    · subst hid
      simp [decoded, Store.hset]
    · rw [Function.update_of_ne hid, decoded, decoded, Store.hset_hash_of_ne _ _ _ hid]
  simp only [Store.queue, Store.exec, hdata, Store.hset_pending, Store.hset_processing,
    Store.hset_dead]

theorem queue_hset {field : Field J} (h : ∀ text, field ≠ .data text) :
    (st.exec (.hset taskId field)).queue json = st.queue json := by
  have hdata : decoded json (st.hset taskId field) = decoded json st := by
    funext id
    rcases Store.hset_data st taskId field id with hsame | ⟨text, hfield, -⟩
    · rw [decoded, decoded, hsame]
    · exact absurd hfield (h text)
  simp only [Store.queue, Store.exec, hdata, Store.hset_pending, Store.hset_processing,
    Store.hset_dead]

theorem queue_lrem : (st.lrem taskId).queue json =
    { st.queue json with processing := (st.queue json).processing.erase taskId } := rfl

theorem queue_lpushPending : (st.exec (.lpushPending taskId)).queue json =
    { st.queue json with pending := taskId :: (st.queue json).pending } := rfl

theorem queue_lpushDead : (st.exec (.lpushDead taskId)).queue json =
    { st.queue json with dead := taskId :: (st.queue json).dead } := rfl

end Queue

/-- A task whose text deserialises. -/
theorem enqueue_alone {texts : Texts json} {taskId : Uuid} {task : TaskPayload}
    (h : json.decode (texts.text taskId) = some task) (now : Instant) (st : Store J) :
    ∃ st', Returns json now ((Call.enqueue taskId).start texts now) st (.enqueued taskId) st' ∧
      st'.queue json = (st.queue json).enqueueTask task := by
  refine ⟨_, returns_after (enqueueCommands taskId (texts.text taskId) now) st _, ?_⟩
  simp [enqueueCommands, queue_lpushPending, queue_hset, queue_data, RedisQueue.enqueueTask,
    texts.own taskId task h, h]

/-- An identifier whose payload does not deserialise would stay where the call as a whole
removes it. -/
theorem dequeue_alone (h : ∀ taskId, ∀ text ∈ (st.hash taskId).data,
    (json.decode text).isSome = true) (now : Instant) :
    ∃ st', Returns json now .brpoplpush st (dequeued ((st.queue json).dequeueTask true).1) st' ∧
      st'.queue json = ((st.queue json).dequeueTask true).2 := by
  cases hlast : st.pending.getLast? with
  | none =>
    refine ⟨st, ⟨1, ?_⟩, ?_⟩
    · simp [Stage.step, hlast, Store.queue, RedisQueue.dequeueTask, dequeued]
    · simp [hlast, Store.queue, RedisQueue.dequeueTask]
  | some taskId =>
    have hmove : Stage.step json now (.brpoplpush, st) = (.hgetData taskId, st.move taskId) := by
      simp only [Stage.step, hlast]
    cases hdata : (st.hash taskId).data with
    | none =>
      -- `LREM` of the orphaned entry
      have hdec : decoded json st taskId = none := by simp [decoded, hdata]
      refine ⟨(st.move taskId).lrem taskId, ⟨3, ?_⟩, ?_⟩
      · simp [Stage.step, Store.move, hdata, Store.queue, RedisQueue.dequeueTask, hlast,
          hdec, dequeued]
      · simp [Store.queue, Store.move, RedisQueue.dequeueTask, hlast, hdec]
        rfl
    | some text =>
      obtain ⟨task, htask⟩ := Option.isSome_iff_exists.mp (h taskId text hdata)
      have hdec : decoded json st taskId = some task := by simp [decoded, hdata, htask]
      have hwhole : (st.queue json).dequeueTask true =
          (.ok (some task), (st.move taskId).queue json) := by
        simp only [RedisQueue.dequeueTask, Store.queue, hlast, hdec, if_true]
        rfl
      have hread : Stage.step json now (.hgetData taskId, st.move taskId) =
          (.dequeueNow taskId task, st.move taskId) := by
        simp [Stage.step, Store.move, hdata, htask]
      have hwritten : Returns json now (.dequeueNow taskId task) (st.move taskId)
          (.dequeued (some task)) _ :=
        (returns_after (processingCommands taskId now) (st.move taskId) _).of_step rfl
      rw [hwhole]
      refine ⟨_, (hwritten.of_step hread).of_step hmove, ?_⟩
      simp [processingCommands, queue_hset]

theorem ack_alone (texts : Texts json) (taskId : Uuid) (now : Instant) (st : Store J) :
    ∃ st', Returns json now ((Call.ack taskId).start texts now) st .acked st' ∧
      st'.queue json = ((st.queue json).ackTask true taskId).2 := by
  refine ⟨_, (returns_after (ackCommands taskId now) (st.lrem taskId) .acked).of_step rfl, ?_⟩
  simp [ackCommands, queue_hset, queue_lrem, RedisQueue.ackTask]

theorem queue_nackCommands (task : TaskPayload) (now : Instant) (st : Store J) :
    ((nackCommands json task now).foldl Store.exec (st.lrem task.taskId)).queue json =
      (RedisQueue.nackTask task (st.queue json)).2 := by
  by_cases hretry : task.retryCount < task.maxRetries
  · simp [nackCommands, RedisQueue.nackTask, hretry, queue_lpushPending, queue_hset, queue_data,
      queue_lrem]
  · simp [nackCommands, RedisQueue.nackTask, hretry, queue_lpushDead, queue_hset, queue_lrem]

/-- The stored payload under the counts given. -/
theorem nack_alone (texts : Texts json) (taskId : Uuid) (retryCount maxRetries : ℤ) (now : Instant)
    (st : Store J) :
    ∃ st', Returns json now ((Call.nack taskId retryCount maxRetries).start texts now) st
        (nacked ((st.queue json).nack true taskId retryCount maxRetries).1) st' ∧
      st'.queue json = ((st.queue json).nack true taskId retryCount maxRetries).2 := by
  cases hdec : decoded json st taskId with
  | none =>
    have hwhole : (st.queue json).nack true taskId retryCount maxRetries =
        (.error .other, st.queue json) := by
      simp only [RedisQueue.nack, Store.queue, hdec, if_true]
    rw [hwhole]
    refine ⟨st, ⟨1, ?_⟩, rfl⟩
    simp [Call.start, Stage.step, hdec, nacked]
  | some task =>
    have hwhole : (st.queue json).nack true taskId retryCount maxRetries =
        (.ok (nackAction { task with retryCount, maxRetries }),
          (RedisQueue.nackTask { task with retryCount, maxRetries } (st.queue json)).2) := by
      by_cases hretry : retryCount < maxRetries <;>
        simp [RedisQueue.nack, RedisQueue.nackTask, Store.queue, hdec, nackAction, hretry]
    have hread : Stage.step json now (.nackHgetData taskId retryCount maxRetries, st) =
        (.nackNow { task with retryCount, maxRetries }, st) := by
      simp only [Stage.step, hdec]
    have hwritten : Returns json now (.nackNow { task with retryCount, maxRetries }) st
        (.nacked (nackAction { task with retryCount, maxRetries })) _ :=
      ((returns_after (nackCommands json { task with retryCount, maxRetries } now)
        (st.lrem task.taskId) _).of_step rfl).of_step rfl
    rw [hwhole]
    refine ⟨_, hwritten.of_step hread, ?_⟩
    exact queue_nackCommands { task with retryCount, maxRetries } now st

/-- One entry of the processing list. -/
theorem queue_recoverOne (cutoff now : Instant) (st : Store J) (taskId : Uuid) :
    (recoverOne json cutoff now st taskId).queue json =
      if st.stale cutoff taskId then (st.queue json).recoverSingleTask taskId
      else st.queue json := by
  unfold recoverOne Store.stale
  cases (st.hash taskId).updatedAt with
  | none => rfl
  | some updatedAt =>
    by_cases hcut : cutoff ≤ updatedAt
    · simp [hcut, not_lt.mpr hcut]
    · have hlt : updatedAt < cutoff := not_le.mp hcut
      cases hdec : decoded json st taskId with
      | none => simp [hcut, hlt, RedisQueue.recoverSingleTask, Store.queue, hdec]
      | some task =>
        have hdata : (st.queue json).data taskId = some task := hdec
        simp [hcut, hlt, RedisQueue.recoverSingleTask, recoverCommands, queue_lpushPending,
          queue_hset, queue_lrem, hdata]

theorem queue_recoverAll {cutoff now : Instant} {taskIds : List Uuid} (hnodup : taskIds.Nodup)
    {stale : Uuid → Bool} (hstale : ∀ taskId ∈ taskIds, st.stale cutoff taskId = stale taskId) :
    (taskIds.foldl (recoverOne json cutoff now) st).queue json =
      (taskIds.filter stale).foldl (fun q taskId => q.recoverSingleTask taskId)
        (st.queue json) := by
  induction taskIds generalizing st with
  | nil => rfl
  | cons taskId taskIds ih =>
    obtain ⟨hfresh, hnodup⟩ := List.nodup_cons.mp hnodup
    have hlater : ∀ id ∈ taskIds,
        (recoverOne json cutoff now st taskId).stale cutoff id = stale id := by
      intro id hid
      rw [← hstale id (List.mem_cons_of_mem _ hid)]
      rcases recoverOne_pending json cutoff now st taskId with heq | ⟨-, -, hhash⟩
      · rw [heq]
      · -- only the hash of the recovered task has changed
        have hne : id ≠ taskId := by
          rintro rfl
          exact hfresh hid
        rw [Store.stale, Store.stale, hhash id hne]
    rw [List.foldl_cons, ih hnodup hlater, queue_recoverOne, hstale taskId List.mem_cons_self,
      List.filter_cons]
    split <;> rfl

/-- If no entry is there twice, those that are stale are put back one after the other. -/
theorem recover_alone_queue (texts : Texts json) (now : Instant) (timeout : ℕ) {st : Store J}
    (hnodup : st.processing.Nodup) :
    ∃ tasks st', Returns json now ((Call.recoverStaleTasks timeout).start texts now) st
        (.recovered tasks) st' ∧
      st'.queue json = (st.queue json).recoverStaleTasks true (st.stale (now - timeout)) := by
  obtain ⟨n, tasks, hrun⟩ := recover_alone json now timeout st
  exact ⟨tasks, _, ⟨n, hrun⟩, queue_recoverAll hnodup fun _ _ => rfl⟩

end PicHost.RedisCommands
