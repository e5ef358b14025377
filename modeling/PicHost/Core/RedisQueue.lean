import PicHost.Core.Models
import Mathlib.Logic.Function.Basic

/-!
# The Redis task queue

Lists of identifiers and the payloads they stand for. `up` says whether Redis executes the
commands of a call.
-/

namespace PicHost

/-- The lists under `pichost:tasks:`, the identifier pushed last in front, and the `data`
fields of the task hashes. -/
structure RedisQueue where
  pending : List Uuid
  processing : List Uuid
  dead : List Uuid
  data : Uuid → Option TaskPayload

namespace RedisQueue

def empty : RedisQueue := ⟨[], [], [], fun _ => none⟩

def enqueueTask (task : TaskPayload) (q : RedisQueue) : RedisQueue :=
  { q with
    data := Function.update q.data task.taskId (some task)
    -- `LPUSH`: the next one to be handed out is at the other end
    pending := task.taskId :: q.pending }

/-- `BRPOPLPUSH` and the payload; an identifier without one is dropped. -/
def dequeueTask (up : Bool) (q : RedisQueue) :
    Except QueueError (Option TaskPayload) × RedisQueue :=
  if up then
    match q.pending.getLast? with
    | none => (.ok none, q)
    | some taskId =>
      let q' := { q with
        pending := q.pending.dropLast
        processing := taskId :: q.processing }
      match q.data taskId with
      | some task => (.ok (some task), q')
      -- `LREM 1` takes the entry out again, and nobody has the task
      | none => (.error .other, { q' with processing := q'.processing.erase taskId })
  else (.error .other, q)

def ackTask (up : Bool) (taskId : Uuid) (q : RedisQueue) : Except QueueError Unit × RedisQueue :=
  if up then (.ok (), { q with processing := q.processing.erase taskId }) else (.error .other, q)

/-- Retries carry the incremented count in the payload. -/
def nackTask (task : TaskPayload) (q : RedisQueue) : NackAction × RedisQueue :=
  let q' := { q with processing := q.processing.erase task.taskId }
  if task.retryCount < task.maxRetries then
    (.retry,
      { q' with
        data := Function.update q'.data task.taskId
          (some { task with retryCount := task.retryCount + 1 })
        pending := task.taskId :: q'.pending })
  else (.deadLetter, { q' with dead := task.taskId :: q'.dead })

/-- `Queue::nack`: the stored payload under the counts given. -/
def nack (up : Bool) (taskId : Uuid) (retryCount maxRetries : ℤ) (q : RedisQueue) :
    Except QueueError NackAction × RedisQueue :=
  if up then
    match q.data taskId with
    | none => (.error .other, q)
    | some task =>
      let (action, q') := nackTask { task with retryCount, maxRetries } q
      (.ok action, q')
  else (.error .other, q)

def recoverSingleTask (taskId : Uuid) (q : RedisQueue) : RedisQueue :=
  match q.data taskId with
  | none => q
  | some _ =>
    { q with
      processing := q.processing.erase taskId
      pending := taskId :: q.pending }

/-- `stale` says which tasks were last updated before the cutoff. -/
def recoverStaleTasks (up : Bool) (stale : Uuid → Bool) (q : RedisQueue) : RedisQueue :=
  if up then (q.processing.filter stale).foldl (fun q taskId => q.recoverSingleTask taskId) q
  else q

/-- Every payload is stored under its own identifier. -/
def WellKeyed (q : RedisQueue) : Prop := ∀ taskId task, q.data taskId = some task →
  task.taskId = taskId

/-- Nothing leaves the dead-letter list, and payloads change in their counts only. -/
structure Keeps (q q' : RedisQueue) : Prop where
  dead : ∀ taskId ∈ q.dead, taskId ∈ q'.dead
  data : ∀ taskId task', q'.data taskId = some task' →
    ∃ task, q.data taskId = some task ∧ task'.taskId = task.taskId ∧ task'.imageId = task.imageId

theorem Keeps.of_eq {q q' : RedisQueue} (hdead : q'.dead = q.dead) (hdata : q'.data = q.data) :
    q.Keeps q' where
  dead taskId h := by rwa [hdead]
  data taskId task h := ⟨task, by rwa [← hdata], rfl, rfl⟩

theorem dequeueTask_keeps (up : Bool) (q : RedisQueue) : q.Keeps (q.dequeueTask up).2 := by
  unfold dequeueTask
  split
  · split
    · exact .of_eq rfl rfl
    · dsimp only
      split <;> exact .of_eq rfl rfl
  · exact .of_eq rfl rfl

/-- A task handed out is a stored payload. -/
theorem dequeueTask_data {up : Bool} {q q' : RedisQueue} {task : TaskPayload}
    (h : q.dequeueTask up = (.ok (some task), q')) : ∃ taskId, q.data taskId = some task := by
  unfold dequeueTask at h
  split at h
  · split at h
    · cases h
    · rename_i taskId _
      dsimp only at h
      split at h
      · rename_i hdata
        cases h
        exact ⟨taskId, hdata⟩
      · cases h
  · cases h

theorem ackTask_keeps (up : Bool) (taskId : Uuid) (q : RedisQueue) :
    q.Keeps (q.ackTask up taskId).2 := by
  unfold ackTask
  split <;> exact .of_eq rfl rfl

theorem nack_keeps (up : Bool) (taskId : Uuid) (retryCount maxRetries : ℤ) {q : RedisQueue}
    (hq : q.WellKeyed) : q.Keeps (q.nack up taskId retryCount maxRetries).2 := by
  unfold nack
  split
  · split
    · exact .of_eq rfl rfl
    · rename_i task hdata
      have hid := hq taskId task hdata
      simp only [nackTask]
      split
      · refine ⟨fun _ h => h, fun taskId' task' h => ?_⟩
        dsimp only at h
        by_cases heq : taskId' = task.taskId
        · rw [heq, Function.update_self] at h
          cases h
          exact ⟨task, by rw [heq, hid, hdata], rfl, rfl⟩
        · rw [Function.update_of_ne heq] at h
          exact ⟨task', h, rfl, rfl⟩
      · exact ⟨fun _ h => List.mem_cons_of_mem _ h, fun _ task' h => ⟨task', h, rfl, rfl⟩⟩
  · exact .of_eq rfl rfl

/-- A dead-lettered task is in the list. -/
theorem nack_deadLetter {up : Bool} {taskId : Uuid} {retryCount maxRetries : ℤ}
    {q q' : RedisQueue} (hq : q.WellKeyed)
    (h : q.nack up taskId retryCount maxRetries = (.ok .deadLetter, q')) : taskId ∈ q'.dead := by
  unfold nack at h
  split at h
  · split at h
    · cases h
    · rename_i task hdata
      have hid := hq taskId task hdata
      simp only [nackTask] at h
      split at h
      · cases h
      · cases h
        rw [hid]
        exact List.mem_cons_self
  · cases h

/-- Only a stored task without retries left is dead-lettered. -/
theorem nack_eq_deadLetter {up : Bool} {taskId : Uuid} {retryCount maxRetries : ℤ}
    {q : RedisQueue} (h : (q.nack up taskId retryCount maxRetries).1 = .ok .deadLetter) :
    up = true ∧ q.data taskId ≠ none ∧ maxRetries ≤ retryCount := by
  unfold nack at h
  split at h
  · rename_i hup
    split at h
    · cases h
    · rename_i task hdata
      refine ⟨hup, by rw [hdata]; simp, ?_⟩
      simp only [nackTask] at h
      split at h
      · cases h
      · omega
  · cases h

theorem recoverStaleTasks_keeps (up : Bool) (stale : Uuid → Bool) (q : RedisQueue) :
    q.Keeps (q.recoverStaleTasks up stale) := by
  have hall : ∀ (ids : List Uuid) (q : RedisQueue),
      (ids.foldl (fun q taskId => q.recoverSingleTask taskId) q).dead = q.dead ∧
      (ids.foldl (fun q taskId => q.recoverSingleTask taskId) q).data = q.data := by
    intro ids
    induction ids with
    | nil => exact fun q => ⟨rfl, rfl⟩
    | cons taskId ids ih =>
      intro q
      have hone : (q.recoverSingleTask taskId).dead = q.dead ∧
          (q.recoverSingleTask taskId).data = q.data := by
        unfold recoverSingleTask
        split <;> exact ⟨rfl, rfl⟩
      obtain ⟨hdead, hdata⟩ := ih (q.recoverSingleTask taskId)
      exact ⟨hdead.trans hone.1, hdata.trans hone.2⟩
  unfold recoverStaleTasks
  split
  · exact .of_eq (hall _ q).1 (hall _ q).2
  · exact .of_eq rfl rfl

/-- Enqueueing stores the payloads under their identifiers. -/
theorem enqueue_all (tasks : List TaskPayload) (q : RedisQueue) :
    (tasks.foldl (fun q task => q.enqueueTask task) q).dead = q.dead ∧
    ∀ taskId task, (tasks.foldl (fun q task => q.enqueueTask task) q).data taskId = some task →
      q.data taskId = some task ∨ task ∈ tasks ∧ task.taskId = taskId := by
  induction tasks generalizing q with
  | nil => exact ⟨rfl, fun _ _ h => .inl h⟩
  | cons t tasks ih =>
    obtain ⟨hdead, hdata⟩ := ih (q.enqueueTask t)
    refine ⟨hdead, fun taskId task h => ?_⟩
    rcases hdata taskId task h with h | ⟨hmem, hid⟩
    · simp only [enqueueTask] at h
      by_cases heq : taskId = t.taskId
      · rw [heq, Function.update_self] at h
        cases h
        exact .inr ⟨List.mem_cons_self, heq.symm⟩
      · rw [Function.update_of_ne heq] at h
        exact .inl h
    · exact .inr ⟨List.mem_cons_of_mem _ hmem, hid⟩

end RedisQueue

end PicHost
