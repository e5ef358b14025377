import PicHost.Core.Models
import PicHost.Lib.Table

/-!
# The SQLite task queue

`up` says whether the database executes a statement, `now` is its clock. The payload is
stored in a serialised form `J`.
-/

namespace PicHost.SqliteQueue

open KeyedTable Serialised

/-- `pending_tasks.status`. -/
inductive TaskStatus
  | pending
  | processing
  | dead
deriving DecidableEq

/-- A row of `pending_tasks`. -/
structure PendingTask (J : Type) where
  taskId : String
  payloadJson : J
  status : TaskStatus
  retryCount : ℤ
  claimedAt : Option Instant
  updatedAt : Instant
  createdAt : Instant
deriving DecidableEq

namespace PendingTask

variable {J : Type}

/-- The columns `dequeue` sets. -/
def claim (now : Instant) (r : PendingTask J) : PendingTask J :=
  { r with status := .processing, claimedAt := some now, updatedAt := now }

/-- The columns the retry branch of `nack` sets; the payload keeps its own count. -/
def release (now : Instant) (retryCount : ℤ) (r : PendingTask J) : PendingTask J :=
  { r with status := .pending, claimedAt := none, retryCount := retryCount + 1, updatedAt := now }

/-- The columns the dead-letter branch of `nack` sets. -/
def kill (now : Instant) (r : PendingTask J) : PendingTask J :=
  { r with status := .dead, claimedAt := none, updatedAt := now }

end PendingTask

/-- `pending_tasks` with its primary key. -/
abbrev PendingTasks (J : Type) := Table (α := PendingTask J) PendingTask.taskId Eq

variable {J : Type} (json : Codec TaskPayload J)

/-- Rows left in `processing` go back to `pending`. -/
def reclaimStale (up : Bool) (now : Instant) (t : PendingTasks J) :
    Except QueueError Unit × PendingTasks J :=
  if up then
    (.ok (), t.update (fun r => r.status == .processing)
      (fun r => { r with status := .pending, claimedAt := none, updatedAt := now })
      fun _ => rfl)
  else (.error .other, t)

/-- The row `enqueue` inserts, the columns it leaves out at their defaults. -/
def newTask (now : Instant) (p : TaskPayload) : PendingTask J where
  taskId := p.taskId.toText
  payloadJson := json.encode p
  status := .pending
  retryCount := 0
  claimedAt := none
  updatedAt := now
  createdAt := now

@[simp] theorem newTask_taskId (now : Instant) (p : TaskPayload) :
    (newTask json now p).taskId = p.taskId.toText := rfl

def enqueue (up : Bool) (now : Instant) (p : TaskPayload) (t : PendingTasks J) :
    Except QueueError Unit × PendingTasks J :=
  if up then
    match t.insert (newTask json now p) with
    | some t' => (.ok (), t')
    | none => (.error .other, t)
  else (.error .other, t)

/-- The subselect of `dequeue`. Among rows created in one millisecond the choice is the
database's, given by `pick`. -/
def nextPending (pick : ℕ) (t : PendingTasks J) : Option (PendingTask J) :=
  let waiting := t.select fun r => r.status == .pending && r.claimedAt.isNone
  let oldest := waiting.filter fun r => waiting.all fun q => decide (r.createdAt ≤ q.createdAt)
  oldest[pick % oldest.length]?

/-- The payload handed out is the stored one. -/
def dequeue (up : Bool) (now : Instant) (pick : ℕ) (t : PendingTasks J) :
    Except QueueError (Option TaskPayload) × PendingTasks J :=
  if up then
    match nextPending pick t with
    | none => (.ok none, t)
    | some r =>
      let t' := t.update (fun q => q.taskId == r.taskId) (PendingTask.claim now) fun _ => rfl
      -- the row is claimed by then, and stays so when its payload does not parse
      match json.decode r.payloadJson with
      | some p => (.ok (some p), t')
      | none => (.error .other, t')
  else (.error .other, t)

def ack (up : Bool) (taskId : Uuid) (t : PendingTasks J) :
    Except QueueError Unit × PendingTasks J :=
  if up then (.ok (), t.delete fun r => r.taskId == taskId.toText) else (.error .other, t)

def nack (up : Bool) (now : Instant) (taskId : Uuid) (retryCount maxRetries : ℤ)
    (t : PendingTasks J) : Except QueueError NackAction × PendingTasks J :=
  if retryCount < maxRetries then
    if up then
      -- the counts are the caller's; whether a row was there to update is not looked at
      (.ok .retry, t.update (fun r => r.taskId == taskId.toText)
        (PendingTask.release now retryCount) fun _ => rfl)
    else (.error .other, t)
  else if up then
    (.ok .deadLetter, t.update (fun r => r.taskId == taskId.toText) (PendingTask.kill now)
      fun _ => rfl)
  else (.error .other, t)

theorem row_unique {t : PendingTasks J} {r q : PendingTask J} (hr : r ∈ t.rows)
    (hq : q ∈ t.rows) (h : r.taskId = q.taskId) : r = q :=
  t.eq_of_clash (fun _ _ => Eq.symm) hr hq h

theorem nextPending_mem {pick : ℕ} {t : PendingTasks J} {r : PendingTask J}
    (h : nextPending pick t = some r) : r ∈ t.rows ∧ r.status = .pending := by
  have hw := List.mem_of_mem_filter (List.mem_of_getElem? h)
  rw [Table.mem_select, Bool.and_eq_true, beq_iff_eq] at hw
  exact ⟨hw.1, hw.2.1⟩

/-- Reclaiming leaves nothing in `processing`. -/
theorem status_of_mem_reclaimStale {now : Instant} {t : PendingTasks J} {r : PendingTask J}
    (hr : r ∈ (reclaimStale true now t).2.rows) : r.status ≠ .processing := by
  simp only [reclaimStale, if_true, Table.update, List.mem_map] at hr
  obtain ⟨q, -, rfl⟩ := hr
  by_cases hq : q.status = .processing
  · simp [hq]
  · simp [hq]

/-- An accepted task is a new row under an unused identifier; a refused one changes nothing. -/
theorem enqueue_cases (up : Bool) (now : Instant) (p : TaskPayload) (t : PendingTasks J) :
    enqueue json up now p t = (.error .other, t) ∨
    ∃ t', enqueue json up now p t = (.ok (), t') ∧ (∀ q ∈ t.rows, q.taskId ≠ p.taskId.toText) ∧
      t'.rows = t.rows ++ [newTask json now p] := by
  unfold enqueue
  cases up with
  | false => exact .inl rfl
  | true =>
    cases hins : t.insert (newTask json now p) with
    | none => exact .inl rfl
    | some t' =>
      have hnew := Table.not_clash_of_insert hins
      rw [newTask_taskId] at hnew
      exact .inr ⟨t', rfl, hnew, Table.rows_of_insert hins⟩

/-- Only a task without retries left is dead-lettered. -/
theorem nack_eq_deadLetter {up : Bool} {now : Instant} {taskId : Uuid} {retryCount maxRetries : ℤ}
    {t : PendingTasks J} (h : (nack up now taskId retryCount maxRetries t).1 = .ok .deadLetter) :
    up = true ∧ maxRetries ≤ retryCount := by
  unfold nack at h
  split at h
  · split at h <;> cases h
  · split at h
    · exact ⟨by assumption, by omega⟩
    · cases h

/-- What one `dequeue` does when the stored payloads deserialise. -/
theorem dequeue_cases (up : Bool) (now : Instant) (pick : ℕ) {t : PendingTasks J}
    (hdec : ∀ r ∈ t.rows, (json.decode r.payloadJson).isSome) :
    (∃ reply, dequeue json up now pick t = (reply, t) ∧ (∀ p, reply ≠ .ok (some p)) ∧
      (up = true → nextPending pick t = none)) ∨
    ∃ r p, up = true ∧ nextPending pick t = some r ∧ json.decode r.payloadJson = some p ∧
      dequeue json up now pick t = (.ok (some p),
        t.update (fun q => q.taskId == r.taskId) (PendingTask.claim now) fun _ => rfl) := by
  unfold dequeue
  cases up with
  | false => exact .inl ⟨.error .other, rfl, fun p => by simp, by simp⟩
  | true =>
    cases hn : nextPending pick t with
    | none => exact .inl ⟨.ok none, rfl, fun p => by simp, fun _ => rfl⟩
    | some r =>
      obtain ⟨p, hp⟩ := Option.isSome_iff_exists.mp (hdec r (nextPending_mem hn).1)
      exact .inr ⟨r, p, rfl, rfl, hp, by simp [hp]⟩

end PicHost.SqliteQueue
