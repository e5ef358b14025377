import PicHost.Api.LiteWorker
import PicHost.Core.RedisQueue
import PicHost.Worker.VariantKeys

/-!
# Dead letters

Workers of Redis mode and consumers of lite mode end their attempts; a dead-lettered task is
followed by the statements of `handle_dead_letter`, if its worker makes them. The table and
the queues change in between.
-/

namespace PicHost.DeadLetter

open KeyedTable Serialised LabelledRun

inductive Mode
  | redis
  | lite
deriving DecidableEq

/-- How an attempt ends. Only Redis mode has a time limit. -/
inductive Outcome
  | ok
  | failed (error : String)
  | elapsed
deriving DecidableEq

/-- A row of `upload_tasks`. -/
structure UploadTask where
  imageId : Uuid
  taskType : String
  status : String
  error : String
  retryCount : ℤ
  maxRetries : ℤ
  completedAt : Instant
deriving DecidableEq

/-- The pipeline, or the statement of `handle_dead_letter` that comes next. -/
inductive Stage
  | processing
  | insertFailure (error : String)
  | markFailed
deriving DecidableEq

/-- A task in hand. -/
structure Attempt where
  mode : Mode
  task : TaskPayload
  stage : Stage
deriving DecidableEq

/-- The last two fields are history: the dead-lettered tasks of existing images whose failure
is to be recorded, and those whose image is to be marked. -/
structure State (J : Type) where
  images : ImageTable
  uploadTasks : List UploadTask
  redis : RedisQueue
  sqlite : SqliteQueue.PendingTasks J
  held : List Attempt
  recordDue : List TaskPayload
  statusDue : List TaskPayload

inductive Action
  | insertImage (r : Image)
  | editImage (id : Uuid) (originalName : String) (categoryId : Option Uuid)
  | deleteImages (ids : List Uuid)
  | enqueue (mode : Mode) (up : Bool) (now : Instant) (task : TaskPayload)
  | dequeue (mode : Mode) (up : Bool) (now : Instant) (pick : ℕ)
  | updateImageRecord (j : ℕ) (dbUp : Bool) (size : ℤ × ℤ) (thumbWritten webpWritten : Bool)
  | finish (j : ℕ) (outcome : Outcome) (up : Bool) (now : Instant)
  | handleDeadLetter (j : ℕ) (dbUp : Bool) (now : Instant)
  | recover (up : Bool) (stale : Uuid → Bool)

/-- What `nack` returned, if it was called, and the stage that follows, if any. -/
structure Ending where
  reply : Option (Except QueueError NackAction)
  next : Option Stage

/-- `handle_task_result`. The reply after a timeout is dropped. -/
def handleTaskResult (outcome : Outcome) (up : Bool) (task : TaskPayload) (q : RedisQueue) :
    Ending × RedisQueue :=
  match outcome with
  | .ok => (⟨none, none⟩, (q.ackTask up task.taskId).2)
  | .failed error =>
    match q.nack up task.taskId task.retryCount task.maxRetries with
    | (.ok .deadLetter, q') => (⟨some (.ok .deadLetter), some (.insertFailure error)⟩, q')
    | (reply, q') => (⟨some reply, none⟩, q')
  | .elapsed =>
    let (reply, q') := q.nack up task.taskId task.retryCount task.maxRetries
    (⟨some reply, none⟩, q')

/-- `handle_task` of lite mode only logs what `nack` returned. -/
def handleTask {J : Type} (outcome : Outcome) (up : Bool) (now : Instant) (task : TaskPayload)
    (t : SqliteQueue.PendingTasks J) : Ending × SqliteQueue.PendingTasks J :=
  let (reply, t') := LiteWorker.handleTask (outcome != .ok) up now task t
  (⟨reply, none⟩, t')

def imageExists (images : ImageTable) (id : Uuid) : Bool := images.anyRow fun r => r.id == id

variable {J : Type} (deps : Worker.Deps Unit) (json : Codec TaskPayload J)

namespace State

/-- What is due once `nack` has replied. -/
def due (s : State J) (task : TaskPayload) (reply : Option (Except QueueError NackAction)) :
    List TaskPayload :=
  if reply = some (.ok .deadLetter) ∧ imageExists s.images task.imageId = true then [task] else []

/-- The attempt goes on to the next stage or is over. -/
def settle (s : State J) (j : ℕ) (a : Attempt) (e : Ending) : State J :=
  { s with
    held := match e.next with
      | some stage => s.held.set j { a with stage }
      | none => s.held.eraseIdx j
    recordDue := s.due a.task e.reply ++ s.recordDue
    statusDue := s.due a.task e.reply ++ s.statusDue }

end State

/-- The record of a failure. -/
def failureRecord (task : TaskPayload) (error : String) (now : Instant) : UploadTask where
  imageId := task.imageId
  taskType := "all"
  status := "failed"
  error := error
  retryCount := task.retryCount + 1
  maxRetries := task.maxRetries
  completedAt := now

/-- The statements of `handle_dead_letter`; their errors are ignored. What is due is given up
when the database is not available. -/
def handleDeadLetter (j : ℕ) (dbUp : Bool) (now : Instant) (s : State J) : State J :=
  match s.held[j]? with
  | none => s
  | some a =>
    match a.stage with
    | .processing => s
    | .insertFailure error =>
      let s' := { s with held := s.held.set j { a with stage := .markFailed } }
      if dbUp then
        -- the foreign key refuses a record without an image
        if imageExists s.images a.task.imageId then
          { s' with uploadTasks := s.uploadTasks ++ [failureRecord a.task error now] }
        else s'
      else { s' with recordDue := s.recordDue.filter (· ≠ a.task) }
    | .markFailed =>
      let s' := { s with held := s.held.eraseIdx j }
      if dbUp then
        { s' with
          images := s.images.update (fun r => r.id == a.task.imageId) Worker.setFailed
            Worker.setFailed_keys }
      else { s' with statusDue := s.statusDue.filter (· ≠ a.task) }

def step (s : State J) : Action → State J
  | .insertImage r =>
    match s.images.insert r with
    | some images => { s with images }
    | none => s
  | .editImage id originalName categoryId =>
    { s with
      images := s.images.update (fun r => r.id == id)
        (fun r => { r with originalName, categoryId }) fun _ => rfl }
  | .deleteImages ids =>
    let images := s.images.delete fun r => ids.contains r.id
    { s with
      images
      uploadTasks := s.uploadTasks.filter fun u => imageExists images u.imageId
      recordDue := s.recordDue.filter fun task => imageExists images task.imageId
      statusDue := s.statusDue.filter fun task => imageExists images task.imageId }
  | .enqueue .redis up _ task =>
    if up then { s with redis := s.redis.enqueueTask task } else s
  | .enqueue .lite up now task =>
    { s with sqlite := (SqliteQueue.enqueue json up now task s.sqlite).2 }
  | .dequeue .redis up _ _ =>
    match s.redis.dequeueTask up with
    | (.ok (some task), redis) =>
      { s with redis, held := s.held ++ [⟨.redis, task, .processing⟩] }
    | (_, redis) => { s with redis }
  | .dequeue .lite up now pick =>
    match SqliteQueue.dequeue json up now pick s.sqlite with
    | (.ok (some task), sqlite) =>
      { s with sqlite, held := s.held ++ [⟨.lite, task, .processing⟩] }
    | (_, sqlite) => { s with sqlite }
  | .updateImageRecord j dbUp size thumbWritten webpWritten =>
    match s.held[j]? with
    | some ⟨_, task, .processing⟩ =>
      if dbUp then
        { s with
          images := s.images.update (fun r => r.id == task.imageId)
            (Worker.setReady deps task size thumbWritten webpWritten) fun _ => rfl
          statusDue := s.statusDue.filter (·.imageId ≠ task.imageId) }
      else s
    | _ => s
  | .finish j outcome up now =>
    match s.held[j]? with
    | some ⟨.redis, task, .processing⟩ =>
      let (e, redis) := handleTaskResult outcome up task s.redis
      { s with redis }.settle j ⟨.redis, task, .processing⟩ e
    | some ⟨.lite, task, .processing⟩ =>
      if outcome = .elapsed then s
      else
        let (e, sqlite) := handleTask outcome up now task s.sqlite
        { s with sqlite }.settle j ⟨.lite, task, .processing⟩ e
    | _ => s
  | .handleDeadLetter j dbUp now => handleDeadLetter j dbUp now s
  | .recover up stale => { s with redis := s.redis.recoverStaleTasks up stale }

/-- A failure record of the task. -/
def RecordOf (task : TaskPayload) (u : UploadTask) : Prop :=
  u.imageId = task.imageId ∧ u.taskType = "all" ∧ u.status = "failed" ∧
    u.retryCount = task.retryCount + 1 ∧ u.maxRetries = task.maxRetries

instance (task : TaskPayload) (u : UploadTask) : Decidable (RecordOf task u) :=
  inferInstanceAs (Decidable (_ ∧ _))

/-- A worker is about to record the failure. -/
def ToRecord (s : State J) (task : TaskPayload) : Prop :=
  ∃ a ∈ s.held, a.task = task ∧ ∃ error, a.stage = .insertFailure error

/-- A worker is about to mark the image. -/
def ToMark (s : State J) (task : TaskPayload) : Prop :=
  ∃ a ∈ s.held, a.task = task ∧ a.stage ≠ .processing

/-- The image of the task is marked as failed. -/
def Marked (images : ImageTable) (task : TaskPayload) : Prop :=
  ∀ r ∈ images.rows, r.id = task.imageId → r.status = "failed"

/-- Every dead-lettered task has its record and its mark, or a worker is about to make them. -/
structure Recorded (s : State J) : Prop where
  record : ∀ task ∈ s.recordDue, (∃ u ∈ s.uploadTasks, RecordOf task u) ∨ ToRecord s task
  status : ∀ task ∈ s.statusDue, Marked s.images task ∨ ToMark s task

/-- The attempts whose `nack` reply nobody reads have retries left, or their image is gone. -/
def Heard (s : State J) : Action → Prop
  | .finish j outcome up _ => ∀ a ∈ s.held[j]?, a.stage = .processing →
      (a.mode = .redis ∧ outcome = .elapsed ∨ a.mode = .lite ∧ outcome ≠ .ok ∧ outcome ≠ .elapsed) →
      up = true → imageExists s.images a.task.imageId = true →
      (a.mode = .redis → s.redis.data a.task.taskId ≠ none) →
      a.task.retryCount < a.task.maxRetries
  | _ => True

instance (s : State J) : DecidablePred (Heard s)
  | .finish j _ _ _ => inferInstanceAs (Decidable (∀ a ∈ s.held[j]?, _))
  | .insertImage _ | .editImage _ _ _ | .deleteImages _ | .enqueue _ _ _ _ | .dequeue _ _ _ _
  | .updateImageRecord _ _ _ _ _ | .handleDeadLetter _ _ _ | .recover _ _ => isTrue trivial

/-- Besides, the images of what is due exist. -/
structure Consistent (s : State J) : Prop where
  recorded : Recorded s
  recordRow : ∀ task ∈ s.recordDue, imageExists s.images task.imageId = true
  statusRow : ∀ task ∈ s.statusDue, imageExists s.images task.imageId = true

variable {deps json}

theorem imageExists_iff {images : ImageTable} {id : Uuid} :
    imageExists images id = true ↔ ∃ r ∈ images.rows, r.id = id := by
  simp [imageExists]

/-- An update of other columns than the identifier keeps the images. -/
theorem imageExists_update {images : ImageTable} {p : Image → Bool} {f : Image → Image}
    (hf : ∀ r, (f r).keys = r.keys) {id : Uuid} (h : imageExists images id = true) :
    imageExists (images.update p f hf) id = true := by
  obtain ⟨r, hr, hid⟩ := imageExists_iff.mp h
  refine imageExists_iff.mpr ⟨_, Table.mem_update.mpr ⟨r, hr, rfl⟩, ?_⟩
  have hkeys : (f r).id = r.id := congrArg ImageKeys.id (hf r)
  split
  · rw [hkeys, hid]
  · exact hid

theorem handleTaskResult_deadLetter {outcome : Outcome} {up : Bool} {task : TaskPayload}
    {q : RedisQueue} (h : (handleTaskResult outcome up task q).1.reply = some (.ok .deadLetter)) :
    (∃ error, (handleTaskResult outcome up task q).1.next = some (.insertFailure error)) ∨
    outcome = .elapsed ∧ up = true ∧ q.data task.taskId ≠ none ∧
      task.maxRetries ≤ task.retryCount := by
  cases outcome with
  | ok => cases h
  | failed error =>
    refine .inl ⟨error, ?_⟩
    cases hn : q.nack up task.taskId task.retryCount task.maxRetries with
    | mk reply q' =>
      cases reply with
      | error e => simp [handleTaskResult, hn] at h
      | ok action =>
        cases action with
        | retry => simp [handleTaskResult, hn] at h
        | deadLetter => simp [handleTaskResult, hn]
  | elapsed =>
    simp only [handleTaskResult, Option.some.injEq] at h
    exact .inr ⟨rfl, RedisQueue.nack_eq_deadLetter h⟩

theorem handleTask_deadLetter {outcome : Outcome} {up : Bool} {now : Instant}
    {task : TaskPayload} {t : SqliteQueue.PendingTasks J}
    (h : (handleTask outcome up now task t).1.reply = some (.ok .deadLetter)) :
    outcome ≠ .ok ∧ up = true ∧ task.maxRetries ≤ task.retryCount := by
  have hne : outcome ≠ .ok := by
    rintro rfl
    simp [handleTask, LiteWorker.handleTask] at h
  refine ⟨hne, ?_⟩
  simp only [handleTask, LiteWorker.handleTask, bne_iff_ne.mpr hne, if_true,
    Option.some.injEq] at h
  exact SqliteQueue.nack_eq_deadLetter h

/-- A step that starts no dead letter keeps what is due, made or about to be made. -/
theorem Consistent.of_frame {s s' : State J} (h : Consistent s)
    (hrecord : ∀ task ∈ s'.recordDue, task ∈ s.recordDue)
    (hstatus : ∀ task ∈ s'.statusDue, task ∈ s.statusDue)
    (hheld : ∀ a ∈ s.held, a.stage ≠ .processing → a ∈ s'.held)
    (huploads : ∀ task ∈ s'.recordDue, ∀ u ∈ s.uploadTasks, RecordOf task u → u ∈ s'.uploadTasks)
    (hexists : ∀ task, task ∈ s'.recordDue ∨ task ∈ s'.statusDue →
      imageExists s.images task.imageId = true → imageExists s'.images task.imageId = true)
    (hmarked : ∀ task ∈ s'.statusDue, imageExists s.images task.imageId = true →
      Marked s.images task → Marked s'.images task) : Consistent s' where
  recorded.record task ht := by
    rcases h.recorded.record task (hrecord task ht) with ⟨u, hu, hrec⟩ | ⟨a, ha, hat, e, he⟩
    · exact .inl ⟨u, huploads task ht u hu hrec, hrec⟩
    · exact .inr ⟨a, hheld a ha (by simp [he]), hat, e, he⟩
  recorded.status task ht := by
    have ht' := hstatus task ht
    rcases h.recorded.status task ht' with hm | ⟨a, ha, hat, hne⟩
    · exact .inl (hmarked task ht (h.statusRow task ht') hm)
    · exact .inr ⟨a, hheld a ha hne, hat, hne⟩
  recordRow task ht := hexists task (.inl ht) (h.recordRow task (hrecord task ht))
  statusRow task ht := hexists task (.inr ht) (h.statusRow task (hstatus task ht))

namespace Consistent

variable {s : State J} (h : Consistent s)
include h

/-- New or edited images. -/
theorem images {images : ImageTable}
    (hexists : ∀ id, imageExists s.images id = true → imageExists images id = true)
    (hmarked : ∀ task, imageExists s.images task.imageId = true →
      Marked s.images task → Marked images task) : Consistent { s with images } :=
  h.of_frame (fun _ ht => ht) (fun _ ht => ht) (fun _ ha _ => ha) (fun _ _ _ hu _ => hu)
    (fun task _ he => hexists task.imageId he) (fun task _ he hm => hmarked task he hm)

theorem insertImage (r : Image) : Consistent (step deps json s (.insertImage r)) := by
  simp only [step]
  cases hins : s.images.insert r with
  | none => exact h
  | some images =>
    apply h.images
    · intro id hid
      obtain ⟨q, hq, hqid⟩ := imageExists_iff.mp hid
      exact imageExists_iff.mpr ⟨q, (Table.mem_of_insert hins).mpr (.inl hq), hqid⟩
    · intro task hex hm q hq hqid
      rcases (Table.mem_of_insert hins).mp hq with hq | rfl
      · exact hm q hq hqid
      · -- the identifier is taken
        obtain ⟨q', hq', hid'⟩ := imageExists_iff.mp hex
        exact absurd (.inl (hid'.trans hqid.symm)) (Table.not_clash_of_insert hins q' hq')

theorem editImage (id : Uuid) (originalName : String) (categoryId : Option Uuid) :
    Consistent (step deps json s (.editImage id originalName categoryId)) := by
  refine h.images (fun _ hex => imageExists_update (by exact fun _ => rfl) hex) ?_
  intro task _ hm r hr hid
  rcases Table.mem_update_iff.mp hr with ⟨hr, -⟩ | ⟨q, hq, -, rfl⟩
  · exact hm r hr hid
  · exact hm q hq hid

/-- Deleting an image deletes its records, and nothing is due for it any more. -/
theorem deleteImages (ids : List Uuid) :
    Consistent (step deps json s (.deleteImages ids)) := by
  refine h.of_frame (fun _ ht => List.mem_of_mem_filter ht) (fun _ ht => List.mem_of_mem_filter ht)
    (fun _ ha _ => ha) ?_ ?_ ?_
  · intro task ht u hu hrec
    refine List.mem_filter.mpr ⟨hu, ?_⟩
    rw [hrec.1]
    exact (List.mem_filter.mp ht).2
  · rintro task (ht | ht) -
    · exact (List.mem_filter.mp ht).2
    · exact (List.mem_filter.mp ht).2
  · exact fun task _ _ hm r hr hid => hm r (Table.mem_delete.mp hr).1 hid

/-- The queues take no part in what is due. -/
theorem queues (redis : RedisQueue) (sqlite : SqliteQueue.PendingTasks J) :
    Consistent { s with redis, sqlite } :=
  h.of_frame (fun _ ht => ht) (fun _ ht => ht) (fun _ ha _ => ha) (fun _ _ _ hu _ => hu)
    (fun _ _ he => he) (fun _ _ _ hm => hm)

theorem take (a : Attempt) : Consistent { s with held := s.held ++ [a] } :=
  h.of_frame (fun _ ht => ht) (fun _ ht => ht) (fun _ ha _ => List.mem_append_left _ ha)
    (fun _ _ _ hu _ => hu) (fun _ _ he => he) (fun _ _ _ hm => hm)

theorem dequeue (mode : Mode) (up : Bool) (now : Instant) (pick : ℕ) :
    Consistent (step deps json s (.dequeue mode up now pick)) := by
  cases mode with
  | redis =>
    simp only [step]
    split
    · rename_i task redis _
      exact (h.queues redis s.sqlite).take ⟨.redis, task, .processing⟩
    · exact h.queues _ s.sqlite
  | lite =>
    simp only [step]
    split
    · rename_i task sqlite _
      exact (h.queues s.redis sqlite).take ⟨.lite, task, .processing⟩
    · exact h.queues s.redis _

theorem updateImageRecord (j : ℕ) (dbUp : Bool) (size : ℤ × ℤ) (thumbWritten webpWritten : Bool) :
    Consistent (step deps json s (.updateImageRecord j dbUp size thumbWritten webpWritten)) := by
  simp only [step]
  split
  · split
    · rename_i mode task _ _
      refine h.of_frame (fun _ ht => ht) (fun _ ht => List.mem_of_mem_filter ht)
        (fun _ ha _ => ha) (fun _ _ _ hu _ => hu)
        (fun _ _ hex => imageExists_update (by exact fun _ => rfl) hex) ?_
      -- what is due concerns other images
      intro task' ht' _ hm r hr hid
      have hr' : r ∈ (s.images.update (fun r => r.id == task.imageId)
        (Worker.setReady deps task size thumbWritten webpWritten) fun _ => rfl).rows := hr
      rcases Table.mem_update_iff.mp hr' with ⟨hr, -⟩ | ⟨q, -, hqid, rfl⟩
      · exact hm r hr hid
      · have hne : task'.imageId ≠ task.imageId := by simpa using (List.mem_filter.mp ht').2
        exact absurd (hid.symm.trans (beq_iff_eq.mp hqid)) hne
    · exact h
  · exact h

omit h in
/-- Ending one attempt leaves those alone that are past the pipeline. -/
theorem mem_settled {j : ℕ} {a a' : Attempt} (hj : s.held[j]? = some a)
    (hproc : a.stage = .processing) (ha' : a' ∈ s.held) (hne : a'.stage ≠ .processing)
    (e : Ending) : a' ∈ (s.settle j a e).held := by
  obtain ⟨k, hk⟩ := List.mem_iff_getElem?.mp ha'
  have hkj : k ≠ j := by
    rintro rfl
    rw [hj] at hk
    cases hk
    exact hne hproc
  simp only [State.settle]
  split
  · rw [List.mem_iff_getElem?]
    exact ⟨k, by rw [List.getElem?_set_ne hkj.symm]; exact hk⟩
  · exact List.mem_eraseIdx_iff_getElem?.mpr ⟨k, hkj, hk⟩

omit h in
theorem mem_due {task t : TaskPayload} {reply : Option (Except QueueError NackAction)}
    (ht : t ∈ s.due task reply) :
    t = task ∧ reply = some (.ok .deadLetter) ∧ imageExists s.images task.imageId = true := by
  unfold State.due at ht
  split at ht
  · rename_i hdue
    exact ⟨List.mem_singleton.mp ht, hdue⟩
  · cases ht

/-- An attempt may end when what becomes due by it is what its worker does next. -/
theorem settle {j : ℕ} {a : Attempt} (hj : s.held[j]? = some a) (hproc : a.stage = .processing)
    (e : Ending)
    (hnext : ∀ t ∈ s.due a.task e.reply, ∃ error, e.next = some (.insertFailure error)) :
    Consistent (s.settle j a e) := by
  have hold : Consistent
      { s.settle j a e with recordDue := s.recordDue, statusDue := s.statusDue } :=
    h.of_frame (fun _ ht => ht) (fun _ ht => ht) (fun _ ha hne => mem_settled hj hproc ha hne e)
      (fun _ _ _ hu _ => hu) (fun _ _ he => he) (fun _ _ _ hm => hm)
  have hnew : ∀ t ∈ s.due a.task e.reply, ∃ a' ∈ (s.settle j a e).held, a'.task = t ∧
      ∃ error, a'.stage = .insertFailure error := by
    intro t ht
    obtain ⟨error, herror⟩ := hnext t ht
    refine ⟨{ a with stage := .insertFailure error }, ?_, (mem_due ht).1.symm, error, rfl⟩
    simp only [State.settle, herror]
    exact List.mem_iff_getElem?.mpr ⟨j, by
      rw [List.getElem?_set_self (List.getElem?_eq_some_iff.mp hj).1]⟩
  refine ⟨⟨?_, ?_⟩, ?_, ?_⟩
  · intro t ht
    rcases List.mem_append.mp ht with ht | ht
    · exact .inr (hnew t ht)
    · exact hold.recorded.record t ht
  · intro t ht
    rcases List.mem_append.mp ht with ht | ht
    · obtain ⟨a', ha', hat, error, he⟩ := hnew t ht
      exact .inr ⟨a', ha', hat, by simp [he]⟩
    · exact hold.recorded.status t ht
  · intro t ht
    rcases List.mem_append.mp ht with ht | ht
    · obtain ⟨rfl, -, hex⟩ := mem_due ht
      exact hex
    · exact hold.recordRow t ht
  · intro t ht
    rcases List.mem_append.mp ht with ht | ht
    · obtain ⟨rfl, -, hex⟩ := mem_due ht
      exact hex
    · exact hold.statusRow t ht

theorem finish (j : ℕ) (outcome : Outcome) (up : Bool) (now : Instant)
    (hg : Heard s (.finish j outcome up now)) :
    Consistent (step deps json s (.finish j outcome up now)) := by
  simp only [step]
  split
  · rename_i task hj
    refine (h.queues (handleTaskResult outcome up task s.redis).2 s.sqlite).settle hj rfl
      (handleTaskResult outcome up task s.redis).1 ?_
    intro t ht
    obtain ⟨-, hreply, hex⟩ := mem_due ht
    rcases handleTaskResult_deadLetter hreply with hnext | ⟨rfl, hup, hdata, hle⟩
    · exact hnext
    · have hlt := hg _ hj rfl (.inl ⟨rfl, rfl⟩) hup hex fun _ => hdata
      exact absurd hlt (not_lt.mpr hle)
  · rename_i task hj
    split
    · exact h
    · rename_i hne
      refine (h.queues s.redis (handleTask outcome up now task s.sqlite).2).settle hj rfl
        (handleTask outcome up now task s.sqlite).1 ?_
      intro t ht
      obtain ⟨-, hreply, hex⟩ := mem_due ht
      obtain ⟨hok, hup, hle⟩ := handleTask_deadLetter hreply
      have hlt := hg _ hj rfl (.inr ⟨rfl, hok, hne⟩) hup hex fun hm => (nomatch hm)
      exact absurd hlt (not_lt.mpr hle)
  · exact h

omit h in
/-- What some attempt is to do is done by the one whose statement is executed, or by another. -/
theorem held_or {Q : Prop} {P : Attempt → Prop} (hp : Q ∨ ∃ a ∈ s.held, P a) {j : ℕ} {a : Attempt}
    (hj : s.held[j]? = some a) :
    P a ∨ Q ∨ ∃ k a', k ≠ j ∧ s.held[k]? = some a' ∧ P a' := by
  rcases hp with hq | ⟨a', ha', hp⟩
  · exact .inr (.inl hq)
  · obtain ⟨k, hk⟩ := List.mem_iff_getElem?.mp ha'
    by_cases hkj : k = j
    · subst hkj
      cases hj.symm.trans hk
      exact .inl hp
    · exact .inr (.inr ⟨k, a', hkj, hk, hp⟩)

omit h in
/-- The other attempts stay in hand when one of them is replaced. -/
theorem mem_set {j k : ℕ} (hkj : k ≠ j) {a : Attempt} (hk : s.held[k]? = some a) (b : Attempt) :
    a ∈ s.held.set j b :=
  List.mem_iff_getElem?.mpr ⟨k, by rw [List.getElem?_set_ne hkj.symm, hk]⟩

theorem insertFailure {j : ℕ} {a : Attempt} (hj : s.held[j]? = some a) {error : String}
    (hstage : a.stage = .insertFailure error) (dbUp : Bool) (now : Instant) :
    Consistent (handleDeadLetter j dbUp now s) := by
  have hself : { a with stage := .markFailed } ∈ s.held.set j { a with stage := .markFailed } :=
    List.mem_iff_getElem?.mpr ⟨j, by
      rw [List.getElem?_set_self (List.getElem?_eq_some_iff.mp hj).1]⟩
  -- the mark is still to be made
  have hmark : ∀ task ∈ s.statusDue, Marked s.images task ∨
      ∃ a' ∈ s.held.set j { a with stage := .markFailed }, a'.task = task ∧
        a'.stage ≠ .processing := by
    intro task ht
    rcases held_or (h.recorded.status task ht) hj with ⟨rfl, -⟩ | hm | ⟨k, a', hkj, hk, hat, hne⟩
    · exact .inr ⟨_, hself, rfl, by simp⟩
    · exact .inl hm
    · exact .inr ⟨a', mem_set hkj hk _, hat, hne⟩
  simp only [handleDeadLetter, hj, hstage]
  cases dbUp with
  | true =>
    rw [if_pos rfl]
    split
    · refine ⟨⟨?_, hmark⟩, h.recordRow, h.statusRow⟩
      intro task ht
      rcases held_or (h.recorded.record task ht) hj with ⟨rfl, -⟩ | ⟨u, hu, hrec⟩ |
        ⟨k, a', hkj, hk, hat, he⟩
      · exact .inl ⟨failureRecord a.task error now, by simp, rfl, rfl, rfl, rfl, rfl⟩
      · exact .inl ⟨u, List.mem_append_left _ hu, hrec⟩
      · exact .inr ⟨a', mem_set hkj hk _, hat, he⟩
    · rename_i hex
      refine ⟨⟨?_, hmark⟩, h.recordRow, h.statusRow⟩
      intro task ht
      rcases held_or (h.recorded.record task ht) hj with ⟨rfl, -⟩ | hu | ⟨k, a', hkj, hk, hat, he⟩
      · exact absurd (h.recordRow _ ht) hex
      · exact .inl hu
      · exact .inr ⟨a', mem_set hkj hk _, hat, he⟩
  | false =>
    simp only [Bool.false_eq_true, if_false]
    refine ⟨⟨?_, hmark⟩, fun task ht => h.recordRow task (List.mem_of_mem_filter ht), h.statusRow⟩
    intro task ht
    have hne : task ≠ a.task := by simpa using (List.mem_filter.mp ht).2
    rcases held_or (h.recorded.record task (List.mem_of_mem_filter ht)) hj with ⟨heq, -⟩ | hu |
      ⟨k, a', hkj, hk, hat, he⟩
    · exact absurd heq.symm hne
    · exact .inl hu
    · exact .inr ⟨a', mem_set hkj hk _, hat, he⟩

theorem markFailed {j : ℕ} {a : Attempt} (hj : s.held[j]? = some a)
    (hstage : a.stage = .markFailed) (dbUp : Bool) (now : Instant) :
    Consistent (handleDeadLetter j dbUp now s) := by
  -- the record was made before
  have hrecord : ∀ task ∈ s.recordDue, (∃ u ∈ s.uploadTasks, RecordOf task u) ∨
      ∃ a' ∈ s.held.eraseIdx j, a'.task = task ∧ ∃ error, a'.stage = .insertFailure error := by
    intro task ht
    rcases h.recorded.record task ht with hu | ⟨a', ha', hat, error, he⟩
    · exact .inl hu
    · obtain ⟨k, hk⟩ := List.mem_iff_getElem?.mp ha'
      refine .inr ⟨a', List.mem_eraseIdx_iff_getElem?.mpr ⟨k, ?_, hk⟩, hat, error, he⟩
      rintro rfl
      rw [hj] at hk
      cases hk
      rw [hstage] at he
      cases he
  simp only [handleDeadLetter, hj, hstage]
  cases dbUp with
  | true =>
    rw [if_pos rfl]
    refine ⟨⟨hrecord, ?_⟩, fun task ht => imageExists_update (by exact fun _ => rfl)
      (h.recordRow task ht), fun task ht => imageExists_update (by exact fun _ => rfl)
      (h.statusRow task ht)⟩
    intro task ht
    have hrow : ∀ r ∈ (s.images.update (fun r => r.id == a.task.imageId) Worker.setFailed
        Worker.setFailed_keys).rows, r.status = "failed" ∨
        r ∈ s.images.rows ∧ r.id ≠ a.task.imageId := by
      intro r hr
      rcases Table.mem_update_iff.mp hr with ⟨hr, hne⟩ | ⟨q, -, -, rfl⟩
      · exact .inr ⟨hr, beq_eq_false_iff_ne.mp hne⟩
      · exact .inl rfl
    rcases held_or (h.recorded.status task ht) hj with ⟨rfl, -⟩ | hm | ⟨k, a', hkj, hk, hat, hne⟩
    · refine .inl fun r hr hid => ?_
      rcases hrow r hr with hs | ⟨-, hne⟩
      · exact hs
      · exact absurd hid hne
    · refine .inl fun r hr hid => ?_
      rcases hrow r hr with hs | ⟨hr, -⟩
      · exact hs
      · exact hm r hr hid
    · exact .inr ⟨a', List.mem_eraseIdx_iff_getElem?.mpr ⟨k, hkj, hk⟩, hat, hne⟩
  | false =>
    simp only [Bool.false_eq_true, if_false]
    refine ⟨⟨hrecord, ?_⟩, h.recordRow, fun task ht => h.statusRow task (List.mem_of_mem_filter ht)⟩
    intro task ht
    have hne : task ≠ a.task := by simpa using (List.mem_filter.mp ht).2
    rcases held_or (h.recorded.status task (List.mem_of_mem_filter ht)) hj with ⟨heq, -⟩ | hm |
      ⟨k, a', hkj, hk, hat, hs⟩
    · exact absurd heq.symm hne
    · exact .inl hm
    · exact .inr ⟨a', List.mem_eraseIdx_iff_getElem?.mpr ⟨k, hkj, hk⟩, hat, hs⟩

theorem step (a : Action) (hg : Heard s a) : Consistent (DeadLetter.step deps json s a) := by
  cases a with
  | insertImage r => exact h.insertImage r
  | editImage id originalName categoryId => exact h.editImage id originalName categoryId
  | deleteImages ids => exact h.deleteImages ids
  | enqueue mode up now task =>
    cases mode with
    | redis =>
      simp only [DeadLetter.step]
      split
      · exact h.queues _ s.sqlite
      · exact h
    | lite => exact h.queues s.redis _
  | dequeue mode up now pick => exact h.dequeue mode up now pick
  | updateImageRecord j dbUp size thumbWritten webpWritten =>
    exact h.updateImageRecord j dbUp size thumbWritten webpWritten
  | finish j outcome up now => exact h.finish j outcome up now hg
  | handleDeadLetter j dbUp now =>
    cases hj : s.held[j]? with
    | none => simpa only [DeadLetter.step, handleDeadLetter, hj] using h
    | some a =>
      cases hstage : a.stage with
      | processing => simpa only [DeadLetter.step, handleDeadLetter, hj, hstage] using h
      | insertFailure error => exact h.insertFailure hj hstage dbUp now
      | markFailed => exact h.markFailed hj hstage dbUp now
  | recover up stale => exact h.queues _ s.sqlite

end Consistent

theorem not_recorded {s : State J} {t : TaskPayload} (hdue : t ∈ s.recordDue)
    (huploads : s.uploadTasks = []) (hheld : s.held = []) : ¬ Recorded s := by
  intro h
  rcases h.record t hdue with ⟨u, hu, -⟩ | ⟨a, ha, -⟩
  · rw [huploads] at hu
    cases hu
  · rw [hheld] at ha
    cases ha

/-- Nothing in hand and nothing due. -/
def start (images : ImageTable) (uploadTasks : List UploadTask) (redis : RedisQueue)
    (sqlite : SqliteQueue.PendingTasks J) : State J :=
  ⟨images, uploadTasks, redis, sqlite, [], [], []⟩

theorem consistent_start (images : ImageTable) (uploadTasks : List UploadTask)
    (redis : RedisQueue) (sqlite : SqliteQueue.PendingTasks J) :
    Consistent (start images uploadTasks redis sqlite) where
  recorded := ⟨fun _ ht => absurd ht List.not_mem_nil, fun _ ht => absurd ht List.not_mem_nil⟩
  recordRow _ ht := absurd ht List.not_mem_nil
  statusRow _ ht := absurd ht List.not_mem_nil

/-- Dead letters are recorded in every run in which no unheard attempt is the last one. -/
theorem dead_letters_recorded (deps : Worker.Deps Unit) (json : Codec TaskPayload J)
    (images : ImageTable) (uploadTasks : List UploadTask) (redis : RedisQueue)
    (sqlite : SqliteQueue.PendingTasks J) (as : List Action)
    (hheard : AllSteps (step deps json) Heard (start images uploadTasks redis sqlite) as) :
    AllStates (step deps json) Recorded (start images uploadTasks redis sqlite) as :=
  (allStates_of_guarded (fun _ a h hg => h.step a hg)
    (consistent_start images uploadTasks redis sqlite) hheard).mono fun _ h => h.recorded

/-- A task on its last attempt. -/
def lastTask : TaskPayload := { Worker.githubTask with retryCount := 3 }

/-- An image whose last attempt ends; whatever statement follows is executed. -/
def lastAttempt (mode : Mode) (outcome : Outcome) : List Action :=
  [.insertImage Worker.githubImage, .enqueue mode true 0 lastTask, .dequeue mode true 1 0,
    .finish 0 outcome true 2, .handleDeadLetter 0 true 3, .handleDeadLetter 0 true 4]

theorem dead_letters_recorded_failed :
    AllStates (step Worker.pngWorker Codec.self) Recorded
      (start default [] RedisQueue.empty Table.empty) (lastAttempt .redis (.failed "boom")) :=
  dead_letters_recorded Worker.pngWorker Codec.self default [] RedisQueue.empty Table.empty
    (lastAttempt .redis (.failed "boom")) (by decide +kernel)

/-- Nothing is recorded after a timeout of Redis mode, nor after any failure of lite mode. -/
theorem dead_letters_unrecorded :
    ¬ AllStates (step Worker.pngWorker Codec.self) Recorded
      (start default [] RedisQueue.empty Table.empty) (lastAttempt .redis .elapsed) ∧
    ¬ AllStates (step Worker.pngWorker Codec.self) Recorded
      (start default [] RedisQueue.empty Table.empty) (lastAttempt .lite (.failed "boom")) := by
  constructor
  · exact fun h => not_recorded (t := lastTask) (by decide +kernel) (by decide +kernel)
      (by decide +kernel) h.last
  · exact fun h => not_recorded (t := lastTask) (by decide +kernel) (by decide +kernel)
      (by decide +kernel) h.last

end PicHost.DeadLetter
