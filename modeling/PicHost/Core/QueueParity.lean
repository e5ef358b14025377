import PicHost.Api.LiteWorker
import PicHost.Core.RedisQueue

/-!
# The two queues side by side

One client makes the same calls to both queues. Both execute every command, and nobody
recovers stale tasks.
-/

namespace PicHost.QueueParity

open SqliteQueue KeyedTable Serialised LabelledRun LiteWorker

/-- `pick` is the database's choice among rows created at one time. -/
inductive Call
  | enqueue (now : Instant) (task : TaskPayload)
  | dequeue (now : Instant) (pick : ℕ)
  | ack (taskId : Uuid)
  | nack (now : Instant) (taskId : Uuid) (retryCount maxRetries : ℤ)
deriving DecidableEq

inductive Reply
  | enqueued (r : Except QueueError Unit)
  | dequeued (r : Except QueueError (Option TaskPayload))
  | acked (r : Except QueueError Unit)
  | nacked (r : Except QueueError NackAction)
deriving DecidableEq

variable {J : Type} (json : Codec TaskPayload J)

def callSqlite (c : Call) (t : PendingTasks J) : Reply × PendingTasks J :=
  match c with
  | .enqueue now task => (SqliteQueue.enqueue json true now task t).map .enqueued id
  | .dequeue now pick => (SqliteQueue.dequeue json true now pick t).map .dequeued id
  | .ack taskId => (SqliteQueue.ack true taskId t).map .acked id
  | .nack now taskId retryCount maxRetries =>
    (SqliteQueue.nack true now taskId retryCount maxRetries t).map .nacked id

def callRedis (c : Call) (q : RedisQueue) : Reply × RedisQueue :=
  match c with
  | .enqueue _ task => (.enqueued (.ok ()), q.enqueueTask task)
  | .dequeue _ _ => (q.dequeueTask true).map .dequeued id
  | .ack taskId => (q.ackTask true taskId).map .acked id
  | .nack _ taskId retryCount maxRetries =>
    (q.nack true taskId retryCount maxRetries).map .nacked id

/-- The replies of a queue to a sequence of calls. -/
def replies {σ : Type} (call : Call → σ → Reply × σ) : σ → List Call → List Reply
  | _, [] => []
  | s, c :: cs => (call c s).1 :: replies call (call c s).2 cs

/-- Both queues; `enqueued` is history. -/
structure State (J : Type) where
  sqlite : PendingTasks J
  redis : RedisQueue
  enqueued : List (Instant × TaskPayload)

def start : State J := ⟨Table.empty, RedisQueue.empty, []⟩

def step (s : State J) (c : Call) : State J where
  sqlite := (callSqlite json c s.sqlite).2
  redis := (callRedis c s.redis).2
  enqueued := match c with
    | .enqueue now task => (now, task) :: s.enqueued
    | _ => s.enqueued

/-- Tasks are enqueued once each and at distinct times. -/
def Distinct (s : State J) : Call → Prop
  | .enqueue now task => ∀ e ∈ s.enqueued, e.1 ≠ now ∧ e.2.taskId ≠ task.taskId
  | _ => True

/-- Where the queues go the same way. A task that is handed out is the first enqueued of those
that wait and keeps the counts it was enqueued with: no retry came between. Tasks that wait are
neither acknowledged nor refused; tasks that are refused were enqueued, and are not put back
once they are acknowledged. -/
def Agreeing (s : State J) : Call → Prop
  | .enqueue _ _ => True
  | .dequeue _ _ => ∀ taskId ∈ s.redis.pending.getLast?, ∃ e ∈ s.enqueued,
      e.2.taskId = taskId ∧ s.redis.data taskId = some e.2 ∧
      ∀ e' ∈ s.enqueued, e'.2.taskId ∈ s.redis.pending → e.1 ≤ e'.1
  | .ack taskId => taskId ∉ s.redis.pending
  | .nack _ taskId retryCount maxRetries => (∃ e ∈ s.enqueued, e.2.taskId = taskId) ∧
      taskId ∉ s.redis.pending ∧
      (retryCount < maxRetries → ∃ r ∈ s.sqlite.rows, r.taskId = taskId.toText)

instance (s : State J) : DecidablePred (Distinct s)
  | .enqueue _ _ => inferInstanceAs (Decidable (∀ e ∈ s.enqueued, _))
  | .dequeue _ _ | .ack _ | .nack _ _ _ _ => isTrue trivial

instance (s : State J) : DecidablePred (Agreeing s)
  | .enqueue _ _ => isTrue trivial
  | .dequeue _ _ => Option.decidableForallMem s.redis.pending.getLast?
  | .ack _ => inferInstanceAs (Decidable (¬ _))
  | .nack _ _ _ _ => inferInstanceAs (Decidable (_ ∧ _ ∧ _))

/-- A row and the task it was enqueued for. -/
def RowOf (r : PendingTask J) (e : Instant × TaskPayload) : Prop :=
  r.taskId = e.2.taskId.toText ∧ r.payloadJson = json.encode e.2 ∧ r.createdAt = e.1 ∧
    (r.status = .pending → r.claimedAt = none)

/-- Some row of the task waits. -/
def PendingRow (t : PendingTasks J) (taskId : String) : Prop :=
  ∃ r ∈ t.rows, r.taskId = taskId ∧ r.status = .pending

/-- The same tasks wait in both queues. -/
structure Matched (s : State J) : Prop where
  distinct : s.enqueued.Pairwise fun e e' => e'.1 ≠ e.1 ∧ e'.2.taskId ≠ e.2.taskId
  row : ∀ r ∈ s.sqlite.rows, ∃ e ∈ s.enqueued, RowOf json r e
  waiting : ∀ taskId, taskId ∈ s.redis.pending ↔ PendingRow s.sqlite taskId.toText
  nodup : s.redis.pending.Nodup
  data : ∀ e ∈ s.enqueued, ∃ task, s.redis.data e.2.taskId = some task ∧
    task.taskId = e.2.taskId

variable {json}

theorem pendingRow_congr {k : String} {t t' : PendingTasks J} (ht : SameBut k t t')
    {taskId : String} (hne : taskId ≠ k) : PendingRow t' taskId ↔ PendingRow t taskId := by
  constructor
  · rintro ⟨r, hr, hid, hs⟩
    exact ⟨r, (ht r (hid ▸ hne)).mp hr, hid, hs⟩
  · rintro ⟨r, hr, hid, hs⟩
    exact ⟨r, (ht r (hid ▸ hne)).mpr hr, hid, hs⟩

/-- Whether the rewritten row of a task waits. -/
theorem pendingRow_update {t : PendingTasks J} {k : String} (f : PendingTask J → PendingTask J)
    (hf : ∀ r, (f r).taskId = r.taskId) :
    PendingRow (t.update (fun r => r.taskId == k) f hf) k ↔
      ∃ r ∈ t.rows, r.taskId = k ∧ (f r).status = .pending := by
  constructor
  · rintro ⟨r, hr, hid, hs⟩
    obtain ⟨q, hq, hqid, rfl⟩ := (mem_update_self t f hf hid).mp hr
    exact ⟨q, hq, hqid, hs⟩
  · rintro ⟨q, hq, hqid, hs⟩
    have hid : (f q).taskId = k := (hf q).trans hqid
    exact ⟨f q, (mem_update_self t f hf hid).mpr ⟨q, hq, hqid, rfl⟩, hid, hs⟩

theorem RowOf.claim {r : PendingTask J} {e : Instant × TaskPayload} (h : RowOf json r e)
    (now : Instant) : RowOf json (r.claim now) e :=
  ⟨h.1, h.2.1, h.2.2.1, fun hs => (nomatch hs)⟩

theorem RowOf.release {r : PendingTask J} {e : Instant × TaskPayload} (h : RowOf json r e)
    (now : Instant) (retryCount : ℤ) : RowOf json (r.release now retryCount) e :=
  ⟨h.1, h.2.1, h.2.2.1, fun _ => rfl⟩

theorem RowOf.kill {r : PendingTask J} {e : Instant × TaskPayload} (h : RowOf json r e)
    (now : Instant) : RowOf json (r.kill now) e :=
  ⟨h.1, h.2.1, h.2.2.1, fun hs => (nomatch hs)⟩

/-- The INSERT of a task whose key is free. -/
theorem callSqlite_enqueue {now : Instant} {task : TaskPayload} {t : PendingTasks J}
    (hfree : ∀ r ∈ t.rows, r.taskId ≠ task.taskId.toText) :
    ∃ t', callSqlite json (.enqueue now task) t = (.enqueued (.ok ()), t') ∧
      ∀ r, r ∈ t'.rows ↔ r ∈ t.rows ∨ r = newTask json now task := by
  rcases enqueue_cases json true now task t with he | ⟨t', he, -, hrows⟩
  · -- the key is unused
    exfalso
    unfold SqliteQueue.enqueue at he
    rw [if_pos rfl] at he
    split at he
    · cases he
    · rename_i hins
      obtain ⟨r, hr, hid⟩ := Table.insert_eq_none.mp hins
      exact hfree r hr hid
  · refine ⟨t', by simp [callSqlite, he], fun r => ?_⟩
    rw [hrows, List.mem_append, List.mem_singleton]

theorem matched_start : Matched json (start : State J) where
  distinct := List.Pairwise.nil
  row _ hr := absurd hr List.not_mem_nil
  waiting taskId := by simp [start, RedisQueue.empty, Table.empty, PendingRow]
  nodup := List.nodup_nil
  data _ he := absurd he List.not_mem_nil

namespace Matched

variable {s : State J} (h : Matched json s)
include h

/-- Two tasks differ in their times and in their identifiers. -/
theorem apart {e e' : Instant × TaskPayload} (he : e ∈ s.enqueued) (he' : e' ∈ s.enqueued)
    (hne : e ≠ e') : e.1 ≠ e'.1 ∧ e.2.taskId ≠ e'.2.taskId := by
  have hpair : s.enqueued.Pairwise fun e e' => e.1 ≠ e'.1 ∧ e.2.taskId ≠ e'.2.taskId :=
    h.distinct.imp fun hne => ⟨hne.1.symm, hne.2.symm⟩
  have : Std.Symm fun e e' : Instant × TaskPayload => e.1 ≠ e'.1 ∧ e.2.taskId ≠ e'.2.taskId :=
    ⟨fun _ _ hxy => ⟨hxy.1.symm, hxy.2.symm⟩⟩
  exact hpair.forall he he' hne

theorem eq_of_taskId {e e' : Instant × TaskPayload} (he : e ∈ s.enqueued) (he' : e' ∈ s.enqueued)
    (hid : e.2.taskId = e'.2.taskId) : e = e' := by
  by_contra hne
  exact (h.apart he he' hne).2 hid

theorem eq_of_time {e e' : Instant × TaskPayload} (he : e ∈ s.enqueued) (he' : e' ∈ s.enqueued)
    (htime : e.1 = e'.1) : e = e' := by
  by_contra hne
  exact (h.apart he he' hne).1 htime

theorem mem_of_pending {r : PendingTask J} (hr : r ∈ s.sqlite.rows) (hs : r.status = .pending)
    {e : Instant × TaskPayload} (hre : RowOf json r e) : e.2.taskId ∈ s.redis.pending :=
  (h.waiting _).mpr ⟨r, hr, hre.1, hs⟩

/-- The row of the task enqueued first is the one the subselect finds. -/
theorem nextPending_eq {e : Instant × TaskPayload} (he : e ∈ s.enqueued)
    (hmem : e.2.taskId ∈ s.redis.pending)
    (hfirst : ∀ e' ∈ s.enqueued, e'.2.taskId ∈ s.redis.pending → e.1 ≤ e'.1) (pick : ℕ) :
    ∃ r, nextPending pick s.sqlite = some r ∧ RowOf json r e := by
  obtain ⟨r, hr, hid, hs⟩ := (h.waiting _).mp hmem
  have hre : RowOf json r e := by
    obtain ⟨e', he', hre'⟩ := h.row r hr
    rwa [h.eq_of_taskId he he' (Uuid.toText_injective (hid.symm.trans hre'.1))]
  refine ⟨r, ?_, hre⟩
  let p : PendingTask J → Bool := fun r => r.status == .pending && r.claimedAt.isNone
  let oldest := (s.sqlite.select p).filter fun r =>
    (s.sqlite.select p).all fun q => decide (r.createdAt ≤ q.createdAt)
  have hselect : ∀ q, q ∈ s.sqlite.select p → ∃ e' ∈ s.enqueued, RowOf json q e' ∧
      e'.2.taskId ∈ s.redis.pending := by
    intro q hq
    obtain ⟨hqr, hqp⟩ := Table.mem_select.mp hq
    simp only [p, Bool.and_eq_true, beq_iff_eq] at hqp
    obtain ⟨e', he', hqe⟩ := h.row q hqr
    exact ⟨e', he', hqe, h.mem_of_pending hqr hqp.1 hqe⟩
  have hrp : r ∈ s.sqlite.select p :=
    Table.mem_select.mpr ⟨hr, by simp [p, hs, hre.2.2.2 hs]⟩
  have hmin : r ∈ oldest := by
    refine List.mem_filter.mpr ⟨hrp, List.all_eq_true.mpr fun q hq => ?_⟩
    obtain ⟨e', he', hqe, hqm⟩ := hselect q hq
    rw [hre.2.2.1, hqe.2.2.1]
    exact decide_eq_true (hfirst e' he' hqm)
  have honly : ∀ q ∈ oldest, q = r := by
    intro q hq
    obtain ⟨hqs, hqall⟩ := List.mem_filter.mp hq
    obtain ⟨e', he', hqe, hqm⟩ := hselect q hqs
    -- both are oldest, so they were created at one time and stand for one task
    have hqr : q.createdAt ≤ r.createdAt := of_decide_eq_true (List.all_eq_true.mp hqall r hrp)
    have hle := hfirst e' he' hqm
    rw [hre.2.2.1, hqe.2.2.1] at hqr
    have hee := h.eq_of_time he he' (le_antisymm hle hqr)
    subst hee
    exact row_unique (Table.mem_select.mp hqs).1 hr (hqe.1.trans hre.1.symm)
  have hlt : pick % oldest.length < oldest.length :=
    Nat.mod_lt _ (List.length_pos_of_mem hmin)
  show oldest[pick % oldest.length]? = some r
  rw [List.getElem?_eq_getElem hlt, honly _ (List.getElem_mem hlt)]

theorem nextPending_none (hempty : s.redis.pending = []) (pick : ℕ) :
    nextPending pick s.sqlite = none := by
  cases hn : nextPending pick s.sqlite with
  | none => rfl
  | some r =>
    obtain ⟨hr, hs⟩ := nextPending_mem hn
    obtain ⟨e, -, hre⟩ := h.row r hr
    have hmem := h.mem_of_pending hr hs hre
    rw [hempty] at hmem
    cases hmem

theorem row_free {now : Instant} {task : TaskPayload} (hd : Distinct s (.enqueue now task)) :
    ∀ r ∈ s.sqlite.rows, r.taskId ≠ task.taskId.toText := by
  intro r hr hid
  obtain ⟨e, he, hre, -⟩ := h.row r hr
  exact (hd e he).2 (Uuid.toText_injective (hre.symm.trans hid))

theorem not_pending_of_free {taskId : Uuid}
    (hfree : ∀ r ∈ s.sqlite.rows, r.taskId ≠ taskId.toText) : taskId ∉ s.redis.pending := by
  intro hmem
  obtain ⟨r, hr, hid, -⟩ := (h.waiting _).mp hmem
  exact hfree r hr hid

/-- After a new row the same tasks wait in both queues. -/
theorem waiting_enqueue {now : Instant} {task : TaskPayload} {t : PendingTasks J}
    (hrows : ∀ r, r ∈ t.rows ↔ r ∈ s.sqlite.rows ∨ r = newTask json now task) (taskId : Uuid) :
    taskId ∈ task.taskId :: s.redis.pending ↔ PendingRow t taskId.toText := by
  rw [List.mem_cons, h.waiting taskId]
  constructor
  · rintro (rfl | ⟨r, hr, hid⟩)
    · exact ⟨_, (hrows _).mpr (.inr rfl), rfl, rfl⟩
    · exact ⟨r, (hrows _).mpr (.inl hr), hid⟩
  · rintro ⟨r, hr, hid⟩
    rcases (hrows r).mp hr with hr | rfl
    · exact .inr ⟨r, hr, hid⟩
    · exact .inl (Uuid.toText_injective hid.1.symm)

theorem enqueue (now : Instant) (task : TaskPayload) (hd : Distinct s (.enqueue now task)) :
    (callSqlite json (.enqueue now task) s.sqlite).1 =
      (callRedis (.enqueue now task) s.redis).1 ∧
    Matched json (step json s (.enqueue now task)) := by
  have hfree := h.row_free hd
  obtain ⟨t, hsq, hrows⟩ := callSqlite_enqueue hfree
  refine ⟨by rw [hsq]; rfl, ?_, ?_, ?_, ?_, ?_⟩
  · exact List.pairwise_cons.mpr ⟨fun e he => hd e he, h.distinct⟩
  · intro r hr
    simp only [step, hsq] at hr
    rcases (hrows r).mp hr with hr | rfl
    · obtain ⟨e, he, hre⟩ := h.row r hr
      exact ⟨e, List.mem_cons_of_mem _ he, hre⟩
    · exact ⟨(now, task), List.mem_cons_self, rfl, rfl, rfl, fun _ => rfl⟩
  · intro taskId
    simp only [step, hsq, callRedis, RedisQueue.enqueueTask]
    exact h.waiting_enqueue hrows taskId
  · exact List.nodup_cons.mpr ⟨h.not_pending_of_free hfree, h.nodup⟩
  · intro e he
    simp only [step, callRedis, RedisQueue.enqueueTask]
    rcases List.mem_cons.mp he with rfl | he
    · exact ⟨task, Function.update_self .., rfl⟩
    · rw [Function.update_of_ne (hd e he).2]
      exact h.data e he

/-- Rows that are rewritten in other columns stand for the same tasks. -/
theorem row_update {k : String} (f : PendingTask J → PendingTask J)
    {hf : ∀ r, (f r).taskId = r.taskId}
    (hrow : ∀ r e, RowOf json r e → RowOf json (f r) e) {r : PendingTask J}
    (hr : r ∈ (s.sqlite.update (fun r => r.taskId == k) f hf).rows) :
    ∃ e ∈ s.enqueued, RowOf json r e := by
  rcases Table.mem_update_iff.mp hr with ⟨hr, -⟩ | ⟨q, hq, -, rfl⟩
  · exact h.row r hr
  · obtain ⟨e, he, hre⟩ := h.row q hq
    exact ⟨e, he, hrow q e hre⟩

theorem dequeue (now : Instant) (pick : ℕ) (hg : Agreeing s (.dequeue now pick)) :
    (callSqlite json (.dequeue now pick) s.sqlite).1 =
      (callRedis (.dequeue now pick) s.redis).1 ∧
    Matched json (step json s (.dequeue now pick)) := by
  cases hlast : s.redis.pending.getLast? with
  | none =>
    have hredis : callRedis (.dequeue now pick) s.redis = (.dequeued (.ok none), s.redis) := by
      simp [callRedis, RedisQueue.dequeueTask, hlast]
    have hsqlite : callSqlite json (.dequeue now pick) s.sqlite =
        (.dequeued (.ok none), s.sqlite) := by
      simp [callSqlite, SqliteQueue.dequeue,
        h.nextPending_none (List.getLast?_eq_none_iff.mp hlast)]
    refine ⟨by rw [hredis, hsqlite], ?_⟩
    simpa only [step, hredis, hsqlite] using h
  | some taskId =>
    obtain ⟨ids, hids⟩ := List.getLast?_eq_some_iff.mp hlast
    have hmem : taskId ∈ s.redis.pending := by rw [hids]; simp
    obtain ⟨e, he, rfl, hdata, hfirst⟩ := hg taskId hlast
    obtain ⟨r, hn, hre⟩ := h.nextPending_eq he hmem hfirst pick
    have hredis : callRedis (.dequeue now pick) s.redis = (.dequeued (.ok (some e.2)),
        { s.redis with
          pending := s.redis.pending.dropLast
          processing := e.2.taskId :: s.redis.processing }) := by
      simp [callRedis, RedisQueue.dequeueTask, hlast, hdata]
    have hsqlite : callSqlite json (.dequeue now pick) s.sqlite = (.dequeued (.ok (some e.2)),
        s.sqlite.update (fun q => q.taskId == r.taskId) (PendingTask.claim now) fun _ => rfl) := by
      simp [callSqlite, SqliteQueue.dequeue, hn, hre.2.1]
    have hnodup := h.nodup
    rw [hids, List.nodup_append] at hnodup
    refine ⟨by rw [hredis, hsqlite], h.distinct, ?_, ?_, ?_, ?_⟩
    · intro q hq
      simp only [step, hsqlite] at hq
      exact h.row_update (PendingTask.claim now) (fun q e hqe => hqe.claim now) hq
    · intro taskId
      simp only [step, hredis, hsqlite]
      by_cases hid : taskId = e.2.taskId
      · -- the task handed out waits no longer
        subst hid
        apply iff_of_false
        · rw [hids, List.dropLast_concat]
          exact fun hin => hnodup.2.2 _ hin _ (List.mem_singleton_self _) rfl
        · rw [← hre.1]
          intro hrow
          obtain ⟨q, -, -, hqs⟩ := (pendingRow_update _ _).mp hrow
          cases hqs
      · have hne : taskId.toText ≠ r.taskId := by
          rw [hre.1]
          exact fun heq => hid (Uuid.toText_injective heq)
        rw [pendingRow_congr (sameBut_update r.taskId _ (PendingTask.claim now) fun _ => rfl) hne,
          ← h.waiting, hids, List.dropLast_concat, List.mem_append, List.mem_singleton]
        simp [hid]
    · simp only [step, hredis]
      rw [hids, List.dropLast_concat]
      exact hnodup.1
    · intro e' he'
      simp only [step, hredis]
      exact h.data e' he'

theorem ack (taskId : Uuid) (hg : Agreeing s (.ack taskId)) :
    (callSqlite json (.ack taskId) s.sqlite).1 = (callRedis (.ack taskId) s.redis).1 ∧
    Matched json (step json s (.ack taskId)) := by
  refine ⟨rfl, h.distinct, ?_, ?_, h.nodup, h.data⟩
  · intro r hr
    exact h.row r (Table.mem_delete.mp hr).1
  · intro taskId'
    by_cases hid : taskId' = taskId
    · subst hid
      apply iff_of_false hg
      rintro ⟨r, hr, hrid, -⟩
      exact beq_eq_false_iff_ne.mp (Table.mem_delete.mp hr).2 hrid
    · exact (h.waiting taskId').trans (pendingRow_congr (sameBut_delete taskId.toText s.sqlite)
        fun heq => hid (Uuid.toText_injective heq)).symm

/-- A retry puts the task back in both queues. -/
theorem nackRetry (now : Instant) {taskId : Uuid} {retryCount maxRetries : ℤ}
    (hlt : retryCount < maxRetries) (hg : Agreeing s (.nack now taskId retryCount maxRetries)) :
    (callSqlite json (.nack now taskId retryCount maxRetries) s.sqlite).1 =
      (callRedis (.nack now taskId retryCount maxRetries) s.redis).1 ∧
    Matched json (step json s (.nack now taskId retryCount maxRetries)) := by
  obtain ⟨⟨e, he, rfl⟩, hnot, hlive⟩ := hg
  obtain ⟨task, hdata, hid⟩ := h.data e he
  have hredis : callRedis (.nack now e.2.taskId retryCount maxRetries) s.redis =
      (.nacked (.ok .retry),
        { s.redis with
          processing := s.redis.processing.erase e.2.taskId
          data := Function.update s.redis.data e.2.taskId
            (some { task with retryCount := retryCount + 1, maxRetries })
          pending := e.2.taskId :: s.redis.pending }) := by
    simp [callRedis, RedisQueue.nack, RedisQueue.nackTask, hdata, hid, hlt]
  have hsqlite : callSqlite json (.nack now e.2.taskId retryCount maxRetries) s.sqlite =
      (.nacked (.ok .retry), s.sqlite.update (fun r => r.taskId == e.2.taskId.toText)
        (PendingTask.release now retryCount) fun _ => rfl) := by
    simp [callSqlite, SqliteQueue.nack, hlt]
  refine ⟨by rw [hredis, hsqlite], h.distinct, ?_, ?_, ?_, ?_⟩
  · intro q hq
    simp only [step, hsqlite] at hq
    exact h.row_update (PendingTask.release now retryCount)
      (fun q e hqe => hqe.release now retryCount) hq
  · intro taskId
    simp only [step, hredis, hsqlite]
    by_cases hid : taskId = e.2.taskId
    · subst hid
      -- SQLite has a row to put back only if the task was not acknowledged
      obtain ⟨r, hr, hrid⟩ := hlive hlt
      apply iff_of_true List.mem_cons_self
      exact (pendingRow_update _ _).mpr ⟨r, hr, hrid, rfl⟩
    · rw [pendingRow_congr (sameBut_update _ _ (PendingTask.release now retryCount) fun _ => rfl)
        fun heq => hid (Uuid.toText_injective heq), ← h.waiting, List.mem_cons]
      simp [hid]
  · simp only [step, hredis]
    exact List.nodup_cons.mpr ⟨hnot, h.nodup⟩
  · intro e' he'
    simp only [step, hredis]
    by_cases hid' : e'.2.taskId = e.2.taskId
    · rw [hid', Function.update_self]
      exact ⟨_, rfl, hid⟩
    · rw [Function.update_of_ne hid']
      exact h.data e' he'

/-- A dead-lettered task waits in neither queue. -/
theorem nackDeadLetter (now : Instant) {taskId : Uuid} {retryCount maxRetries : ℤ}
    (hlt : ¬ retryCount < maxRetries) (hg : Agreeing s (.nack now taskId retryCount maxRetries)) :
    (callSqlite json (.nack now taskId retryCount maxRetries) s.sqlite).1 =
      (callRedis (.nack now taskId retryCount maxRetries) s.redis).1 ∧
    Matched json (step json s (.nack now taskId retryCount maxRetries)) := by
  obtain ⟨⟨e, he, rfl⟩, hnot, -⟩ := hg
  obtain ⟨task, hdata, hid⟩ := h.data e he
  have hredis : callRedis (.nack now e.2.taskId retryCount maxRetries) s.redis =
      (.nacked (.ok .deadLetter),
        { s.redis with
          processing := s.redis.processing.erase e.2.taskId
          dead := e.2.taskId :: s.redis.dead }) := by
    simp [callRedis, RedisQueue.nack, RedisQueue.nackTask, hdata, hid, hlt]
  have hsqlite : callSqlite json (.nack now e.2.taskId retryCount maxRetries) s.sqlite =
      (.nacked (.ok .deadLetter), s.sqlite.update (fun r => r.taskId == e.2.taskId.toText)
        (PendingTask.kill now) fun _ => rfl) := by
    simp [callSqlite, SqliteQueue.nack, hlt]
  refine ⟨by rw [hredis, hsqlite], h.distinct, ?_, ?_, ?_, ?_⟩
  · intro q hq
    simp only [step, hsqlite] at hq
    exact h.row_update (PendingTask.kill now) (fun q e hqe => hqe.kill now) hq
  · intro taskId
    simp only [step, hredis, hsqlite]
    by_cases hid : taskId = e.2.taskId
    · subst hid
      apply iff_of_false hnot
      intro hrow
      obtain ⟨q, -, -, hqs⟩ := (pendingRow_update _ _).mp hrow
      cases hqs
    · rw [pendingRow_congr (sameBut_update _ _ (PendingTask.kill now) fun _ => rfl)
        fun heq => hid (Uuid.toText_injective heq), ← h.waiting]
  · simpa only [step, hredis] using h.nodup
  · intro e' he'
    simp only [step, hredis]
    exact h.data e' he'

theorem nack (now : Instant) (taskId : Uuid) (retryCount maxRetries : ℤ)
    (hg : Agreeing s (.nack now taskId retryCount maxRetries)) :
    (callSqlite json (.nack now taskId retryCount maxRetries) s.sqlite).1 =
      (callRedis (.nack now taskId retryCount maxRetries) s.redis).1 ∧
    Matched json (step json s (.nack now taskId retryCount maxRetries)) := by
  by_cases hlt : retryCount < maxRetries
  · exact h.nackRetry now hlt hg
  · exact h.nackDeadLetter now hlt hg

/-- One call: the same reply, and the same tasks wait afterwards. -/
theorem call (c : Call) (hd : Distinct s c) (hg : Agreeing s c) :
    (callSqlite json c s.sqlite).1 = (callRedis c s.redis).1 ∧ Matched json (step json s c) := by
  cases c with
  | enqueue now task => exact h.enqueue now task hd
  | dequeue now pick => exact h.dequeue now pick hg
  | ack taskId => exact h.ack taskId hg
  | nack now taskId retryCount maxRetries => exact h.nack now taskId retryCount maxRetries hg

theorem replies_eq {cs : List Call} (hd : AllSteps (step json) Distinct s cs)
    (hg : AllSteps (step json) Agreeing s cs) :
    replies (callSqlite json) s.sqlite cs = replies callRedis s.redis cs := by
  induction cs generalizing s with
  | nil => rfl
  | cons c cs ih =>
    obtain ⟨hreply, hnext⟩ := h.call c hd.1 hg.1
    exact congrArg₂ List.cons hreply (ih hnext hd.2 hg.2)

end Matched

/-- From empty queues on, both give the same replies as long as they go the same way. -/
theorem queue_replies_eq (json : Codec TaskPayload J) (cs : List Call)
    (hdistinct : AllSteps (step json) Distinct start cs)
    (hagreeing : AllSteps (step json) Agreeing start cs) :
    replies (callSqlite json) Table.empty cs = replies callRedis RedisQueue.empty cs :=
  matched_start.replies_eq hdistinct hagreeing

def demoTask : TaskPayload where
  taskId := 1
  imageId := 1
  userId := 7
  storageBackend := "local"
  storageConfigId := none
  storageBackendName := "local"
  sourceKey := "7/a"
  sourceMime := "image/png"
  retryCount := 0
  maxRetries := 3

/-- Two tasks, of which the first dies and the second is done. -/
def plainCalls : List Call :=
  [.enqueue 0 demoTask, .dequeue 2 0, .nack 4 1 3 3, .enqueue 5 { demoTask with taskId := 2 },
    .dequeue 6 0, .ack 2]

theorem queue_replies_eq_plain : replies (callSqlite Codec.self) Table.empty plainCalls =
    replies callRedis RedisQueue.empty plainCalls :=
  queue_replies_eq Codec.self plainCalls (by decide +kernel) (by decide +kernel)

/-- A retried task comes back with its count raised by one queue and not by the other. -/
theorem queue_replies_differ :
    ¬ ∀ cs : List Call, AllSteps (step Codec.self) Distinct start cs →
      replies (callSqlite Codec.self) Table.empty cs = replies callRedis RedisQueue.empty cs := by
  intro h
  have heq := h [.enqueue 0 demoTask, .dequeue 1 0, .nack 2 1 0 3, .dequeue 3 0] (by decide +kernel)
  exact absurd heq (by decide +kernel)

end PicHost.QueueParity
