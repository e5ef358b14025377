import PicHost.Api.LiteWorker

/-!
# Several consumers of the SQLite queue

Consumers take tasks and acknowledge or refuse what they hold, one statement at a time and in
any order. A consumer whose `ack` or `nack` fails logs the error and moves on.
-/

namespace PicHost.LiteConsumers

open SqliteQueue KeyedTable Serialised LabelledRun LiteWorker

/-- `held` pairs each consumer with a payload it was handed. `live` is history: the tasks
that were accepted and not acknowledged since. -/
structure State (J : Type) where
  tasks : PendingTasks J
  held : List (ℕ × TaskPayload)
  live : List String

inductive Action
  | enqueue (up : Bool) (now : Instant) (p : TaskPayload)
  | dequeue (consumer : ℕ) (up : Bool) (now : Instant) (pick : ℕ)
  | ack (i : ℕ) (up : Bool)
  | nack (i : ℕ) (up : Bool) (now : Instant) (retryCount maxRetries : ℤ)

variable {J : Type} (json : Codec TaskPayload J)

/-- The identifier a holder acknowledges. -/
def heldId (h : ℕ × TaskPayload) : String := h.2.taskId.toText

/-- Lite mode starts by reclaiming what an earlier process left behind. -/
def start (now : Instant) (t : PendingTasks J) : State J :=
  let t' := (reclaimStale true now t).2
  ⟨t', [], t'.rows.map PendingTask.taskId⟩

def step (s : State J) : Action → State J
  | .enqueue up now p =>
    match SqliteQueue.enqueue json up now p s.tasks with
    | (.ok (), t) => { s with tasks := t, live := p.taskId.toText :: s.live }
    | (.error _, t) => { s with tasks := t }
  | .dequeue consumer up now pick =>
    match SqliteQueue.dequeue json up now pick s.tasks with
    | (.ok (some p), t) => { s with tasks := t, held := s.held ++ [(consumer, p)] }
    | (_, t) => { s with tasks := t }
  | .ack i up =>
    match s.held[i]? with
    | none => s
    | some h =>
      match SqliteQueue.ack up h.2.taskId s.tasks with
      | (.ok (), t) =>
        { tasks := t, held := s.held.eraseIdx i, live := s.live.filter (· ≠ heldId h) }
      | (.error _, t) => { s with tasks := t, held := s.held.eraseIdx i }
  | .nack i up now retryCount maxRetries =>
    match s.held[i]? with
    | none => s
    | some h =>
      { s with
        tasks := (SqliteQueue.nack up now h.2.taskId retryCount maxRetries s.tasks).2
        held := s.held.eraseIdx i }

def InState (t : PendingTasks J) (taskId : String) (status : TaskStatus) : Prop :=
  ∃ r ∈ t.rows, r.taskId = taskId ∧ r.status = status

/-- Each live task has one state, no task has two holders, and what is being processed has one. -/
structure Sound (s : State J) : Prop where
  oneState : ∀ taskId ∈ s.live, ∃! status, InState s.tasks taskId status
  exclusive : s.held.Pairwise fun h h' => heldId h ≠ heldId h'
  attended : ∀ r ∈ s.tasks.rows, r.status = .processing → ∃ h ∈ s.held, heldId h = r.taskId

/-- The payload of a claimed row is one for that row, and the statements of holders execute. -/
def Attended (s : State J) : Action → Prop
  | .enqueue _ _ _ => True
  | .dequeue _ up _ pick => up = true → ∀ r, nextPending pick s.tasks = some r →
      ∃ p, json.decode r.payloadJson = some p ∧ p.taskId.toText = r.taskId
  | .ack i up => s.held[i]?.isSome → up = true
  | .nack i up _ _ _ => s.held[i]?.isSome → up = true

/-- Besides, what is held is being processed. -/
structure Consistent (s : State J) : Prop where
  live : ∀ taskId ∈ s.live, ∃ r ∈ s.tasks.rows, r.taskId = taskId
  exclusive : s.held.Pairwise fun h h' => heldId h ≠ heldId h'
  attended : ∀ r ∈ s.tasks.rows, r.status = .processing → ∃ h ∈ s.held, heldId h = r.taskId
  heldRow : ∀ h ∈ s.held, ∃ r ∈ s.tasks.rows, r.taskId = heldId h ∧ r.status = .processing

variable {json}

/-- A row has one status, so a task with a row has one state. -/
theorem existsUnique_inState {t : PendingTasks J} {taskId : String} {r : PendingTask J}
    (hr : r ∈ t.rows) (hid : r.taskId = taskId) : ∃! status, InState t taskId status := by
  refine ⟨r.status, ⟨r, hr, hid, rfl⟩, ?_⟩
  rintro status ⟨q, hq, hqid, rfl⟩
  rw [row_unique hq hr (hqid.trans hid.symm)]

theorem Consistent.sound {s : State J} (h : Consistent s) : Sound s where
  oneState taskId hid := by
    obtain ⟨r, hr, hrid⟩ := h.live taskId hid
    exact existsUnique_inState hr hrid
  exclusive := h.exclusive
  attended := h.attended

theorem consistent_start (now : Instant) (t : PendingTasks J) : Consistent (start now t) where
  live _ hid := List.mem_map.mp hid
  exclusive := List.Pairwise.nil
  attended _ hr hs := absurd hs (status_of_mem_reclaimStale hr)
  heldRow _ hh := absurd hh List.not_mem_nil

/-- What a step about one task has to show; everything else is as before. -/
theorem Consistent.of_frame {s s' : State J} {k : String} (h : Consistent s)
    (ht : SameBut k s.tasks s'.tasks)
    (hlive : ∀ taskId ∈ s'.live, taskId ≠ k → taskId ∈ s.live)
    (hrow : k ∈ s'.live → ∃ r ∈ s'.tasks.rows, r.taskId = k)
    (hpair : s'.held.Pairwise fun h h' => heldId h ≠ heldId h')
    (hheld : ∀ e, heldId e ≠ k → (e ∈ s'.held ↔ e ∈ s.held))
    (hproc : ∀ r ∈ s'.tasks.rows, r.taskId = k → r.status = .processing →
      ∃ e ∈ s'.held, heldId e = k)
    (hnew : ∀ e ∈ s'.held, heldId e = k →
      ∃ r ∈ s'.tasks.rows, r.taskId = k ∧ r.status = .processing) : Consistent s' where
  live taskId hid := by
    by_cases hk : taskId = k
    · subst hk
      exact hrow hid
    · obtain ⟨r, hr, hrid⟩ := h.live taskId (hlive taskId hid hk)
      exact ⟨r, (ht r (hrid ▸ hk)).mpr hr, hrid⟩
  exclusive := hpair
  attended r hr hs := by
    by_cases hk : r.taskId = k
    · rw [hk]
      exact hproc r hr hk hs
    · obtain ⟨e, he, hid⟩ := h.attended r ((ht r hk).mp hr) hs
      exact ⟨e, (hheld e (hid ▸ hk)).mpr he, hid⟩
  heldRow e he := by
    by_cases hk : heldId e = k
    · rw [hk]
      exact hnew e he hk
    · obtain ⟨r, hr, hid, hs⟩ := h.heldRow e ((hheld e hk).mp he)
      exact ⟨r, (ht r (hid ▸ hk)).mpr hr, hid, hs⟩

namespace Consistent

variable {s : State J} (h : Consistent s)
include h

theorem enqueue (up : Bool) (now : Instant) (p : TaskPayload) :
    Consistent (step json s (.enqueue up now p)) := by
  rcases enqueue_cases json up now p s.tasks with he | ⟨t, he, hfree, hrows⟩
  · simpa only [step, he] using h
  · simp only [step, he]
    have hnone : ∀ e ∈ s.held, heldId e ≠ p.taskId.toText := by
      intro e he hk
      obtain ⟨r, hr, hid, -⟩ := h.heldRow e he
      exact hfree r hr (hid.trans hk)
    have hmem : newTask json now p ∈ t.rows := by rw [hrows]; simp
    refine h.of_frame (sameBut_append (newTask_taskId ..) hrows) ?_
      (fun _ => ⟨_, hmem, newTask_taskId ..⟩) h.exclusive (fun e _ => Iff.rfl) ?_
      (fun e he hk => absurd hk (hnone e he))
    · intro taskId hid hk
      rcases List.mem_cons.mp hid with rfl | hid
      · exact absurd rfl hk
      · exact hid
    · intro r hr hk hs
      rw [hrows, List.mem_append, List.mem_singleton] at hr
      rcases hr with hr | rfl
      · exact absurd hk (hfree r hr)
      · cases hs

/-- A claimed row was pending, so nobody held its task. -/
theorem not_held_of_pending {r : PendingTask J} (hr : r ∈ s.tasks.rows) (hs : r.status = .pending) :
    ∀ e ∈ s.held, heldId e ≠ r.taskId := by
  intro e he hk
  obtain ⟨q, hq, hid, hqs⟩ := h.heldRow e he
  rw [row_unique hq hr (hid.trans hk), hs] at hqs
  cases hqs

theorem claim {r : PendingTask J} (hr : r ∈ s.tasks.rows) (hs : r.status = .pending)
    (now : Instant) (consumer : ℕ) {p : TaskPayload} (hid : p.taskId.toText = r.taskId) :
    Consistent
      { s with
        tasks := s.tasks.update (fun q => q.taskId == r.taskId) (PendingTask.claim now)
          fun _ => rfl
        held := s.held ++ [(consumer, p)] } := by
  have hfree := h.not_held_of_pending hr hs
  have hclaimed : PendingTask.claim now r ∈ (s.tasks.update (fun q => q.taskId == r.taskId)
      (PendingTask.claim now) fun _ => rfl).rows :=
    (mem_update_self _ (PendingTask.claim now) (fun _ => rfl) rfl).mpr ⟨r, hr, rfl, rfl⟩
  refine h.of_frame (sameBut_update r.taskId _ (PendingTask.claim now) fun _ => rfl)
    (fun taskId hl _ => hl) (fun _ => ⟨_, hclaimed, rfl⟩) ?_ ?_ ?_ ?_
  · refine List.pairwise_append.mpr ⟨h.exclusive, List.pairwise_singleton _ _, ?_⟩
    intro e he e' he'
    rw [List.mem_singleton.mp he']
    exact fun heq => hfree e he (heq.trans hid)
  · intro e hk
    rw [List.mem_append, List.mem_singleton]
    constructor
    · rintro (he | rfl)
      · exact he
      · exact absurd hid hk
    · exact .inl
  · -- the row that is processed now is held under its payload's identifier
    exact fun q _ _ _ => ⟨(consumer, p), by simp, hid⟩
  · exact fun e _ _ => ⟨_, hclaimed, rfl, rfl⟩

theorem dequeue (consumer : ℕ) (up : Bool) (now : Instant) (pick : ℕ)
    (hg : Attended json s (.dequeue consumer up now pick)) :
    Consistent (step json s (.dequeue consumer up now pick)) := by
  cases up with
  | false => simpa only [step, SqliteQueue.dequeue, Bool.false_eq_true, if_false] using h
  | true =>
    cases hn : nextPending pick s.tasks with
    | none => simpa only [step, SqliteQueue.dequeue, if_true, hn] using h
    | some r =>
      obtain ⟨p, hp, hid⟩ := hg rfl r hn
      obtain ⟨hr, hs⟩ := nextPending_mem hn
      have hstep := h.claim hr hs now consumer hid
      simpa only [step, SqliteQueue.dequeue, if_true, hn, hp] using hstep

omit h in
/-- The entries left once one is finished. -/
theorem mem_eraseIdx_iff {i : ℕ} {e : ℕ × TaskPayload} (he : s.held[i]? = some e)
    {e' : ℕ × TaskPayload} (hne : heldId e' ≠ heldId e) :
    e' ∈ s.held.eraseIdx i ↔ e' ∈ s.held := by
  constructor
  · exact fun h' => (List.eraseIdx_sublist ..).subset h'
  · intro h'
    obtain ⟨j, hj⟩ := List.mem_iff_getElem?.mp h'
    refine List.mem_eraseIdx_iff_getElem?.mpr ⟨j, ?_, hj⟩
    rintro rfl
    rw [he] at hj
    cases hj
    exact hne rfl

theorem ack (i : ℕ) (up : Bool) (hg : Attended json s (.ack i up)) :
    Consistent (step json s (.ack i up)) := by
  cases he : s.held[i]? with
  | none => simpa only [step, he] using h
  | some e =>
    have hup : up = true := hg (by rw [he]; rfl)
    subst hup
    have hgone : ∀ e' ∈ s.held.eraseIdx i, heldId e' ≠ heldId e :=
      fun e' he' => (mem_eraseIdx_of_pairwise heldId h.exclusive he he').2
    simp only [step, he, SqliteQueue.ack, if_true]
    refine h.of_frame (sameBut_delete (heldId e) _) (fun taskId hl _ => List.mem_of_mem_filter hl)
      (fun hk => absurd hk (by simp)) (h.exclusive.sublist (List.eraseIdx_sublist ..))
      (fun e' hk => mem_eraseIdx_iff he hk) ?_ (fun e' he' hk => absurd hk (hgone e' he'))
    intro r hr hk
    exact absurd hk (beq_eq_false_iff_ne.mp (Table.mem_delete.mp hr).2)

/-- A refused task goes back or dies; either way its row stays and is no longer processed. -/
theorem nack (i : ℕ) (up : Bool) (now : Instant) (retryCount maxRetries : ℤ)
    (hg : Attended json s (.nack i up now retryCount maxRetries)) :
    Consistent (step json s (.nack i up now retryCount maxRetries)) := by
  cases he : s.held[i]? with
  | none => simpa only [step, he] using h
  | some e =>
    have hup : up = true := hg (by rw [he]; rfl)
    subst hup
    have hgone : ∀ e' ∈ s.held.eraseIdx i, heldId e' ≠ heldId e :=
      fun e' he' => (mem_eraseIdx_of_pairwise heldId h.exclusive he he').2
    have hupdate : ∀ (f : PendingTask J → PendingTask J) (hf : ∀ r, (f r).taskId = r.taskId),
        (∀ r, (f r).status ≠ .processing) →
        Consistent
          { s with
            tasks := s.tasks.update (fun r => r.taskId == heldId e) f hf
            held := s.held.eraseIdx i } := by
      intro f hf hstatus
      refine h.of_frame (sameBut_update (heldId e) _ f hf) (fun taskId hl _ => hl) ?_
        (h.exclusive.sublist (List.eraseIdx_sublist ..))
        (fun e' hk => mem_eraseIdx_iff he hk) ?_ (fun e' he' hk => absurd hk (hgone e' he'))
      · intro hk
        obtain ⟨r, hr, hid⟩ := h.live _ hk
        exact ⟨f r, (mem_update_self _ f hf ((hf r).trans hid)).mpr ⟨r, hr, hid, rfl⟩,
          (hf r).trans hid⟩
      · intro r hr hk hs
        obtain ⟨q, -, -, rfl⟩ := (mem_update_self _ f hf hk).mp hr
        exact absurd hs (hstatus q)
    simp only [step, he, SqliteQueue.nack, if_true]
    split
    · exact hupdate (PendingTask.release now retryCount) (fun _ => rfl) fun _ hs => by cases hs
    · exact hupdate (PendingTask.kill now) (fun _ => rfl) fun _ hs => by cases hs

theorem step (a : Action) (hg : Attended json s a) : Consistent (LiteConsumers.step json s a) := by
  cases a with
  | enqueue up now p => exact h.enqueue up now p
  | dequeue consumer up now pick => exact h.dequeue consumer up now pick hg
  | ack i up => exact h.ack i up hg
  | nack i up now retryCount maxRetries => exact h.nack i up now retryCount maxRetries hg

/-- A holder that drops its task leaves the row to nobody. -/
theorem not_sound_dropped {i : ℕ} {e : ℕ × TaskPayload} (he : s.held[i]? = some e) :
    ¬ Sound { s with held := s.held.eraseIdx i } := by
  intro hs
  obtain ⟨r, hr, hid, hrs⟩ := h.heldRow e (List.mem_of_getElem? he)
  obtain ⟨e', he', hid'⟩ := hs.attended r hr hrs
  exact (mem_eraseIdx_of_pairwise heldId h.exclusive he he').2 (hid'.trans hid)

/-- Only attended steps keep the queue sound. -/
theorem attended_of_sound (a : Action) (hs : Sound (LiteConsumers.step json s a)) :
    Attended json s a := by
  cases a with
  | enqueue up now p => trivial
  | dequeue consumer up now pick =>
    rintro rfl r hn
    obtain ⟨hr, hrs⟩ := nextPending_mem hn
    have hfree := h.not_held_of_pending hr hrs
    have hclaimed : PendingTask.claim now r ∈ (s.tasks.update (fun q => q.taskId == r.taskId)
        (PendingTask.claim now) fun _ => rfl).rows :=
      (mem_update_self _ (PendingTask.claim now) (fun _ => rfl) rfl).mpr ⟨r, hr, rfl, rfl⟩
    cases hp : json.decode r.payloadJson with
    | none =>
      -- the row is claimed, but `dequeue` returns an error
      simp only [LiteConsumers.step, SqliteQueue.dequeue, if_true, hn, hp] at hs
      obtain ⟨e, he, hid⟩ := hs.attended _ hclaimed rfl
      exact absurd hid (hfree e he)
    | some p =>
      refine ⟨p, rfl, ?_⟩
      simp only [LiteConsumers.step, SqliteQueue.dequeue, if_true, hn, hp] at hs
      obtain ⟨e, he, hid⟩ := hs.attended _ hclaimed rfl
      rcases List.mem_append.mp he with he | he
      · exact absurd hid (hfree e he)
      · rw [List.mem_singleton.mp he] at hid
        exact hid
  | ack i up =>
    intro hsome
    obtain ⟨e, he⟩ := Option.isSome_iff_exists.mp hsome
    cases up with
    | true => rfl
    | false =>
      -- the holder goes on to its next task
      simp only [LiteConsumers.step, he, SqliteQueue.ack] at hs
      exact absurd hs (h.not_sound_dropped he)
  | nack i up now retryCount maxRetries =>
    intro hsome
    obtain ⟨e, he⟩ := Option.isSome_iff_exists.mp hsome
    cases up with
    | true => rfl
    | false =>
      simp only [LiteConsumers.step, he, SqliteQueue.nack, Bool.false_eq_true, if_false,
        ite_self] at hs
      exact absurd hs (h.not_sound_dropped he)

end Consistent

/-- The queue stays sound on exactly the runs whose claimed rows carry their own payload and
whose holders' statements execute. -/
theorem lite_queue_sound_iff (json : Codec TaskPayload J) (now : Instant) (t : PendingTasks J)
    (as : List Action) :
    AllStates (step json) Sound (start now t) as ↔
      AllSteps (step json) (Attended json) (start now t) as :=
  allStates_iff_of_guarded (fun _ h => h.sound) (fun _ a h hg => h.step a hg)
    (fun _ a h hs => h.attended_of_sound a hs) (consistent_start now t) as

/-- A waiting task whose payload does not deserialise. -/
def unreadable : PendingTask (Option TaskPayload) where
  taskId := (1 : Uuid).toText
  payloadJson := none
  status := .pending
  retryCount := 0
  claimedAt := none
  updatedAt := 0
  createdAt := 0

/-- The claimed row keeps its status and nobody holds its task. -/
theorem lite_queue_unattended :
    ¬ ∀ (t : PendingTasks (Option TaskPayload)) (as : List Action),
      AllStates (step Codec.orNone) Sound (start 0 t) as := by
  intro h
  have hlast := (h ⟨[unreadable], List.pairwise_singleton _ _⟩ [.dequeue 0 true 1 0]).last
  obtain ⟨e, he, -⟩ := hlast.attended (PendingTask.claim 1 unreadable) (by decide +kernel) rfl
  cases he

end PicHost.LiteConsumers
