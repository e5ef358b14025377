import PicHost.Lib.Weight
import PicHost.Worker.QueueLoss

/-!
# Who holds a task of the Redis queue

The staleness of a task is judged by a time that may date from before a worker took it, and a
recovery pushes whether or not its `LREM` removed anything.
-/

namespace PicHost.RedisCommands

open Serialised LabelledRun Weighted

variable {J : Type} {json : Codec TaskPayload J} {texts : Texts json}

/-- A worker calls `ack` and `nack` for what it was handed, nobody else does. -/
def Action.ByWorker : Action → Prop
  | .call (.ack _) | .call (.nack _ _ _) => False
  | .call (.enqueue _) | .call .dequeue | .call (.recoverStaleTasks _) => True
  | .tick _ | .finish _ _ | .advance _ | .crash _ => True

instance : DecidablePred Action.ByWorker
  | .call (.ack _) | .call (.nack _ _ _) => isFalse fun h => h
  | .call (.enqueue _) | .call .dequeue | .call (.recoverStaleTasks _) => isTrue trivial
  | .tick _ | .finish _ _ | .advance _ | .crash _ => isTrue trivial

/-- The task that is about to be handed to a worker. -/
def Next.handsOut (id : Uuid) : Next → ℕ
  | .reply (.dequeued (some task)) => if task.taskId = id then 1 else 0
  | _ => 0

/-- Between taking the entry and removing it a worker is engaged with the task. -/
def Stage.engaged (id : Uuid) : Stage J → ℕ
  | .hgetData taskId | .lremOrphan taskId | .lremAcked taskId _ | .nackHgetData taskId _ _ =>
    if taskId = id then 1 else 0
  | .dequeueNow _ task | .nackNow task | .lremNacked task _
  | .returned (.dequeued (some task)) => if task.taskId = id then 1 else 0
  | .writing _ next => next.handsOut id
  | _ => 0

/-- No identifier has two entries, and of two workers that process one task the second was handed
it when the first had held it for the timeout. -/
structure Exclusive (taskTimeout : ℕ) (s : State J) : Prop where
  once : (s.store.pending ++ s.store.processing ++ s.store.dead).Nodup
  holder : ∀ i j task task', i ≠ j → s.clients[i]? = some (.returned (.dequeued (some task))) →
    s.clients[j]? = some (.returned (.dequeued (some task'))) → task.taskId = task'.taskId →
    s.handedAt i ≤ s.handedAt j → s.handedAt i + taskTimeout ≤ s.handedAt j

/-- What a recovery is about to take is still in the list, and no client is engaged with it. -/
def AbandonedAt (s : State J) : Stage J → Prop
  | .lremStale _ taskId _ =>
    taskId ∈ s.store.processing ∧ total (Stage.engaged taskId) s.clients = 0
  | _ => True

instance (s : State J) : DecidablePred (AbandonedAt s)
  | .lremStale _ _ _ => inferInstanceAs (Decidable (_ ∧ _))
  | .brpoplpush | .hgetData _ | .lremOrphan _ | .dequeueNow _ _ | .lremAcked _ _
  | .nackHgetData _ _ _ | .nackNow _ | .lremNacked _ _ | .lrange _ | .cutoffNow _ _
  | .hgetUpdatedAt _ | .recoverHgetData _ _ | .recoverNow _ _ _ | .writing _ _ | .returned _
  | .crashed => isTrue trivial

/-- Recoveries take abandoned tasks only. -/
def RecoversAbandoned (s : State J) : Action → Prop
  | .advance i => ∀ c ∈ s.clients[i]?, AbandonedAt s c
  | .tick _ | .call _ | .finish _ _ | .crash _ => True

instance (s : State J) : DecidablePred (RecoversAbandoned s)
  | .advance _ => Option.decidableForallMem _
  | .tick _ | .call _ | .finish _ _ | .crash _ => isTrue trivial

/-- One entry or one push to come; one worker at most, and only with an entry being processed. -/
structure Single (s : State J) (id : Uuid) : Prop where
  once : s.store.entries id + total (Stage.inHand id) s.clients ≤ 1
  engaged : total (Stage.engaged id) s.clients ≤ s.store.processing.count id
  drawn : 0 < s.store.entries id + total (Stage.inHand id) s.clients → id ∈ s.drawn

theorem engaged_stage (id : Uuid) (next : Next) :
    (next.stage : Stage J).engaged id = next.handsOut id := by
  cases next with
  | scan => rfl
  | reply r =>
    cases r with
    | dequeued task => cases task <;> rfl
    | _ => rfl

theorem engaged_after (id : Uuid) (cmds : List (Command J)) (next : Next) :
    (Stage.after cmds next).engaged id = next.handsOut id := by
  cases cmds with
  | nil => exact engaged_stage id next
  | cons => rfl

theorem Store.count_lrem (st : Store J) (taskId id : Uuid) :
    (st.lrem taskId).processing.count id =
      st.processing.count id - if taskId = id then 1 else 0 := by
  rw [Store.lrem_processing, List.count_erase]
  simp only [beq_iff_eq]

theorem Store.count_move {st : Store J} {taskId : Uuid} (h : st.pending.getLast? = some taskId)
    (id : Uuid) : st.pending.count id =
      (st.move taskId).pending.count id + if taskId = id then 1 else 0 := by
  conv_lhs => rw [← List.dropLast_append_getLast? taskId h]
  rw [List.count_append, List.count_singleton]
  simp only [beq_iff_eq, Store.move]

variable (json) in
/-- A step moves entries between the lists and the hands of its client. -/
theorem step_entries (now : Instant) {c : Stage J} {st : Store J}
    {id : Uuid} (htakes : c.takes = some id → id ∈ st.processing) :
    (Stage.step json now (c, st)).2.entries id + (Stage.step json now (c, st)).1.inHand id ≤
      st.entries id + c.inHand id := by
  have htaken : ∀ taskId, (taskId = id → id ∈ st.processing) → (st.lrem taskId).entries id +
      (if taskId = id then 1 else 0) = st.entries id := by
    intro taskId hmem
    simp only [Store.entries, Store.count_lrem, Store.lrem_pending, Store.lrem_dead]
    split
    · rename_i hid
      have := List.count_pos_iff.mpr (hmem hid)
      omega
    · omega
  have hgone : ∀ taskId, (st.lrem taskId).entries id ≤ st.entries id := by
    intro taskId
    simp only [Store.entries, Store.count_lrem, Store.lrem_pending, Store.lrem_dead]
    omega
  cases c with
  | brpoplpush =>
    cases hlast : st.pending.getLast? with
    | none => simp [Stage.step, hlast, Stage.inHand]
    | some taskId =>
      have hcount := Store.count_move hlast id
      simp only [Stage.step, hlast, Stage.inHand, Store.entries, Store.move, List.count_cons,
        beq_iff_eq] at hcount ⊢
      omega
  | lremOrphan taskId => simpa [Stage.step, Stage.inHand] using hgone taskId
  | lremAcked taskId now =>
    have := hgone taskId
    simpa [Stage.step, Stage.inHand, ackCommands, Command.pushes] using this
  | lremNacked task now =>
    have := htaken task.taskId fun hid => htakes (congrArg some hid)
    simp only [Stage.step, Stage.inHand, inHand_nackCommands]
    omega
  | lremStale scan taskId task =>
    have := htaken taskId fun hid => htakes (congrArg some hid)
    simp only [Stage.step, Stage.inHand]
    omega
  | dequeueNow => simp [Stage.step, Stage.inHand, processingCommands, Command.pushes]
  | recoverNow => simp [Stage.step, Stage.inHand]
  | writing cmds next =>
    cases cmds with
    | nil => cases next <;> simp [Stage.step, Next.stage, Stage.inHand]
    | cons cmd cmds =>
      rw [show Stage.step json now (.writing (cmd :: cmds) next, st) =
        (Stage.after cmds next, st.exec cmd) from rfl, inHand_after, entries_exec]
      simp only [Stage.inHand, List.countP_cons]
      omega
  | hgetData taskId =>
    simp only [Stage.step]
    split
    · exact le_rfl
    · split <;> exact le_rfl
  | hgetUpdatedAt scan =>
    rcases step_hgetUpdatedAt json now scan st with ⟨_, heq⟩ | ⟨_, heq⟩ | ⟨_, _, heq, -⟩ <;>
      rw [heq] <;> exact le_rfl
  | nackHgetData | recoverHgetData =>
    simp only [Stage.step]
    split <;> exact le_rfl
  | _ => exact le_rfl

/-- A worker stays engaged as long as its entry is there. -/
theorem step_engaged (now : Instant) {c : Stage J} {st : Store J} (hst : st.Sound texts)
    {id : Uuid} (hstale : ∀ scan task, c ≠ .lremStale scan id task) :
    st.processing.count id + (Stage.step json now (c, st)).1.engaged id ≤
      (Stage.step json now (c, st)).2.processing.count id + c.engaged id := by
  have hgone : ∀ taskId, st.processing.count id ≤
      (st.lrem taskId).processing.count id + if taskId = id then 1 else 0 := by
    intro taskId
    rw [Store.count_lrem]
    omega
  cases c with
  | brpoplpush =>
    cases hlast : st.pending.getLast? with
    | none => simp [Stage.step, hlast, Stage.engaged]
    | some taskId =>
      simp only [Stage.step, hlast, Stage.engaged, Store.move, List.count_cons, beq_iff_eq]
      omega
  | lremOrphan taskId => simpa [Stage.step, Stage.engaged] using hgone taskId
  | lremAcked taskId now => simpa [Stage.step, Stage.engaged, Next.handsOut] using hgone taskId
  | lremNacked task now =>
    simpa [Stage.step, Stage.engaged, Next.handsOut] using hgone task.taskId
  | lremStale scan taskId task =>
    have hid : taskId ≠ id := by
      rintro rfl
      exact hstale scan task rfl
    simpa [Stage.step, Stage.engaged, hid] using hgone taskId
  | writing cmds next =>
    cases cmds with
    | nil => exact (congrArg (_ + ·) (engaged_stage id next)).le
    | cons cmd cmds =>
      rw [show Stage.step json now (.writing (cmd :: cmds) next, st) =
        (Stage.after cmds next, st.exec cmd) from rfl, engaged_after]
      cases cmd <;> exact le_rfl
  | hgetData taskId =>
    simp only [Stage.step]
    split
    · exact le_rfl
    · split
      · simp [Stage.engaged]
      · rename_i text htext _ task hdec
        obtain ⟨hid, -⟩ := deserialises_of_proper (hst.proper taskId text htext) hdec
        simp [Stage.engaged, hid]
  | nackHgetData taskId retryCount maxRetries =>
    simp only [Stage.step]
    split
    · simp [Stage.engaged]
    · rename_i task hdec
      obtain ⟨hid, -⟩ := decoded_spec hst hdec
      simp [Stage.engaged, hid]
  | hgetUpdatedAt scan =>
    rcases step_hgetUpdatedAt json now scan st with ⟨_, heq⟩ | ⟨_, heq⟩ | ⟨_, _, heq, -⟩ <;>
      rw [heq] <;> exact le_rfl
  | recoverHgetData =>
    simp only [Stage.step]
    split <;> exact le_rfl
  | _ => exact le_rfl

namespace Single

variable {s : State J} {id : Uuid} {i : ℕ}

theorem mem_processing (h : Single s id) {c : Stage J} (hi : s.clients[i]? = some c)
    (hc : c.engaged id = 1) : id ∈ s.store.processing := by
  have hle := le_total (Stage.engaged id) hi
  have := h.engaged
  exact List.count_pos_iff.mp (by omega)

theorem advance (hs : Sound texts s) (h : Single s id) {c : Stage J}
    (hi : s.clients[i]? = some c)
    (hstale : ∀ scan task, c = .lremStale scan id task →
      id ∈ s.store.processing ∧ total (Stage.engaged id) s.clients = 0) :
    Single (s.advance json i c) id := by
  have htakes : c.takes = some id → id ∈ s.store.processing := by
    intro htakes
    cases c with
    | lremNacked task now =>
      cases htakes
      exact h.mem_processing hi (if_pos rfl)
    | lremStale scan taskId task =>
      cases htakes
      exact (hstale scan task rfl).1
    | _ => cases htakes
  have hentries := step_entries json s.now htakes
  have hhand := total_set (Stage.inHand id) hi (Stage.step json s.now (c, s.store)).1
  have hengaged := total_set (Stage.engaged id) hi (Stage.step json s.now (c, s.store)).1
  refine ⟨?_, ?_, fun hpos => h.drawn ?_⟩
  · have := h.once
    rw [advance_store, advance_clients]
    omega
  · rw [advance_store, advance_clients]
    by_cases hc : ∃ scan task, c = .lremStale scan id task
    · -- the entry goes, but nobody is engaged
      obtain ⟨scan, task, rfl⟩ := hc
      have hzero := (hstale scan task rfl).2
      have : (Stage.step json s.now (.lremStale scan id task, s.store)).1.engaged id = 0 := rfl
      omega
    · have hle := step_engaged s.now hs.store fun scan task heq => hc ⟨scan, task, heq⟩
      have := h.engaged
      omega
  · rw [advance_store, advance_clients] at hpos
    omega

/-- Adding a client that has nothing in hand. -/
theorem addClient (h : Single s id) {c : Stage J} (hhand : c.inHand id = 0)
    (hengaged : c.engaged id = 0) : Single (s.addClient c) id where
  once := by
    simpa [State.addClient, hhand] using h.once
  engaged := by
    simpa [State.addClient, hengaged] using h.engaged
  drawn hpos := h.drawn (by simpa [State.addClient, hhand] using hpos)

/-- Replacing a client by one that has no more. -/
theorem setClient (h : Single s id) {c : Stage J}
    (hhand : total (Stage.inHand id) (s.clients.set i c) ≤ total (Stage.inHand id) s.clients)
    (hengaged : total (Stage.engaged id) (s.clients.set i c) ≤
      total (Stage.engaged id) s.clients) : Single (s.setClient i c) id where
  once := (Nat.add_le_add_left hhand _).trans h.once
  engaged := hengaged.trans h.engaged
  drawn hpos := h.drawn (lt_of_lt_of_le hpos (Nat.add_le_add_left hhand _))

/-- One step, when a recovery takes the task only if it is abandoned. -/
theorem step (hs : Sound texts s) (h : Single s id) {a : Action} (ha : a.ByWorker)
    (hstale : ∀ i scan task, a = .advance i → s.clients[i]? = some (.lremStale scan id task) →
      id ∈ s.store.processing ∧ total (Stage.engaged id) s.clients = 0) :
    Single (s.step texts a) id := by
  cases a with
  | tick d => exact ⟨h.once, h.engaged, h.drawn⟩
  | call c =>
    cases c with
    | enqueue taskId =>
      simp only [State.step]
      split
      · exact h
      · rename_i hfresh
        by_cases hid : taskId = id
        · subst hid
          have hzero : ¬ 0 < s.store.entries taskId + total (Stage.inHand taskId) s.clients :=
            fun hpos => hfresh (h.drawn hpos)
          refine ⟨?_, ?_, fun _ => List.mem_cons_self⟩
          · simp only [State.addClient, Call.start, total_append, total_cons, total_nil,
              Stage.inHand, inHand_enqueueCommands, if_true]
            omega
          · simpa [State.addClient, Call.start, Stage.engaged, Next.handsOut] using h.engaged
        · have hadd := h.addClient (c := (Call.enqueue taskId).start texts s.now)
            (by simp [Call.start, Stage.inHand, hid]) rfl
          exact ⟨hadd.once, hadd.engaged, fun hpos => List.mem_cons_of_mem _ (hadd.drawn hpos)⟩
    | ack | nack => exact ha.elim
    | dequeue | recoverStaleTasks => exact h.addClient rfl rfl
  | finish i succeeded =>
    simp only [State.step]
    split
    · rename_i task hi
      apply h.setClient
      · exact total_set_le _ (by cases succeeded <;> rfl) i
      · -- the worker stays engaged with what it was handed
        split
        · exact (Nat.add_right_cancel (total_set (Stage.engaged id) hi (.lremAcked _ _))).le
        · exact (Nat.add_right_cancel (total_set (Stage.engaged id) hi (.nackHgetData _ _ _))).le
    · exact h
  | advance i =>
    simp only [State.step]
    split
    · rename_i c hi
      exact h.advance hs hi fun scan task heq => hstale i scan task rfl (heq ▸ hi)
    · exact h
  | crash i =>
    exact h.setClient (total_set_le (Stage.inHand id) (b := .crashed) rfl i)
      (total_set_le (Stage.engaged id) (b := .crashed) rfl i)

end Single

/-- Every task has one place, and what the calls know is true. -/
structure Held (texts : Texts json) (s : State J) : Prop where
  sound : Sound texts s
  single : ∀ id, Single s id

theorem held_start (now : Instant) : Held texts (State.start now) where
  sound := sound_start now
  single _ := ⟨Nat.zero_le 1, le_rfl, fun h => absurd h (Nat.lt_irrefl 0)⟩

theorem Held.exclusive {s : State J} (h : Held texts s) (taskTimeout : ℕ) :
    Exclusive taskTimeout s where
  once := by
    rw [List.nodup_iff_count_le_one]
    intro id
    have := (h.single id).once
    simp only [Store.entries] at this
    simp only [List.count_append]
    omega
  holder i j task task' hij hi hj hid _ := by
    -- both would need an entry that is being processed
    have hle := add_le_total (Stage.engaged task.taskId) hi hj hij
    have hone := (h.single task.taskId).once
    have heng := (h.single task.taskId).engaged
    simp only [Stage.engaged, hid, if_true, Store.entries] at hle hone heng
    omega

theorem Held.step {s : State J} (h : Held texts s) {a : Action} (ha : a.ByWorker)
    (hrecovers : RecoversAbandoned s a) : Held texts (s.step texts a) where
  sound := h.sound.step a
  single id := (h.single id).step h.sound ha fun i scan task heq hi => by
    subst heq
    exact hrecovers _ hi

/-- As long as workers recover abandoned tasks only, no task has two entries or two holders. -/
theorem redis_tasks_exclusive (texts : Texts json) (taskTimeout : ℕ) (now : Instant)
    (as : List Action) (hworkers : AllSteps (State.step texts)
      (fun s a => a.ByWorker ∧ RecoversAbandoned s a) (State.start now) as) :
    AllStates (State.step texts) (Exclusive taskTimeout) (State.start now) as :=
  (allStates_of_guarded (J := Held texts) (fun _ _ h hg => h.step hg.1 hg.2) (held_start now)
    hworkers).mono fun _ h => h.exclusive taskTimeout

/-- A worker dies with the task it was handed. Another one recovers the task on its start and
takes it. -/
def inheritingRun : List Action := List.flatten
  [takingRun 1, [.crash 1, .tick 301],
    .call (.recoverStaleTasks 300) :: List.replicate 11 (.advance 2),
    .call .dequeue :: List.replicate 5 (.advance 3)]

theorem redis_tasks_exclusive_inheriting :
    AllStates (State.step plainTexts) (Exclusive 300) (State.start 0) inheritingRun :=
  redis_tasks_exclusive plainTexts 300 0 inheritingRun (by decide +kernel)

/-- The task waits longer than the timeout. A worker starts while another one has taken the task
and not yet written so, and puts it back for a third. -/
def waitingRun : List Action := List.flatten
  [.call (.enqueue 1) :: List.replicate 5 (.advance 0), [.tick 301],
    [.call .dequeue, .advance 1],
    .call (.recoverStaleTasks 300) :: List.replicate 10 (.advance 2),
    List.replicate 4 (.advance 1),
    .call .dequeue :: List.replicate 5 (.advance 3)]

/-- Both are handed the task at the same time. -/
theorem redis_tasks_shared :
    (∀ a ∈ waitingRun, a.ByWorker) ∧
    ¬ AllStates (State.step plainTexts) (Exclusive 300) (State.start 0) waitingRun := by
  refine ⟨by decide +kernel, fun h => ?_⟩
  have hlate := h.last.holder 1 3 (plainTask 1) (plainTask 1) (by decide) (by decide +kernel)
    (by decide +kernel) rfl (by decide +kernel)
  exact absurd hlate (by decide +kernel)

end PicHost.RedisCommands
