import PicHost.Core.RedisCommands
import Mathlib.Tactic.Linarith

/-!
# Tasks the Redis queue loses

Between the `LREM` of a retry or a recovery and its `LPUSH` a task is in no list, and a task
whose payload does not deserialise stays in the processing list for good.
-/

namespace PicHost.RedisCommands

open Serialised LabelledRun

variable {J : Type} {json : Codec TaskPayload J} (texts : Texts json)

/-- `enqueue` returned, nobody acknowledged the task and it is not dead-lettered. -/
def Owed (s : State J) (id : Uuid) : Prop :=
  id ∈ s.enqueued ∧ id ∉ s.acked ∧ id ∉ s.store.dead

instance (s : State J) : DecidablePred (Owed s) := fun _ => inferInstanceAs (Decidable (_ ∧ _))

/-- The list the next command takes an identifier from, unless it acknowledges the task. -/
def Stage.takes : Stage J → Option Uuid
  | .lremNacked task _ => some task.taskId
  | .lremStale _ taskId _ => some taskId
  | _ => none

/-- The call is still to push the identifier. -/
def Stage.Carries (id : Uuid) (c : Stage J) : Prop := 0 < c.inHand id

instance (id : Uuid) : DecidablePred (Stage.Carries (J := J) id) := fun _ =>
  inferInstanceAs (Decidable (_ < _))

variable (json) in
/-- `recover_stale_tasks`, run without interruption at one point in time, puts every owed task
back that is being processed and was last updated before the timeout. -/
def Requeues (s : State J) : Prop := ∀ id ∈ s.store.processing, Owed s id →
  ∀ (d timeout : ℕ), ∀ updatedAt ∈ (s.store.hash id).updatedAt,
    updatedAt < s.now + d - timeout →
    ∃ n tasks store, (Stage.step json (s.now + d))^[n] (.lrange timeout, s.store) =
      (.returned (.recovered tasks), store) ∧ id ∈ store.pending

variable (json) in
/-- Every owed task is in the pending or the processing list. -/
structure NoneLost (s : State J) : Prop where
  listed : ∀ id, Owed s id → s.store.Listed id
  requeues : Requeues json s

variable (json) in
/-- Every owed task is in one of these lists or in the hands of a live client. -/
structure NoneDropped (s : State J) : Prop where
  kept : ∀ id, Owed s id → s.store.Listed id ∨ ∃ c ∈ s.clients, c.Carries id
  requeues : Requeues json s

/-- The payload serialised for the identifier deserialises. -/
def Deserialises (id : Uuid) : Prop := (json.decode (texts.text id)).isSome = true

instance : DecidablePred (Deserialises texts) := fun _ => inferInstanceAs (Decidable (_ = true))

/-- A worker takes a task only if its payload deserialises, or another entry is waiting. -/
def DequeuesDeserialising (s : State J) : Action → Prop
  | .advance i => s.clients[i]? = some .brpoplpush → ∀ id ∈ s.store.pending.getLast?,
      Owed s id → id ∈ s.store.pending.dropLast ∨ Deserialises texts id
  | _ => True

/-- No retry or recovery takes the only entry of an owed task. -/
def LeavesEntry (s : State J) : Action → Prop
  | .advance i => ∀ c ∈ s.clients[i]?, ∀ id ∈ c.takes, Owed s id → (s.store.lrem id).Listed id
  | _ => True

/-- No client dies that alone has an owed task in its hands. -/
def DiesWithout (s : State J) : Action → Prop
  | .crash i => ∀ c ∈ s.clients[i]?, ∀ id, c.Carries id → Owed s id →
      s.store.Listed id ∨ ∃ c' ∈ s.clients.eraseIdx i, c'.Carries id
  | _ => True

/-- A text that stands for the task of this identifier, if what was serialised for it does. -/
def Proper (id : Uuid) (text : J) : Prop :=
  match json.decode text with
  | none => ¬ Deserialises texts id
  | some task => task.taskId = id ∧ Deserialises texts id

/-- What a call knows of the tasks it deals with. -/
def Stage.Sound (st : Store J) : Stage J → Prop
  | .hgetData taskId => st.Backed taskId
  | .lremOrphan _ => False
  | .nackNow task | .lremNacked task _ =>
    (st.hash task.taskId).data.isSome = true ∧ Deserialises texts task.taskId
  | .recoverHgetData _ taskId => (st.hash taskId).updatedAt.isSome = true
  | .lremStale _ taskId _ | .recoverNow _ taskId _ => st.Backed taskId
  | .writing cmds next => Ready st cmds ∧
      (∀ id text, .hset id (.data text) ∈ cmds → Proper texts id text) ∧
      ∀ id, next = .reply (.enqueued id) → cmds.getLast? = some (.lpushPending id)
  | _ => True

structure Store.Sound (st : Store J) : Prop where
  listed : ∀ id, st.Listed id → st.Backed id
  proper : ∀ id, ∀ text ∈ (st.hash id).data, Proper texts id text

structure Sound (s : State J) : Prop where
  store : s.store.Sound texts
  clients : ∀ c ∈ s.clients, c.Sound texts s.store

variable {texts}

theorem Stage.Sound.mono {st st' : Store J} {c : Stage J} (h : c.Sound texts st)
    (hf : st.Filled st') : c.Sound texts st' := by
  cases c with
  | hgetData | lremStale | recoverNow => exact hf.backed h
  | nackNow | lremNacked => exact ⟨(hf _).1 h.1, h.2⟩
  | recoverHgetData => exact (hf _).2 h
  | writing => exact ⟨h.1.mono hf, h.2⟩
  | _ => exact h

theorem deserialises_of_proper {id : Uuid} {text : J} {task : TaskPayload}
    (h : Proper texts id text) (hd : json.decode text = some task) :
    task.taskId = id ∧ Deserialises texts id := by
  simpa only [Proper, hd] using h

theorem decoded_spec {st : Store J} (h : st.Sound texts) {id : Uuid} {task : TaskPayload}
    (hd : decoded json st id = some task) :
    task.taskId = id ∧ (st.hash id).data.isSome = true ∧ Deserialises texts id := by
  obtain ⟨text, htext, hdec⟩ := Option.bind_eq_some_iff.mp hd
  obtain ⟨hid, hdes⟩ := deserialises_of_proper (h.proper id text htext) hdec
  exact ⟨hid, by rw [htext]; rfl, hdes⟩

theorem proper_text (id : Uuid) : Proper texts id (texts.text id) := by
  unfold Proper
  split
  · rename_i hdec
    simp [Deserialises, hdec]
  · rename_i task hdec
    exact ⟨texts.own id task hdec, by simp [Deserialises, hdec]⟩

theorem proper_encode {task : TaskPayload} (h : Deserialises texts task.taskId) :
    Proper texts task.taskId (json.encode task) := by
  rw [Proper, json.decode_encode]
  exact ⟨rfl, h⟩

theorem Call.start_sound (now : Instant) (c : Call) (st : Store J) :
    (c.start texts now).Sound texts st := by
  cases c with
  | enqueue taskId =>
    refine ⟨?_, ?_, ?_⟩
    · simp [Ready, enqueueCommands, Store.exec, Store.hset, Store.Backed]
    · intro id text hmem
      simp only [enqueueCommands, List.mem_cons, Command.hset.injEq, Field.data.injEq,
        reduceCtorEq, and_false, List.not_mem_nil, or_false] at hmem
      obtain ⟨rfl, rfl⟩ := hmem
      exact proper_text id
    · rintro id ⟨⟩
      rfl
  | _ => trivial

theorem Store.Sound.of_listed {st st' : Store J} (h : st.Sound texts)
    (hhash : st'.hash = st.hash) (hlisted : ∀ id, st'.Listed id → st.Listed id) :
    st'.Sound texts where
  listed id hid := (Store.Filled.of_hash hhash).backed (h.listed id (hlisted id hid))
  proper id text htext := h.proper id text (by rwa [← hhash])

theorem Store.Sound.lrem {st : Store J} (h : st.Sound texts) (taskId : Uuid) :
    (st.lrem taskId).Sound texts :=
  h.of_listed rfl fun _ hid => hid.imp_right List.mem_of_mem_erase

theorem Store.Sound.exec {st : Store J} (h : st.Sound texts) {cmd : Command J}
    (hpush : ∀ id, cmd = .lpushPending id → st.Backed id)
    (hdata : ∀ id text, cmd = .hset id (.data text) → Proper texts id text) :
    (st.exec cmd).Sound texts := by
  cases cmd with
  | hset taskId field =>
    refine ⟨fun id hid => (Store.filled_exec st _).backed (h.listed id hid),
      fun id text htext => ?_⟩
    rcases Store.hset_data st taskId field id with heq | ⟨text', rfl, rfl, hsome⟩
    · exact h.proper id text (by rw [← heq]; exact htext)
    · rw [Store.exec, hsome] at htext
      cases htext
      exact hdata id text rfl
  | lpushPending taskId =>
    refine ⟨fun id hid => ?_, h.proper⟩
    rcases hid with hid | hid
    · rcases List.mem_cons.mp hid with rfl | hid
      · exact hpush id rfl
      · exact h.listed id (.inl hid)
    · exact h.listed id (.inr hid)
  | lpushDead taskId => exact h.of_listed rfl fun _ hid => hid

theorem after_sound {st : Store J} {cmds : List (Command J)} {next : Next} (hready : Ready st cmds)
    (hdata : ∀ id text, .hset id (.data text) ∈ cmds → Proper texts id text)
    (hlast : ∀ id, next = .reply (.enqueued id) → cmds = [] ∨
      cmds.getLast? = some (.lpushPending id)) : (Stage.after cmds next).Sound texts st := by
  cases cmds with
  | nil => cases next <;> trivial
  | cons cmd cmds => exact ⟨hready, hdata, fun id hid => (hlast id hid).resolve_left (by simp)⟩

/-- A step keeps the store sound and what the call knows true. -/
def Stage.StepSound (texts : Texts json) (now : Instant) (st : Store J) (c : Stage J) : Prop :=
  (Stage.step json now (c, st)).2.Sound texts ∧
    (Stage.step json now (c, st)).1.Sound texts (Stage.step json now (c, st)).2

namespace Stage

variable {st : Store J} (hst : st.Sound texts) (now : Instant)
include hst

/-- The entry that is taken was waiting. -/
theorem stepSound_brpoplpush : StepSound texts now st .brpoplpush := by
  simp only [StepSound, Stage.step]
  split
  · exact ⟨hst, trivial⟩
  · rename_i taskId hlast
    have hmem : taskId ∈ st.pending := List.mem_of_getLast? hlast
    refine ⟨hst.of_listed rfl fun id hid => ?_, hst.listed taskId (.inl hmem)⟩
    rcases hid with hid | hid
    · exact .inl (List.mem_of_mem_dropLast hid)
    · rcases List.mem_cons.mp hid with rfl | hid
      · exact .inl hmem
      · exact .inr hid

/-- What is listed has a payload. -/
theorem stepSound_hgetData {taskId : Uuid} (hbacked : st.Backed taskId) :
    StepSound texts now st (.hgetData taskId) := by
  simp only [StepSound, Stage.step]
  split
  · rename_i hnone
    have hdata := hbacked.1
    rw [hnone] at hdata
    cases hdata
  · split <;> exact ⟨hst, trivial⟩

theorem stepSound_nackHgetData (taskId : Uuid) (retryCount maxRetries : ℤ) :
    StepSound texts now st (.nackHgetData taskId retryCount maxRetries) := by
  simp only [StepSound, Stage.step]
  split
  · exact ⟨hst, trivial⟩
  · rename_i task hdec
    obtain ⟨rfl, hdata⟩ := decoded_spec hst hdec
    exact ⟨hst, hdata⟩

/-- The payload that is written back is that of the task. -/
theorem stepSound_lremNacked {task : TaskPayload} (hdes : Deserialises texts task.taskId)
    (since : Instant) : StepSound texts now st (.lremNacked task since) := by
  refine ⟨hst.lrem task.taskId, ?_, ?_, by simp⟩
  · unfold nackCommands
    split <;> simp [Ready, Store.exec, Store.hset, Store.Backed]
  · intro id text hmem
    unfold nackCommands at hmem
    split at hmem
    · simp at hmem
      obtain ⟨rfl, rfl⟩ := hmem
      exact proper_encode hdes
    · simp at hmem

/-- The time of the update is set before the push. -/
theorem stepSound_recoverNow {taskId : Uuid} (hbacked : st.Backed taskId) (scan : Scan)
    (task : TaskPayload) : StepSound texts now st (.recoverNow scan taskId task) := by
  refine ⟨hst, ?_, ?_, by simp⟩
  · have hdata : (st.hash taskId).data.isSome = true := hbacked.1
    simp [Ready, Stage.step, recoverCommands, Store.exec, Store.hset, Store.Backed, hdata]
  · intro id text hmem
    simp [recoverCommands] at hmem

theorem stepSound_writing {cmds : List (Command J)} {next : Next}
    (hc : (Stage.writing cmds next).Sound texts st) :
    StepSound texts now st (.writing cmds next) := by
  cases cmds with
  | nil => exact ⟨hst, by cases next <;> trivial⟩
  | cons cmd cmds =>
    obtain ⟨⟨hpush, hready⟩, hdata, hlast⟩ := hc
    refine ⟨hst.exec hpush fun id text h => hdata id text (h ▸ List.mem_cons_self),
      after_sound hready (fun id text h => hdata id text (List.mem_cons_of_mem _ h)) ?_⟩
    intro id hid
    have hreply := hlast id hid
    cases cmds with
    | nil => exact .inl rfl
    | cons cmd' cmds => exact .inr (by rwa [List.getLast?_cons_cons] at hreply)

end Stage

theorem Stage.Sound.step {st : Store J} (hst : st.Sound texts) {c : Stage J}
    (hc : c.Sound texts st) (now : Instant) : c.StepSound texts now st := by
  cases c with
  | brpoplpush => exact stepSound_brpoplpush hst now
  | hgetData taskId => exact stepSound_hgetData hst now hc
  | lremOrphan => cases hc
  | dequeueNow taskId task =>
    refine ⟨hst, ?_, ?_, by simp⟩
    · simp [Ready, Stage.step, processingCommands]
    · intro id text hmem
      simp [processingCommands] at hmem
  | lremAcked taskId now =>
    refine ⟨hst.lrem taskId, ?_, ?_, by simp⟩
    · simp [Ready, Stage.step, ackCommands]
    · intro id text hmem
      simp [ackCommands] at hmem
  | nackHgetData taskId retryCount maxRetries =>
    exact stepSound_nackHgetData hst now taskId retryCount maxRetries
  | nackNow task => exact ⟨hst, hc⟩
  | lremNacked task since => exact stepSound_lremNacked hst now hc.2 since
  | lrange | cutoffNow => exact ⟨hst, trivial⟩
  | hgetUpdatedAt scan =>
    rw [StepSound]
    rcases step_hgetUpdatedAt json now scan st with ⟨_, heq⟩ | ⟨_, heq⟩ | ⟨_, _, heq, hupd⟩
    all_goals rw [heq]
    · exact ⟨hst, trivial⟩
    · exact ⟨hst, trivial⟩
    · exact ⟨hst, hupd⟩
  | recoverHgetData scan taskId =>
    simp only [StepSound, Stage.step]
    split
    · exact ⟨hst, trivial⟩
    · rename_i task hdec
      exact ⟨hst, (decoded_spec hst hdec).2.1, hc⟩
  | lremStale scan taskId task => exact ⟨hst.lrem taskId, hc⟩
  | recoverNow scan taskId task => exact stepSound_recoverNow hst now hc scan task
  | writing cmds next => exact stepSound_writing hst now hc
  | returned | crashed => exact ⟨hst, trivial⟩

theorem sound_start (now : Instant) : Sound texts (State.start (J := J) now) where
  store := ⟨fun _ h => h.elim (nomatch ·) (nomatch ·), fun _ _ h => nomatch h⟩
  clients _ h := nomatch h

theorem Sound.setClient {s : State J} (h : Sound texts s) {i : ℕ} {c : Stage J}
    (hc : c.Sound texts s.store) : Sound texts (s.setClient i c) where
  store := h.store
  clients c' hc' := by
    rcases List.mem_or_eq_of_mem_set hc' with hc' | rfl
    · exact h.clients c' hc'
    · exact hc

theorem Sound.addClient {s : State J} (h : Sound texts s) {c : Stage J}
    (hc : c.Sound texts s.store) : Sound texts (s.addClient c) where
  store := h.store
  clients c' hc' := by
    rcases List.mem_append.mp hc' with hc' | hc'
    · exact h.clients c' hc'
    · rwa [List.mem_singleton.mp hc']

theorem Sound.step {s : State J} (h : Sound texts s) (a : Action) :
    Sound texts (s.step texts a) := by
  cases a with
  | tick d => exact ⟨h.store, h.clients⟩
  | call c =>
    have hadd : Sound texts (s.addClient (c.start texts s.now)) :=
      h.addClient (c.start_sound s.now s.store)
    cases c with
    | enqueue taskId =>
      simp only [State.step]
      split
      · exact h
      · exact ⟨hadd.store, hadd.clients⟩
    | _ => exact hadd
  | finish i succeeded =>
    simp only [State.step]
    split
    · split <;> exact h.setClient (Call.start_sound s.now _ s.store)
    · exact h
  | advance i =>
    simp only [State.step]
    split
    · rename_i c hi
      obtain ⟨hst, hc⟩ := (h.clients c (List.mem_of_getElem? hi)).step h.store s.now
      refine ⟨hst, fun c' hc' => ?_⟩
      rcases List.mem_or_eq_of_mem_set hc' with hc' | rfl
      · exact (h.clients c' hc').mono (step_filled s.now c s.store)
      · exact hc
    · exact h
  | crash i => exact h.setClient trivial

/-! ## A recovery on its own -/

variable (json) in
/-- What the loop of `recover_stale_tasks` does with one identifier. -/
def recoverOne (cutoff now : Instant) (st : Store J) (taskId : Uuid) : Store J :=
  match (st.hash taskId).updatedAt with
  | none => st
  | some updatedAt =>
    if cutoff ≤ updatedAt then st
    else
      match decoded json st taskId with
      | none => st
      | some _ => (recoverCommands taskId now).foldl Store.exec (st.lrem taskId)

variable (json) in
theorem scan_one (cutoff now : Instant) (taskId : Uuid) (taskIds : List Uuid)
    (recovered : List TaskPayload) (st : Store J) : ∃ n recovered',
    (Stage.step json now)^[n] (.hgetUpdatedAt ⟨cutoff, taskId :: taskIds, recovered⟩, st) =
      (.hgetUpdatedAt ⟨cutoff, taskIds, recovered'⟩, recoverOne json cutoff now st taskId) := by
  unfold recoverOne
  cases hupd : (st.hash taskId).updatedAt with
  | none => exact ⟨1, recovered, by simp [Stage.step, hupd]⟩
  | some updatedAt =>
    by_cases hcut : cutoff ≤ updatedAt
    · exact ⟨1, recovered, by simp [Stage.step, hupd, hcut]⟩
    · cases hdec : decoded json st taskId with
      | none => exact ⟨2, recovered, by simp [Stage.step, hupd, hcut, hdec]⟩
      | some task =>
        refine ⟨8, recovered ++ [task], ?_⟩
        simp [Stage.step, hupd, hcut, hdec, recoverCommands, Stage.after, Next.stage]

variable (json) in
theorem scan_all (cutoff now : Instant) (taskIds : List Uuid) (recovered : List TaskPayload)
    (st : Store J) : ∃ n tasks,
    (Stage.step json now)^[n] (.hgetUpdatedAt ⟨cutoff, taskIds, recovered⟩, st) =
      (.returned (.recovered tasks), taskIds.foldl (recoverOne json cutoff now) st) := by
  induction taskIds generalizing recovered st with
  | nil => exact ⟨1, recovered, rfl⟩
  | cons taskId taskIds ih =>
    obtain ⟨n, recovered', hone⟩ := scan_one json cutoff now taskId taskIds recovered st
    obtain ⟨m, tasks, hall⟩ := ih recovered' (recoverOne json cutoff now st taskId)
    refine ⟨m + n, tasks, ?_⟩
    rw [Function.iterate_add_apply, hone, hall]
    rfl

variable (json) in
/-- Alone, a recovery deals with the entries of the processing list one after the other. -/
theorem recover_alone (now : Instant) (timeout : ℕ) (st : Store J) : ∃ n tasks,
    (Stage.step json now)^[n] (.lrange timeout, st) = (.returned (.recovered tasks),
      st.processing.foldl (recoverOne json (now - timeout) now) st) := by
  obtain ⟨n, tasks, h⟩ := scan_all json (now - timeout) now st.processing [] st
  exact ⟨n + 2, tasks, h⟩

theorem iterate_returned (now : Instant) (n : ℕ) (r : Reply) (st : Store J) :
    (Stage.step json now)^[n] (.returned r, st) = (.returned r, st) :=
  Function.iterate_fixed rfl n

/-- A call returns one result. -/
theorem returned_unique {now : Instant} {c : Stage J} {st : Store J} {n m : ℕ} {r r' : Reply}
    {st₁ st₂ : Store J} (hn : (Stage.step json now)^[n] (c, st) = (.returned r, st₁))
    (hm : (Stage.step json now)^[m] (c, st) = (.returned r', st₂)) : st₁ = st₂ := by
  have h : (Stage.step json now)^[m + n] (c, st) = (Stage.step json now)^[n + m] (c, st) := by
    rw [Nat.add_comm]
  rw [Function.iterate_add_apply, Function.iterate_add_apply, hn, hm, iterate_returned,
    iterate_returned] at h
  exact congrArg Prod.snd h

variable (json) in
theorem recoverOne_pending (cutoff now : Instant) (st : Store J) (taskId : Uuid) :
    recoverOne json cutoff now st taskId = st ∨
      (recoverOne json cutoff now st taskId).pending = taskId :: st.pending ∧
        (∃ task, decoded json st taskId = some task) ∧
        ∀ id, id ≠ taskId → (recoverOne json cutoff now st taskId).hash id = st.hash id := by
  unfold recoverOne
  cases (st.hash taskId).updatedAt with
  | none => exact .inl rfl
  | some updatedAt =>
    dsimp only
    split
    · exact .inl rfl
    · cases decoded json st taskId with
      | none => exact .inl rfl
      | some task =>
        refine .inr ⟨rfl, ⟨task, rfl⟩, fun id hne => ?_⟩
        simp [recoverCommands, Store.exec, Store.hset_hash_of_ne _ _ _ hne]

theorem mem_pending_recoverOne {cutoff now : Instant} {st : Store J} {id : Uuid}
    (h : id ∈ st.pending) (taskId : Uuid) :
    id ∈ (recoverOne json cutoff now st taskId).pending := by
  rcases recoverOne_pending json cutoff now st taskId with heq | ⟨heq, -, -⟩
  · rwa [heq]
  · rw [heq]
    exact List.mem_cons_of_mem _ h

theorem mem_pending_recoverAll {cutoff now : Instant} {st : Store J} {id : Uuid}
    (h : id ∈ st.pending) (taskIds : List Uuid) :
    id ∈ (taskIds.foldl (recoverOne json cutoff now) st).pending := by
  induction taskIds generalizing st with
  | nil => exact h
  | cons taskId taskIds ih => exact ih (mem_pending_recoverOne h taskId)

/-- A stale task with a payload is put back. -/
theorem requeued_of_stale {cutoff now updatedAt : Instant} {st : Store J} {id : Uuid}
    (hupd : (st.hash id).updatedAt = some updatedAt) (hstale : updatedAt < cutoff)
    {task : TaskPayload} (hdec : decoded json st id = some task) {taskIds : List Uuid}
    (h : id ∈ taskIds) : id ∈ (taskIds.foldl (recoverOne json cutoff now) st).pending := by
  induction taskIds generalizing st with
  | nil => cases h
  | cons taskId taskIds ih =>
    by_cases hid : id = taskId
    · subst hid
      rw [List.foldl_cons]
      apply mem_pending_recoverAll
      simp [recoverOne, hupd, not_le.mpr hstale, hdec, recoverCommands, Store.exec]
    · have hmem : id ∈ taskIds := (List.mem_cons.mp h).resolve_left hid
      rcases recoverOne_pending json cutoff now st taskId with heq | ⟨-, -, hhash⟩
      · rw [List.foldl_cons, heq]
        exact ih hupd hdec hmem
      · exact ih (by rw [hhash id hid, hupd]) (by rw [decoded, hhash id hid]; exact hdec) hmem

/-- A task whose payload does not deserialise is passed over. -/
theorem not_requeued {cutoff now : Instant} {st : Store J} {id : Uuid}
    (hdec : decoded json st id = none) (h : id ∉ st.pending) (taskIds : List Uuid) :
    id ∉ (taskIds.foldl (recoverOne json cutoff now) st).pending := by
  induction taskIds generalizing st with
  | nil => exact h
  | cons taskId taskIds ih =>
    rcases recoverOne_pending json cutoff now st taskId with heq | ⟨heq, ⟨task, hsome⟩, hhash⟩
    · rw [List.foldl_cons, heq]
      exact ih hdec h
    · have hid : id ≠ taskId := by
        rintro rfl
        rw [hdec] at hsome
        cases hsome
      apply ih (by rw [decoded, hhash id hid]; exact hdec)
      rw [heq, List.mem_cons, not_or]
      exact ⟨hid, h⟩

theorem decoded_isSome_iff {s : State J} (h : Sound texts s) {id : Uuid}
    (hid : s.store.Listed id) :
    (decoded json s.store id).isSome = true ↔ Deserialises texts id := by
  obtain ⟨text, htext⟩ := Option.isSome_iff_exists.mp (h.store.listed id hid).1
  have hproper := h.store.proper id text htext
  rw [decoded, htext, Option.bind_some]
  unfold Proper at hproper
  cases hdec : json.decode text with
  | none =>
    rw [hdec] at hproper
    exact iff_of_false Bool.false_ne_true hproper
  | some task =>
    rw [hdec] at hproper
    exact iff_of_true rfl hproper.2

/-- What being put back comes down to. -/
theorem requeues_iff {s : State J} (h : Sound texts s) :
    Requeues json s ↔ ∀ id ∈ s.store.processing, Owed s id →
      id ∈ s.store.pending ∨ Deserialises texts id := by
  apply forall₃_congr
  intro id hproc _
  have hdes := decoded_isSome_iff h (.inr hproc)
  constructor
  · intro hreq
    by_contra hno
    rw [not_or, ← hdes, Bool.not_eq_true, Option.isSome_eq_false_iff, Option.isNone_iff_eq_none]
      at hno
    obtain ⟨updatedAt, hupd⟩ := Option.isSome_iff_exists.mp (h.store.listed id (.inr hproc)).2
    -- wait until the last update is in the past
    have hlate : updatedAt < s.now + (updatedAt - s.now + 1).toNat - (0 : ℕ) := by
      have hle := Int.self_le_toNat (updatedAt - s.now + 1)
      rw [Nat.cast_zero, sub_zero]
      linarith
    obtain ⟨n, tasks, store, hrun, hmem⟩ := hreq _ 0 updatedAt hupd hlate
    obtain ⟨m, tasks', halone⟩ :=
      recover_alone json (s.now + (updatedAt - s.now + 1).toNat) 0 s.store
    rw [returned_unique hrun halone] at hmem
    exact not_requeued hno.2 hno.1 _ hmem
  · intro hkept d timeout updatedAt hupd hstale
    obtain ⟨n, tasks, halone⟩ := recover_alone json (s.now + d) timeout s.store
    refine ⟨n, tasks, _, halone, ?_⟩
    rcases hkept with hpend | hsome
    · exact mem_pending_recoverAll hpend _
    · obtain ⟨task, htask⟩ := Option.isSome_iff_exists.mp (hdes.mpr hsome)
      exact requeued_of_stale hupd hstale htask hproc

/-! ## What a step does to the lists -/

theorem Store.mem_pending_iff_of_getLast? {st : Store J} {taskId id : Uuid}
    (h : st.pending.getLast? = some taskId) :
    id ∈ st.pending ↔ id ∈ st.pending.dropLast ∨ id = taskId := by
  conv_lhs => rw [← List.dropLast_append_getLast? taskId h]
  rw [List.mem_append, List.mem_singleton]

/-- An entry leaves the lists through the next `LREM` only. -/
theorem listed_step (now : Instant) {c : Stage J} {st : Store J} {id : Uuid} (h : st.Listed id) :
    (Stage.step json now (c, st)).2.Listed id ∨ c.lrems = some id := by
  rcases step_store json now c st with ⟨-, -, heq⟩ | ⟨taskId, -, hlast, heq⟩ |
    ⟨taskId, hlrem, heq⟩ | ⟨cmd, cmds, next, -, heq⟩
  · exact .inl (by rwa [heq])
  · -- the entry goes from one list to the other
    left
    rw [heq]
    rcases h with h | h
    · rcases (Store.mem_pending_iff_of_getLast? hlast).mp h with h | rfl
      · exact .inl h
      · exact .inr List.mem_cons_self
    · exact .inr (List.mem_cons_of_mem _ h)
  · by_cases hid : id = taskId
    · exact .inr (hid ▸ hlrem)
    · rw [heq]
      exact .inl (h.lrem_of_ne taskId hid)
  · left
    rw [heq]
    cases cmd with
    | lpushPending => exact h.imp_left (List.mem_cons_of_mem _)
    | hset | lpushDead => exact h

theorem step_takes {now : Instant} {c : Stage J} {st : Store J} {id : Uuid}
    (h : c.takes = some id) : (Stage.step json now (c, st)).2 = st.lrem id ∧
      (Stage.step json now (c, st)).1.Carries id := by
  cases c with
  | lremNacked task now =>
    cases h
    refine ⟨rfl, ?_⟩
    show 0 < (nackCommands json task now).countP _
    simp
  | lremStale scan taskId task =>
    cases h
    exact ⟨rfl, by simp [Stage.Carries, Stage.step, Stage.inHand]⟩
  | _ => cases h

/-- What is carried stays in hand until it is pushed. -/
theorem step_carries {now : Instant} {c : Stage J} {st : Store J} {id : Uuid}
    (h : c.Carries id) : (Stage.step json now (c, st)).1.Carries id ∨
      id ∈ (Stage.step json now (c, st)).2.pending ∨ id ∈ (Stage.step json now (c, st)).2.dead := by
  cases c with
  | recoverNow scan taskId task =>
    left
    simpa [Stage.Carries, Stage.step, Stage.inHand] using h
  | writing cmds next =>
    cases cmds with
    | nil => exact absurd h (Nat.lt_irrefl 0)
    | cons cmd cmds =>
      by_cases hcmd : cmd.pushes id = true
      · right
        cases cmd with
        | hset => cases hcmd
        | lpushPending taskId => exact .inl (beq_iff_eq.mp hcmd ▸ List.mem_cons_self)
        | lpushDead taskId => exact .inr (beq_iff_eq.mp hcmd ▸ List.mem_cons_self)
      · left
        rw [Stage.Carries, Stage.inHand, List.countP_cons_of_neg hcmd] at h
        rw [Stage.Carries, Stage.step, inHand_after]
        exact h
  | _ => exact absurd h (Nat.lt_irrefl 0)

/-- A task is new among those enqueued when it has just been pushed. -/
theorem mem_enqueued_advance {s : State J} {i : ℕ} {c : Stage J} (hc : c.Sound texts s.store)
    {id : Uuid} (h : id ∈ (s.advance json i c).enqueued) :
    id ∈ s.enqueued ∨ id ∈ (s.advance json i c).store.pending := by
  unfold State.advance at h ⊢
  dsimp only at h ⊢
  split at h
  · rename_i taskId hreply
    rcases List.mem_cons.mp h with rfl | h
    · right
      cases c with
      | writing cmds next =>
        obtain ⟨-, -, hlast⟩ := hc
        cases cmds with
        | nil =>
          cases next with
          | reply r =>
            cases hreply
            exact absurd (hlast id rfl) (by simp)
          | scan => cases hreply
        | cons cmd cmds =>
          cases cmds with
          | nil =>
            cases next with
            | reply r =>
              cases hreply
              cases hlast id rfl
              exact List.mem_cons_self
            | scan => cases hreply
          | cons => cases hreply
      | _ => cases hreply
    · exact .inl h
  · exact .inl h

/-- Whoever removes an entry either acknowledges the task or is to push it again. -/
theorem takes_or_acked {c : Stage J} {st : Store J} (hc : c.Sound texts st) {id : Uuid}
    (h : c.lrems = some id) : c.takes = some id ∨ ∃ now, c = .lremAcked id now := by
  cases c with
  | lremOrphan => cases hc
  | lremAcked taskId now =>
    cases h
    exact .inr ⟨now, rfl⟩
  | lremNacked | lremStale => exact .inl h
  | _ => cases h

section Advance

variable {s : State J} {i : ℕ} {c : Stage J} {id : Uuid}

/-- A task that is owed after a step was owed before, or has just been pushed. -/
theorem owed_advance (hc : c.Sound texts s.store) (h : Owed (s.advance json i c) id) :
    Owed s id ∧ (∀ now, c ≠ .lremAcked id now) ∨ id ∈ (s.advance json i c).store.pending := by
  obtain ⟨henq, hack, hdead⟩ := h
  rcases mem_enqueued_advance hc henq with henq | hpend
  · refine .inl ⟨⟨henq, fun h => hack ?_, fun h => hdead (step_dead s.now c s.store h)⟩, ?_⟩
    · unfold State.advance
      dsimp only
      split
      · exact List.mem_cons_of_mem _ h
      · exact h
    · rintro now rfl
      exact hack List.mem_cons_self
  · exact .inr hpend

/-- Taking the entry of a task changes nothing about its being owed. -/
theorem owed_advance_of_takes (htakes : c.takes = some id) (h : Owed s id) :
    Owed (s.advance json i c) id := by
  have hdead : (s.advance json i c).store.dead = s.store.dead := by
    rw [advance_store, (step_takes htakes).1, Store.lrem_dead]
  refine ⟨?_, ?_, by rw [hdead]; exact h.2.2⟩
  all_goals
    cases c with
    | lremNacked | lremStale => first | exact h.1 | exact h.2.1
    | _ => cases htakes

/-- A step keeps owed tasks listed exactly if it leaves an entry of the one it takes. -/
theorem listed_advance_iff (hc : c.Sound texts s.store)
    (h : ∀ id, Owed s id → s.store.Listed id) :
    (∀ id, Owed (s.advance json i c) id → (s.advance json i c).store.Listed id) ↔
      ∀ id ∈ c.takes, Owed s id → (s.store.lrem id).Listed id := by
  constructor
  · intro hafter id htakes howed
    have hlisted := hafter id (owed_advance_of_takes htakes howed)
    rwa [advance_store, (step_takes htakes).1] at hlisted
  · intro hleave id howed
    rcases owed_advance hc howed with ⟨howed, hack⟩ | hpend
    · rcases listed_step s.now (h id howed) with hlisted | hlrem
      · exact hlisted
      · rcases takes_or_acked hc hlrem with htakes | ⟨now, heq⟩
        · have := hleave id htakes howed
          rwa [advance_store, (step_takes htakes).1]
        · exact absurd heq (hack now)
    · exact .inl hpend

/-- A step keeps owed tasks listed or in hand. -/
theorem kept_advance (hi : s.clients[i]? = some c) (hc : c.Sound texts s.store)
    (h : ∀ id, Owed s id → s.store.Listed id ∨ ∃ c' ∈ s.clients, c'.Carries id)
    (howed : Owed (s.advance json i c) id) : (s.advance json i c).store.Listed id ∨
      ∃ c' ∈ (s.advance json i c).clients, c'.Carries id := by
  have hnew : (Stage.step json s.now (c, s.store)).1 ∈ (s.advance json i c).clients :=
    List.mem_set (List.getElem?_eq_some_iff.mp hi).1 _
  rcases owed_advance hc howed with ⟨hbefore, hack⟩ | hpend
  · rcases h id hbefore with hlisted | ⟨c', hc', hcarries⟩
    · rcases listed_step s.now hlisted with hlisted | hlrem
      · exact .inl hlisted
      · rcases takes_or_acked hc hlrem with htakes | ⟨now, heq⟩
        · exact .inr ⟨_, hnew, (step_takes htakes).2⟩
        · exact absurd heq (hack now)
    · obtain ⟨j, hj⟩ := List.mem_iff_getElem?.mp hc'
      by_cases hij : j = i
      · subst hij
        cases hi.symm.trans hj
        rcases step_carries hcarries with hcarries | hpend | hdead
        · exact .inr ⟨_, hnew, hcarries⟩
        · exact .inl (.inl hpend)
        · exact absurd hdead howed.2.2
      · refine .inr ⟨c', List.mem_iff_getElem?.mpr ⟨j, ?_⟩, hcarries⟩
        exact (List.getElem?_set_ne (Ne.symm hij)).trans hj
  · exact .inl (.inl hpend)

/-- A step keeps what `requeues_iff` asks for exactly if it takes a task that deserialises. -/
theorem waits_advance_iff (hc : c.Sound texts s.store)
    (h : ∀ id ∈ s.store.processing, Owed s id → id ∈ s.store.pending ∨ Deserialises texts id) :
    (∀ id ∈ (s.advance json i c).store.processing, Owed (s.advance json i c) id →
      id ∈ (s.advance json i c).store.pending ∨ Deserialises texts id) ↔
      (c = .brpoplpush → ∀ id ∈ s.store.pending.getLast?, Owed s id →
        id ∈ s.store.pending.dropLast ∨ Deserialises texts id) := by
  have hshrink : (∀ id ∈ (s.advance json i c).store.processing, id ∈ s.store.processing) →
      (∀ id ∈ s.store.pending, id ∈ (s.advance json i c).store.pending) →
      ∀ id ∈ (s.advance json i c).store.processing, Owed (s.advance json i c) id →
        id ∈ (s.advance json i c).store.pending ∨ Deserialises texts id := by
    intro hproc hpend id hid howed
    rcases owed_advance hc howed with ⟨howed, -⟩ | hmem
    · exact (h id (hproc id hid) howed).imp_left (hpend id)
    · exact .inl hmem
  rcases step_store json s.now c s.store with ⟨-, hnone, heq⟩ | ⟨taskId, rfl, hlast, heq⟩ |
    ⟨taskId, hlrem, heq⟩ | ⟨cmd, cmds, next, rfl, heq⟩
  all_goals rw [advance_store] at hshrink ⊢
  · refine iff_of_true (hshrink (fun _ => by rw [heq]; exact id) fun _ => by rw [heq]; exact id) ?_
    intro hbrp id hid
    rw [hnone hbrp] at hid
    cases hid
  · have howed : ∀ id, Owed (s.advance json i .brpoplpush) id ↔ Owed s id := fun id => by
      rw [Owed, advance_store, heq]
      exact Iff.rfl
    simp only [howed, heq]
    constructor
    · intro hafter _ id hid hid'
      cases hlast.symm.trans hid
      exact hafter _ List.mem_cons_self hid'
    · intro hlast' id hid hid'
      rcases List.mem_cons.mp hid with rfl | hid
      · exact hlast' trivial id hlast hid'
      · by_cases heq' : id = taskId
        · subst heq'
          exact hlast' trivial id hlast hid'
        · exact (h id hid hid').imp_left fun hpend =>
            ((Store.mem_pending_iff_of_getLast? hlast).mp hpend).resolve_right heq'
  · refine iff_of_true (hshrink (fun _ => by rw [heq]; exact List.mem_of_mem_erase) fun _ => by
      rw [heq]; exact id) ?_
    rintro rfl
    cases hlrem
  · refine iff_of_true (hshrink (fun _ => ?_) fun _ => ?_) fun hbrp => (nomatch hbrp)
    · rw [heq]
      cases cmd <;> exact id
    · rw [heq]
      cases cmd with
      | lpushPending => exact List.mem_cons_of_mem _
      | hset | lpushDead => exact id

end Advance

variable (texts) in
/-- The other actions leave the lists alone. -/
theorem step_quiet {s : State J} {a : Action} (h : ∀ i, a ≠ .advance i) :
    (s.step texts a).store = s.store ∧ ∀ id, Owed (s.step texts a) id ↔ Owed s id := by
  cases a with
  | advance i => exact absurd rfl (h i)
  | call c =>
    cases c with
    | enqueue taskId =>
      simp only [State.step]
      split <;> exact ⟨rfl, fun _ => Iff.rfl⟩
    | _ => exact ⟨rfl, fun _ => Iff.rfl⟩
  | finish i succeeded =>
    simp only [State.step]
    split <;> exact ⟨rfl, fun _ => Iff.rfl⟩
  | tick | crash => exact ⟨rfl, fun _ => Iff.rfl⟩

theorem requeues_step_iff {s : State J} (hs : Sound texts s) (h : Requeues json s) (a : Action) :
    Requeues json (s.step texts a) ↔ DequeuesDeserialising texts s a := by
  rw [requeues_iff (hs.step a)]
  rw [requeues_iff hs] at h
  by_cases hadv : ∃ i, a = .advance i
  · obtain ⟨i, rfl⟩ := hadv
    simp only [State.step, DequeuesDeserialising]
    cases hi : s.clients[i]? with
    | none => exact iff_of_true h fun hbrp => nomatch hbrp
    | some c =>
      simp only [Option.some.injEq]
      exact waits_advance_iff (hs.clients c (List.mem_of_getElem? hi)) h
  · obtain ⟨hstore, howed⟩ := step_quiet texts (s := s) fun i hi => hadv ⟨i, hi⟩
    simp only [hstore, howed]
    apply iff_of_true h
    cases a with
    | advance i => exact absurd ⟨i, rfl⟩ hadv
    | _ => trivial

theorem noneLost_step_iff {s : State J} (hs : Sound texts s) (h : NoneLost json s) (a : Action) :
    NoneLost json (s.step texts a) ↔ LeavesEntry s a ∧ DequeuesDeserialising texts s a := by
  have hlisted : (∀ id, Owed (s.step texts a) id → (s.step texts a).store.Listed id) ↔
      LeavesEntry s a := by
    by_cases hadv : ∃ i, a = .advance i
    · obtain ⟨i, rfl⟩ := hadv
      simp only [State.step, LeavesEntry]
      cases hi : s.clients[i]? with
      | none => exact iff_of_true h.listed fun _ hc => nomatch hc
      | some c =>
        simp only [Option.mem_some_iff, forall_eq']
        exact listed_advance_iff (hs.clients c (List.mem_of_getElem? hi)) h.listed
    · obtain ⟨hstore, howed⟩ := step_quiet texts (s := s) fun i hi => hadv ⟨i, hi⟩
      simp only [hstore, howed]
      apply iff_of_true h.listed
      cases a with
      | advance i => exact absurd ⟨i, rfl⟩ hadv
      | _ => trivial
  rw [← hlisted, ← requeues_step_iff hs h.requeues a]
  exact ⟨fun h => ⟨h.listed, h.requeues⟩, fun h => ⟨h.1, h.2⟩⟩

/-- Setting one client leaves the others. -/
theorem mem_set_of_ne {clients : List (Stage J)} {i j : ℕ} {c c' : Stage J}
    (hj : clients[j]? = some c') (hij : j ≠ i) : c' ∈ clients.set i c :=
  List.mem_iff_getElem?.mpr ⟨j, (List.getElem?_set_ne (Ne.symm hij)).trans hj⟩

/-- Somebody besides a dying client carries the task. -/
theorem carries_crash_iff {clients : List (Stage J)} {i : ℕ} {id : Uuid} :
    (∃ c ∈ clients.set i .crashed, c.Carries id) ↔ ∃ c ∈ clients.eraseIdx i, c.Carries id := by
  refine exists_congr fun c => and_congr_left fun hc => ?_
  rw [List.mem_eraseIdx_iff_getElem?, List.mem_iff_getElem?]
  constructor
  · intro ⟨j, hj⟩
    by_cases hij : j = i
    · subst hij
      rw [List.getElem?_set_self'] at hj
      obtain ⟨_, -, rfl⟩ := Option.map_eq_some_iff.mp hj
      exact absurd hc (Nat.lt_irrefl 0)
    · exact ⟨j, hij, (List.getElem?_set_ne (Ne.symm hij)).symm.trans hj⟩
  · intro ⟨j, hij, hj⟩
    exact ⟨j, (List.getElem?_set_ne (Ne.symm hij)).trans hj⟩

theorem kept_crash_iff {s : State J}
    (h : ∀ id, Owed s id → s.store.Listed id ∨ ∃ c ∈ s.clients, c.Carries id) (i : ℕ) :
    (∀ id, Owed s id → s.store.Listed id ∨ ∃ c ∈ s.clients.set i .crashed, c.Carries id) ↔
      DiesWithout s (.crash i) := by
  simp only [carries_crash_iff, DiesWithout]
  constructor
  · exact fun hafter c _ id _ howed => hafter id howed
  · intro hdies id howed
    rcases h id howed with hlisted | ⟨c, hc, hcarries⟩
    · exact .inl hlisted
    · obtain ⟨j, hj⟩ := List.mem_iff_getElem?.mp hc
      by_cases hij : j = i
      · subst hij
        exact hdies c hj id hcarries howed
      · exact .inr ⟨c, List.mem_eraseIdx_iff_getElem?.mpr ⟨j, hij, hj⟩, hcarries⟩

theorem noneDropped_step_iff {s : State J} (hs : Sound texts s) (h : NoneDropped json s)
    (a : Action) :
    NoneDropped json (s.step texts a) ↔ DiesWithout s a ∧ DequeuesDeserialising texts s a := by
  have hkept : (∀ id, Owed (s.step texts a) id → (s.step texts a).store.Listed id ∨
      ∃ c ∈ (s.step texts a).clients, c.Carries id) ↔ DiesWithout s a := by
    cases a with
    | tick d => exact iff_of_true h.kept trivial
    | call c =>
      refine iff_of_true ?_ trivial
      have hadd : ∀ c' : Stage J, ∀ id, Owed s id →
          s.store.Listed id ∨ ∃ c ∈ s.clients ++ [c'], c.Carries id := fun c' id howed =>
        (h.kept id howed).imp_right fun ⟨c, hc, hcarries⟩ =>
          ⟨c, List.mem_append_left _ hc, hcarries⟩
      cases c with
      | enqueue taskId =>
        simp only [State.step]
        split
        · exact h.kept
        · exact hadd _
      | _ => exact hadd _
    | finish i succeeded =>
      refine iff_of_true ?_ trivial
      simp only [State.step]
      split
      · rename_i task hi
        intro id howed
        refine (h.kept id howed).imp_right fun ⟨c, hc, hcarries⟩ => ?_
        obtain ⟨j, hj⟩ := List.mem_iff_getElem?.mp hc
        refine ⟨c, mem_set_of_ne hj ?_, hcarries⟩
        rintro rfl
        cases hi.symm.trans hj
        exact absurd hcarries (Nat.lt_irrefl 0)
      · exact h.kept
    | advance i =>
      refine iff_of_true ?_ trivial
      simp only [State.step]
      split
      · rename_i c hi
        exact fun id howed => kept_advance hi (hs.clients c (List.mem_of_getElem? hi)) h.kept howed
      · exact h.kept
    | crash i => exact kept_crash_iff h.kept i
  rw [← hkept, ← requeues_step_iff hs h.requeues a]
  exact ⟨fun h => ⟨h.kept, h.requeues⟩, fun h => ⟨h.1, h.2⟩⟩

theorem not_owed_start (now : Instant) (id : Uuid) : ¬ Owed (State.start (J := J) now) id :=
  fun h => nomatch h.1

theorem requeues_start (now : Instant) : Requeues json (State.start now) :=
  fun _ h => nomatch h

/-- Every owed task stays in a list, and can be recovered, exactly in the runs in which no retry
or recovery takes the only entry of one and each task a worker takes deserialises. Counting what
live clients have in hand, it is exactly the runs in which none of these dies and each task a
worker takes deserialises. -/
theorem redis_tasks_kept_iff (texts : Texts json) (now : Instant) (as : List Action) :
    (AllStates (State.step texts) (NoneLost json) (State.start now) as ↔
      AllSteps (State.step texts) (fun s a => LeavesEntry s a ∧ DequeuesDeserialising texts s a)
        (State.start now) as) ∧
    (AllStates (State.step texts) (NoneDropped json) (State.start now) as ↔
      AllSteps (State.step texts) (fun s a => DiesWithout s a ∧ DequeuesDeserialising texts s a)
        (State.start now) as) := by
  constructor
  · exact allStates_iff_allSteps (J := Sound texts) (P := NoneLost json) (fun _ a h => h.step a)
      (fun _ a hs h => noneLost_step_iff hs h a) (sound_start now)
      ⟨fun id h => absurd h (not_owed_start now id), requeues_start now⟩ as
  · exact allStates_iff_allSteps (J := Sound texts) (P := NoneDropped json) (fun _ a h => h.step a)
      (fun _ a hs h => noneDropped_step_iff hs h a) (sound_start now)
      ⟨fun id h => absurd h (not_owed_start now id), requeues_start now⟩ as

def plainTask (taskId : Uuid) : TaskPayload :=
  ⟨taskId, 2, 3, "local", none, "", "a.png", "image/png", 0, 3⟩

/-- What is stored for every identifier but the second deserialises. -/
def plainTexts : Texts (Codec.orNone (α := TaskPayload)) where
  text taskId := if taskId = 2 then none else some (plainTask taskId)
  own taskId task h := by
    dsimp only [Codec.orNone, id] at h
    split at h
    · cases h
    · cases h
      rfl

/-- The task is enqueued and a worker takes it. -/
def takingRun (taskId : Uuid) : List Action := List.flatten
  [.call (.enqueue taskId) :: List.replicate 5 (.advance 0),
    .call .dequeue :: List.replicate 5 (.advance 1)]

/-- The worker dies after the `LREM` of a retry. -/
def dyingRun : List Action := List.flatten
  [takingRun 1, .finish 1 false :: List.replicate 3 (.advance 1), [.crash 1]]

/-- A task is lost with its worker; and a payload that does not deserialise stays where it is. -/
theorem redis_tasks_lost :
    ¬ AllStates (State.step plainTexts) (NoneDropped Codec.orNone) (State.start 0) dyingRun ∧
    ¬ AllStates (State.step plainTexts) (NoneLost Codec.orNone) (State.start 0) dyingRun ∧
    ¬ AllStates (State.step plainTexts) (NoneLost Codec.orNone) (State.start 0) (takingRun 2) := by
  refine ⟨fun h => ?_, fun h => ?_, fun h => ?_⟩
  · exact absurd (h.last.kept 1 (by decide +kernel)) (by decide +kernel)
  · exact absurd (h.last.listed 1 (by decide +kernel)) (by decide +kernel)
  · have hsound : Sound plainTexts ((takingRun 2).foldl (State.step plainTexts) (State.start 0)) :=
      invariant _ (J := Sound plainTexts) (fun _ a h => h.step a) (sound_start 0) _
    have hstuck := (requeues_iff hsound).mp h.last.requeues 2 (by decide +kernel)
    exact absurd (hstuck (by decide +kernel)) (by decide +kernel)

end PicHost.RedisCommands
