import PicHost.Web.RenderLag

/-!
# Which file a task gets

All `preprocessFile` calls of the upload queue share one worker. Its messages name no call: a reply
goes to every handler registered when it arrives, whichever file it is about. The worker's
`processFile` calls may end in any order.
-/

namespace PicHost.Web.SharedWorker

open LabelledRun RenderLag

structure WorkerMessage where
  file : File
  prefs : PreprocessingPrefs

/-- `calls` are the `preprocessFile` calls that each `addFiles` made, in order. `jobs` are the
messages the worker has not answered and `listeners` the calls whose handler is registered. -/
structure State where
  calls : List (List WorkerMessage)
  jobs : List WorkerMessage
  listeners : List TaskId
  queue : RenderLag.State

namespace State

/-- Nothing has been added. -/
def init : State := ⟨[], [], [], .init⟩

def call (s : State) (id : TaskId) : Option WorkerMessage := s.calls[id.batch]?.bind (·[id.index]?)

end State

def isWorkerNeeded (prefs : PreprocessingPrefs) (file : File) : Bool :=
  prefs.needsProcessing && (prefs.needsCanvas || prefs.stripExif && file.type == "image/jpeg")

inductive WorkerResponse
  | success (file : File)
  | failure (error : String)

def WorkerResponse.outcome : WorkerResponse → Except Thrown File
  | .success file => .ok file
  | .failure error => .error (.error error)

variable {Bitmap : Type} (browser : Browser Bitmap)

/-- The worker's handler. -/
def onmessage (m : WorkerMessage) : WorkerResponse :=
  match processFile browser m.file m.prefs with
  | .ok file => .success file
  | .error e => .failure (e.message "Processing failed")

def preprocessFile (s : State) (id : TaskId) (m : WorkerMessage) : State :=
  if isWorkerNeeded m.prefs m.file then
    if browser.offscreenCanvas then
      { s with jobs := s.jobs ++ [m], listeners := s.listeners ++ [id] }
    -- `mainProcess` is still to end.
    else s
  else { s with queue := s.queue.settle id (.ok m.file) }

def addFiles (files : List File) (prefs : PreprocessingPrefs)
    (storageConfigIds : Option (List Uuid)) (s : State) : State :=
  if files = [] then s
  else
    let messages := files.map (WorkerMessage.mk · prefs)
    ((batchIds s.calls.length files.length).zip messages).foldl
      (fun s p => preprocessFile browser s p.1 p.2)
      { s with
        calls := s.calls ++ [messages]
        queue := s.queue.addFiles files storageConfigIds }

/-- Every registered handler runs and takes itself off. -/
def runHandlers (o : Except Thrown File) (s : State) : State :=
  { s with
    listeners := []
    queue := s.listeners.foldl (fun queue id => queue.settle id o) s.queue }

inductive Action
  | addFiles (files : List File) (prefs : PreprocessingPrefs)
      (storageConfigIds : Option (List Uuid))
  | reply (k : ℕ)
  | mainProcessed (id : TaskId)
  | resume (b : ℕ)
  | timeout
  | uploadSettled (id : TaskId) (result : Except Thrown UploadResult)
  | uploadFinally (id : TaskId)
  | clearQueue
  | evaluate
  | render

/-- `reply k`: the worker ends its `k`-th unanswered message. `mainProcessed`: a call that
runs on the main thread ends. -/
def step (s : State) : Action → State
  | .addFiles files prefs storageConfigIds => addFiles browser files prefs storageConfigIds s
  | .reply k =>
    match s.jobs[k]? with
    | none => s
    | some m => runHandlers (onmessage browser m).outcome { s with jobs := s.jobs.eraseIdx k }
  | .mainProcessed id =>
    match s.call id with
    | none => s
    | some m =>
      if isWorkerNeeded m.prefs m.file && !browser.offscreenCanvas then
        { s with queue := s.queue.settle id (processFile browser m.file m.prefs) }
      else s
  | .resume b => { s with queue := s.queue.resume b }
  | .timeout => { s with queue := s.queue.timeout }
  | .uploadSettled id result => { s with queue := s.queue.uploadSettled id result }
  | .uploadFinally id => { s with queue := s.queue.uploadFinally id }
  | .clearQueue => { s with queue := s.queue.setTasks .clearQueue }
  | .evaluate => { s with queue := s.queue.evaluate }
  | .render => { s with queue := s.queue.render }

/-- What a call is to be settled with. -/
def own (m : WorkerMessage) : Except Thrown File :=
  (processFile browser m.file m.prefs).mapError fun e =>
    if browser.offscreenCanvas then .error (e.message "Processing failed") else e

/-- Every promise is settled with the outcome of its own file. -/
def OwnOutcomes (s : State) : Prop :=
  ∀ (id : TaskId) m o, s.call id = some m → s.queue.outcome id = some o → o = own browser m

/-- Promises have the outcomes of their own files, what is uploaded for a task is the processed
version of its file, no task is uploaded twice, and when no promise, timeout or upload is left
every task of an `addFiles` that went through has been uploaded. -/
structure Corresponds (s : State) : Prop where
  promises : OwnOutcomes browser s
  uploads : ∀ u ∈ s.queue.uploads, ∃ m, s.call u.id = some m ∧
    processFile browser m.file m.prefs = .ok u.file
  once : (s.queue.uploads.map Upload.id).Nodup
  complete : Quiet s.queue → ∀ (b : ℕ) (messages : List WorkerMessage),
    s.calls[b]? = some messages →
    (∀ i < messages.length, ∃ file, s.queue.outcome ⟨b, i⟩ = some (.ok file)) →
    ∀ i < messages.length, ⟨b, i⟩ ∈ s.queue.uploads.map Upload.id

/-- A reply comes while every call that waits is for a file with the same outcome. -/
def AnswersAll (s : State) : Action → Prop
  | .reply k => ∀ m, s.jobs[k]? = some m → ∀ id ∈ s.listeners, ∀ m', s.call id = some m' →
      own browser m' = own browser m
  | _ => True

/-- What `processNext` takes has been rendered with its preprocessed file. -/
def RenderedInTime (s : State) : Action → Prop
  | .resume b => InTime s.queue (.resume b)
  | .timeout => InTime s.queue .timeout
  | .uploadFinally id => InTime s.queue (.uploadFinally id)
  | _ => True

variable {browser}

/-! ## One call -/

theorem processFile_of_not_needed {m : WorkerMessage} (h : isWorkerNeeded m.prefs m.file = false) :
    processFile browser m.file m.prefs = .ok m.file := by
  unfold processFile
  rcases Bool.and_eq_false_iff.mp h with hnone | hsome
  · rw [hnone]
    rfl
  · obtain ⟨hcanvas, hstrip⟩ := Bool.or_eq_false_iff.mp hsome
    simp only [hcanvas, hstrip, Bool.false_eq_true, if_false]
    exact ite_self _

theorem own_of_not_needed {m : WorkerMessage} (h : isWorkerNeeded m.prefs m.file = false) :
    own browser m = .ok m.file := by
  rw [own, processFile_of_not_needed h, Except.mapError]

theorem own_of_main {m : WorkerMessage} (h : browser.offscreenCanvas = false) :
    own browser m = processFile browser m.file m.prefs := by
  simp only [own, h, Bool.false_eq_true, if_false]
  cases processFile browser m.file m.prefs <;> rfl

theorem onmessage_outcome {m : WorkerMessage} (h : browser.offscreenCanvas = true) :
    (onmessage browser m).outcome = own browser m := by
  simp only [own, onmessage, h, if_true]
  cases processFile browser m.file m.prefs <;> rfl

theorem processFile_of_own {m : WorkerMessage} {file : File} (h : own browser m = .ok file) :
    processFile browser m.file m.prefs = .ok file := by
  unfold own at h
  cases hp : processFile browser m.file m.prefs with
  | error e =>
    rw [hp] at h
    cases h
  | ok processed =>
    rw [hp] at h
    cases h
    rfl

/-! ## The promises of the queue -/

section promises

variable {q : RenderLag.State}

/-- The promises of each `addFiles`. -/
def promises (q : RenderLag.State) : List (List (Option (Except Thrown File))) :=
  q.batches.map Batch.outcomes

def promise (q : RenderLag.State) (id : TaskId) : Option (Option (Except Thrown File)) :=
  (promises q)[id.batch]?.bind (·[id.index]?)

theorem outcome_eq_promise (id : TaskId) : q.outcome id = (promise q id).join := by
  rw [RenderLag.State.outcome, promise, promises, List.getElem?_map]
  cases q.batches[id.batch]? <;> rfl

theorem promise_congr {q' : RenderLag.State} (h : promises q' = promises q) (id : TaskId) :
    promise q' id = promise q id := by
  rw [promise, promise, h]

theorem promises_takeNext (l : List TaskId) : promises (q.takeNext l) = promises q := by
  induction l generalizing q with
  | nil => rfl
  | cons id rest ih =>
    rw [RenderLag.State.takeNext]
    split
    · split <;> exact ih
    · rfl

theorem promises_timeout : promises q.timeout = promises q := by
  unfold RenderLag.State.timeout
  split
  · exact promises_takeNext _
  · rfl

theorem promises_uploadSettled (id : TaskId) (result : Except Thrown UploadResult) :
    promises (q.uploadSettled id result) = promises q := by
  unfold RenderLag.State.uploadSettled
  split <;> rfl

theorem promises_uploadFinally (id : TaskId) : promises (q.uploadFinally id) = promises q := by
  unfold RenderLag.State.uploadFinally
  split
  · exact promises_takeNext _
  · rfl

theorem promises_evaluate : promises q.evaluate = promises q := by
  unfold RenderLag.State.evaluate
  split <;> rfl

theorem set_of_some {α : Type} {l : List α} {i : ℕ} {a : α} (h : l[i]? = some a) :
    l.set i a = l := by
  obtain ⟨hlt, rfl⟩ := List.getElem?_eq_some_iff.mp h
  exact List.set_getElem_self hlt

theorem promises_resume (b : ℕ) : promises (q.resume b) = promises q := by
  unfold RenderLag.State.resume
  split
  · rfl
  · rename_i batch hbatch
    have hset : (q.batches.set b { batch with waiting := false }).map Batch.outcomes =
        q.batches.map Batch.outcomes := by
      rw [List.map_set]
      apply set_of_some
      rw [List.getElem?_map, hbatch]
      rfl
    split
    · split
      · rfl
      · exact hset
      · exact hset
    · rfl

theorem promises_addFiles {files : List File} (hfiles : files ≠ [])
    (storageConfigIds : Option (List Uuid)) :
    promises (q.addFiles files storageConfigIds) = promises q ++ [files.map fun _ => none] := by
  rw [RenderLag.State.addFiles, if_neg hfiles]
  exact List.map_append

theorem modify_of_some {α : Type} {l : List α} {i : ℕ} {a : α} (h : l[i]? = some a) (f : α → α) :
    l.modify i f = l.set i (f a) := by
  have : Inhabited α := ⟨a⟩
  rw [List.modify_eq_set, h, Option.getD_some]

theorem modify_of_fixed {α : Type} {l : List α} {i : ℕ} {f : α → α}
    (h : ∀ a, l[i]? = some a → f a = a) : l.modify i f = l := by
  refine List.ext_getElem? fun j => ?_
  rw [List.getElem?_modify]
  cases ha : l[j]? with
  | none => rfl
  | some a =>
    by_cases hij : i = j
    · subst hij
      simp [h a ha]
    · simp [hij]

/-- A promise settles if it has not settled yet. -/
theorem promises_settle (id : TaskId) (o : Except Thrown File) :
    promises (q.settle id o) =
      (promises q).modify id.batch fun outcomes => outcomes.modify id.index (·.or (some o)) := by
  unfold RenderLag.State.settle
  cases hbatch : q.batches[id.batch]? with
  | none =>
    rw [modify_of_fixed]
    intro outcomes houtcomes
    rw [promises, List.getElem?_map, hbatch] at houtcomes
    cases houtcomes
  | some batch =>
    have houtcomes : (promises q)[id.batch]? = some batch.outcomes := by
      rw [promises, List.getElem?_map, hbatch]
      rfl
    rw [modify_of_some houtcomes]
    dsimp only
    split
    · rename_i hnone
      rw [modify_of_some hnone, promises, List.map_set]
      rfl
    · rename_i hsettled
      rw [modify_of_fixed, set_of_some houtcomes]
      intro p hp
      cases p with
      | none => exact absurd hp hsettled
      | some o' => rfl

theorem promise_settle (id id' : TaskId) (o : Except Thrown File) :
    promise (q.settle id o) id' =
      if id' = id then (promise q id').map (·.or (some o)) else promise q id' := by
  obtain ⟨b, i⟩ := id
  obtain ⟨b', i'⟩ := id'
  rw [promise, promises_settle, List.getElem?_modify, promise]
  dsimp only
  cases (promises q)[b']? with
  | none => simp
  | some outcomes =>
    by_cases hb : b = b'
    · simp only [hb, TaskId.mk.injEq, true_and, Option.map_eq_map, Option.map_some, if_true,
        Option.bind_some, List.getElem?_modify, eq_comm (a := i)]
      by_cases hi : i' = i
      · simp [hi]
      · simp [hi]
    · simp [hb, Ne.symm hb]

theorem length_promises_settle (id : TaskId) (o : Except Thrown File) :
    (promises (q.settle id o)).map List.length = (promises q).map List.length := by
  rw [promises_settle]
  refine List.ext_getElem? fun b => ?_
  rw [List.getElem?_map, List.getElem?_map, List.getElem?_modify]
  cases (promises q)[b]? with
  | none => rfl
  | some outcomes =>
    by_cases hb : id.batch = b
    · simp [hb]
    · simp [hb]

/-- The promises of all these calls settle. -/
theorem promise_settleAll (ids : List TaskId) (o : Except Thrown File) (id' : TaskId) :
    promise (ids.foldl (fun q id => q.settle id o) q) id' =
      if id' ∈ ids then (promise q id').map (·.or (some o)) else promise q id' := by
  induction ids generalizing q with
  | nil => simp
  | cons id ids ih =>
    rw [List.foldl_cons, ih, promise_settle]
    by_cases hid : id' = id
    · have hor (p : Option (Except Thrown File)) : (p.or (some o)).or (some o) = p.or (some o) := by
        cases p <;> rfl
      simp only [hid, List.mem_cons, true_or, if_true, Option.map_map, Function.comp_def, hor,
        ite_self]
    · simp only [hid, if_false, List.mem_cons, false_or]

theorem length_promises_settleAll (ids : List TaskId) (o : Except Thrown File) :
    (promises (ids.foldl (fun q id => q.settle id o) q)).map List.length =
      (promises q).map List.length := by
  induction ids generalizing q with
  | nil => rfl
  | cons id ids ih => rw [List.foldl_cons, ih, length_promises_settle]

end promises

/-! ## What every step keeps -/

variable (browser) in
/-- Every call has its promise, and that of a call with a handler has not settled. -/
structure Linked (s : State) : Prop where
  lengths : (promises s.queue).map List.length = s.calls.map List.length
  listeners : ∀ id ∈ s.listeners, promise s.queue id = some none ∧ browser.offscreenCanvas = true

section Steps

variable {s : State}

theorem linked_init : Linked browser .init where
  lengths := rfl
  listeners _ hid := nomatch hid

theorem OwnOutcomes.of_promises {s' : State} (h : OwnOutcomes browser s)
    (hcalls : s'.calls = s.calls)
    (hpromises : promises s'.queue = promises s.queue) : OwnOutcomes browser s' := by
  intro id m o hcall hout
  rw [outcome_eq_promise, promise_congr hpromises, ← outcome_eq_promise] at hout
  rw [State.call, hcalls] at hcall
  exact h id m o hcall hout

/-- The queue goes on by itself. -/
theorem Linked.queue (h : Linked browser s) {queue : RenderLag.State}
    (hpromises : promises queue = promises s.queue) : Linked browser { s with queue } where
  lengths := by
    rw [← h.lengths, ← hpromises]
  listeners id hid := by
    rw [promise_congr hpromises]
    exact h.listeners id hid

theorem Linked.call_of_promise (h : Linked browser s) {id : TaskId}
    {p : Option (Except Thrown File)} (hp : promise s.queue id = some p) :
    ∃ m, s.call id = some m := by
  have hlengths := congrArg (·[id.batch]?) h.lengths
  rw [List.getElem?_map, List.getElem?_map] at hlengths
  rw [promise] at hp
  obtain ⟨outcomes, houtcomes, hindex⟩ := Option.bind_eq_some_iff.mp hp
  rw [houtcomes] at hlengths
  obtain ⟨messages, hmessages, hlength⟩ := Option.map_eq_some_iff.mp hlengths.symm
  obtain ⟨hlt, -⟩ := List.getElem?_eq_some_iff.mp hindex
  rw [← hlength] at hlt
  refine ⟨messages[id.index], ?_⟩
  rw [State.call, hmessages, Option.bind_some, List.getElem?_eq_getElem hlt]

/-- Promises of calls without a handler settle. -/
theorem Linked.settleAll (h : Linked browser s) (ids : List TaskId) (o : Except Thrown File)
    (listeners : List TaskId) (hleft : ∀ id ∈ listeners, id ∈ s.listeners ∧ id ∉ ids)
    (jobs : List WorkerMessage) :
    Linked browser { s with
      jobs
      listeners
      queue := ids.foldl (fun q id => q.settle id o) s.queue } where
  lengths := (length_promises_settleAll ids o).trans h.lengths
  listeners id hid := by
    obtain ⟨hmem, hnot⟩ := hleft id hid
    rw [promise_settleAll, if_neg hnot]
    exact h.listeners id hmem

/-- Settled promises had their outcome before or get this one. -/
theorem outcome_settleAll_cases {q : RenderLag.State} {ids : List TaskId}
    {o o' : Except Thrown File}
    {id : TaskId} (h : (ids.foldl (fun q id => q.settle id o) q).outcome id = some o') :
    q.outcome id = some o' ∨ id ∈ ids ∧ o' = o := by
  rw [outcome_eq_promise, promise_settleAll] at h
  rw [outcome_eq_promise]
  split at h
  · rename_i hid
    cases hp : promise q id with
    | none =>
      rw [hp] at h
      cases h
    | some p =>
      rw [hp] at h
      cases p with
      | none => exact .inr ⟨hid, (Option.some.inj h).symm⟩
      | some o'' => exact .inl h
  · exact .inl h

theorem OwnOutcomes.settleAll (h : OwnOutcomes browser s) (ids : List TaskId)
    {o : Except Thrown File}
    (hids : ∀ id ∈ ids, ∀ m, s.call id = some m → o = own browser m)
    (jobs : List WorkerMessage) (listeners : List TaskId) :
    OwnOutcomes browser { s with
      jobs
      listeners
      queue := ids.foldl (fun q id => q.settle id o) s.queue } := by
  intro id m o' hcall hout
  rcases outcome_settleAll_cases hout with hout | ⟨hid, rfl⟩
  · exact h id m o' hcall hout
  · exact hids id hid m hcall

/-- A call that was made and has neither settled nor registered its handler. -/
structure Fresh (s : State) (id : TaskId) (m : WorkerMessage) : Prop where
  call : s.call id = some m
  promise : SharedWorker.promise s.queue id = some none
  unheard : id ∉ s.listeners

theorem Linked.preprocessFile (h : Linked browser s) {id : TaskId} {m : WorkerMessage}
    (hid : Fresh s id m) : Linked browser (preprocessFile browser s id m) := by
  unfold SharedWorker.preprocessFile
  split
  · split
    · rename_i hoff
      refine ⟨h.lengths, fun id' hid' => ?_⟩
      rcases List.mem_append.mp hid' with hold | hnew
      · exact h.listeners id' hold
      · rw [List.mem_singleton.mp hnew]
        exact ⟨hid.promise, hoff⟩
    · exact h
  · refine h.settleAll [id] _ s.listeners (fun id' hid' => ⟨hid', fun hmem => ?_⟩) s.jobs
    rw [List.mem_singleton.mp hmem] at hid'
    exact hid.unheard hid'

theorem OwnOutcomes.preprocessFile (h : OwnOutcomes browser s) {id : TaskId} {m : WorkerMessage}
    (hid : Fresh s id m) : OwnOutcomes browser (preprocessFile browser s id m) := by
  unfold SharedWorker.preprocessFile
  split
  · split <;> exact h
  · rename_i hneeded
    refine h.settleAll [id] (fun id' hid' m' hcall => ?_) s.jobs s.listeners
    rw [List.mem_singleton.mp hid', hid.call] at hcall
    rw [← Option.some.inj hcall]
    exact (own_of_not_needed (Bool.eq_false_of_not_eq_true hneeded)).symm

variable (browser) in
/-- The other calls of the same `addFiles` stay as they were. -/
theorem Fresh.preprocessFile {id id' : TaskId} {m m' : WorkerMessage} (h : Fresh s id' m')
    (hne : id' ≠ id) : Fresh (preprocessFile browser s id m) id' m' := by
  unfold SharedWorker.preprocessFile
  split
  · split
    · refine ⟨h.call, h.promise, fun hmem => ?_⟩
      rcases List.mem_append.mp hmem with hold | hnew
      · exact h.unheard hold
      · exact hne (List.mem_singleton.mp hnew)
    · exact h
  · refine ⟨h.call, ?_, h.unheard⟩
    rw [promise_settle, if_neg hne]
    exact h.promise

theorem tracked_preprocessFile (h : Tracked s.queue) (id : TaskId) (m : WorkerMessage) :
    Tracked (preprocessFile browser s id m).queue := by
  unfold SharedWorker.preprocessFile
  split
  · split <;> exact h
  · exact h.settle id _

/-- The calls of one `addFiles`, one after the other. -/
theorem Linked.preprocessFiles (h : Linked browser s) {l : List (TaskId × WorkerMessage)}
    (hnodup : (l.map Prod.fst).Nodup) (hl : ∀ p ∈ l, Fresh s p.1 p.2) :
    Linked browser (l.foldl (fun s p => SharedWorker.preprocessFile browser s p.1 p.2) s) ∧
      (OwnOutcomes browser s → OwnOutcomes browser
        (l.foldl (fun s p => SharedWorker.preprocessFile browser s p.1 p.2) s)) ∧
      (Tracked s.queue →
        Tracked (l.foldl (fun s p => SharedWorker.preprocessFile browser s p.1 p.2) s).queue) := by
  induction l generalizing s with
  | nil => exact ⟨h, id, id⟩
  | cons p l ih =>
    obtain ⟨hp, hnodup⟩ := List.nodup_cons.mp hnodup
    have hfresh := hl p (.head _)
    obtain ⟨hlinked, hown, htracked⟩ := ih (h.preprocessFile hfresh) hnodup fun p' hp' =>
      (hl p' (.tail _ hp')).preprocessFile browser fun heq =>
        hp (heq ▸ List.mem_map_of_mem hp')
    exact ⟨hlinked, fun hs => hown (hs.preprocessFile hfresh),
      fun hs => htracked (tracked_preprocessFile hs p.1 p.2)⟩

theorem Linked.batch_lt (h : Linked browser s) {id : TaskId} {p : Option (Except Thrown File)}
    (hp : promise s.queue id = some p) : id.batch < s.calls.length := by
  obtain ⟨m, hcall⟩ := h.call_of_promise hp
  obtain ⟨messages, hmessages, -⟩ := Option.bind_eq_some_iff.mp hcall
  exact (List.getElem?_eq_some_iff.mp hmessages).1

/-- The promises of one more `addFiles` have not settled; those before it are as they were. -/
theorem promise_append {q q' : RenderLag.State} {n : ℕ} {id : TaskId}
    {p : Option (Except Thrown File)} (hq : promises q' = promises q ++ [List.replicate n none]) :
    promise q' id = some p ↔
      promise q id = some p ∨ id.batch = (promises q).length ∧ id.index < n ∧ p = none := by
  rw [promise, promise, hq, Option.bind_eq_some_iff, Option.bind_eq_some_iff]
  constructor
  · rintro ⟨outcomes, houtcomes, hp⟩
    rcases getElem?_append_singleton.mp houtcomes with hold | ⟨hbatch, rfl⟩
    · exact .inl ⟨outcomes, hold, hp⟩
    · rw [List.getElem?_replicate, Option.ite_none_right_eq_some] at hp
      exact .inr ⟨hbatch, hp.1, (Option.some.inj hp.2).symm⟩
  · rintro (⟨outcomes, houtcomes, hp⟩ | ⟨hbatch, hlt, rfl⟩)
    · exact ⟨outcomes, getElem?_append_singleton.mpr (.inl houtcomes), hp⟩
    · exact ⟨_, getElem?_append_singleton.mpr (.inr ⟨hbatch, rfl⟩),
        List.getElem?_replicate_of_lt hlt⟩

/-- The calls are made and none of them has settled. -/
theorem Linked.called (h : Linked browser s) {files : List File} (hfiles : files ≠ [])
    (prefs : PreprocessingPrefs) (storageConfigIds : Option (List Uuid)) :
    let s' : State := { s with
      calls := s.calls ++ [files.map (WorkerMessage.mk · prefs)]
      queue := s.queue.addFiles files storageConfigIds }
    Linked browser s' ∧ (OwnOutcomes browser s → OwnOutcomes browser s') ∧
      ∀ p ∈ (batchIds s.calls.length files.length).zip (files.map (WorkerMessage.mk · prefs)),
        Fresh s' p.1 p.2 := by
  have hlength : (promises s.queue).length = s.calls.length := by
    simpa only [List.length_map] using congrArg List.length h.lengths
  have hnew : promises (s.queue.addFiles files storageConfigIds) =
      promises s.queue ++ [List.replicate files.length none] := by
    rw [promises_addFiles hfiles, List.map_const']
  refine ⟨⟨?_, fun id hid => ?_⟩, fun hown id m o hcall hout => ?_, fun p hp => ?_⟩
  · dsimp only
    rw [hnew, List.map_append, List.map_append, h.lengths]
    simp
  · obtain ⟨hnone, hoff⟩ := h.listeners id hid
    exact ⟨(promise_append hnew).mpr (.inl hnone), hoff⟩
  · rw [outcome_eq_promise, Option.join_eq_some_iff] at hout
    rcases (promise_append hnew).mp hout with hold | ⟨-, -, hnone⟩
    · refine hown id m o ?_ (by rw [outcome_eq_promise, hold, Option.join_some])
      rwa [State.call, List.getElem?_append_left (h.batch_lt hold)] at hcall
    · cases hnone
  · obtain ⟨i, hi⟩ := List.getElem?_of_mem hp
    obtain ⟨hid, hm⟩ := List.getElem?_zip_eq_some.mp hi
    obtain ⟨hbatch, hlt⟩ := mem_batchIds.mp (List.mem_of_getElem? hid)
    have hindex : p.1.index = i := by
      rw [batchIds, List.getElem?_map] at hid
      obtain ⟨index, hrange, hmk⟩ := Option.map_eq_some_iff.mp hid
      obtain ⟨hlt, hindex⟩ := List.getElem?_eq_some_iff.mp hrange
      rw [← hmk, ← hindex, List.getElem_range]
    refine ⟨?_, (promise_append hnew).mpr (.inr ⟨hbatch.trans hlength.symm, hlt, rfl⟩),
      fun hmem => ?_⟩
    · rw [State.call, hbatch, List.getElem?_concat_length, Option.bind_some, hindex, hm]
    · have hold := h.batch_lt (h.listeners p.1 hmem).1
      rw [hbatch] at hold
      exact lt_irrefl _ hold

theorem Linked.addFiles (h : Linked browser s) (files : List File) (prefs : PreprocessingPrefs)
    (storageConfigIds : Option (List Uuid)) :
    Linked browser (addFiles browser files prefs storageConfigIds s) ∧
      (OwnOutcomes browser s →
        OwnOutcomes browser (addFiles browser files prefs storageConfigIds s)) ∧
      (Tracked s.queue → Tracked (addFiles browser files prefs storageConfigIds s).queue) := by
  unfold SharedWorker.addFiles
  split
  · exact ⟨h, id, id⟩
  · rename_i hfiles
    obtain ⟨hlinked, hown, hfresh⟩ := h.called hfiles prefs storageConfigIds
    have hnodup : (((batchIds s.calls.length files.length).zip
        (files.map (WorkerMessage.mk · prefs))).map Prod.fst).Nodup := by
      rw [List.map_fst_zip (by simp [batchIds])]
      exact batchIds_nodup _ _
    obtain ⟨hlinked', hown', htracked'⟩ := hlinked.preprocessFiles hnodup hfresh
    exact ⟨hlinked', fun hs => hown' (hown hs),
      fun hs => htracked' (hs.addFiles files storageConfigIds)⟩

/-- A reply keeps the outcomes right exactly when it is right for every call that waits. -/
theorem Linked.ownOutcomes_runHandlers_iff (h : Linked browser s) (hown : OwnOutcomes browser s)
    (m : WorkerMessage) (jobs : List WorkerMessage) :
    OwnOutcomes browser (runHandlers (onmessage browser m).outcome { s with jobs }) ↔
      ∀ id ∈ s.listeners, ∀ m', s.call id = some m' → own browser m' = own browser m := by
  constructor
  · intro hstep id hid m' hcall
    obtain ⟨hnone, hoff⟩ := h.listeners id hid
    have hreply : (runHandlers (onmessage browser m).outcome { s with jobs }).queue.outcome id =
        some (onmessage browser m).outcome := by
      rw [outcome_eq_promise, runHandlers, promise_settleAll, if_pos hid, hnone]
      rfl
    rw [← hstep id m' _ hcall hreply, onmessage_outcome hoff]
  · intro hanswers
    refine hown.settleAll _ (fun id hid m' hcall => ?_) jobs []
    rw [onmessage_outcome (h.listeners id hid).2, hanswers id hid m' hcall]

theorem tracked_settleAll {q : RenderLag.State} (h : Tracked q) (ids : List TaskId)
    (o : Except Thrown File) : Tracked (ids.foldl (fun q id => q.settle id o) q) := by
  induction ids generalizing q with
  | nil => exact h
  | cons id ids ih => exact ih (h.settle id o)

variable (browser) in
/-- The promises stay linked, their outcomes their own as long as replies answer all that wait,
and the queue behind them as it should be as long as it is rendered in time. -/
structure Kept (s s' : State) (a : Action) : Prop where
  linked : Linked browser s'
  own : OwnOutcomes browser s → (OwnOutcomes browser s' ↔ AnswersAll browser s a)
  tracked : Tracked s.queue → RenderedInTime s a → Tracked s'.queue

/-- What the queue does by itself settles no promise. -/
theorem Linked.kept_queue (h : Linked browser s) {queue : RenderLag.State} {a : Action}
    (hpromises : promises queue = promises s.queue) (ha : AnswersAll browser s a)
    (htracked : Tracked s.queue → RenderedInTime s a → Tracked queue) :
    Kept browser s { s with queue } a where
  linked := h.queue hpromises
  own hown := iff_of_true (hown.of_promises rfl hpromises) ha
  tracked := htracked

theorem Linked.step (h : Linked browser s) (a : Action) :
    Kept browser s (SharedWorker.step browser s a) a := by
  cases a with
  | addFiles files prefs storageConfigIds =>
    obtain ⟨hlinked, hown, htracked⟩ := h.addFiles files prefs storageConfigIds
    exact ⟨hlinked, fun hs => iff_of_true (hown hs) trivial, fun hs _ => htracked hs⟩
  | reply k =>
    rw [SharedWorker.step]
    split
    · rename_i hnone
      exact ⟨h, fun hs => iff_of_true hs fun m hm => absurd (hnone.symm.trans hm) (by simp),
        fun hs _ => hs⟩
    · rename_i m hm
      refine ⟨h.settleAll s.listeners _ [] (fun _ hid => nomatch hid) _,
        fun hs => ?_, fun hs _ => tracked_settleAll hs _ _⟩
      rw [h.ownOutcomes_runHandlers_iff hs]
      simp only [AnswersAll, hm, Option.some.injEq, forall_eq']
  | mainProcessed id =>
    rw [SharedWorker.step]
    split
    · exact ⟨h, fun hs => iff_of_true hs trivial, fun hs _ => hs⟩
    · rename_i m hcall
      split
      · rename_i hmain
        have hoff : browser.offscreenCanvas = false := by
          simpa using (Bool.and_eq_true_iff.mp hmain).2
        refine ⟨h.settleAll [id] _ _ (fun id' hid' => ?_) s.jobs, fun hs => iff_of_true ?_ trivial,
          fun hs _ => hs.settle id _⟩
        · -- No handler is registered without the worker.
          have hon := (h.listeners id' hid').2
          rw [hoff] at hon
          cases hon
        · refine hs.settleAll [id] (fun id' hid' m' hcall' => ?_) s.jobs s.listeners
          rw [List.mem_singleton.mp hid', hcall] at hcall'
          rw [← Option.some.inj hcall']
          exact (own_of_main hoff).symm
      · exact ⟨h, fun hs => iff_of_true hs trivial, fun hs _ => hs⟩
  | resume b => exact h.kept_queue (promises_resume b) trivial fun hs => hs.resume
  | timeout => exact h.kept_queue promises_timeout trivial fun hs => hs.timeout
  | uploadSettled id result =>
    exact h.kept_queue (promises_uploadSettled id result) trivial
      fun hs _ => hs.uploadSettled id result
  | uploadFinally id =>
    exact h.kept_queue (promises_uploadFinally id) trivial fun hs => hs.uploadFinally
  | clearQueue => exact h.kept_queue rfl trivial fun hs _ => tracked_step hs .clearQueue trivial
  | evaluate => exact h.kept_queue promises_evaluate trivial fun hs _ => hs.evaluate
  | render => exact h.kept_queue rfl trivial fun hs _ => tracked_step hs .render trivial

end Steps

/-! ## The correspondence -/

theorem corresponds_of_tracked {s : State} (h : Linked browser s) (hown : OwnOutcomes browser s)
    (htracked : Tracked s.queue) : Corresponds browser s := by
  have hlaw := queueLaw_of_tracked htracked
  refine ⟨hown, fun u hu => ?_, hlaw.once, fun hquiet b messages hmessages hall i hi => ?_⟩
  · have hout := hlaw.processed u hu
    have hpromise := hout
    rw [outcome_eq_promise, Option.join_eq_some_iff] at hpromise
    obtain ⟨m, hcall⟩ := h.call_of_promise hpromise
    exact ⟨m, hcall, processFile_of_own (hown u.id m _ hcall hout).symm⟩
  · have hlengths := congrArg (·[b]?) h.lengths
    rw [List.getElem?_map, List.getElem?_map, hmessages, promises, List.getElem?_map] at hlengths
    cases hbatch : s.queue.batches[b]? with
    | none =>
      rw [hbatch] at hlengths
      cases hlengths
    | some batch =>
      rw [hbatch] at hlengths
      have hlength : batch.outcomes.length = messages.length := Option.some.inj hlengths
      -- Every promise of the call is fulfilled.
      have hfulfilled : ∀ o ∈ batch.outcomes, ∃ file, o = some (.ok file) := by
        intro o ho
        obtain ⟨j, hj, rfl⟩ := List.getElem_of_mem ho
        obtain ⟨file, hfile⟩ := hall j (hlength ▸ hj)
        rw [RenderLag.State.outcome, hbatch, Option.bind_some, List.getElem?_eq_getElem hj,
          Option.join_some] at hfile
        exact ⟨file, hfile⟩
      obtain ⟨files, hfiles, hsame⟩ := promiseAll_of_fulfilled hfulfilled
      obtain ⟨⟨u, hu, hid⟩, -⟩ := hlaw.uploaded hquiet b batch files hbatch hfiles i
        (by rw [hsame, hlength]; exact hi)
      exact hid ▸ List.mem_map_of_mem hu

variable (browser) in
/-- Promises get the outcomes of their own files in exactly the runs in which every reply comes
while all calls that wait are for files with its outcome; and when the queue is rendered in time
as well, every task uploads the processed version of its own file, once. -/
theorem preprocessing_corresponds_iff (as : List Action) :
    (AllStates (step browser) (OwnOutcomes browser) .init as ↔
      AllSteps (step browser) (AnswersAll browser) .init as) ∧
    (AllSteps (step browser) (fun s a => AnswersAll browser s a ∧ RenderedInTime s a) .init as →
      AllStates (step browser) (Corresponds browser) .init as) := by
  have hinit : OwnOutcomes browser .init := fun _ _ _ hcall => nomatch hcall
  constructor
  · exact allStates_iff_allSteps (fun _ a h => (Linked.step h a).linked)
      (fun _ a h hown => (Linked.step h a).own hown) linked_init hinit as
  · intro h
    have hall := allStates_of_guarded
      (J := fun s => Linked browser s ∧ OwnOutcomes browser s ∧ Tracked s.queue)
      (fun s a ⟨hlinked, hown, htracked⟩ ⟨hanswers, hrendered⟩ =>
        have hkept := hlinked.step a
        ⟨hkept.linked, (hkept.own hown).mpr hanswers, hkept.tracked htracked hrendered⟩)
      ⟨linked_init, hinit, tracked_init⟩ h
    exact hall.mono fun s ⟨hlinked, hown, htracked⟩ =>
      corresponds_of_tracked hlinked hown htracked

/-- A browser that draws nothing; EXIF stripping needs no canvas. -/
def stripBrowser : Browser Unit where
  engine := ⟨100000, "Maximum call stack size exceeded"⟩
  offscreenCanvas := true
  createImageBitmap _ := .ok ()
  drawAndEncode _ _ _ := .error .other

def stripPrefs : PreprocessingPrefs := { stripExif := true }

/-- A JPEG without segments and with one byte of data. -/
def jpeg (name : String) (data : UInt8) : File :=
  ⟨name, "image/jpeg", [0xFF, 0xD8, 0xFF, 0xDA, data, 0xFF, 0xD9]⟩

/-- The second file is added after the reply about the first. -/
def inTurnRun : List Action :=
  [.addFiles [jpeg "a.jpg" 1] stripPrefs none, .reply 0,
    .addFiles [jpeg "b.jpg" 2] stripPrefs none, .reply 0,
    .render, .resume 0, .resume 1, .render, .timeout, .timeout]

theorem preprocessing_corresponds_inTurn :
    AllStates (step stripBrowser) (Corresponds stripBrowser) .init inTurnRun := by
  refine (preprocessing_corresponds_iff stripBrowser inTurnRun).2
    ⟨⟨trivial, trivial⟩, ⟨?_, trivial⟩, ⟨trivial, trivial⟩, ⟨?_, trivial⟩, ⟨trivial, trivial⟩,
      ⟨trivial, ?_⟩, ⟨trivial, ?_⟩, ⟨trivial, trivial⟩, ⟨trivial, ?_⟩, ⟨trivial, ?_⟩, trivial⟩
  · intro m hm id hid m' hcall
    obtain rfl := List.mem_singleton.mp hid
    obtain rfl := Option.some.inj hm
    obtain rfl := Option.some.inj hcall
    rfl
  · intro m hm id hid m' hcall
    obtain rfl := List.mem_singleton.mp hid
    obtain rfl := Option.some.inj hm
    obtain rfl := Option.some.inj hcall
    rfl
  · intro batch files hbatch _ _
    obtain rfl := Option.some.inj hbatch
    rfl
  · intro batch files hbatch _ _
    obtain rfl := Option.some.inj hbatch
    rfl
  · intro _ id hid
    rcases List.mem_cons.mp hid with rfl | hid
    · exact ⟨_, rfl, rfl⟩
    · obtain rfl := List.mem_singleton.mp hid
      exact ⟨_, rfl, rfl⟩
  · intro _ id hid
    cases hid

/-- Two files are added at once; the worker's reply about the first settles both. -/
def sharedReplyRun : List Action :=
  [.addFiles [jpeg "a.jpg" 1, jpeg "b.jpg" 2] stripPrefs none, .reply 0]

theorem preprocessing_not_corresponds :
    ¬ ∀ (browser : Browser Unit) (as : List Action),
      AllStates (step browser) (Corresponds browser) .init as := by
  intro h
  have hlast := (h stripBrowser sharedReplyRun).last
  have hsecond := hlast.promises ⟨0, 1⟩ ⟨jpeg "b.jpg" 2, stripPrefs⟩ (.ok (jpeg "a.jpg" 1)) rfl rfl
  exact absurd hsecond (by decide +kernel)

end PicHost.Web.SharedWorker
