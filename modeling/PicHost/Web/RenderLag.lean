import PicHost.Lib.Run
import PicHost.Web.UploadTask

/-!
# The upload queue between renders

Updates of the tasks are functions that React runs in their order, some time after they were
queued; what it has run is what `processNext` reads only from the next render on. The component
stays mounted, and `makeId` never makes an id twice.
-/

namespace PicHost.Web.RenderLag

open LabelledRun

/-- The id made for the `index`-th file of the `batch`-th call of `addFiles`. -/
structure TaskId where
  batch : ℕ
  index : ℕ
deriving DecidableEq

abbrev Tasks := TaskId → Option UploadTask

/-- One patch for each listed task, through the map as it is then. -/
def patchTasks {α : Type} (f : α → Option UploadTask → Option UploadTask) (l : List (TaskId × α))
    (tasks : Tasks) : Tasks :=
  l.foldl (fun tasks p => Function.update tasks p.1 (f p.2 (tasks p.1))) tasks

/-- The tasks with the arrays `ids` of the calls of `addFiles`. -/
structure Memory where
  tasks : Tasks
  ids : ℕ → List TaskId

/-- The functions given to `setTasks`. -/
inductive Update
  | create (batch : ℕ) (files : List File) (storageConfigIds : Option (List Uuid))
  | preprocessFailed (batch : ℕ) (e : Thrown)
  | preprocessed (batch : ℕ) (files : List File)
  | updateTask (id : TaskId) (patch : UploadTask → UploadTask)
  | clearQueue

def batchIds (batch files : ℕ) : List TaskId := (List.range files).map (TaskId.mk batch)

namespace Update

def apply : Update → Memory → Memory
  | .create batch files storageConfigIds, m =>
    -- `ids.push(id)` is inside the function, so the array is empty until React runs it.
    let new := batchIds batch files.length
    { tasks := patchTasks (fun file _ => some (newTask file storageConfigIds)) (new.zip files)
        m.tasks
      ids := Function.update m.ids batch (m.ids batch ++ new) }
  | .preprocessFailed batch e, m =>
    { m with
      tasks := patchTasks (fun e => Option.map (UploadTask.preprocessFailed e))
        ((m.ids batch).map (·, e)) m.tasks }
  | .preprocessed batch files, m =>
    { m with
      tasks := patchTasks (fun file => Option.map (UploadTask.preprocessed file))
        ((m.ids batch).zip files) m.tasks }
  | .updateTask id patch, m =>
    { m with tasks := Function.update m.tasks id ((m.tasks id).map patch) }
  | .clearQueue, m =>
    { m with
      tasks := fun id => (m.tasks id).filter fun t => ¬ (t.status = .done ∨ t.status = .error) }

end Update

/-- The promises of the files of one call of `addFiles`; `waiting` until that of all has settled
and the rest of the call has run. -/
structure Batch where
  outcomes : List (Option (Except Thrown File))
  waiting : Bool

/-- A call of `uploadImage`. -/
structure Upload where
  id : TaskId
  file : File
  storageConfigIds : Option (List Uuid)

/-- `evaluated` is what React has made of the updates so far, `updates` are those still queued and
`rendered` is `tasksRef`. Of the uploads, `running` are not settled and `finishing` have their
`finally` before them. -/
structure State where
  evaluated : Memory
  updates : List Update
  rendered : Tasks
  active : ℤ
  pending : List TaskId
  running : List TaskId
  finishing : List TaskId
  uploads : List Upload
  timers : ℕ
  batches : List Batch

namespace State

def init : State := ⟨⟨fun _ => none, fun _ => []⟩, [], fun _ => none, 0, [], [], [], [], 0, []⟩

def setTasks (u : Update) (s : State) : State := { s with updates := s.updates ++ [u] }

def start (id : TaskId) (task : UploadTask) (rest : List TaskId) (s : State) : State :=
  { s with
    active := s.active + 1
    pending := rest
    updates := s.updates ++
      [.updateTask id fun t => { t with status := .uploading, progress := 0 }]
    running := s.running ++ [id]
    uploads := s.uploads ++ [⟨id, task.file, task.storageConfigIds⟩] }

/-- The loop of `processNext` on the list of pending ids. -/
def takeNext : List TaskId → State → State
  | [], s => { s with pending := [] }
  | id :: rest, s =>
    if s.active < maxConcurrent then
      match s.rendered id with
      -- `continue`: an id that the last render does not have is not put back.
      | none => takeNext rest { s with pending := rest }
      | some task => takeNext rest (s.start id task rest)
    else { s with pending := id :: rest }

def processNext (s : State) : State := takeNext s.pending s

def addFiles (files : List File) (storageConfigIds : Option (List Uuid)) (s : State) : State :=
  if files = [] then s
  else
    let batch := ⟨files.map fun _ => none, true⟩
    setTasks (.create s.batches.length files storageConfigIds)
      { s with batches := s.batches ++ [batch] }

/-- The promise of one `preprocessFile` settles. -/
def settle (id : TaskId) (o : Except Thrown File) (s : State) : State :=
  match s.batches[id.batch]? with
  | none => s
  | some batch =>
    if batch.outcomes[id.index]? = some none then
      let batch := { batch with outcomes := batch.outcomes.set id.index (some o) }
      { s with batches := s.batches.set id.batch batch }
    else s

/-- The rest of a call of `addFiles`, if its `Promise.all` has settled. -/
def resume (b : ℕ) (s : State) : State :=
  match s.batches[b]? with
  | none => s
  | some batch =>
    if batch.waiting then
      let batches := s.batches.set b { batch with waiting := false }
      match promiseAll batch.outcomes with
      | none => s
      | some (.error e) => setTasks (.preprocessFailed b e) { s with batches }
      | some (.ok files) =>
        setTasks (.preprocessed b files)
          { s with
            batches
            pending := s.pending ++ s.evaluated.ids b
            timers := s.timers + 1 }
    else s

def timeout (s : State) : State :=
  if 0 < s.timers then processNext { s with timers := s.timers - 1 } else s

def settledPatch (result : Except Thrown UploadResult) (t : UploadTask) : UploadTask :=
  match result with
  | .ok result => { t with status := .done, progress := 100, result := some result }
  | .error e =>
    { t with status := .error, progress := 0, error := some (e.message "Upload failed") }

/-- `then` or `catch`. -/
def uploadSettled (id : TaskId) (result : Except Thrown UploadResult) (s : State) : State :=
  if id ∈ s.running then
    setTasks (.updateTask id (settledPatch result))
      { s with
        running := s.running.erase id
        finishing := s.finishing ++ [id] }
  else s

/-- `finally`. -/
def uploadFinally (id : TaskId) (s : State) : State :=
  if id ∈ s.finishing then
    processNext { s with active := s.active - 1, finishing := s.finishing.erase id }
  else s

/-- React runs the first queued update. -/
def evaluate (s : State) : State :=
  match s.updates with
  | [] => s
  | u :: rest => { s with evaluated := u.apply s.evaluated, updates := rest }

/-- What the tasks are once all updates are run. -/
def current (s : State) : Memory := s.updates.foldl (fun m u => u.apply m) s.evaluated

def render (s : State) : State :=
  { s with evaluated := s.current, updates := [], rendered := s.current.tasks }

/-- What the preprocessing of a file came to. -/
def outcome (s : State) (id : TaskId) : Option (Except Thrown File) :=
  s.batches[id.batch]?.bind fun batch => batch.outcomes[id.index]?.join

end State

inductive Action
  | addFiles (files : List File) (storageConfigIds : Option (List Uuid))
  | settle (id : TaskId) (o : Except Thrown File)
  | resume (b : ℕ)
  | timeout
  | uploadSettled (id : TaskId) (result : Except Thrown UploadResult)
  | uploadFinally (id : TaskId)
  | clearQueue
  | evaluate
  | render

def step (s : State) : Action → State
  | .addFiles files storageConfigIds => s.addFiles files storageConfigIds
  | .settle id o => s.settle id o
  | .resume b => s.resume b
  | .timeout => s.timeout
  | .uploadSettled id result => s.uploadSettled id result
  | .uploadFinally id => s.uploadFinally id
  | .clearQueue => s.setTasks .clearQueue
  | .evaluate => s.evaluate
  | .render => s.render

/-- No promise, timeout or upload has anything left to do. -/
structure Quiet (s : State) : Prop where
  batches : ∀ batch ∈ s.batches, batch.waiting = false
  timers : s.timers = 0
  running : s.running = []
  finishing : s.finishing = []

/-- The task is done, has failed, or was cleared after that. -/
def Finished (task : Option UploadTask) : Prop :=
  ∀ t ∈ task, t.status = .done ∨ t.status = .error

structure QueueLaw (s : State) : Prop where
  bounded : 0 ≤ s.active ∧ s.active ≤ maxConcurrent
  counted : s.active = s.running.length + s.finishing.length
  once : (s.uploads.map Upload.id).Nodup
  processed : ∀ u ∈ s.uploads, s.outcome u.id = some (.ok u.file)
  /-- What was preprocessed with all files of its call is uploaded in the end. -/
  uploaded : Quiet s → ∀ b batch files, s.batches[b]? = some batch →
    promiseAll batch.outcomes = some (.ok files) → ∀ i < files.length,
      (∃ u ∈ s.uploads, u.id = ⟨b, i⟩) ∧ Finished (s.current.tasks ⟨b, i⟩)

/-- The last render shows the task with its preprocessed file. -/
def Ready (s : State) (id : TaskId) : Prop :=
  ∃ task, s.rendered id = some task ∧ s.outcome id = some (.ok task.file)

/-- With so many uploads active, `processNext` finds what it takes. -/
def FindsReady (s : State) (active : ℤ) : Prop :=
  ∀ id ∈ s.pending.take (maxConcurrent - active).toNat, Ready s id

/-- The ids of a call are made before its files are preprocessed, and what is uploaded was
rendered after that. -/
def InTime (s : State) : Action → Prop
  | .resume b => ∀ batch files, s.batches[b]? = some batch →
      promiseAll batch.outcomes = some (.ok files) → batch.waiting = true →
        s.evaluated.ids b = batchIds b batch.outcomes.length
  | .timeout => 0 < s.timers → FindsReady s s.active
  | .uploadFinally id => id ∈ s.finishing → FindsReady s (s.active - 1)
  | _ => True

/-! ## Updates -/

theorem patchTasks_of_not_mem {α : Type} {f : α → Option UploadTask → Option UploadTask}
    {l : List (TaskId × α)} {id : TaskId} (h : id ∉ l.map Prod.fst) (tasks : Tasks) :
    patchTasks f l tasks id = tasks id := by
  induction l generalizing tasks with
  | nil => rfl
  | cons p l ih =>
    rw [List.map_cons, List.mem_cons, not_or] at h
    rw [patchTasks, List.foldl_cons, ← patchTasks, ih h.2, Function.update_of_ne h.1]

theorem patchTasks_of_batch_ne {α : Type} {f : α → Option UploadTask → Option UploadTask}
    {l : List (TaskId × α)} {b : ℕ} (hl : ∀ p ∈ l, p.1.batch = b) {id : TaskId}
    (h : id.batch ≠ b) (tasks : Tasks) : patchTasks f l tasks id = tasks id := by
  refine patchTasks_of_not_mem (fun hid => ?_) tasks
  obtain ⟨p, hp, rfl⟩ := List.mem_map.mp hid
  exact h (hl p hp)

theorem mem_batchIds {batch files : ℕ} {id : TaskId} :
    id ∈ batchIds batch files ↔ id.batch = batch ∧ id.index < files := by
  rw [batchIds, List.mem_map]
  constructor
  · rintro ⟨index, hindex, rfl⟩
    exact ⟨rfl, List.mem_range.mp hindex⟩
  · rintro ⟨rfl, hindex⟩
    exact ⟨id.index, List.mem_range.mpr hindex, rfl⟩

theorem batchIds_nodup (batch files : ℕ) : (batchIds batch files).Nodup := by
  apply List.nodup_range.map_on
  intro i _ j _ h
  exact (TaskId.mk.inj h).2

/-- The ids of a call are its own. -/
def Owned (ids : ℕ → List TaskId) : Prop := ∀ b, ∀ id ∈ ids b, id.batch = b

/-- The update is of other tasks, or leaves the task finished. -/
def Update.Spares (id : TaskId) : Update → Prop
  | .create batch _ _ | .preprocessFailed batch _ | .preprocessed batch _ => id.batch ≠ batch
  | .updateTask id' patch => id = id' → ∀ t, (patch t).status = .done ∨ (patch t).status = .error
  | .clearQueue => True

theorem Owned.apply {m : Memory} (h : Owned m.ids) (u : Update) : Owned (u.apply m).ids := by
  cases u with
  | create batch files storageConfigIds =>
    intro b id hid
    change id ∈ Function.update m.ids batch _ b at hid
    by_cases hb : b = batch
    · subst hb
      rw [Function.update_self] at hid
      exact (List.mem_append.mp hid).elim (h b id) fun hid => (mem_batchIds.mp hid).1
    · rw [Function.update_of_ne hb] at hid
      exact h b id hid
  | preprocessFailed => exact h
  | preprocessed => exact h
  | updateTask => exact h
  | clearQueue => exact h

theorem Finished.apply {m : Memory} (hids : Owned m.ids) {id : TaskId} {u : Update}
    (hu : u.Spares id) (h : Finished (m.tasks id)) : Finished ((u.apply m).tasks id) := by
  cases u with
  | create batch files storageConfigIds =>
    rw [Update.apply]
    dsimp only
    rwa [patchTasks_of_batch_ne (fun p hp => (mem_batchIds.mp (List.of_mem_zip hp).1).1) hu]
  | preprocessFailed batch e =>
    rw [Update.apply]
    dsimp only
    refine (congrArg Finished (patchTasks_of_batch_ne (fun p hp => ?_) hu m.tasks)).mpr h
    obtain ⟨id', hid', rfl⟩ := List.mem_map.mp hp
    exact hids batch id' hid'
  | preprocessed batch files =>
    rw [Update.apply]
    dsimp only
    rwa [patchTasks_of_batch_ne (fun p hp => hids batch p.1 (List.of_mem_zip hp).1) hu]
  | updateTask id' patch =>
    change Finished (Function.update m.tasks id' _ id)
    by_cases hid : id = id'
    · subst hid
      rw [Function.update_self]
      intro t ht
      obtain ⟨t', -, rfl⟩ := Option.map_eq_some_iff.mp ht
      exact hu rfl t'
    · rwa [Function.update_of_ne hid]
  | clearQueue =>
    intro t ht
    exact h t (Option.filter_eq_some_iff.mp ht).1

theorem current_setTasks (u : Update) (s : State) :
    (s.setTasks u).current = u.apply s.current := by
  rw [State.current, State.setTasks, List.foldl_append]
  rfl

theorem current_evaluate (s : State) : s.evaluate.current = s.current := by
  rw [State.evaluate]
  cases hupdates : s.updates with
  | nil => rfl
  | cons u rest =>
    rw [State.current, State.current, hupdates]
    rfl

/-! ## What every step keeps -/

/-- The ids that have come to the pending list. -/
def State.known (s : State) : List TaskId := s.uploads.map Upload.id ++ s.pending

/-- An update of a task that has come to the pending list is one by its upload. -/
structure Core (s : State) : Prop where
  counted : s.active = s.running.length + s.finishing.length
  bound : s.active ≤ maxConcurrent
  nodup : s.known.Nodup
  processed : ∀ u ∈ s.uploads, s.outcome u.id = some (.ok u.file)
  resumed : ∀ id ∈ s.known, ∃ batch, s.batches[id.batch]? = some batch ∧ batch.waiting = false
  kept : ∀ b batch, s.batches[b]? = some batch → batch.waiting = false →
    (∃ e, some (.error e) ∈ batch.outcomes) ∨ ∀ id ∈ batchIds b batch.outcomes.length, id ∈ s.known
  owned : Owned s.current.ids
  settled : ∀ u ∈ s.uploads, u.id ∉ s.running → Finished (s.current.tasks u.id)

/-- While tasks are pending there is a timeout or an upload that leads to `processNext`. -/
structure Tracked (s : State) : Prop extends Core s where
  driven : s.pending = [] ∨ 0 < s.timers ∨ 0 < s.active

section Steps

variable {s : State}

/-- An update that spares the tasks that were uploaded. -/
theorem Core.setTasks (h : Core s) {u : Update}
    (hu : ∀ upload ∈ s.uploads, u.Spares upload.id) : Core (s.setTasks u) where
  counted := h.counted
  bound := h.bound
  nodup := h.nodup
  processed := h.processed
  resumed := h.resumed
  kept := h.kept
  owned := by
    rw [current_setTasks]
    exact h.owned.apply u
  settled upload hupload hrunning := by
    rw [current_setTasks]
    exact (h.settled upload hupload hrunning).apply h.owned (hu upload hupload)

theorem known_start {id : TaskId} {rest : List TaskId} (hpending : s.pending = id :: rest)
    (task : UploadTask) : (s.start id task rest).known = s.known := by
  rw [State.known, State.known, hpending, State.start]
  simp

theorem Core.start (h : Core s) {id : TaskId} {rest : List TaskId}
    (hpending : s.pending = id :: rest) (hactive : s.active < maxConcurrent) {task : UploadTask}
    (hout : s.outcome id = some (.ok task.file)) : Core (s.start id task rest) := by
  have hnew : ∀ u ∈ s.uploads, u.id ≠ id := by
    intro u hu heq
    have hnodup := List.nodup_append.mp h.nodup
    exact hnodup.2.2 u.id (List.mem_map_of_mem hu) id (hpending ▸ List.mem_cons_self) heq
  have hcurrent : (s.start id task rest).current = Update.apply (.updateTask id fun t =>
      { t with status := .uploading, progress := 0 }) s.current := by
    rw [State.current, State.start, List.foldl_append]
    rfl
  refine ⟨?_, ?_, ?_, ?_, ?_, ?_, ?_, ?_⟩
  · have hcounted := h.counted
    rw [State.start]
    dsimp only
    rw [hcounted, List.length_append, List.length_singleton]
    omega
  · rw [State.start]
    exact hactive
  · rw [known_start hpending]
    exact h.nodup
  · intro u hu
    rcases List.mem_append.mp hu with hu | hu
    · exact h.processed u hu
    · rw [List.mem_singleton.mp hu]
      exact hout
  · rw [known_start hpending]
    exact h.resumed
  · rw [known_start hpending]
    exact h.kept
  · rw [hcurrent]
    exact h.owned.apply _
  · intro u hu hrunning
    rw [hcurrent]
    have hne : u.id ≠ id := fun heq => hrunning (List.mem_append_right _ (by simp [heq]))
    rcases List.mem_append.mp hu with hu | hu
    · refine (h.settled u hu fun hmem => hrunning (List.mem_append_left _ hmem)).apply h.owned ?_
      exact fun heq => absurd heq hne
    · exact absurd (congrArg Upload.id (List.mem_singleton.mp hu)) hne

/-- The loop starts uploads as long as there are pending tasks and free places. -/
theorem Core.takeNext {l : List TaskId} (h : Core s) (hl : s.pending = l)
    (hready : FindsReady s s.active) : Core (State.takeNext l s) ∧
      ((State.takeNext l s).pending = [] ∨ (State.takeNext l s).active = maxConcurrent) := by
  induction l generalizing s with
  | nil =>
    have hsame : State.takeNext [] s = s := by
      rw [State.takeNext, ← hl]
    rw [hsame]
    exact ⟨h, .inl hl⟩
  | cons id rest ih =>
    by_cases hactive : s.active < maxConcurrent
    · -- A start takes the first pending id and one of the free places.
      have hfree : (maxConcurrent - s.active).toNat =
          (maxConcurrent - (s.active + 1)).toNat + 1 := by omega
      rw [FindsReady, hl, hfree, List.take_succ_cons, List.forall_mem_cons] at hready
      obtain ⟨⟨task, htask, hout⟩, hrest⟩ := hready
      rw [State.takeNext, if_pos hactive, htask]
      exact ih (h.start hl hactive hout) rfl hrest
    · have hsame : State.takeNext (id :: rest) s = s := by
        rw [State.takeNext, if_neg hactive, ← hl]
      rw [hsame]
      exact ⟨h, .inr (le_antisymm h.bound (not_lt.mp hactive))⟩

theorem Core.processNext (h : Core s) (hready : FindsReady s s.active) :
    Tracked s.processNext := by
  obtain ⟨hcore, hend⟩ := h.takeNext rfl hready
  refine ⟨hcore, hend.imp_right fun hactive => .inr ?_⟩
  rw [State.processNext, hactive]
  decide

theorem Tracked.addFiles (h : Tracked s) (files : List File)
    (storageConfigIds : Option (List Uuid)) : Tracked (s.addFiles files storageConfigIds) := by
  unfold State.addFiles
  split
  · exact h
  · -- The calls made before keep their places.
    have hold {b : ℕ} {batch new : Batch} (hb : s.batches[b]? = some batch) :
        (s.batches ++ [new])[b]? = some batch := by
      rw [List.getElem?_append_left (List.getElem?_eq_some_iff.mp hb).1, hb]
    refine ⟨Core.setTasks ?_ fun u hu heq => ?_, h.driven⟩
    · refine { h.toCore with processed := ?_, resumed := ?_, kept := ?_ }
      · intro u hu
        have hout := h.processed u hu
        obtain ⟨batch, hbatch, -⟩ := h.resumed u.id
          (List.mem_append_left _ (List.mem_map_of_mem hu))
        rw [State.outcome, hbatch] at hout
        rw [State.outcome, hold hbatch]
        exact hout
      · intro id hid
        obtain ⟨batch, hbatch, hwaiting⟩ := h.resumed id hid
        exact ⟨batch, hold hbatch, hwaiting⟩
      · intro b batch hbatch hwaiting
        rcases LabelledRun.getElem?_append_singleton.mp hbatch with hbatch | ⟨-, rfl⟩
        · exact h.kept b batch hbatch hwaiting
        · cases hwaiting
    · -- The tasks of the new call are not yet uploaded.
      obtain ⟨batch, hbatch, -⟩ := h.resumed u.id
        (List.mem_append_left _ (List.mem_map_of_mem hu))
      rw [heq, List.getElem?_eq_none le_rfl] at hbatch
      cases hbatch

/-- Only a promise that has not settled settles. -/
theorem outcome_settle {id id' : TaskId} {o' : Except Thrown File} (o : Except Thrown File)
    (h : s.outcome id' = some o') : (s.settle id o).outcome id' = some o' := by
  unfold State.settle
  split
  · exact h
  · rename_i batch hbatch
    split
    · rename_i hnone
      rw [State.outcome, List.getElem?_set]
      by_cases hb : id.batch = id'.batch
      · rw [if_pos hb, if_pos (List.getElem?_eq_some_iff.mp hbatch).1, Option.bind_some]
        rw [State.outcome, ← hb, hbatch, Option.bind_some] at h
        by_cases hindex : id.index = id'.index
        · rw [← hindex, hnone] at h
          cases h
        · rwa [List.getElem?_set_ne hindex]
      · rw [if_neg hb]
        exact h
    · exact h

theorem Tracked.settle (h : Tracked s) (id : TaskId) (o : Except Thrown File) :
    Tracked (s.settle id o) := by
  have hout : ∀ u ∈ s.uploads, (s.settle id o).outcome u.id = some (.ok u.file) := fun u hu =>
    outcome_settle o (h.processed u hu)
  revert hout
  unfold State.settle
  split
  · exact fun _ => h
  · rename_i batch hbatch
    split
    · rename_i hnone
      intro hout
      refine ⟨{ h.toCore with processed := hout, resumed := ?_, kept := ?_ }, h.driven⟩
      · intro id' hid'
        obtain ⟨batch', hbatch', hwaiting⟩ := h.resumed id' hid'
        rw [List.getElem?_set]
        split
        · rename_i hb
          rw [← hb, hbatch] at hbatch'
          rw [if_pos (List.getElem?_eq_some_iff.mp hbatch).1]
          exact ⟨_, rfl, (congrArg Batch.waiting (Option.some.inj hbatch')).trans hwaiting⟩
        · exact ⟨batch', hbatch', hwaiting⟩
      · intro b batch' hbatch' hwaiting
        rw [List.getElem?_set] at hbatch'
        split at hbatch'
        · rename_i hb
          subst hb
          rw [if_pos (List.getElem?_eq_some_iff.mp hbatch).1] at hbatch'
          obtain rfl := Option.some.inj hbatch'
          dsimp only at hwaiting ⊢
          rw [List.length_set]
          -- What has failed already is not the promise that settles now.
          refine (h.kept id.batch batch hbatch hwaiting).imp_left ?_
          rintro ⟨e, he⟩
          obtain ⟨i, hi⟩ := List.getElem?_of_mem he
          have hne : id.index ≠ i := by
            rintro rfl
            rw [hnone] at hi
            cases hi
          exact ⟨e, List.mem_of_getElem? ((List.getElem?_set_ne hne).trans hi)⟩
        · exact h.kept b batch' hbatch' hwaiting
    · exact fun _ => h

/-- The tasks of a call that is still waiting are not among those that were pending. -/
theorem Core.batch_ne (h : Core s) {b : ℕ} {batch : Batch} (hbatch : s.batches[b]? = some batch)
    (hwaiting : batch.waiting = true) {id : TaskId} (hid : id ∈ s.known) : id.batch ≠ b := by
  rintro rfl
  obtain ⟨batch', hbatch', hwaiting'⟩ := h.resumed id hid
  rw [hbatch] at hbatch'
  rw [Option.some.inj hbatch', hwaiting'] at hwaiting
  cases hwaiting

/-- A call whose files have been preprocessed, or have failed, goes on. -/
theorem Core.resumed_batch (h : Core s) {b : ℕ} {batch : Batch}
    (hbatch : s.batches[b]? = some batch) (hwaiting : batch.waiting = true) {new : List TaskId}
    (hnew : (∃ e, some (.error e) ∈ batch.outcomes) ∧ new = [] ∨
      new = batchIds b batch.outcomes.length) (timers : ℕ) :
    Core { s with
      batches := s.batches.set b { batch with waiting := false }
      pending := s.pending ++ new
      timers } := by
  have hlt := (List.getElem?_eq_some_iff.mp hbatch).1
  have hmem : ∀ id ∈ new, id ∈ batchIds b batch.outcomes.length := by
    intro id hid
    rcases hnew with ⟨-, rfl⟩ | rfl
    · cases hid
    · exact hid
  have hknown : State.known { s with
      batches := s.batches.set b { batch with waiting := false }
      pending := s.pending ++ new
      timers } = s.known ++ new := (List.append_assoc ..).symm
  refine ⟨h.counted, h.bound, ?_, ?_, ?_, ?_, h.owned, h.settled⟩
  · rw [hknown]
    -- No id of a call that was still waiting is known.
    refine List.nodup_append.mpr ⟨h.nodup, ?_, ?_⟩
    · rcases hnew with ⟨-, rfl⟩ | rfl
      · exact List.nodup_nil
      · exact batchIds_nodup ..
    · rintro id hid id' hid' rfl
      exact h.batch_ne hbatch hwaiting hid (mem_batchIds.mp (hmem id hid')).1
  · intro u hu
    have hout := h.processed u hu
    have hne := h.batch_ne hbatch hwaiting (List.mem_append_left _ (List.mem_map_of_mem hu))
    rw [State.outcome] at hout ⊢
    dsimp only
    rwa [List.getElem?_set_ne (Ne.symm hne)]
  · rw [hknown]
    intro id hid
    rcases List.mem_append.mp hid with hid | hid
    · obtain ⟨batch', hbatch', hwaiting'⟩ := h.resumed id hid
      refine ⟨batch', ?_, hwaiting'⟩
      dsimp only
      rwa [List.getElem?_set_ne (Ne.symm (h.batch_ne hbatch hwaiting hid))]
    · refine ⟨{ batch with waiting := false }, ?_, rfl⟩
      dsimp only
      rw [(mem_batchIds.mp (hmem id hid)).1, List.getElem?_set_self hlt]
  · rw [hknown]
    intro b' batch' hbatch' hwaiting'
    dsimp only at hbatch'
    by_cases hb : b = b'
    · subst hb
      rw [List.getElem?_set_self hlt] at hbatch'
      obtain rfl := Option.some.inj hbatch'
      rcases hnew with ⟨herror, -⟩ | rfl
      · exact .inl herror
      · exact .inr fun id hid => List.mem_append_right _ hid
    · rw [List.getElem?_set_ne hb] at hbatch'
      exact (h.kept b' batch' hbatch' hwaiting').imp_right fun hall id hid =>
        List.mem_append_left _ (hall id hid)

theorem Tracked.resume (h : Tracked s) {b : ℕ} (hready : InTime s (.resume b)) :
    Tracked (s.resume b) := by
  cases hbatch : s.batches[b]? with
  | none =>
    rw [State.resume, hbatch]
    exact h
  | some batch =>
    by_cases hwaiting : batch.waiting = true
    · have hspares : ∀ u ∈ s.uploads, u.id.batch ≠ b := fun u hu =>
        h.batch_ne hbatch hwaiting (List.mem_append_left _ (List.mem_map_of_mem hu))
      cases hall : promiseAll batch.outcomes with
      | none =>
        rw [State.resume, hbatch]
        dsimp only
        rw [if_pos hwaiting, hall]
        exact h
      | some result =>
        cases result with
        | error e =>
          have hcore := h.resumed_batch hbatch hwaiting
            (.inl ⟨⟨e, promiseAll_error hall⟩, rfl⟩) s.timers
          rw [List.append_nil] at hcore
          rw [State.resume, hbatch]
          dsimp only
          rw [if_pos hwaiting, hall]
          exact ⟨hcore.setTasks hspares, h.driven⟩
        | ok files =>
          have hids := hready batch files hbatch hall hwaiting
          rw [State.resume, hbatch]
          dsimp only
          rw [if_pos hwaiting, hall]
          exact ⟨(h.resumed_batch hbatch hwaiting (.inr hids) _).setTasks hspares,
            .inr (.inl (Nat.succ_pos _))⟩
    · rw [State.resume, hbatch]
      dsimp only
      rw [if_neg hwaiting]
      exact h

theorem Tracked.timeout (h : Tracked s) (hready : InTime s .timeout) : Tracked s.timeout := by
  unfold State.timeout
  split
  · rename_i htimers
    have hcore : Core { s with timers := s.timers - 1 } := { h.toCore with }
    exact hcore.processNext (hready htimers)
  · exact h

theorem Tracked.uploadSettled (h : Tracked s) (id : TaskId)
    (result : Except Thrown UploadResult) : Tracked (s.uploadSettled id result) := by
  unfold State.uploadSettled
  split
  · rename_i hid
    have hstatus (t : UploadTask) : (State.settledPatch result t).status = .done ∨
        (State.settledPatch result t).status = .error := by
      cases result with
      | ok result => exact .inl rfl
      | error e => exact .inr rfl
    refine ⟨⟨?_, h.bound, h.nodup, h.processed, h.resumed, h.kept, ?_, ?_⟩, h.driven⟩
    · have hcounted := h.counted
      have hpos := List.length_pos_of_mem hid
      rw [State.setTasks]
      dsimp only
      rw [hcounted, List.length_append, List.length_singleton, List.length_erase_of_mem hid]
      omega
    · rw [current_setTasks]
      exact h.owned.apply _
    · intro u hu hrunning
      rw [current_setTasks]
      by_cases heq : u.id = id
      · rw [heq]
        intro t ht
        rw [Update.apply] at ht
        dsimp only at ht
        rw [Function.update_self] at ht
        obtain ⟨t', -, rfl⟩ := Option.map_eq_some_iff.mp ht
        exact hstatus t'
      · refine (h.settled u hu fun hmem => hrunning ?_).apply h.owned fun _ => hstatus
        exact (List.mem_erase_of_ne heq).mpr hmem
  · exact h

theorem Tracked.uploadFinally (h : Tracked s) {id : TaskId}
    (hready : InTime s (.uploadFinally id)) : Tracked (s.uploadFinally id) := by
  unfold State.uploadFinally
  split
  · rename_i hid
    have hcounted := h.counted
    have hbound := h.bound
    have hpos := List.length_pos_of_mem hid
    have hcore : Core { s with
        active := s.active - 1
        finishing := s.finishing.erase id } := by
      refine { h.toCore with counted := ?_, bound := ?_ }
      · dsimp only
        rw [hcounted, List.length_erase_of_mem hid]
        omega
      · dsimp only
        omega
    exact hcore.processNext (hready hid)
  · exact h

theorem Tracked.evaluate (h : Tracked s) : Tracked s.evaluate := by
  have hcurrent := current_evaluate s
  revert hcurrent
  unfold State.evaluate
  split
  · exact fun _ => h
  · intro hcurrent
    refine ⟨{ h.toCore with owned := ?_, settled := ?_ }, h.driven⟩
    · rw [hcurrent]
      exact h.owned
    · rw [hcurrent]
      exact h.settled

theorem tracked_step (h : Tracked s) (a : Action) (hready : InTime s a) : Tracked (step s a) := by
  cases a with
  | addFiles files storageConfigIds => exact h.addFiles files storageConfigIds
  | settle id o => exact h.settle id o
  | resume b => exact h.resume hready
  | timeout => exact h.timeout hready
  | uploadSettled id result => exact h.uploadSettled id result
  | uploadFinally id => exact h.uploadFinally hready
  | clearQueue => exact ⟨h.setTasks fun _ _ => trivial, h.driven⟩
  | evaluate => exact h.evaluate
  | render => exact ⟨{ h.toCore with }, h.driven⟩

theorem tracked_init : Tracked .init where
  counted := rfl
  bound := by decide
  nodup := List.nodup_nil
  processed _ hu := by cases hu
  resumed _ hid := by cases hid
  kept _ _ hbatch := by cases hbatch
  owned _ _ hid := by cases hid
  settled _ hu := by cases hu
  driven := .inl rfl

/-! ## The law -/

theorem Tracked.pending_eq_nil (h : Tracked s) (hquiet : Quiet s) : s.pending = [] := by
  rcases h.driven with hnil | htimers | hactive
  · exact hnil
  · rw [hquiet.timers] at htimers
    exact absurd htimers (lt_irrefl 0)
  · rw [h.counted, hquiet.running, hquiet.finishing] at hactive
    exact absurd hactive (by decide)

theorem queueLaw_of_tracked (h : Tracked s) : QueueLaw s where
  bounded := ⟨by rw [h.counted]; omega, h.bound⟩
  counted := h.counted
  once := (List.nodup_append.mp h.nodup).1
  processed := h.processed
  uploaded hquiet b batch files hbatch hall i hi := by
    -- No file of the call failed, so its ids have come to the pending list, which is empty now.
    have houtcomes := promiseAll_ok hall
    have hknown : (⟨b, i⟩ : TaskId) ∈ s.known := by
      rcases h.kept b batch hbatch (hquiet.batches batch (List.mem_of_getElem? hbatch)) with
        ⟨e, he⟩ | hall
      · rw [houtcomes] at he
        obtain ⟨file, -, hfile⟩ := List.mem_map.mp he
        cases hfile
      · refine hall _ (mem_batchIds.mpr ⟨rfl, ?_⟩)
        rwa [houtcomes, List.length_map]
    rw [State.known, h.pending_eq_nil hquiet, List.append_nil] at hknown
    obtain ⟨u, hu, hid⟩ := List.mem_map.mp hknown
    refine ⟨⟨u, hu, hid⟩, hid ▸ h.settled u hu ?_⟩
    rw [hquiet.running]
    exact List.not_mem_nil

end Steps

def photo : File := ⟨"a.jpg", "image/jpeg", [1, 2]⟩

end PicHost.Web.RenderLag
