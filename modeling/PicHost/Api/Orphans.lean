import PicHost.Api.Deletion
import PicHost.Lib.Run
import PicHost.Worker.VariantKeys

/-!
# Deleting an image while it is processed

`delete_image` and `process_task` share no lock. A variant that the worker puts once the deletion
has read the row is deleted by nobody, and the update of the row matches nothing.
-/

namespace PicHost.Orphans

open KeyedTable LabelledRun BatchDelete

/-- The files that are deleted for a row. -/
def filesOf (router : StorageRouter) (t : DeleteTarget) : List Location :=
  (Deletion.keysOf t).map (router.forBackend t.storageBackend).locate

/-- The files a deletion has still to delete. -/
def pending (router : StorageRouter) : Deletion.Stage → List Location
  | .clean storage keys rest => keys.map storage.locate ++ rest.flatMap (filesOf router)
  | _ => []

/-- The deletion has not selected the row yet, or has been refused. -/
def leavesRow : Deletion.Stage → Bool
  | .start | .done (.error _) => true
  | _ => false

/-- The objects of an image: its file, and whatever is stored under its variants' keys. -/
def OfImage (task : TaskPayload) (source l : Location) : Prop :=
  l = source ∨ ∃ (backend : Backend) (day mime key : String),
    (key = Worker.thumbKey task ∨ key = Worker.webpKey task) ∧
      l = backend.locate (backend.storedKey day key mime)

/-- The keys of the row name stored objects. -/
def Named (router : StorageRouter) (r : Image) (objects : Objects) : Prop :=
  ∀ l ∈ filesOf router (.ofImage r), objects l ≠ none

/-- One deletion and one task at a time of the same image. -/
structure State (J Img : Type) where
  store : ImageStore J
  configs : ConfigTable
  workerRouter : StorageRouter
  deletion : Deletion.Stage
  work : Worker.Work Img

/-- Both move in any order; a task that has returned may be delivered again. -/
inductive Action
  | delete (cacheUp : Bool)
  | process (watermark : Option Worker.WatermarkConfig) (day : String)
  | again

variable {J Img : Type}

def State.workerStores (s : State J Img) : Worker.Stores :=
  ⟨s.store.images, s.configs, s.store.objects, s.workerRouter⟩

/-- All calls to the database and the storage succeed. -/
def workerInput (watermark : Option Worker.WatermarkConfig) (day : String) : Worker.Input :=
  ⟨none, none, watermark, day⟩

section Statements

variable (deps : Worker.Deps Img) (router : StorageRouter) (request : Deletion.Request)
variable (task : TaskPayload)

def step (s : State J Img) : Action → State J Img
  | .delete cacheUp =>
    let (deletion, store) :=
      Deletion.advance router ⟨true, none, cacheUp⟩ request s.deletion s.store
    { s with deletion, store }
  | .process watermark day =>
    let (work, stores) :=
      Worker.processTask deps (workerInput watermark day) task s.work s.workerStores
    { s with
      store := { s.store with images := stores.images, objects := stores.objects }
      workerRouter := stores.router
      work }
  | .again =>
    match s.work with
    | .returned _ => { s with work := .resolveBackend }
    | _ => s

def start (store : ImageStore J) (configs : ConfigTable) (workerRouter : StorageRouter) :
    State J Img := ⟨store, configs, workerRouter, .start, .resolveBackend⟩

/-- Both have answered. -/
def Finished (s : State J Img) : Prop :=
  (∃ answer, s.deletion = .done answer) ∧ ∃ result, s.work = .returned result

variable (source : Location)

/-- The row is there and names stored objects, or nothing is left of the image. -/
def Clean (s : State J Img) : Prop :=
  (∃ r ∈ s.store.images.rows, r.id = task.imageId ∧ Named router r s.store.objects) ∨
  (∀ r ∈ s.store.images.rows, r.id ≠ task.imageId) ∧
    ∀ l, OfImage task source l → s.store.objects l = none

/-- The deletion selects the rows when all that is stored of the image is named by them. Before
that a variant is put through the backend that the row names, which is not Git; thereafter one is
put only where the deletion has still to delete. -/
def Covered (s : State J Img) : Action → Prop
  -- nothing stored of the image is missing from the rows that are selected
  | .delete _ => s.deletion = .start →
      ∀ targets, request.targets true s.store.images = .ok targets →
    ∀ l, OfImage task source l → s.store.objects l ≠ none → l ∈ targets.flatMap (filesOf router)
  | .process watermark day =>
    ∀ p ∈ Worker.putOf deps (workerInput watermark day) task s.work s.workerStores,
      if leavesRow s.deletion then
        ∀ r ∈ s.store.images.rows, r.id = task.imageId →
          p.backend = router.forBackend r.storageBackend ∧ p.backend.isGit = false
      -- the deletion has passed the row, and will only delete what it has selected
      else p.backend.locate p.path ∈ pending router s.deletion
  | .again => True

/-- The variants that the worker has put, and will record next, are stored by the backend. -/
def VariantsStored (backend : Backend) (objects : Objects) : Worker.Work Img → Prop
  | .convertToWebp _ _ _ _ thumbWritten =>
    thumbWritten = true → objects (backend.locate (Worker.thumbKey task)) ≠ none
  | .updateImageRecord _ thumbWritten webpWritten =>
    (thumbWritten = true → objects (backend.locate (Worker.thumbKey task)) ≠ none) ∧
      (webpWritten = true → objects (backend.locate (Worker.webpKey task)) ≠ none)
  | _ => True

/-- What holds over covered steps. -/
structure Tracked (s : State J Img) : Prop where
  put : leavesRow s.deletion = true → ∀ r ∈ s.store.images.rows, r.id = task.imageId →
    VariantsStored task (router.forBackend r.storageBackend) s.store.objects s.work
  left : leavesRow s.deletion = true →
    ∃ r ∈ s.store.images.rows, r.id = task.imageId ∧ Named router r s.store.objects
  covered : leavesRow s.deletion = false → ∀ l, OfImage task source l →
    s.store.objects l ≠ none → l ∈ pending router s.deletion
  gone : (∃ ids reply, s.deletion = .evict ids reply) ∨ (∃ reply, s.deletion = .done (.ok reply)) →
    ∀ r ∈ s.store.images.rows, r.id ≠ task.imageId

end Statements

variable {deps : Worker.Deps Img} {router : StorageRouter} {request : Deletion.Request}
variable {task : TaskPayload} {source : Location}

/-! The calls of the worker. -/

variable (deps task) in
/-- The objects change by a `put` of a variant only. -/
theorem processTask_objects {inp : Worker.Input} (hfault : inp.storageFault = none)
    (work : Worker.Work Img) (s : Worker.Stores) :
    (Worker.processTask deps inp task work s).2.objects =
      (Worker.putOf deps inp task work s).elim s.objects fun p => p.apply s.objects := by
  cases work with
  | generateThumbnail backend img fmt size =>
    cases hfmt : Worker.shouldThumbnail fmt with
    | false => simp [Worker.processTask, Worker.putOf, hfmt]
    | true =>
      cases henc : deps.encodeThumbnail img (Worker.thumbnailOutputFormat deps img fmt).1 with
      | error text => simp [Worker.processTask, Worker.putOf, hfmt, henc]
      | ok buf =>
        rcases Worker.writeVariant_eq inp backend (Worker.thumbKey task) buf
          (Worker.thumbnailOutputFormat deps img fmt).2 "thumb storage write: " s.objects with
          ⟨p, hput, hwrite⟩ | ⟨hput, text, objects, hwrite, hsame⟩
        · simp [Worker.processTask, Worker.putOf, hfmt, henc, hput, hwrite]
        · simp [Worker.processTask, Worker.putOf, hfmt, henc, hput, hwrite, hsame hfault]
  | convertToWebp backend img fmt size thumbWritten =>
    cases hfmt : Worker.shouldWebp fmt with
    | false => simp [Worker.processTask, Worker.putOf, hfmt]
    | true =>
      rcases Worker.writeVariant_eq inp backend (Worker.webpKey task) (deps.encodeWebp img)
        "image/webp" "webp storage write: " s.objects with
        ⟨p, hput, hwrite⟩ | ⟨hput, text, objects, hwrite, hsame⟩
      · simp [Worker.processTask, Worker.putOf, hfmt, hput, hwrite]
      · simp [Worker.processTask, Worker.putOf, hfmt, hput, hwrite, hsame hfault]
  | resolveBackend | readSourceImage | loadWatermarkedImage | updateImageRecord =>
    simp only [Worker.processTask, Worker.putOf]
    split <;> rfl
  | returned | handleDeadLetter => rfl

variable (deps task) in
theorem processTask_images (inp : Worker.Input) (work : Worker.Work Img) (s : Worker.Stores) :
    (Worker.processTask deps inp task work s).2.images = s.images ∨
    ∃ size thumbWritten webpWritten, work = .updateImageRecord size thumbWritten webpWritten ∧
      (Worker.processTask deps inp task work s).2.images =
        s.images.update (fun r => r.id == task.imageId)
          (Worker.setReady deps task size thumbWritten webpWritten) fun _ => rfl := by
  cases work with
  | updateImageRecord size thumbWritten webpWritten =>
    simp only [Worker.processTask]
    split
    · exact .inl rfl
    · exact .inr ⟨size, thumbWritten, webpWritten, rfl, rfl⟩
  | generateThumbnail | convertToWebp =>
    simp only [Worker.processTask]
    repeat' split
    all_goals exact .inl rfl
  | resolveBackend | readSourceImage | loadWatermarkedImage =>
    simp only [Worker.processTask]
    split <;> exact .inl rfl
  | returned | handleDeadLetter => exact .inl rfl

/-- A `put` adds an object. -/
theorem Named.put {r : Image} {objects : Objects} (h : Named router r objects) (p : Worker.Put) :
    Named router r (p.apply objects) := by
  intro l hl
  unfold Worker.Put.apply
  by_cases heq : l = p.backend.locate p.path
  · rw [heq, Function.update_self]
    exact fun hnone => nomatch hnone
  · rw [Function.update_of_ne heq]
    exact h l hl

theorem Named.of_put {r : Image} {objects : Objects} (h : Named router r objects)
    (put : Option Worker.Put) : Named router r (put.elim objects fun p => p.apply objects) := by
  cases put with
  | none => exact h
  | some p => exact h.put p

/-- A put through the backend that the row names leaves the variant where its key says. -/
theorem stored_of_put {inp : Worker.Input} {objects : Objects} {backend : Backend}
    {key mime : String} {data : Bytes} {p : Worker.Put}
    (hput : Worker.variantPut inp backend key data mime objects = some p)
    (hgit : p.backend.isGit = false) : p.apply objects (p.backend.locate key) ≠ none := by
  obtain rfl := Worker.variantPut_some hput
  rw [Worker.Put.apply, Backend.storedKey_of_not_isGit hgit, Function.update_self]
  exact fun hnone => nomatch hnone

theorem stored_apply {objects : Objects} {l : Location} (h : objects l ≠ none) (p : Worker.Put) :
    p.apply objects l ≠ none := by
  unfold Worker.Put.apply
  by_cases heq : l = p.backend.locate p.path
  · rw [heq, Function.update_self]
    exact fun hnone => nomatch hnone
  · rwa [Function.update_of_ne heq]

/-- A call of the worker that puts through the backend keeps the variants it will record. -/
theorem VariantsStored.process {inp : Worker.Input} {work : Worker.Work Img} {s : Worker.Stores}
    {backend : Backend} (h : VariantsStored task backend s.objects work)
    (hput : ∀ p ∈ Worker.putOf deps inp task work s,
      p.backend = backend ∧ p.backend.isGit = false) :
    VariantsStored task backend (Worker.processTask deps inp task work s).2.objects
      (Worker.processTask deps inp task work s).1 := by
  cases work with
  | generateThumbnail b img fmt size =>
    cases hfmt : Worker.shouldThumbnail fmt with
    | false =>
      simp only [Worker.processTask, hfmt, Bool.false_eq_true, if_false]
      exact fun hfalse => by cases hfalse
    | true =>
      cases henc : deps.encodeThumbnail img (Worker.thumbnailOutputFormat deps img fmt).1 with
      | error text =>
        simp only [Worker.processTask, hfmt, if_true, henc]
        exact trivial
      | ok buf =>
        have hputOf : Worker.putOf deps inp task (.generateThumbnail b img fmt size) s =
            Worker.variantPut inp b (Worker.thumbKey task) buf
              (Worker.thumbnailOutputFormat deps img fmt).2 s.objects := by
          simp only [Worker.putOf, hfmt, if_true, henc]
        rcases Worker.writeVariant_eq inp b (Worker.thumbKey task) buf
          (Worker.thumbnailOutputFormat deps img fmt).2 "thumb storage write: " s.objects with
          ⟨p, hp, hwrite⟩ | ⟨-, text, objects, hwrite, -⟩ <;>
          simp only [Worker.processTask, hfmt, if_true, henc, hwrite]
        · obtain ⟨rfl, hgit⟩ := hput p (hputOf.trans hp)
          exact fun _ => stored_of_put hp hgit
        · exact trivial
  | convertToWebp b img fmt size thumbWritten =>
    cases hfmt : Worker.shouldWebp fmt with
    | false =>
      simp only [Worker.processTask, hfmt, Bool.false_eq_true, if_false]
      exact ⟨h, fun hfalse => by cases hfalse⟩
    | true =>
      have hputOf : Worker.putOf deps inp task (.convertToWebp b img fmt size thumbWritten) s =
          Worker.variantPut inp b (Worker.webpKey task) (deps.encodeWebp img) "image/webp"
            s.objects := by
        simp only [Worker.putOf, hfmt, if_true]
      rcases Worker.writeVariant_eq inp b (Worker.webpKey task) (deps.encodeWebp img)
        "image/webp" "webp storage write: " s.objects with
        ⟨p, hp, hwrite⟩ | ⟨-, text, objects, hwrite, -⟩ <;>
        simp only [Worker.processTask, hfmt, if_true, hwrite]
      · obtain ⟨rfl, hgit⟩ := hput p (hputOf.trans hp)
        exact ⟨fun hthumb => stored_apply (h hthumb) p, fun _ => stored_of_put hp hgit⟩
      · exact trivial
  | resolveBackend | readSourceImage | loadWatermarkedImage | updateImageRecord =>
    simp only [Worker.processTask]
    split <;> exact trivial
  | returned | handleDeadLetter => exact trivial

/-- The columns the worker sets name what it has put. -/
theorem Named.setReady {r : Image} {objects : Objects} (h : Named router r objects) {size : ℤ × ℤ}
    {thumbWritten webpWritten : Bool}
    (hstored : VariantsStored task (router.forBackend r.storageBackend) objects
      (.updateImageRecord size thumbWritten webpWritten : Worker.Work Img)) :
    Named router (Worker.setReady deps task size thumbWritten webpWritten r) objects := by
  obtain ⟨hthumb, hwebp⟩ := hstored
  intro l hl
  obtain ⟨key, hkey, rfl⟩ := List.mem_map.mp hl
  rcases List.mem_cons.mp hkey with rfl | hkey
  · exact h _ List.mem_cons_self
  · rcases List.mem_append.mp hkey with hkey | hkey
    · cases thumbWritten with
      | false => cases hkey
      | true =>
        rw [List.mem_singleton.mp hkey]
        exact hthumb rfl
    · cases webpWritten with
      | false => cases hkey
      | true =>
        rw [List.mem_singleton.mp hkey]
        exact hwebp rfl

/-- Rows after a call of the worker. -/
theorem mem_processTask {inp : Worker.Input} {work : Worker.Work Img} {s : Worker.Stores}
    {r : Image}
    (hr : r ∈ (Worker.processTask deps inp task work s).2.images.rows) :
    ∃ q ∈ s.images.rows, r.id = q.id ∧ r.storageBackend = q.storageBackend := by
  rcases processTask_images deps task inp work s with hsame | ⟨size, thumb, webp, -, hset⟩
  · rw [hsame] at hr
    exact ⟨r, hr, rfl, rfl⟩
  · rw [hset] at hr
    rcases Table.mem_update_iff.mp hr with ⟨hr, -⟩ | ⟨q, hq, -, rfl⟩
    · exact ⟨r, hr, rfl, rfl⟩
    · exact ⟨q, hq, rfl, rfl⟩

/-- The row that is left names stored objects after a call of the worker, too. -/
theorem named_process {inp : Worker.Input} (hfault : inp.storageFault = none)
    {work : Worker.Work Img} {s : Worker.Stores} {r : Image} (hr : r ∈ s.images.rows)
    (hid : r.id = task.imageId) (hnamed : Named router r s.objects)
    (hstored : VariantsStored task (router.forBackend r.storageBackend) s.objects work) :
    ∃ r' ∈ (Worker.processTask deps inp task work s).2.images.rows, r'.id = task.imageId ∧
      Named router r' (Worker.processTask deps inp task work s).2.objects := by
  rw [processTask_objects deps task hfault]
  rcases processTask_images deps task inp work s with hsame | ⟨size, thumb, webp, rfl, hset⟩
  · rw [hsame]
    exact ⟨r, hr, hid, hnamed.of_put _⟩
  · rw [hset]
    exact ⟨_, Table.mem_update_iff.mpr (.inr ⟨r, hr, beq_iff_eq.mpr hid, rfl⟩), hid,
      hnamed.setReady hstored⟩

/-- A variant that is put once the row is selected is still to be deleted. -/
theorem Tracked.covered_process {s : State J Img} (h : Tracked router task source s)
    {watermark : Option Worker.WatermarkConfig} {day : String}
    (hcovered : Covered deps router request task source s (.process watermark day))
    (hleft : leavesRow s.deletion = false) {l : Location} (hl : OfImage task source l)
    (hstored : (Worker.processTask deps (workerInput watermark day) task s.work
      s.workerStores).2.objects l ≠ none) : l ∈ pending router s.deletion := by
  have hfault : (workerInput watermark day).storageFault = none := rfl
  rw [processTask_objects deps task hfault] at hstored
  cases hp : Worker.putOf deps (workerInput watermark day) task s.work s.workerStores with
  | none =>
    rw [hp] at hstored
    exact h.covered hleft l hl hstored
  | some p =>
    have hpending := hcovered p hp
    rw [hleft, if_neg Bool.false_ne_true] at hpending
    by_cases heq : l = p.backend.locate p.path
    · rwa [heq]
    · rw [hp] at hstored
      apply h.covered hleft l hl
      rwa [Option.elim_some, Worker.Put.apply, Function.update_of_ne heq] at hstored

theorem Tracked.process {s : State J Img} (h : Tracked router task source s)
    (watermark : Option Worker.WatermarkConfig) (day : String)
    (hcovered : Covered deps router request task source s (.process watermark day)) :
    Tracked router task source (step deps router request task s (.process watermark day)) where
  put hleft r hr hid := by
    obtain ⟨q, hq, hqid, hbackend⟩ := mem_processTask hr
    rw [hbackend]
    refine (h.put hleft q hq (hqid ▸ hid)).process fun p hp => ?_
    have hthrough := hcovered p hp
    have hleft' : leavesRow s.deletion = true := hleft
    rw [hleft', if_pos rfl] at hthrough
    exact hthrough q hq (hqid ▸ hid)
  left hleft := by
    obtain ⟨r, hr, hid, hnamed⟩ := h.left hleft
    exact named_process rfl hr hid hnamed (h.put hleft r hr hid)
  covered hleft _ hl hstored := h.covered_process hcovered hleft hl hstored
  gone hgone r hr hid := by
    obtain ⟨q, hq, hqid, -⟩ := mem_processTask hr
    exact h.gone hgone q hq (hqid ▸ hid)

/-! The calls of the deletion. -/

theorem pending_nextTarget (targets : List DeleteTarget) :
    pending router (Deletion.nextTarget router targets) = targets.flatMap (filesOf router) := by
  cases targets with
  | nil => rfl
  | cons t targets => rfl

theorem leavesRow_nextTarget (targets : List DeleteTarget) :
    leavesRow (Deletion.nextTarget router targets) = false := by
  cases targets <;> rfl

/-- Where the row is not left any more, the rest follows from what is still to be deleted. -/
theorem Tracked.selected {s : State J Img} {deletion : Deletion.Stage} {store : ImageStore J}
    (hleft : leavesRow deletion = false)
    (hcovered : ∀ l, OfImage task source l → store.objects l ≠ none → l ∈ pending router deletion)
    (hgone : (∃ ids reply, deletion = .evict ids reply) ∨ (∃ reply, deletion = .done (.ok reply)) →
      ∀ r ∈ store.images.rows, r.id ≠ task.imageId) :
    Tracked router task source { s with deletion, store } where
  put htrue := by
    rw [hleft] at htrue
    cases htrue
  left htrue := by
    rw [hleft] at htrue
    cases htrue
  covered _ := hcovered
  gone := hgone

theorem not_evicting_nextTarget {targets : List DeleteTarget}
    (h : (∃ ids reply, Deletion.nextTarget router targets = .evict ids reply) ∨
      ∃ reply, Deletion.nextTarget router targets = .done (.ok reply)) : False := by
  rcases h with ⟨ids, reply, h⟩ | ⟨reply, h⟩ <;> cases targets <;> cases h

theorem nextEvict_cases (ids : List Uuid) (reply : Deletion.Reply) :
    Deletion.nextEvict ids reply = .done (.ok reply) ∨
      Deletion.nextEvict ids reply = .evict ids reply := by
  unfold Deletion.nextEvict
  split
  · exact .inl rfl
  · exact .inr rfl

variable (router) in
theorem leavesRow_nextEvict (ids : List Uuid) (reply : Deletion.Reply) :
    leavesRow (Deletion.nextEvict ids reply) = false ∧
      pending router (Deletion.nextEvict ids reply) = [] := by
  rcases nextEvict_cases ids reply with h | h <;> rw [h] <;> exact ⟨rfl, rfl⟩

/-- What is stored after a file has been deleted was stored before, and elsewhere. -/
theorem stored_of_delete {storage : Backend} {key : String} {objects : Objects} {l : Location}
    (h : (storage.delete none key objects).2 l ≠ none) :
    l ≠ storage.locate key ∧ objects l ≠ none :=
  ⟨fun heq => h (heq ▸ Backend.delete_self storage key objects),
    fun hnone => h (Backend.delete_keeps_none storage none key hnone)⟩

/-- A file is deleted; the others that are stored are still to be. -/
theorem Tracked.clean {s : State J Img} (h : Tracked router task source s) {storage : Backend}
    {key : String} {keys : List String} {rest : List DeleteTarget}
    (hstage : s.deletion = .clean storage (key :: keys) rest) :
    Tracked router task source
      { s with
        deletion := if keys = [] then Deletion.nextTarget router rest else .clean storage keys rest
        store := { s.store with objects := (storage.delete none key s.store.objects).2 } } := by
  have hold := h.covered (by rw [hstage]; rfl)
  have hnext : ∀ l, l ≠ storage.locate key → l ∈ pending router s.deletion →
      l ∈ pending router
        (if keys = [] then Deletion.nextTarget router rest else .clean storage keys rest) := by
    intro l hne hl
    rw [hstage] at hl
    have htail : l ∈ keys.map storage.locate ++ rest.flatMap (filesOf router) :=
      (List.mem_cons.mp hl).resolve_left hne
    split
    · rename_i hkeys
      rw [pending_nextTarget]
      rwa [hkeys] at htail
    · exact htail
  refine .selected ?_ (fun l hl hstored => ?_) fun hevict => ?_
  · split
    · exact leavesRow_nextTarget _
    · rfl
  · obtain ⟨hne, hbefore⟩ := stored_of_delete hstored
    exact hnext l hne (hold l hl hbefore)
  · split at hevict
    · exact absurd hevict not_evicting_nextTarget
    · rcases hevict with ⟨_, _, heq⟩ | ⟨_, heq⟩ <;> cases heq

/-- The rows are deleted when nothing is stored of the image any more. -/
theorem Tracked.remove {s : State J Img} (h : Tracked router task source s)
    (hrequest : task.imageId ∈ request.ids) (hstage : s.deletion = .remove)
    (reply : Deletion.Reply) :
    Tracked router task source
      { s with
        deletion := Deletion.nextEvict request.ids reply
        store := { s.store with images := s.store.images.delete request.deletes } } := by
  refine .selected (leavesRow_nextEvict router _ _).1 (fun l hl hstored => ?_) fun _ r hr hid => ?_
  · have hpending := h.covered (by rw [hstage]; rfl) l hl hstored
    rw [hstage] at hpending
    cases hpending
  · have hdeleted : request.deletes r = true := Deletion.deletes_iff.mpr (hid ▸ hrequest)
    rw [(Table.mem_delete.mp hr).2] at hdeleted
    cases hdeleted

/-- What is stored of the image is still to be deleted once its row has been selected. -/
theorem Tracked.delete {s : State J Img} (h : Tracked router task source s) (cacheUp : Bool)
    (hrequest : task.imageId ∈ request.ids)
    (hcovered : Covered deps router request task source s (.delete cacheUp)) :
    Tracked router task source (step deps router request task s (.delete cacheUp)) := by
  have heffect := Deletion.effect router ⟨true, none, cacheUp⟩ request s.deletion s.store
  show Tracked router task source
    { s with
      deletion := (Deletion.advance router ⟨true, none, cacheUp⟩ request s.deletion s.store).1
      store := (Deletion.advance router ⟨true, none, cacheUp⟩ request s.deletion s.store).2 }
  generalize Deletion.advance router ⟨true, none, cacheUp⟩ request s.deletion s.store = next
    at heffect ⊢
  obtain ⟨store, configs, workerRouter, stage, work⟩ := s
  cases heffect with
  | select htargets =>
    refine .selected (leavesRow_nextTarget _) (fun l hl hstored => ?_)
      fun hevict => absurd hevict not_evicting_nextTarget
    rw [pending_nextTarget]
    exact hcovered rfl _ htargets l hl hstored
  | refuse =>
    refine ⟨fun _ => h.put rfl, fun _ => h.left rfl, fun hfalse => (by cases hfalse),
      fun hevict => ?_⟩
    rcases hevict with ⟨_, _, heq⟩ | ⟨_, heq⟩ <;> cases heq
  | skip =>
    refine .selected (leavesRow_nextTarget _) (fun l hl hstored => ?_)
      fun hevict => absurd hevict not_evicting_nextTarget
    rw [pending_nextTarget]
    exact h.covered rfl l hl hstored
  | clean => exact h.clean rfl
  | remove hdb => exact h.remove hrequest rfl _
  | fail hdb => cases hdb
  | evict =>
    refine .selected (leavesRow_nextEvict router _ _).1 (fun l hl hstored => ?_)
      fun _ => h.gone (.inl ⟨_, _, rfl⟩)
    exact absurd (h.covered rfl l hl hstored) List.not_mem_nil
  | finish =>
    refine .selected rfl (fun l hl hstored => ?_) fun _ => h.gone (.inl ⟨_, _, rfl⟩)
    exact absurd (h.covered rfl l hl hstored) List.not_mem_nil
  | idle => exact h

theorem Tracked.step {s : State J Img} (h : Tracked router task source s)
    (hrequest : task.imageId ∈ request.ids) (a : Action)
    (hcovered : Covered deps router request task source s a) :
    Tracked router task source (step deps router request task s a) := by
  cases a with
  | delete cacheUp => exact h.delete cacheUp hrequest hcovered
  | process watermark day => exact h.process watermark day hcovered
  | again =>
    simp only [Orphans.step]
    split
    · exact ⟨fun _ _ _ _ => trivial, h.left, h.covered, h.gone⟩
    · exact h

theorem clean_of_tracked {s : State J Img} (h : Tracked router task source s)
    (hfinished : Finished s) : Clean router task source s := by
  obtain ⟨⟨answer, hdone⟩, -⟩ := hfinished
  cases answer with
  | error e => exact .inl (h.left (by rw [hdone]; rfl))
  | ok reply =>
    refine .inr ⟨h.gone (.inr ⟨reply, hdone⟩), fun l hl => ?_⟩
    by_contra hstored
    have hpending := h.covered (by rw [hdone]; rfl) l hl hstored
    rw [hdone] at hpending
    cases hpending

variable (deps router request task) in
/-- A deletion and the processing of one image, in any order of their calls: once both have
finished, the row is there and names stored objects or nothing of the image is left, in every
run whose steps are covered. -/
theorem no_orphans {store : ImageStore J} {r : Image} (hr : r ∈ store.images.rows)
    (hid : r.id = task.imageId) (hnamed : Named router r store.objects)
    (hrequest : task.imageId ∈ request.ids) (configs : ConfigTable)
    (workerRouter : StorageRouter) (as : List Action)
    (hcovered : AllSteps (step deps router request task)
      (Covered deps router request task
        ((router.forBackend r.storageBackend).locate r.storageKey))
      (start store configs workerRouter : State J Img) as) :
    AllStates (step deps router request task)
      (fun s => Finished s → Clean router task
        ((router.forBackend r.storageBackend).locate r.storageKey) s)
      (start store configs workerRouter : State J Img) as := by
  have htracked : Tracked router task ((router.forBackend r.storageBackend).locate r.storageKey)
      (start store configs workerRouter : State J Img) := by
    refine ⟨fun _ _ _ _ => trivial, fun _ => ⟨r, hr, hid, hnamed⟩, fun hfalse => (by cases hfalse),
      fun hevict => ?_⟩
    rcases hevict with ⟨_, _, heq⟩ | ⟨_, heq⟩ <;> cases heq
  exact (allStates_of_guarded (fun _ a h hg => h.step hrequest a hg) htracked hcovered).mono
    fun _ h hfinished => clean_of_tracked h hfinished

def pictureFile : Location := .file "/data" strangersImage.storageKey

def pictureStore : ImageStore Unit :=
  { strangersStore with objects := fun l => if l = pictureFile then some [3] else none }

def pictureTask : TaskPayload where
  taskId := 1
  imageId := 1
  userId := 9
  storageBackend := "local"
  storageConfigId := none
  storageBackendName := "local"
  sourceKey := strangersImage.storageKey
  sourceMime := "image/png"
  retryCount := 0
  maxRetries := 3

def ownRequest : Deletion.Request := .deleteImage ⟨9, false, none⟩ 1

theorem picture_named : Named localRouter strangersImage pictureStore.objects := by
  unfold Named
  decide

/-- The worker puts a thumbnail and a WebP variant and records them. -/
def processed : State Unit Unit :=
  (List.replicate 6 (.process none "")).foldl
    (step Worker.pngWorker localRouter ownRequest pictureTask)
    (start pictureStore .empty localRouter)

theorem processed_files {l : Location} (h : processed.store.objects l ≠ none) :
    l ∈ [pictureFile, localRouter.defaultBackend.locate (Worker.thumbKey pictureTask),
      localRouter.defaultBackend.locate (Worker.webpKey pictureTask)] := by
  have hobjects : processed.store.objects =
      Function.update (Function.update pictureStore.objects
        (localRouter.defaultBackend.locate (Worker.thumbKey pictureTask)) (some [1]))
        (localRouter.defaultBackend.locate (Worker.webpKey pictureTask)) (some [2]) := rfl
  rw [hobjects] at h
  by_contra hne
  simp only [List.mem_cons, List.not_mem_nil, or_false, not_or] at hne
  rw [Function.update_of_ne hne.2.2, Function.update_of_ne hne.2.1] at h
  exact h (if_neg hne.1)

/-- Then the image is deleted, with both variants. -/
def processedFirst : List Action :=
  List.replicate 6 (.process none "") ++ List.replicate 6 (.delete true)

theorem processed_targets {targets : List DeleteTarget}
    (h : ownRequest.targets true processed.store.images = .ok targets) :
    targets.flatMap (filesOf localRouter) =
      [pictureFile, localRouter.defaultBackend.locate (Worker.thumbKey pictureTask),
        localRouter.defaultBackend.locate (Worker.webpKey pictureTask)] := by
  cases h
  rfl

theorem no_orphans_processedFirst :
    AllStates (step Worker.pngWorker localRouter ownRequest pictureTask)
      (fun s => Finished s → Clean localRouter pictureTask pictureFile s)
      (start pictureStore .empty localRouter) processedFirst := by
  refine no_orphans Worker.pngWorker localRouter ownRequest pictureTask
    (List.mem_singleton_self strangersImage) rfl picture_named (List.mem_singleton_self _) .empty
    localRouter processedFirst (allSteps_append.mpr ⟨?_, ?_⟩)
  · simp only [List.replicate, AllSteps, Covered]
    decide +kernel
  · refine ⟨fun _ targets htargets l _ hstored => ?_, ?_⟩
    · rw [processed_targets htargets]
      exact processed_files hstored
    · refine ⟨fun h => ?_, fun h => ?_, fun h => ?_, fun h => ?_, fun h => ?_, trivial⟩ <;> cases h

/-- The image is deleted between the worker's read and its first `put`. -/
def deletedBetween : List Action :=
  List.replicate 3 (.process none "") ++ List.replicate 4 (.delete true) ++
    List.replicate 3 (.process none "")

def orphaned : State Unit Unit :=
  deletedBetween.foldl (step Worker.pngWorker localRouter ownRequest pictureTask)
    (start pictureStore .empty localRouter)

/-- Both have returned and the row is gone; the thumbnail and the WebP variant stay. -/
theorem orphans_left :
    ¬ AllStates (step Worker.pngWorker localRouter ownRequest pictureTask)
      (fun s => Finished s → Clean localRouter pictureTask pictureFile s)
      (start pictureStore .empty localRouter) deletedBetween := by
  intro h
  have hlast : Finished orphaned → Clean localRouter pictureTask pictureFile orphaned := h.last
  have hrows : orphaned.store.images.rows = [] := by decide +kernel
  have hthumb : orphaned.store.objects
      (localRouter.defaultBackend.locate (Worker.thumbKey pictureTask)) = some [1] := by
    decide +kernel
  have hfinished : Finished orphaned := ⟨⟨.ok (.deleted 1), by rfl⟩, ⟨.ok (), by rfl⟩⟩
  rcases hlast hfinished with ⟨r, hr, -⟩ | ⟨-, hnone⟩
  · rw [hrows] at hr
    cases hr
  · have hgone := hnone (localRouter.defaultBackend.locate (Worker.thumbKey pictureTask))
      (.inr ⟨localRouter.defaultBackend, "", "", _, .inl rfl, rfl⟩)
    rw [hthumb] at hgone
    cases hgone

end PicHost.Orphans
