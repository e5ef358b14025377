import PicHost.Core.Database
import PicHost.Core.Router

/-!
# The processing pipeline of the worker

A task in the hands of a worker goes through a pipeline of calls, one for each step.
-/

namespace PicHost.Worker

open KeyedTable

inductive PipelineError
  | storageRead (text : String)
  | decode (text : String)
  | thumbnail (text : String)
  | webp (text : String)
  | watermark (text : String)
  | database (text : String)
  | backendResolution (text : String)
deriving DecidableEq

/-- The formats the pipeline tells apart. -/
inductive ImageFormat
  | png
  | jpeg
  | gif
  | avif
  | bmp
  | other
deriving DecidableEq

/-- What decides whether a watermark is drawn. -/
structure WatermarkConfig where
  enabled : Bool
  text : String

/-- The image libraries the worker calls and its configuration. -/
structure Deps (Img : Type) where
  decode : Bytes → Except String (Img × ImageFormat)
  dimensions : Img → ℤ × ℤ
  hasAlpha : Img → Bool
  applyWatermark : WatermarkConfig → Img → Except String Img
  encodeThumbnail : Img → ImageFormat → Except String Bytes
  encodeWebp : Img → Bytes
  git : GitDeps
  publicUrl : String

/-- The stores a worker reads and writes, and its router. -/
structure Stores where
  images : ImageTable
  configs : ConfigTable
  objects : Objects
  router : StorageRouter

/-- What the outside contributes to one step; `watermark` is the user's column. -/
structure Input where
  dbFault : Option String
  storageFault : Option FileTree.Fault
  watermark : Option WatermarkConfig
  day : String

/-- The call of `process_task` that comes next, or its result; a task that was dead-lettered
is marked in the database last. -/
inductive Work (Img : Type)
  | resolveBackend
  | readSourceImage (backend : Backend)
  | loadWatermarkedImage (backend : Backend) (raw : Img) (fmt : ImageFormat)
  | generateThumbnail (backend : Backend) (img : Img) (fmt : ImageFormat) (size : ℤ × ℤ)
  | convertToWebp (backend : Backend) (img : Img) (fmt : ImageFormat) (size : ℤ × ℤ)
      (thumbWritten : Bool)
  | updateImageRecord (size : ℤ × ℤ) (thumbWritten webpWritten : Bool)
  | returned (result : Except PipelineError Unit)
  | handleDeadLetter
deriving DecidableEq

def thumbKey (task : TaskPayload) : String :=
  task.userId.toText ++ "/thumb." ++ task.imageId.toText

def webpKey (task : TaskPayload) : String :=
  task.userId.toText ++ "/webp." ++ task.imageId.toText

def shouldThumbnail (fmt : ImageFormat) : Bool := fmt != .gif

def shouldWebp (fmt : ImageFormat) : Bool :=
  match fmt with
  | .png | .jpeg | .avif | .bmp => true
  | _ => false

variable {Img : Type} (deps : Deps Img)

def thumbnailOutputFormat (img : Img) (fmt : ImageFormat) : ImageFormat × String :=
  if fmt = .png ∧ deps.hasAlpha img = true then (.png, "image/png") else (.jpeg, "image/jpeg")

def someIf (flag : Bool) (val : String) : Option String := if flag then some val else none

/-- The columns `update_image_record` sets. -/
def setReady (task : TaskPayload) (size : ℤ × ℤ) (thumbWritten webpWritten : Bool)
    (r : Image) : Image :=
  { r with
    width := some size.1
    height := some size.2
    thumbnailKey := someIf thumbWritten (thumbKey task)
    thumbnailUrl := someIf thumbWritten
      (trimEndSlash deps.publicUrl ++ "/u/thumb/" ++ task.imageId.toText)
    webpKey := someIf webpWritten (webpKey task)
    webpUrl := someIf webpWritten
      (trimEndSlash deps.publicUrl ++ "/u/webp/" ++ task.imageId.toText)
    status := "ready" }

/-- The column `handle_dead_letter` sets. -/
def setFailed (r : Image) : Image := { r with status := "failed" }

theorem setFailed_keys (r : Image) : (setFailed r).keys = r.keys := rfl

def resolveBackend (inp : Input) (task : TaskPayload) (s : Stores) :
    Except PipelineError Backend × StorageRouter :=
  match task.storageConfigId with
  | none => (.ok (s.router.forBackend task.storageBackend), s.router)
  | some configId =>
    match inp.dbFault, (s.configs.select fun c => c.id == configId).head? with
    | some text, _ =>
      (.error (.backendResolution ("config db query failed: " ++ text)), s.router)
    | none, none =>
      (.error (.backendResolution ("storage config " ++ configId.toText ++ " not found")),
        s.router)
    | none, some config =>
      match s.router.forConfig deps.git config with
      | (.ok backend, router) => (.ok backend, router)
      | (.error e, router) => (.error (.backendResolution e.toText), router)

def readSourceImage (inp : Input) (backend : Backend) (task : TaskPayload) (objs : Objects) :
    Except PipelineError (Img × ImageFormat) :=
  match backend.get (inp.storageFault.map (·.message)) task.sourceKey objs with
  | .error e => .error (.storageRead e.toText)
  | .ok bytes =>
    match deps.decode bytes with
    | .error text => .error (.decode text)
    | .ok decoded => .ok decoded

def loadWatermarkedImage (inp : Input) (raw : Img) : Except PipelineError Img :=
  match inp.dbFault with
  | some text => .error (.database ("Failed to fetch watermark config: " ++ text))
  | none =>
    match inp.watermark with
    | none => .ok raw
    | some config =>
      if config.enabled = true ∧ config.text ≠ "" then
        match deps.applyWatermark config raw with
        | .error text => .error (.watermark text)
        | .ok img => .ok img
      else .ok raw

/-- Writes one generated variant; `write` names the step in the error. -/
def writeVariant (inp : Input) (backend : Backend) (key : String) (data : Bytes)
    (contentType write : String) (objs : Objects) : Except String Unit × Objects :=
  match backend.put inp.storageFault inp.day key data contentType objs with
  | (.ok _, objs) => (.ok (), objs)
  | (.error e, objs) => (.error (write ++ e.toText), objs)

/-- One call of `process_task`. -/
def processTask (inp : Input) (task : TaskPayload) (work : Work Img) (s : Stores) :
    Work Img × Stores :=
  match work with
  | .resolveBackend =>
    match resolveBackend deps inp task s with
    | (.ok backend, router) => (.readSourceImage backend, { s with router })
    | (.error e, router) => (.returned (.error e), { s with router })
  | .readSourceImage backend =>
    match readSourceImage deps inp backend task s.objects with
    | .ok (raw, fmt) => (.loadWatermarkedImage backend raw fmt, s)
    | .error e => (.returned (.error e), s)
  | .loadWatermarkedImage backend raw fmt =>
    match loadWatermarkedImage deps inp raw with
    | .ok img => (.generateThumbnail backend img fmt (deps.dimensions raw), s)
    | .error e => (.returned (.error e), s)
  | .generateThumbnail backend img fmt size =>
    if shouldThumbnail fmt then
      let (outFmt, mime) := thumbnailOutputFormat deps img fmt
      match deps.encodeThumbnail img outFmt with
      | .error text => (.returned (.error (.thumbnail text)), s)
      | .ok buf =>
        match writeVariant inp backend (thumbKey task) buf mime "thumb storage write: "
            s.objects with
        | (.ok (), objects) => (.convertToWebp backend img fmt size true, { s with objects })
        | (.error text, objects) => (.returned (.error (.thumbnail text)), { s with objects })
    else (.convertToWebp backend img fmt size false, s)
  | .convertToWebp backend img fmt size thumbWritten =>
    if shouldWebp fmt then
      match writeVariant inp backend (webpKey task) (deps.encodeWebp img) "image/webp"
          "webp storage write: " s.objects with
      | (.ok (), objects) => (.updateImageRecord size thumbWritten true, { s with objects })
      | (.error text, objects) => (.returned (.error (.webp text)), { s with objects })
    else (.updateImageRecord size thumbWritten false, s)
  | .updateImageRecord size thumbWritten webpWritten =>
    match inp.dbFault with
    | some text => (.returned (.error (.database text)), s)
    | none =>
      (.returned (.ok ()),
        { s with
          images := s.images.update (fun r => r.id == task.imageId)
            (setReady deps task size thumbWritten webpWritten) fun _ => rfl })
  | .returned result => (.returned result, s)
  | .handleDeadLetter => (.handleDeadLetter, s)

/-- The status column of a dead-lettered task's image; a failed update is ignored. -/
def handleDeadLetter (inp : Input) (task : TaskPayload) (images : ImageTable) : ImageTable :=
  match inp.dbFault with
  | some _ => images
  | none => images.update (fun r => r.id == task.imageId) setFailed fun _ => rfl

/-- The backend a task in hand is bound to. -/
def Work.backend : Work Img → Option Backend
  | .readSourceImage backend | .loadWatermarkedImage backend _ _
  | .generateThumbnail backend _ _ _ | .convertToWebp backend _ _ _ _ => some backend
  | _ => none

/-- The objects after a call that may have written a variant through the task's backend. -/
def WritesVariant (task : TaskPayload) (work : Work Img) (objs objs' : Objects) : Prop :=
  objs' = objs ∨ ∃ backend day key mime data, work.backend = some backend ∧
    (key = thumbKey task ∨ key = webpKey task) ∧
    objs' = Function.update objs (backend.locate (backend.storedKey day key mime)) (some data)

variable {deps}

/-- A variant that is written, or of which a write that fails leaves something. -/
theorem writeVariant_objects (inp : Input) (backend : Backend) (key : String) (data : Bytes)
    (contentType write : String) (objs : Objects) :
    (writeVariant inp backend key data contentType write objs).2 = objs ∨ ∃ written,
    (writeVariant inp backend key data contentType write objs).2 =
      Function.update objs (backend.locate (backend.storedKey inp.day key contentType))
        (some written) := by
  unfold writeVariant
  split
  · rename_i h
    obtain ⟨rfl, hobjs⟩ := Backend.put_ok h
    exact .inr ⟨data, hobjs⟩
  · rename_i h
    rcases Backend.put_error h with hobjs | ⟨fault, written, -, -, -, hobjs⟩
    · exact .inl hobjs
    · exact .inr ⟨written, hobjs⟩

theorem writesVariant_write (task : TaskPayload) (inp : Input) (work : Work Img)
    {backend : Backend} {key : String} (hb : work.backend = some backend)
    (hk : key = thumbKey task ∨ key = webpKey task) (data : Bytes) (mime write : String)
    (objs : Objects) :
    WritesVariant task work objs (writeVariant inp backend key data mime write objs).2 := by
  rcases writeVariant_objects inp backend key data mime write objs with h | ⟨written, h⟩
  · exact .inl h
  · exact .inr ⟨backend, inp.day, key, mime, written, hb, hk, h⟩

variable (deps) in
/-- What a call of `process_task` does: it may write a variant or mark the row as ready, and
it stays with the backend it has resolved. -/
theorem processTask_spec (inp : Input) (task : TaskPayload) (work : Work Img) (s : Stores) :
    WritesVariant task work s.objects (processTask deps inp task work s).2.objects ∧
    ((processTask deps inp task work s).2.images = s.images ∨
      ∃ size thumbWritten webpWritten, (processTask deps inp task work s).2.images =
        s.images.update (fun r => r.id == task.imageId)
          (setReady deps task size thumbWritten webpWritten) fun _ => rfl) ∧
    (∀ backend, (processTask deps inp task work s).1.backend = some backend →
      work.backend = some backend ∨ (resolveBackend deps inp task s).1 = .ok backend) ∧
    ((processTask deps inp task work s).2.router = s.router ∨
      (processTask deps inp task work s).2.router = (resolveBackend deps inp task s).2) := by
  cases work with
  | resolveBackend =>
    simp only [processTask]
    split
    · rename_i h
      refine ⟨.inl rfl, .inl rfl, fun b hb => .inr ?_, .inr (by rw [h])⟩
      cases hb
      rw [h]
    · rename_i h
      exact ⟨.inl rfl, .inl rfl, fun b hb => (nomatch hb), .inr (by rw [h])⟩
  | readSourceImage backend =>
    simp only [processTask]
    split
    · exact ⟨.inl rfl, .inl rfl, fun b hb => .inl hb, .inl rfl⟩
    · exact ⟨.inl rfl, .inl rfl, fun b hb => (nomatch hb), .inl rfl⟩
  | loadWatermarkedImage backend raw fmt =>
    simp only [processTask]
    split
    · exact ⟨.inl rfl, .inl rfl, fun b hb => .inl hb, .inl rfl⟩
    · exact ⟨.inl rfl, .inl rfl, fun b hb => (nomatch hb), .inl rfl⟩
  | generateThumbnail backend img fmt size =>
    simp only [processTask]
    split
    · split
      · exact ⟨.inl rfl, .inl rfl, fun b hb => (nomatch hb), .inl rfl⟩
      · rename_i buf _
        have hwrite := writesVariant_write task inp
          (.generateThumbnail backend img fmt size) rfl (.inl rfl) buf
          (thumbnailOutputFormat deps img fmt).2 "thumb storage write: " s.objects
        split <;> rename_i h <;> rw [h] at hwrite
        · exact ⟨hwrite, .inl rfl, fun b hb => .inl hb, .inl rfl⟩
        · exact ⟨hwrite, .inl rfl, fun b hb => (nomatch hb), .inl rfl⟩
    · exact ⟨.inl rfl, .inl rfl, fun b hb => .inl hb, .inl rfl⟩
  | convertToWebp backend img fmt size thumbWritten =>
    simp only [processTask]
    split
    · have hwrite := writesVariant_write task inp
        (.convertToWebp backend img fmt size thumbWritten) rfl (.inr rfl)
        (deps.encodeWebp img) "image/webp" "webp storage write: " s.objects
      split <;> rename_i h <;> rw [h] at hwrite
      · exact ⟨hwrite, .inl rfl, fun b hb => (nomatch hb), .inl rfl⟩
      · exact ⟨hwrite, .inl rfl, fun b hb => (nomatch hb), .inl rfl⟩
    · exact ⟨.inl rfl, .inl rfl, fun b hb => (nomatch hb), .inl rfl⟩
  | updateImageRecord size thumbWritten webpWritten =>
    simp only [processTask]
    split
    · exact ⟨.inl rfl, .inl rfl, fun b hb => (nomatch hb), .inl rfl⟩
    · exact ⟨.inl rfl, .inr ⟨size, thumbWritten, webpWritten, rfl⟩, fun b hb => (nomatch hb),
        .inl rfl⟩
  | returned result => exact ⟨.inl rfl, .inl rfl, fun b hb => (nomatch hb), .inl rfl⟩
  | handleDeadLetter => exact ⟨.inl rfl, .inl rfl, fun b hb => (nomatch hb), .inl rfl⟩

/-- Only `handle_task_result` decides that a task is dead. -/
theorem processTask_ne_handleDeadLetter {inp : Input} {task : TaskPayload} {work : Work Img}
    {s : Stores} (h : (processTask deps inp task work s).1 = .handleDeadLetter) :
    work = .handleDeadLetter := by
  cases work with
  | handleDeadLetter => rfl
  | returned => cases h
  | _ =>
    simp only [processTask] at h
    repeat' split at h
    all_goals cases h

end PicHost.Worker
