import PicHost.Api.Upload
import PicHost.Core.RedisQueue
import PicHost.Lib.Run
import PicHost.Worker.Pipeline

/-!
# Uploads, the worker and the public route

Uploads and workers take their steps in any order. The API and the worker share the
database, the storage and the queue; each has its own router.
-/

namespace PicHost.Serving

open LabelledRun KeyedTable Upload

variable {Img : Type}

def checkImageStatus (status : String) : Bool := status == "active" || status == "ready"

def imageNotFound : ApiError := { status := 404, key := "image.not_found" }

/-- The body of `public_get` and its content type. -/
structure Response where
  body : Bytes
  contentType : String
deriving DecidableEq

/-- The answer for a row. -/
def serveRow (fault : Option String) (r : Image) (s : Stores) : Except ApiError Response :=
  if checkImageStatus r.status then
    match (s.router.forBackend r.storageBackend).get fault r.storageKey s.objects with
    | .error _ => .error imageNotFound
    | .ok bytes => .ok ⟨bytes, r.mimeType⟩
  else .error imageNotFound

/-- `GET /u/{public_key}`. -/
def publicGet (dbUp : Bool) (fault : Option String) (publicKey : String) (s : Stores) :
    Except ApiError Response :=
  if dbUp then
    match (s.images.select fun r => r.publicKey == publicKey).head? with
    | none => .error imageNotFound
    | some r => serveRow fault r s
  else .error internalError

structure System (Img : Type) where
  uploads : World
  queue : RedisQueue
  router : StorageRouter
  held : List (TaskPayload × Worker.Work Img)

inductive Action
  | submit (ctx : UploadCtx)
  | advance (i b : ℕ) (inp : Input)
  | dequeue (up : Bool)
  | process (j : ℕ) (inp : Worker.Input)
  | finish (j : ℕ) (up : Bool)
  | timeout (j : ℕ) (up : Bool)
  | crash (j : ℕ)
  | recover (up : Bool) (stale : Uuid → Bool)

variable (deps : Deps) (worker : Worker.Deps Img)

/-- The next call for a task in hand. -/
def process (inp : Worker.Input) (task : TaskPayload) (work : Worker.Work Img) (j : ℕ)
    (s : System Img) : System Img :=
  let stores := s.uploads.stores
  match work with
  | .handleDeadLetter =>
    { s with
      uploads := { s.uploads with
        stores := { stores with images := Worker.handleDeadLetter inp task stores.images } }
      held := s.held.eraseIdx j }
  | _ =>
    let (work', w) := Worker.processTask worker inp task work
      ⟨stores.images, stores.configs, stores.objects, s.router⟩
    { s with
      uploads := { s.uploads with
        stores := { stores with images := w.images, objects := w.objects } }
      router := w.router
      held := s.held.set j (task, work') }

/-- `handle_task_result` for a task whose pipeline has returned. -/
def finish (up : Bool) (task : TaskPayload) (result : Except Worker.PipelineError Unit) (j : ℕ)
    (s : System Img) : System Img :=
  match result with
  | .ok () =>
    { s with queue := (s.queue.ackTask up task.taskId).2, held := s.held.eraseIdx j }
  | .error _ =>
    match s.queue.nack up task.taskId task.retryCount task.maxRetries with
    | (.ok .deadLetter, queue) =>
      { s with queue, held := s.held.set j (task, .handleDeadLetter) }
    | (_, queue) => { s with queue, held := s.held.eraseIdx j }

/-- The tasks an upload enqueues go to the queue. -/
def step (s : System Img) : Action → System Img
  | .submit ctx => { s with uploads := s.uploads.submit ctx }
  | .advance i b inp =>
    let uploads := s.uploads.advance deps i b inp
    { s with
      uploads
      queue := (uploads.stores.tasks.drop s.uploads.stores.tasks.length).foldl
        (fun q task => q.enqueueTask task) s.queue }
  | .dequeue up =>
    match s.queue.dequeueTask up with
    | (.ok (some task), queue) =>
      { s with queue, held := s.held ++ [(task, .resolveBackend)] }
    | (_, queue) => { s with queue }
  | .process j inp =>
    match s.held[j]? with
    | none => s
    | some (task, work) => process worker inp task work j s
  | .finish j up =>
    match s.held[j]? with
    | some (task, .returned result) => finish up task result j s
    | _ => s
  | .timeout j up =>
    match s.held[j]? with
    | none | some (_, .returned _) | some (_, .handleDeadLetter) => s
    | some (task, _) =>
      { s with
        queue := (s.queue.nack up task.taskId task.retryCount task.maxRetries).2
        held := s.held.eraseIdx j }
  | .crash j => { s with held := s.held.eraseIdx j }
  | .recover up stale => { s with queue := s.queue.recoverStaleTasks up stale }

/-- The one backend: a directory. -/
structure Directory where
  basePath : String
  publicUrl : String

variable (dir : Directory)

def Directory.backend : Backend := .localStorage dir.basePath dir.publicUrl

def Directory.router (order : List String → ℕ) : StorageRouter :=
  initStorageBackends dir.basePath dir.publicUrl none "local" order

/-- An empty service. -/
def init (configs : ConfigTable) (order : List String → ℕ) : System Img where
  uploads :=
    { stores :=
        { images := Table.empty, configs, objects := fun _ => none, tasks := []
          router := dir.router order }
      requests := [] }
  queue := .empty
  router := dir.router order
  held := []

/-- The results a request has returned. -/
def results : Stage → List UploadResult
  | .done (.ok results) => results
  | _ => []

/-- What the public route answers for a key an upload returned. -/
def Served (s : System Img) (ctx : UploadCtx) (publicKey : String) : Prop :=
  publicGet true none publicKey s.uploads.stores = .ok ⟨ctx.bytes, detectMime deps ctx.bytes⟩

instance (s : System Img) (ctx : UploadCtx) (publicKey : String) :
    Decidable (Served deps s ctx publicKey) :=
  inferInstanceAs (Decidable (_ = _))

/-- The row's processing task was dead-lettered and the row marked. -/
def Failed (s : System Img) (publicKey : String) : Prop :=
  ∃ r ∈ s.uploads.stores.images.rows, r.publicKey = publicKey ∧ r.status = "failed" ∧
    ∃ task ∈ s.uploads.stores.tasks, task.imageId = r.id ∧ task.taskId ∈ s.queue.dead

instance (s : System Img) (publicKey : String) : Decidable (Failed s publicKey) :=
  inferInstanceAs (Decidable (∃ _ ∈ _, _))

/-- Every result an upload has returned is served, unless it is marked as failed; then the
answer is that there is no image. -/
def Servable (s : System Img) : Prop :=
  ∀ req ∈ s.uploads.requests, ∀ r ∈ results req.stage,
    Served deps s req.ctx r.publicKey ∨
    Failed s r.publicKey ∧
      publicGet true none r.publicKey s.uploads.stores = .error imageNotFound

instance (s : System Img) : Decidable (Servable deps s) :=
  inferInstanceAs (Decidable (∀ _ ∈ _, _))

/-- The key a pipeline has drawn and not yet inserted. -/
def Pipeline.drawnKey : Pipeline → Option String
  | .writeToStorage _ publicKey | .insertImageRecord _ publicKey _ _ => some publicKey
  | _ => none

/-- The keys the running pipelines have drawn and not yet inserted. -/
def drawnKeys (requests : List Request) : List String :=
  requests.flatMap fun req =>
    match req.stage with
    | .running _ branches => branches.filterMap fun branch => Pipeline.drawnKey branch.2
    | _ => []

/-- The pipeline that moves draws a key. -/
def draws (requests : List Request) (i b : ℕ) : Bool :=
  match requests[i]? with
  | some ⟨_, .running _ branches⟩ =>
    match branches[b]? with
    | some (_, .generatePublicKey _) => true
    | _ => false
  | _ => false

/-- No two files of the run share a digest, and no key is drawn that a pipeline in progress
has drawn and not yet inserted. -/
def Distinct (s : System Img) : Action → Prop
  | .submit ctx => ∀ req ∈ s.uploads.requests,
      deps.sha256 req.ctx.bytes = deps.sha256 ctx.bytes → req.ctx.bytes = ctx.bytes
  | .advance i b inp => draws s.uploads.requests i b = true →
      publicKeyOf inp.draw ∉ drawnKeys s.uploads.requests
  | _ => True

instance (s : System Img) : DecidablePred (Distinct deps s)
  | .submit _ => inferInstanceAs (Decidable (∀ _ ∈ _, _))
  | .advance _ _ _ => inferInstanceAs (Decidable (_ → _))
  | .dequeue _ | .process _ _ | .finish _ _ | .timeout _ _ | .crash _ | .recover _ _ =>
    inferInstanceAs (Decidable True)

end PicHost.Serving
