import PicHost.Api.Deletion
import PicHost.Worker.Servable

/-!
# Uploads, the worker and deletions

The steps of `PicHost.Worker.Serving` and those of deletions in any order.
-/

namespace PicHost.Service

open KeyedTable Upload Serving

variable {J Img : Type}

structure State (J Img : Type) where
  system : System Img
  cache : Cache J
  deletions : List (Deletion.Request × Deletion.Stage)

inductive Action
  | serving (a : Serving.Action)
  | delete (request : Deletion.Request)
  | deletion (i : ℕ) (inp : Deletion.Input)
  | expire (key : String)

namespace State

def images (s : State J Img) : ImageTable := s.system.uploads.stores.images

def objects (s : State J Img) : Objects := s.system.uploads.stores.objects

def router (s : State J Img) : StorageRouter := s.system.uploads.stores.router

/-- What the handlers of deletions read and write. -/
def store (s : State J Img) : ImageStore J := ⟨s.images, s.objects, s.cache⟩

def withStore (t : ImageStore J) (s : State J Img) : State J Img :=
  { s with
    system := { s.system with
      uploads := { s.system.uploads with
        stores := { s.system.uploads.stores with images := t.images, objects := t.objects } } }
    cache := t.cache }

end State

section Steps

variable (deps : Deps) (worker : Worker.Deps Img)

def step (s : State J Img) : Action → State J Img
  | .serving a => { s with system := Serving.step deps worker s.system a }
  | .delete request => { s with deletions := s.deletions ++ [(request, .start)] }
  | .deletion i inp =>
    match s.deletions[i]? with
    | none => s
    | some (request, stage) =>
      let (stage, t) := Deletion.advance s.router inp request stage s.store
      { s.withStore t with deletions := s.deletions.set i (request, stage) }
  | .expire key => { s with cache := s.cache.expire key }

/-- A service without images. -/
def init (router workerRouter : StorageRouter) (configs : ConfigTable) (noop : Bool) :
    State J Img where
  system :=
    { uploads :=
        { stores := ⟨Table.empty, configs, fun _ => none, [], router⟩
          requests := [] }
      queue := .empty
      router := workerRouter
      held := [] }
  cache := ⟨noop, fun _ => none⟩
  deletions := []

/-- What a step of an upload or of the worker does to the images and the objects. -/
inductive ServingEffect (s : System Img) : Serving.Action → ImageTable → Objects → Prop
  | same {a} : ServingEffect s a s.uploads.stores.images s.uploads.stores.objects
  | wrote {i b inp ctx config backend publicKey} (written : Bytes)
      (hat : At s.uploads.requests i b ctx config (.writeToStorage backend publicKey)) :
      ServingEffect s (.advance i b inp) s.uploads.stores.images
        (Function.update s.uploads.stores.objects
          (backend.locate (backend.storedKey inp.day (sourceKey ctx.user.id publicKey)
            (detectMime deps ctx.bytes))) (some written))
  | inserted {i b inp ctx config backend publicKey storageKey url images}
      (hat : At s.uploads.requests i b ctx config
        (.insertImageRecord backend publicKey storageKey url)) (hdb : inp.dbUp = true)
      (hins : s.uploads.stores.images.insert
        (newImage deps ctx config inp publicKey storageKey url) = some images) :
      ServingEffect s (.advance i b inp) images s.uploads.stores.objects
  | processed {j inp task work images objects} (hj : s.held[j]? = some (task, work))
      (hobjects : Worker.WritesVariant task work s.uploads.stores.objects objects)
      (himages : images = s.uploads.stores.images ∨ ∃ size thumbWritten webpWritten,
        images = s.uploads.stores.images.update (fun r => r.id == task.imageId)
          (Worker.setReady worker task size thumbWritten webpWritten) fun _ => rfl) :
      ServingEffect s (.process j inp) images objects
  | failed {j inp task} (hj : s.held[j]? = some (task, .handleDeadLetter)) :
      ServingEffect s (.process j inp)
        (s.uploads.stores.images.update (fun r => r.id == task.imageId) Worker.setFailed
          fun _ => rfl) s.uploads.stores.objects

end Steps

section Serving

variable (deps : Deps) (worker : Worker.Deps Img)

variable {deps} in
/-- A call that writes no file. -/
theorem effect_of_call {s : System Img} {i b : ℕ} {inp : Input} {ctx : UploadCtx}
    {config : UserStorageConfig} {p p' : Pipeline} {s' : Stores}
    (hat : At s.uploads.requests i b ctx config p)
    (hp : ∀ backend publicKey, p ≠ .writeToStorage backend publicKey)
    (hcall : Call deps ctx config inp p s.uploads.stores p' s') :
    ServingEffect deps worker s (.advance i b inp) s'.images s'.objects := by
  cases hcall with
  | written | cut => exact absurd rfl (hp _ _)
  | inserted hdb hins => exact .inserted hat hdb hins
  | _ => exact .same

/-- A call of a pipeline. -/
theorem call_effect (s : System Img) {i b : ℕ} {inp : Input} {ctx : UploadCtx}
    {config : UserStorageConfig} {p : Pipeline}
    (hat : At s.uploads.requests i b ctx config p) :
    let next := uploadToSingleBackend deps ctx config inp p s.uploads.stores
    ServingEffect deps worker s (.advance i b inp) next.2.images next.2.objects := by
  intro next
  cases p with
  | writeToStorage backend publicKey =>
    cases hput : backend.put inp.storageFault inp.day (sourceKey ctx.user.id publicKey) ctx.bytes
      (detectMime deps ctx.bytes) s.uploads.stores.objects with
    | mk result objects =>
      cases result with
      | error e =>
        have hnext : next = (.done (.error (storageErrorResponse e)),
            { s.uploads.stores with objects }) := by
          simp only [next, uploadToSingleBackend, hput]
        rw [hnext]
        rcases Backend.put_error hput with rfl | ⟨fault, written, -, -, -, rfl⟩
        · exact .same
        · exact .wrote written hat
      | ok storageKey =>
        have hnext : next = (.insertImageRecord backend publicKey storageKey
            (storedUrl deps backend publicKey storageKey), { s.uploads.stores with objects }) := by
          simp only [next, uploadToSingleBackend, hput]
        obtain ⟨rfl, rfl⟩ := Backend.put_ok hput
        rw [hnext]
        exact .wrote ctx.bytes hat
  | _ =>
    exact effect_of_call worker hat (fun _ _ h => by cases h)
      (uploadToSingleBackend_call deps ctx config inp _ s.uploads.stores)

theorem advance_effect (s : System Img) (i b : ℕ) (inp : Input) :
    ServingEffect deps worker s (.advance i b inp)
      (Serving.step deps worker s (.advance i b inp)).uploads.stores.images
      (Serving.step deps worker s (.advance i b inp)).uploads.stores.objects := by
  cases hreq : s.uploads.requests[i]? with
  | none =>
    have hsame : s.uploads.advance deps i b inp = s.uploads := by
      simp only [World.advance, hreq]
    simp only [Serving.step, hsame]
    exact .same
  | some req =>
    obtain ⟨ctx, stage⟩ := req
    simp only [Serving.step, World.advance, hreq]
    cases stage with
    | running seen branches =>
      simp only [processUpload]
      split
      · exact .same
      · rename_i config p hb
        exact call_effect deps worker s ⟨seen, branches, hreq, hb⟩
    | checkQuotas =>
      simp only [processUpload]
      repeat' split
      all_goals exact .same
    | resolveConfigs seen =>
      simp only [processUpload]
      repeat' split
      all_goals exact .same
    | done result => exact .same

theorem process_effect (s : System Img) (j : ℕ) (inp : Worker.Input) :
    ServingEffect deps worker s (.process j inp)
      (Serving.step deps worker s (.process j inp)).uploads.stores.images
      (Serving.step deps worker s (.process j inp)).uploads.stores.objects := by
  simp only [Serving.step]
  split
  · exact .same
  · rename_i task work hj
    have hspec := Worker.processTask_spec worker inp task work ⟨s.uploads.stores.images,
      s.uploads.stores.configs, s.uploads.stores.objects, s.router⟩
    unfold Serving.process
    cases work with
    | handleDeadLetter =>
      simp only [Worker.handleDeadLetter]
      split
      · exact .same
      · exact .failed hj
    | _ => exact .processed hj hspec.1 hspec.2.1

theorem serving_effect (s : System Img) (a : Serving.Action) :
    ServingEffect deps worker s a (Serving.step deps worker s a).uploads.stores.images
      (Serving.step deps worker s a).uploads.stores.objects := by
  cases a with
  | submit | crash | recover => exact .same
  | advance i b inp => exact advance_effect deps worker s i b inp
  | process j inp => exact process_effect deps worker s j inp
  | dequeue up =>
    simp only [Serving.step]
    split <;> exact .same
  | finish j up =>
    simp only [Serving.step]
    split
    · unfold Serving.finish
      repeat' split
      all_goals exact .same
    · exact .same
  | timeout j up =>
    simp only [Serving.step]
    split <;> exact .same

/-- The queue and the worker leave the requests, the router of the API and the configurations. -/
theorem uploads_step (s : System Img) {a : Serving.Action} (hsubmit : ∀ ctx, a ≠ .submit ctx)
    (hadvance : ∀ i b inp, a ≠ .advance i b inp) :
    (Serving.step deps worker s a).uploads.requests = s.uploads.requests ∧
    (Serving.step deps worker s a).uploads.stores.router = s.uploads.stores.router ∧
    (Serving.step deps worker s a).uploads.stores.configs = s.uploads.stores.configs := by
  cases a with
  | submit ctx => exact absurd rfl (hsubmit ctx)
  | advance i b inp => exact absurd rfl (hadvance i b inp)
  | dequeue up =>
    simp only [Serving.step]
    split <;> exact ⟨rfl, rfl, rfl⟩
  | process j inp =>
    simp only [Serving.step]
    split
    · exact ⟨rfl, rfl, rfl⟩
    · unfold Serving.process
      split <;> exact ⟨rfl, rfl, rfl⟩
  | finish j up =>
    simp only [Serving.step]
    split
    · unfold Serving.finish
      repeat' split
      all_goals exact ⟨rfl, rfl, rfl⟩
    · exact ⟨rfl, rfl, rfl⟩
  | timeout j up =>
    simp only [Serving.step]
    split <;> exact ⟨rfl, rfl, rfl⟩
  | crash j => exact ⟨rfl, rfl, rfl⟩
  | recover up stale => exact ⟨rfl, rfl, rfl⟩

/-- Where a pipeline of the requests after a step comes from: it stood there before, its request
has just resolved its configurations, or it is the one that moved. -/
inductive Arrives (w : World) (i b : ℕ) (inp : Input) (i' b' : ℕ) (ctx : UploadCtx)
    (config : UserStorageConfig) (p : Pipeline) : Prop
  | stays (hat : At w.requests i' b' ctx config p)
  | starts {configs} (hp : p = .dedupExists) (hconfig : config ∈ configs)
      (hr : UploadConfigs.resolveUploadConfigs inp.dbUp inp.now ctx.user.id
        ctx.storageConfigIds w.stores.configs = .ok configs)
  | moves {p₀ s'} (hat : At w.requests i b ctx config p₀)
      (hcall : Call deps ctx config inp p₀ w.stores p s') (hindex : i' = i ∧ b' = b)

theorem at_of_advance {w : World} {i b : ℕ} {inp : Input} {i' b' : ℕ} {ctx : UploadCtx}
    {config : UserStorageConfig} {p : Pipeline}
    (h : At (w.advance deps i b inp).requests i' b' ctx config p) :
    Arrives deps w i b inp i' b' ctx config p := by
  rcases w.advance_cases deps i b inp with
    ⟨-, hsame⟩ | ⟨ctx₀, stage, stage', s', hreq, hadvance, hnext⟩
  · rw [hsame] at h
    exact .stays h
  · rw [hnext] at h
    rcases h.of_set with ⟨-, hat⟩ | ⟨rfl, rfl, seen, branches, hstage, hb⟩
    · exact .stays hat
    cases hadvance with
    | rejected | checked => cases hstage
    | started hr hv =>
      cases hstage
      obtain ⟨c, hc, heq⟩ := List.mem_map.mp (List.mem_of_getElem? hb)
      cases heq
      exact .starts rfl (List.mem_of_mem_take hc) hr
    | moved hb₀ hcall =>
      rename_i seen₀ branches₀ config₀ p₀ p'
      rcases settle_cases seen₀ (branches₀.set b (config₀, p')) with ⟨hrun, -⟩ | ⟨results, hdone, -⟩
      · rw [hrun] at hstage
        cases hstage
        by_cases hbb : b' = b
        · subst hbb
          rw [List.getElem?_set_self', hb₀] at hb
          cases hb
          exact .moves ⟨_, _, hreq, hb₀⟩ hcall ⟨rfl, rfl⟩
        · rw [List.getElem?_set_ne (Ne.symm hbb)] at hb
          exact .stays ⟨_, _, hreq, hb⟩
      · rw [hdone] at hstage
        cases hstage
    | idle =>
      subst hstage
      exact .stays ⟨seen, branches, hreq, hb⟩

end Serving

end PicHost.Service
