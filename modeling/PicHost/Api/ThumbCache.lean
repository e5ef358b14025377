import PicHost.Api.Service
import PicHost.Lib.Freshness

/-!
# Thumbnails by public key

`GET /t/{public_key}` answers bytes that are cached under the public key, which another image may
have drawn since. The images that have held each key are kept beside the stores.
-/

namespace PicHost.ThumbCache

open KeyedTable LabelledRun Freshness

/-- The bytes of a thumbnail and the file they were read from. -/
structure Thumb where
  bytes : Bytes
  file : String
deriving DecidableEq

structure Answer extends Thumb where
  contentType : String
deriving DecidableEq

/-- The call of `public_get_thumb_by_key` that comes next, or the answer. -/
inductive Stage
  | resolveThumbKey
  | lookup (thumbKey storageBackend : String)
  | load (thumbKey storageBackend : String)
  | store (thumb : Thumb)
  | done (answer : Except ApiError Answer)

/-- What the outside contributes to one step. -/
structure Input where
  dbUp : Bool
  getUp : Bool
  storageFault : Option String
  setUp : Bool

def cacheKey (publicKey : String) : String := "pichost:thumb:" ++ ("thumb:pk:" ++ publicKey)

/-- `public_key = $1 AND status IN ('active', 'ready')`. -/
def resolveThumbKeyByPublicKey (up : Bool) (publicKey : String) (images : ImageTable) :
    Except ApiError (String × String) :=
  if up then
    match (images.select fun r =>
      r.publicKey == publicKey && (r.status == "active" || r.status == "ready")).head? with
    | none => .error { status := 404, key := "image.not_found" }
    | some r =>
      match r.thumbnailKey with
      | none => .error { status := 404, key := "image.thumbnail_not_ready" }
      | some thumbKey => .ok (thumbKey, r.storageBackend)
  else .error { status := 500, key := "common.internal_error" }

section Steps

variable {Img : Type} (deps : Upload.Deps) (worker : Worker.Deps Img)

def mimeForThumbBytes (bytes : Bytes) : String :=
  (deps.inferMime bytes).getD "application/octet-stream"

def respond (t : Thumb) : Stage := .done (.ok ⟨t, mimeForThumbBytes deps t.bytes⟩)

/-- One call of `public_get_thumb_by_key`. -/
def publicGetThumbByKey (router : StorageRouter) (inp : Input) (publicKey : String)
    (stage : Stage) (s : ImageStore Thumb) : Stage × ImageStore Thumb :=
  match stage with
  | .resolveThumbKey =>
    match resolveThumbKeyByPublicKey inp.dbUp publicKey s.images with
    | .error e => (.done (.error e), s)
    | .ok (thumbKey, storageBackend) => (.lookup thumbKey storageBackend, s)
  | .lookup thumbKey storageBackend =>
    match s.cache.get inp.getUp (cacheKey publicKey) with
    | .ok (some t) => (respond deps t, s)
    | _ => (.load thumbKey storageBackend, s)
  | .load thumbKey storageBackend =>
    match (router.forBackend storageBackend).get inp.storageFault thumbKey s.objects with
    | .error _ => (.done (.error { status := 500, key := "image.thumbnail_not_found" }), s)
    | .ok bytes => (.store ⟨bytes, thumbKey⟩, s)
  | .store t =>
    (respond deps t, { s with cache := (s.cache.setEx inp.setUp (cacheKey publicKey) t).2 })
  | .done answer => (.done answer, s)

/-- A request and the length of the key's history when it came in. -/
structure Call where
  publicKey : String
  stage : Stage
  began : ℕ

structure State (Img : Type) where
  service : Service.State Thumb Img
  calls : List Call
  history : History String Uuid

inductive Action
  | service (a : Service.Action)
  | ask (publicKey : String)
  | advance (i : ℕ) (inp : Input)

/-- The image that holds the key. -/
def holder (images : ImageTable) (publicKey : String) : Option Uuid :=
  (images.select fun r => r.publicKey == publicKey).head?.map Image.id

def changed (images images' : ImageTable) (publicKey : String) : Bool :=
  holder images publicKey != holder images' publicKey

def step (s : State Img) : Action → State Img
  | .service a =>
    let service := Service.step deps worker s.service a
    { s with
      service
      history := note s.history (changed s.service.images service.images)
        (holder service.images) }
  | .ask publicKey =>
    { s with calls := s.calls ++ [⟨publicKey, .resolveThumbKey, top s.history publicKey⟩] }
  | .advance i inp =>
    match s.calls[i]? with
    | none => s
    | some c =>
      let (stage, t) :=
        publicGetThumbByKey deps s.service.router inp c.publicKey c.stage s.service.store
      { s with service := s.service.withStore t, calls := s.calls.set i { c with stage } }

/-- A service without images, requests or cached thumbnails. -/
def start (router workerRouter : StorageRouter) (configs : ConfigTable) (noop : Bool) :
    State Img :=
  ⟨Service.init router workerRouter configs noop, [], fun _ => [none]⟩

/-- The name of the image's thumbnail, which no other image has. -/
def IsThumbOf (file : String) (id : Uuid) : Prop :=
  ∃ user : Uuid, file = user.toText ++ "/thumb." ++ id.toText

def cached (cache : Cache Thumb) (publicKey : String) : Option Thumb :=
  if cache.noop then none else cache.entries (cacheKey publicKey)

/-- It is the thumbnail of the last image that held the key. -/
def OfLast (history : History String Uuid) (publicKey file : String) : Prop :=
  ∃ id, lastHeld history publicKey = some id ∧ IsThumbOf file id

/-- Every request is answered the thumbnail of an image that held the key since the request came
in, and so will be those that read the cache from now on. -/
structure Proper (s : State Img) : Prop where
  answered : ∀ c ∈ s.calls, ∀ a, c.stage = .done (.ok a) →
    ∃ id, Since s.history c.publicKey c.began id ∧ IsThumbOf a.file id
  cached : ∀ publicKey t, cached s.service.cache publicKey = some t →
    OfLast s.history publicKey t.file

/-- An image gets a key only while no thumbnail of another is cached under it, and a thumbnail
is not stored once a later image has had the key. -/
def Timely (s : State Img) : Action → Prop
  | .service a =>
    let images := (Service.step deps worker s.service a).images
    ∀ publicKey id, holder images publicKey = some id →
      holder s.service.images publicKey ≠ some id →
      ∀ t, ThumbCache.cached s.service.cache publicKey = some t → IsThumbOf t.file id
  | .ask _ => True
  | .advance i inp =>
    ∀ c ∈ s.calls[i]?, ∀ t, c.stage = .store t → inp.setUp = true →
      s.service.cache.noop = false → OfLast s.history c.publicKey t.file

/-- The file of a thumbnail on its way to the answer. -/
def Stage.file : Stage → Option String
  | .lookup thumbKey _ | .load thumbKey _ => some thumbKey
  | .store t => some t.file
  | .resolveThumbKey | .done _ => none

/-- What holds in every run. -/
structure Tracked (s : State Img) : Prop where
  current : Current s.history (holder s.service.images)
  thumbs : ∀ r ∈ s.service.images.rows, ∀ file ∈ r.thumbnailKey, IsThumbOf file r.id
  began_lt : ∀ c ∈ s.calls, c.began < (s.history c.publicKey).length
  loading : ∀ c ∈ s.calls, ∀ file ∈ c.stage.file,
    ∃ id, Since s.history c.publicKey c.began id ∧ IsThumbOf file id

end Steps

variable {Img : Type} {deps : Upload.Deps} {worker : Worker.Deps Img}

theorem holder_eq_some {images : ImageTable} {publicKey : String} {id : Uuid} :
    holder images publicKey = some id ↔ ∃ r ∈ images.rows, r.publicKey = publicKey ∧ r.id = id := by
  unfold holder
  rw [Option.map_eq_some_iff]
  constructor
  · rintro ⟨r, hr, rfl⟩
    obtain ⟨hmem, hkey⟩ := Table.mem_of_select_head? hr
    exact ⟨r, hmem, beq_iff_eq.mp hkey, rfl⟩
  · rintro ⟨r, hr, rfl, rfl⟩
    exact ⟨r, Table.select_head?_of_unique hr (beq_self_eq_true _) fun q hq hkey =>
      ImageTable.eq_of_publicKey hq hr (beq_iff_eq.mp hkey), rfl⟩

theorem changed_eq_true {images images' : ImageTable} {publicKey : String} :
    changed images images' publicKey = true ↔ holder images publicKey ≠ holder images' publicKey :=
  bne_iff_ne

theorem changed_eq_false {images images' : ImageTable} {publicKey : String} :
    changed images images' publicKey = false ↔ holder images publicKey = holder images' publicKey :=
  bne_eq_false_iff_eq

/-! What the steps of the service do. -/

theorem isThumbOf_thumbKey (task : TaskPayload) : IsThumbOf (Worker.thumbKey task) task.imageId :=
  ⟨task.userId, rfl⟩

theorem isThumbOf_setReady {task : TaskPayload} {size : ℤ × ℤ} {thumbWritten webpWritten : Bool}
    {r : Image} (hid : r.id = task.imageId) :
    ∀ file ∈ (Worker.setReady worker task size thumbWritten webpWritten r).thumbnailKey,
      IsThumbOf file r.id := by
  intro file hfile
  cases thumbWritten with
  | false => cases hfile
  | true =>
    cases hfile
    rw [hid]
    exact isThumbOf_thumbKey task

variable (deps worker) in
/-- Only the worker names thumbnails, each after its image. -/
theorem thumbs_step {s : Service.State Thumb Img}
    (h : ∀ r ∈ s.images.rows, ∀ file ∈ r.thumbnailKey, IsThumbOf file r.id) (a : Service.Action) :
    ∀ r ∈ (Service.step deps worker s a).images.rows, ∀ file ∈ r.thumbnailKey,
      IsThumbOf file r.id := by
  cases a with
  | serving a =>
    have heffect := Service.serving_effect deps worker s.system a
    intro r hr
    change r ∈ (Serving.step deps worker s.system a).uploads.stores.images.rows at hr
    generalize (Serving.step deps worker s.system a).uploads.stores.images = images at heffect hr
    generalize (Serving.step deps worker s.system a).uploads.stores.objects = objects at heffect
    cases heffect with
    | same | wrote => exact h r hr
    | inserted hat hdb hins =>
      rcases (Table.mem_of_insert hins).mp hr with hr | rfl
      · exact h r hr
      · exact fun file hfile => nomatch hfile
    | processed hj hobjects himages =>
      rcases himages with rfl | ⟨size, thumbWritten, webpWritten, rfl⟩
      · exact h r hr
      · rcases Table.mem_update_iff.mp hr with ⟨hr, -⟩ | ⟨q, -, hid, rfl⟩
        · exact h r hr
        · exact isThumbOf_setReady (beq_iff_eq.mp hid)
    | failed hj =>
      rcases Table.mem_update_iff.mp hr with ⟨hr, -⟩ | ⟨q, hq, -, rfl⟩
      · exact h r hr
      · exact h q hq
  | deletion i inp =>
    simp only [Service.step]
    split
    · exact h
    · exact fun r hr => h r (Deletion.mem_of_advance hr)
  | delete request => exact h
  | expire key => exact h

variable (deps worker) in
/-- No step of the service caches a thumbnail. -/
theorem cached_step {s : Service.State Thumb Img} {a : Service.Action} {publicKey : String}
    {t : Thumb} (h : cached (Service.step deps worker s a).cache publicKey = some t) :
    cached s.cache publicKey = some t := by
  cases a with
  | serving a => exact h
  | delete request => exact h
  | deletion i inp =>
    simp only [Service.step] at h
    split at h
    · exact h
    · rename_i request stage _
      obtain ⟨hnoop, hentries⟩ := Deletion.cached_of_advance s.router inp request stage s.store
      unfold cached at h ⊢
      split at h
      · cases h
      · rename_i hn
        have hold : s.cache.noop = false :=
          hnoop.symm.trans (Bool.eq_false_of_not_eq_true hn)
        rw [hold, if_neg Bool.false_ne_true]
        exact hentries _ _ h
  | expire key =>
    change (if s.cache.noop then none else (s.cache.expire key).entries (cacheKey publicKey)) = _
      at h
    rw [Cache.entries_expire] at h
    unfold cached
    split at h
    · cases h
    · rename_i hn
      rw [if_neg hn]
      split at h
      · cases h
      · exact h

variable (deps worker) in
/-- Only uploads give a key to an image; they leave the cache as it is. -/
theorem cache_of_taken {s : Service.State Thumb Img} {a : Service.Action} {publicKey : String}
    {id : Uuid} (hnew : holder (Service.step deps worker s a).images publicKey = some id)
    (hold : holder s.images publicKey ≠ some id) :
    (Service.step deps worker s a).cache = s.cache := by
  have hgone : ∀ images : ImageTable, (∀ r ∈ images.rows, r ∈ s.images.rows) →
      holder images publicKey = some id → False := by
    intro images hsub hid
    obtain ⟨r, hr, hkey, hrid⟩ := holder_eq_some.mp hid
    exact hold (holder_eq_some.mpr ⟨r, hsub r hr, hkey, hrid⟩)
  cases a with
  | serving a => rfl
  | delete request => rfl
  | deletion i inp =>
    refine absurd hnew fun hid => hgone _ ?_ hid
    simp only [Service.step]
    split
    · exact fun r hr => hr
    · exact fun r hr => Deletion.mem_of_advance hr
  | expire key => exact absurd hnew hold

/-! The calls of a request. -/

/-- What a call of `public_get_thumb_by_key` does. -/
inductive GetStep (deps : Upload.Deps) (inp : Input) (publicKey : String) (s : ImageStore Thumb) :
    Stage → Stage × ImageStore Thumb → Prop
  | resolved {r file} (hr : r ∈ s.images.rows) (hkey : r.publicKey = publicKey)
      (hfile : r.thumbnailKey = some file) :
      GetStep deps inp publicKey s .resolveThumbKey (.lookup file r.storageBackend, s)
  | hit {file storageBackend t} (h : cached s.cache publicKey = some t) :
      GetStep deps inp publicKey s (.lookup file storageBackend) (respond deps t, s)
  | miss {file storageBackend} :
      GetStep deps inp publicKey s (.lookup file storageBackend) (.load file storageBackend, s)
  | loaded {file storageBackend bytes} :
      GetStep deps inp publicKey s (.load file storageBackend) (.store ⟨bytes, file⟩, s)
  | stored {t} :
      GetStep deps inp publicKey s (.store t) (respond deps t,
        { s with cache := (s.cache.setEx inp.setUp (cacheKey publicKey) t).2 })
  | refused {stage e} (h : ∀ t, stage ≠ .store t) :
      GetStep deps inp publicKey s stage (.done (.error e), s)
  | idle {answer} : GetStep deps inp publicKey s (.done answer) (.done answer, s)

variable (deps) in
theorem getStep (router : StorageRouter) (inp : Input) (publicKey : String) (stage : Stage)
    (s : ImageStore Thumb) :
    GetStep deps inp publicKey s stage (publicGetThumbByKey deps router inp publicKey stage s) := by
  cases stage with
  | resolveThumbKey =>
    simp only [publicGetThumbByKey, resolveThumbKeyByPublicKey]
    cases inp.dbUp with
    | false => exact .refused fun _ h => by cases h
    | true =>
      simp only [if_true]
      cases hrow : (s.images.select fun r =>
          r.publicKey == publicKey && (r.status == "active" || r.status == "ready")).head? with
      | none => exact .refused fun _ h => by cases h
      | some r =>
        obtain ⟨hr, hwhere⟩ := Table.mem_of_select_head? hrow
        have hkey : r.publicKey = publicKey :=
          beq_iff_eq.mp (Bool.and_eq_true_iff.mp hwhere).1
        dsimp only
        cases hfile : r.thumbnailKey with
        | none => exact .refused fun _ h => by cases h
        | some file => exact .resolved hr hkey hfile
  | lookup file storageBackend =>
    simp only [publicGetThumbByKey]
    split
    · rename_i t hget
      refine .hit ?_
      unfold Cache.get at hget
      unfold cached
      cases hnoop : s.cache.noop with
      | true => simp [hnoop] at hget
      | false =>
        cases hup : inp.getUp with
        | false => simp [hnoop, hup] at hget
        | true => simpa [hnoop, hup] using hget
    · exact .miss
  | load file storageBackend =>
    simp only [publicGetThumbByKey]
    split
    · exact .refused fun _ h => by cases h
    · exact .loaded
  | store t => exact .stored
  | done answer => exact .idle

theorem cacheKey_injective : Function.Injective cacheKey := by
  intro k k' h
  have hl := congrArg String.toList h
  simp only [cacheKey, String.toList_append, List.append_cancel_left_eq, String.toList_inj] at hl
  exact hl

theorem cached_setEx (cache : Cache Thumb) (up : Bool) (publicKey publicKey' : String) (t : Thumb) :
    cached (cache.setEx up (cacheKey publicKey) t).2 publicKey' =
      if cache.noop = false ∧ up = true ∧ publicKey' = publicKey then some t
      else cached cache publicKey' := by
  unfold cached
  rw [Cache.noop_setEx, Cache.entries_setEx]
  cases cache.noop with
  | true => simp
  | false => simp only [Bool.false_eq_true, if_false, true_and, cacheKey_injective.eq_iff]

/-- The state after a call of request `i`. -/
theorem step_advance {s : State Img} {i : ℕ} {c : Call} (inp : Input) (hc : s.calls[i]? = some c) :
    step deps worker s (.advance i inp) =
      let next := publicGetThumbByKey deps s.service.router inp c.publicKey c.stage s.service.store
      { s with
        service := s.service.withStore next.2
        calls := s.calls.set i { c with stage := next.1 } } := by
  simp only [step, hc]

variable (deps worker) in
theorem Tracked.service {s : State Img} (h : Tracked s) (a : Service.Action) :
    Tracked (step deps worker s (.service a)) where
  current := h.current.note fun _ hsame => (changed_eq_false.mp hsame).symm
  thumbs := thumbs_step deps worker h.thumbs a
  began_lt c hc := lt_of_prefix (prefix_note ..) (h.began_lt c hc)
  loading c hc file hfile := by
    obtain ⟨id, hsince, hthumb⟩ := h.loading c hc file hfile
    exact ⟨id, hsince.extend (prefix_note ..), hthumb⟩

theorem Tracked.ask {s : State Img} (h : Tracked s) (publicKey : String) :
    Tracked (step deps worker s (.ask publicKey)) where
  current := h.current
  thumbs := h.thumbs
  began_lt c hc := by
    rcases List.mem_append.mp hc with hc | hc
    · exact h.began_lt c hc
    · rw [List.mem_singleton.mp hc]
      exact h.current.top_lt publicKey
  loading c hc file hfile := by
    rcases List.mem_append.mp hc with hc | hc
    · exact h.loading c hc file hfile
    · rw [List.mem_singleton.mp hc] at hfile
      cases hfile

/-- A request that goes on with the thumbnail of an image that held the key. -/
theorem Tracked.restage {s : State Img} (h : Tracked s) {t : ImageStore Thumb}
    (himages : t.images = s.service.images) {i : ℕ} {c : Call} (hc : s.calls[i]? = some c)
    {stage : Stage} (hstage : ∀ file ∈ stage.file,
      ∃ id, Since s.history c.publicKey c.began id ∧ IsThumbOf file id) :
    Tracked { s with
      service := s.service.withStore t, calls := s.calls.set i { c with stage } } where
  current := by
    change Current s.history (holder t.images)
    rw [himages]
    exact h.current
  thumbs := by
    change ∀ r ∈ t.images.rows, _
    rw [himages]
    exact h.thumbs
  began_lt c' hc' := by
    rcases List.mem_or_eq_of_mem_set hc' with hc' | rfl
    · exact h.began_lt c' hc'
    · exact h.began_lt c (List.mem_of_getElem? hc)
  loading c' hc' file hfile := by
    rcases List.mem_or_eq_of_mem_set hc' with hc' | rfl
    · exact h.loading c' hc' file hfile
    · exact hstage file hfile

theorem Tracked.advance {s : State Img} (h : Tracked s) {i : ℕ} {c : Call}
    (hc : s.calls[i]? = some c) (inp : Input) :
    Tracked (step deps worker s (.advance i inp)) := by
  rw [step_advance inp hc]
  have hmem := List.mem_of_getElem? hc
  have hget := getStep deps s.service.router inp c.publicKey c.stage s.service.store
  have hloading := h.loading c hmem
  generalize hstage : c.stage = stage at hget hloading
  generalize publicGetThumbByKey deps s.service.router inp c.publicKey stage s.service.store = next
    at hget ⊢
  cases hget with
  | resolved hr hkey hfile =>
    apply h.restage rfl hc
    intro file hfile'
    cases hfile'
    have hholder := holder_eq_some.mpr ⟨_, hr, hkey, rfl⟩
    exact ⟨_, h.current.since hholder (h.began_lt c hmem), h.thumbs _ hr _ hfile⟩
  | miss => exact h.restage rfl hc hloading
  | loaded => exact h.restage rfl hc hloading
  | hit | stored | refused | idle => exact h.restage rfl hc fun file hfile => nomatch hfile

theorem Tracked.step {s : State Img} (h : Tracked s) (a : Action) :
    Tracked (step deps worker s a) := by
  cases a with
  | service a => exact h.service deps worker a
  | ask publicKey => exact h.ask publicKey
  | advance i inp =>
    cases hc : s.calls[i]? with
    | none =>
      simp only [ThumbCache.step, hc]
      exact h
    | some c => exact h.advance hc inp

/-! What is answered and cached. -/

/-- Where the last image with the key has its thumbnail cached, later requests answer it. -/
theorem since_of_ofLast {history : History String Uuid} {publicKey file : String} {n : ℕ}
    {id : Uuid} (hsince : Since history publicKey n id) (hlast : OfLast history publicKey file) :
    ∃ id', Since history publicKey n id' ∧ IsThumbOf file id' := by
  obtain ⟨id', hheld, hthumb⟩ := hlast
  exact ⟨id', hsince.lastHeld hheld, hthumb⟩

theorem IsThumbOf.unique {file : String} {id id' : Uuid} (h : IsThumbOf file id)
    (h' : IsThumbOf file id') : id = id' := by
  obtain ⟨user, rfl⟩ := h
  obtain ⟨user', heq⟩ := h'
  have hlist := congrArg String.toList heq
  simp only [String.toList_append, List.append_assoc] at hlist
  have hlen : user.toText.toList.length = user'.toText.toList.length := by
    simp only [String.length_toList, Uuid.length_toText]
  have htail := (List.append_inj hlist hlen).2
  exact Uuid.toText_injective (String.toList_injective (List.append_cancel_left htail))

theorem proper_service_iff {s : State Img} (hs : Proper s) (a : Service.Action) :
    Proper (step deps worker s (.service a)) ↔ Timely deps worker s (.service a) := by
  constructor
  · intro h publicKey id hnew hold t ht
    have hcached : cached (Service.step deps worker s.service a).cache publicKey = some t := by
      rwa [cache_of_taken deps worker hnew hold]
    obtain ⟨id', hheld, hthumb⟩ := h.cached publicKey t hcached
    have hchanged := changed_eq_true.mpr (fun heq => hold (heq.trans hnew))
    rw [show lastHeld (step deps worker s (.service a)).history publicKey = some id from
      lastHeld_note hchanged hnew] at hheld
    cases hheld
    exact hthumb
  · refine fun htimely => ⟨fun c hc b hdone => ?_, fun publicKey t ht => ?_⟩
    · obtain ⟨id, hsince, hthumb⟩ := hs.answered c hc b hdone
      exact ⟨id, hsince.extend (prefix_note ..), hthumb⟩
    · have hcached := cached_step deps worker ht
      by_cases hnew : ∃ id,
          holder (Service.step deps worker s.service a).images publicKey = some id ∧
          holder s.service.images publicKey ≠ some id
      · obtain ⟨id, hnew, hold⟩ := hnew
        have hchanged := changed_eq_true.mpr (fun heq => hold (heq.trans hnew))
        exact ⟨id, lastHeld_note hchanged hnew, htimely publicKey id hnew hold t hcached⟩
      · -- the key keeps its image or loses it
        have hsame : lastHeld (step deps worker s (.service a)).history publicKey =
            lastHeld s.history publicKey := by
          apply lastHeld_note_same
          intro hchanged
          rw [changed_eq_true] at hchanged
          cases hafter : holder (Service.step deps worker s.service a).images publicKey with
          | none => rfl
          | some id => exact absurd ⟨id, hafter, fun h => hchanged (h.trans hafter.symm)⟩ hnew
        obtain ⟨id, hheld, hthumb⟩ := hs.cached publicKey t hcached
        exact ⟨id, hsame.trans hheld, hthumb⟩

theorem proper_advance_iff {s : State Img} (h : Tracked s) (hs : Proper s) {i : ℕ} {c : Call}
    (hc : s.calls[i]? = some c) (inp : Input) :
    Proper (step deps worker s (.advance i inp)) ↔
      ∀ t, c.stage = .store t → inp.setUp = true → s.service.cache.noop = false →
        OfLast s.history c.publicKey t.file := by
  rw [step_advance inp hc]
  have hmem := List.mem_of_getElem? hc
  have hget := getStep deps s.service.router inp c.publicKey c.stage s.service.store
  have hloading := h.loading c hmem
  have hanswered := hs.answered c hmem
  generalize hstage : c.stage = stage at hget hloading hanswered
  generalize publicGetThumbByKey deps s.service.router inp c.publicKey stage s.service.store = next
    at hget ⊢
  -- a new answer aside, the requests are answered as before
  have hrest : ∀ (cache : Cache Thumb) (stage : Stage),
      (∀ a, stage = .done (.ok a) →
        ∃ id, Since s.history c.publicKey c.began id ∧ IsThumbOf a.file id) →
      (∀ publicKey t, cached cache publicKey = some t → OfLast s.history publicKey t.file) →
      Proper { s with
        service := s.service.withStore { s.service.store with cache }
        calls := s.calls.set i { c with stage } } := by
    intro cache stage hdone hcached
    refine ⟨fun c' hc' a ha => ?_, hcached⟩
    rcases List.mem_or_eq_of_mem_set hc' with hc' | rfl
    · exact hs.answered c' hc' a ha
    · exact hdone a ha
  cases hget with
  | resolved | miss | loaded =>
    exact iff_of_true (hrest s.service.cache _ (fun a ha => by cases ha) hs.cached)
      fun t ht => by cases ht
  | refused hstore =>
    exact iff_of_true (hrest s.service.cache _ (fun a ha => by cases ha) hs.cached)
      fun t ht => absurd ht (hstore t)
  | idle =>
    exact iff_of_true (hrest s.service.cache _ hanswered hs.cached) fun t ht => by cases ht
  | hit hcached =>
    obtain ⟨id, hsince, -⟩ := hloading _ rfl
    refine iff_of_true (hrest s.service.cache _ (fun a ha => ?_) hs.cached) fun t ht => by cases ht
    cases ha
    exact since_of_ofLast hsince (hs.cached c.publicKey _ hcached)
  | stored =>
    rename_i t
    have hdone : ∀ a, respond deps t = .done (.ok a) →
        ∃ id, Since s.history c.publicKey c.began id ∧ IsThumbOf a.file id := by
      intro a ha
      cases ha
      exact hloading t.file rfl
    have hstored := cached_setEx s.service.cache inp.setUp c.publicKey
    constructor
    · intro hproper t' ht hup hnoop
      cases ht
      exact hproper.cached c.publicKey t
        ((hstored c.publicKey t).trans (if_pos ⟨hnoop, hup, rfl⟩))
    · refine fun hlast => hrest _ _ hdone fun publicKey t' ht => ?_
      have hstore := (hstored publicKey t).symm.trans ht
      split at hstore
      · rename_i hall
        obtain ⟨hnoop, hup, rfl⟩ := hall
        cases hstore
        exact hlast t rfl hup hnoop
      · exact hs.cached publicKey t' hstore

theorem proper_step_iff {s : State Img} (h : Tracked s) (hs : Proper s) (a : Action) :
    Proper (step deps worker s a) ↔ Timely deps worker s a := by
  cases a with
  | service a => exact proper_service_iff hs a
  | ask publicKey =>
    refine iff_of_true ⟨fun c hc a ha => ?_, hs.cached⟩ trivial
    rcases List.mem_append.mp hc with hc | hc
    · exact hs.answered c hc a ha
    · rw [List.mem_singleton.mp hc] at ha
      cases ha
  | advance i inp =>
    cases hc : s.calls[i]? with
    | none =>
      have hstep : step deps worker s (.advance i inp) = s := by simp only [step, hc]
      rw [hstep]
      apply iff_of_true hs
      intro c hc'
      rw [hc] at hc'
      cases hc'
    | some c =>
      rw [proper_advance_iff h hs hc inp]
      simp only [Timely, hc, Option.mem_def, Option.some.injEq, forall_eq']

theorem tracked_start (router workerRouter : StorageRouter) (configs : ConfigTable)
    (noop : Bool) : Tracked (start router workerRouter configs noop : State Img) where
  current _ := rfl
  thumbs _ hr := absurd hr List.not_mem_nil
  began_lt _ hc := absurd hc List.not_mem_nil
  loading _ hc := absurd hc List.not_mem_nil

theorem proper_start (router workerRouter : StorageRouter) (configs : ConfigTable)
    (noop : Bool) : Proper (start router workerRouter configs noop : State Img) where
  answered _ hc := absurd hc List.not_mem_nil
  cached publicKey t ht := by cases noop <;> cases ht

variable (deps worker) in
/-- The thumbnails answered and cached for a public key are those of the image that holds it,
exactly in the runs in which no image gets a key while another's thumbnail is cached under it
and none is stored after a later image has had the key. -/
theorem thumb_of_holder_iff (router workerRouter : StorageRouter) (configs : ConfigTable)
    (noop : Bool) (as : List Action) :
    let s : State Img := start router workerRouter configs noop
    AllStates (step deps worker) Proper s as ↔
      AllSteps (step deps worker) (Timely deps worker) s as :=
  allStates_iff_allSteps (J := Tracked) (P := Proper) (fun _ a h => h.step a)
    (fun _ a h hs => proper_step_iff h hs a) (tracked_start router workerRouter configs noop)
    (proper_start router workerRouter configs noop) as

section ReusedKey

open Upload

/-- The variants of a file are its bytes. -/
def plainWorker : Worker.Deps Bytes where
  decode bytes := .ok (bytes, .png)
  dimensions _ := (1, 1)
  hasAlpha _ := false
  applyWatermark _ img := .ok img
  encodeThumbnail img _ := .ok img
  encodeWebp img := img
  git := smallDeps.git
  publicUrl := "http://pics"

/-- A file is uploaded under the key drawn as 1 and processed. -/
def publish (i : ℕ) (id : Uuid) (bytes : Bytes) : List Action :=
  let steps : List Serving.Action :=
    [.submit { demoCtx with bytes := pngSignature ++ bytes }] ++
      List.replicate 8 (.advance i 0 (smoothInput id 1)) ++ [.dequeue true] ++
      List.replicate 6 (.process 0 Serving.workerInput) ++ [.finish 0 true]
  steps.map fun a => .service (.serving a)

def askFor (i calls : ℕ) : List Action :=
  .ask (publicKeyOf 1) :: List.replicate calls (.advance i ⟨true, true, none, true⟩)

/-- The thumbnail is asked for, the image is deleted, another draws its key and is asked for. -/
def reusedKeyRun : List Action :=
  publish 0 1 [1] ++ askFor 0 4 ++ [.service (.delete (.deleteImage demoCtx.user 1))] ++
    List.replicate 6 (.service (.deletion 0 ⟨true, none, true⟩)) ++
    publish 1 2 [2] ++ askFor 1 2

def reusedKey : State Bytes :=
  reusedKeyRun.foldl (step smallDeps plainWorker)
    (start emptyStores.router emptyStores.router .empty false)

def Call.answer (c : Call) : Option Answer :=
  match c.stage with
  | .done (.ok a) => some a
  | _ => none

theorem done_of_answer {c : Call} {a : Answer} (h : c.answer = some a) :
    c.stage = .done (.ok a) := by
  unfold Call.answer at h
  split at h
  · rename_i hstage
    cases h
    exact hstage
  · cases h

/-- The thumbnail of the deleted image is answered under the key of the other. -/
theorem thumb_of_another_image :
    ¬ AllStates (step smallDeps plainWorker)
      (fun s => ∀ c ∈ s.calls, ∀ a, c.stage = .done (.ok a) →
        ∃ id, Since s.history c.publicKey c.began id ∧ IsThumbOf a.file id)
      (start emptyStores.router emptyStores.router .empty false) reusedKeyRun := by
  intro h
  have hlast : ∀ c ∈ reusedKey.calls, ∀ a, c.stage = .done (.ok a) →
      ∃ id, Since reusedKey.history c.publicKey c.began id ∧ IsThumbOf a.file id := h.last
  have hanswer : ∃ c ∈ reusedKey.calls, c.publicKey = publicKeyOf 1 ∧ c.began = 3 ∧
      c.answer = some ⟨⟨pngSignature ++ [1], (7 : Uuid).toText ++ "/thumb." ++ (1 : Uuid).toText⟩,
        "image/png"⟩ := by
    decide +kernel
  have hhistory : (reusedKey.history (publicKeyOf 1)).drop 3 = [some 2] := by decide +kernel
  obtain ⟨c, hc, hkey, hbegan, hanswer⟩ := hanswer
  obtain ⟨id, hsince, hthumb⟩ := hlast c hc _ (done_of_answer hanswer)
  rw [Since, hkey, hbegan, hhistory, List.mem_singleton, Option.some.injEq] at hsince
  have hfirst : id = 1 := hthumb.unique ⟨7, rfl⟩
  rw [hsince] at hfirst
  exact absurd hfirst (by decide)

end ReusedKey

end PicHost.ThumbCache
