import PicHost.Api.MetaCache
import PicHost.Lib.Run

/-!
# Coherence of the metadata cache

A value that `get_image` answers should be at least as recent as every change that a request
has made and returned from before the `get_image` came in. It is exactly as long as no older
value is stored, and none is left in the cache by a request that returns.
-/

namespace PicHost.MetaCache

open KeyedTable LabelledRun Serialised Freshness

variable {J Img : Type}

/-- `began` is the position from which on its answer may be, `wrote` that of its own changes. -/
structure Call (Img : Type) where
  request : Request
  stage : Stage Img
  began : Uuid → ℕ
  wrote : Uuid → ℕ

/-- The values every image has had, and the position of the last change from which a request
has returned. -/
structure State (J Img : Type) where
  stores : Stores J
  calls : List (Call Img)
  history : History Uuid UploadResult
  floor : Uuid → ℕ

inductive Action
  | submit (request : Request)
  | advance (i : ℕ) (inp : Input)
  | expire (key : String)

def rowOf (images : ImageTable) (id : Uuid) : Option Image :=
  (images.select fun r => r.id == id).head?

/-- What `get_image` would select. -/
def valueOf (s : Stores J) (id : Uuid) : Option UploadResult :=
  (rowOf s.images id).map fun r => UploadResult.fromRow (r.joinConfig s.configs)

def changed (s s' : Stores J) (id : Uuid) : Bool := rowOf s.images id != rowOf s'.images id

def Stage.returned : Stage Img → Bool
  | .image (.done _) | .done _ | .processed => true
  | _ => false

/-- Where a request has changed an image last, once it has taken a step from `s` to `s'`. -/
def wroteAfter (c : Call Img) (s s' : Stores J) (history : History Uuid UploadResult)
    (id : Uuid) : ℕ :=
  if changed s s' id then top history id else c.wrote id

section Steps

variable (json : Codec UploadResult J) (router : StorageRouter) (deps : Worker.Deps Img)

/-- A call, and what it changes noted in the history; a request that returns raises the floor. -/
def advance (inp : Input) (i : ℕ) (c : Call Img) (s : State J Img) : State J Img :=
  let (stage, stores) := serve json router deps inp c.request c.stage s.stores
  let history := note s.history (changed s.stores stores) (valueOf stores)
  let wrote := wroteAfter c s.stores stores history
  { stores
    calls := s.calls.set i { c with stage, wrote }
    history
    floor := if stage.returned then raise s.floor wrote else s.floor }

def step (s : State J Img) : Action → State J Img
  | .submit request => { s with calls := s.calls ++ [⟨request, .start, s.floor, fun _ => 0⟩] }
  | .advance i inp =>
    match s.calls[i]? with
    | none => s
    | some c => advance json router deps inp i c s
  | .expire key => { s with stores := { s.stores with cache := s.stores.cache.expire key } }

/-- No requests yet and an empty cache. -/
def start (images : ImageTable) (configs : ConfigTable) (categories : PartialUpdates.Categories)
    (objects : Objects) (noop : Bool) (workerRouter : StorageRouter) : State J Img :=
  let stores : Stores J :=
    ⟨images, configs, categories, objects, ⟨noop, fun _ => none⟩, workerRouter⟩
  ⟨stores, [], fun id => [valueOf stores id], fun _ => 0⟩

/-- What a `get_image` answers that nothing interleaves with. -/
def ask (inp : Input) (user : AuthUser) (id : Uuid) (s : Stores J) : Option UploadResult :=
  let (stage, t) := ImageCache.getImage json inp.api user id .start s.imageState
  let (stage, t) := ImageCache.getImage json inp.api user id stage t
  let (stage, _) := ImageCache.getImage json inp.api user id stage t
  match stage with
  | .done (.ok (.image v)) => some v
  | _ => none

/-- Every `get_image` that has been answered, and every one that would come in now, yields a
value that the image had after the changes returned from before it came in. -/
structure Coherent (s : State J Img) : Prop where
  answered : ∀ c ∈ s.calls, ∀ user id v, c.request = .image user (.getImage id) →
    c.stage = .image (.done (.ok (.image v))) → Since s.history id (c.began id) v
  asked : ∀ inp user id v, ask json inp user id s.stores = some v →
    Since s.history id (s.floor id) v

/-- The value cached for an image. -/
def cached (cache : Cache J) (id : Uuid) : Option UploadResult :=
  if cache.noop then none else (cache.entries (Cache.metaKey id)).bind json.decode

/-- The call deletes the cached value of the image. -/
def evicts (inp : Input) (request : Request) (stage : Stage Img) (id : Uuid) : Bool :=
  inp.api.delUp &&
    match request, stage with
    | .image _ (.renameImage id' _), .image (.evict _) => id' == id
    | .image _ (.moveImage id' _), .image (.evict _) => id' == id
    | .image _ (.deleteImage id'), .image (.evict _) => id' == id
    | .batchMove _ _ _, .evict (id' :: _) _ => id' == id
    | .batchDelete _ _, .evict (id' :: _) _ => id' == id
    | _, _ => false

/-- What a `get_image` stores is not older than the changes returned from. -/
def StoresRecent (inp : Input) (c : Call Img) (s : State J Img) : Prop :=
  ∀ user id v, c.request = .image user (.getImage id) → c.stage = .image (.store v) →
    inp.api.setUp = true → s.stores.cache.noop = false → Since s.history id (s.floor id) v

/-- A request that returns leaves nothing in the cache that is older than its changes. -/
def LeavesRecent (inp : Input) (c : Call Img) (s : State J Img) : Prop :=
  let next := serve json router deps inp c.request c.stage s.stores
  let history := note s.history (changed s.stores next.2) (valueOf next.2)
  next.1.returned = true → ∀ id v, cached json s.stores.cache id = some v →
    evicts inp c.request c.stage id = false →
    Since history id (raise s.floor (wroteAfter c s.stores next.2 history) id) v

def Timely (s : State J Img) : Action → Prop
  | .advance i inp =>
    ∀ c ∈ s.calls[i]?, StoresRecent inp c s ∧ LeavesRecent json router deps inp c s
  | _ => True

/-- What holds in every run. -/
structure Tracked (s : State J Img) : Prop where
  current : Current s.history (valueOf s.stores)
  floor_lt : ∀ id, s.floor id < (s.history id).length
  wrote_lt : ∀ c ∈ s.calls, ∀ id, c.wrote id < (s.history id).length
  began_le : ∀ c ∈ s.calls, ∀ id, c.began id ≤ s.floor id
  wrote_get : ∀ c ∈ s.calls, ∀ user id, c.request = .image user (.getImage id) →
    c.wrote = fun _ => 0
  loaded : ∀ c ∈ s.calls, ∀ user id v, c.request = .image user (.getImage id) →
    c.stage = .image (.store v) → Since s.history id (c.began id) v

end Steps

variable {json : Codec UploadResult J} {router : StorageRouter} {deps : Worker.Deps Img}

/-! Calls of `get_image`. -/

theorem cached_of_cachedValue {env : ImageCache.Env} {id : Uuid} {s : ImageCache.State J}
    {v : UploadResult} (h : ImageCache.cachedValue json env id s = some v) :
    cached json s.cache id = some v := by
  unfold ImageCache.cachedValue Cache.get at h
  unfold cached
  cases hnoop : s.cache.noop with
  | true => simp [hnoop] at h
  | false =>
    cases hup : env.getUp with
    | false => simp [hnoop, hup] at h
    | true =>
      cases hentry : s.cache.entries (Cache.metaKey id) with
      | none => simp [hnoop, hup, hentry] at h
      | some text => simpa [hnoop, hup, hentry] using h

theorem cachedValue_of_cached {env : ImageCache.Env} {id : Uuid} {s : ImageCache.State J}
    {v : UploadResult} (hup : env.getUp = true) (h : cached json s.cache id = some v) :
    ImageCache.cachedValue json env id s = some v := by
  unfold cached at h
  unfold ImageCache.cachedValue Cache.get
  cases hnoop : s.cache.noop with
  | true => simp [hnoop] at h
  | false =>
    cases hentry : s.cache.entries (Cache.metaKey id) with
    | none => simp [hnoop, hentry] at h
    | some text => simpa [hnoop, hup, hentry] using h

/-- The row that a `get_image` loads is the row of the image. -/
theorem valueOf_of_fetchOwnRow {id userId : Uuid} {s : Stores J} {v : UploadResult}
    (h : ImageCache.fetchOwnRow id userId s.imageState = some v) : valueOf s id = some v := by
  obtain ⟨r, hr, rfl⟩ := Option.map_eq_some_iff.mp h
  obtain ⟨hmem, hown⟩ := Table.mem_of_select_head? hr
  rw [ImageCache.ownWhere, Bool.and_eq_true, beq_iff_eq] at hown
  have hrow : rowOf s.images id = some r :=
    Table.select_head?_of_unique hmem (beq_iff_eq.mpr hown.1) fun q hq hqid =>
      ImageTable.eq_of_id hq hmem ((beq_iff_eq.mp hqid).trans hown.1.symm)
  simp only [valueOf, hrow, Option.map_some]
  rfl

/-- What a call of `get_image` does. -/
inductive GetStep (json : Codec UploadResult J) (inp : Input) (id : Uuid) (s : Stores J) :
    Stage Img → Stage Img × Stores J → Prop
  | hit {stage v} (h : cached json s.cache id = some v) :
    GetStep json inp id s stage (.image (.done (.ok (.image v))), s)
  | miss {stage} : GetStep json inp id s stage (.image .load, s)
  | load {stage v} (h : valueOf s id = some v) : GetStep json inp id s stage (.image (.store v), s)
  | fail {stage e} : GetStep json inp id s stage (.image (.done (.error e)), s)
  | store {v} : GetStep json inp id s (.image (.store v)) (.image (.done (.ok (.image v))),
      { s with cache := (s.cache.setEx inp.api.setUp (Cache.metaKey id) (json.encode v)).2 })
  | idle {stage} : GetStep json inp id s stage (stage, s)

variable (router) in
theorem getStep_start (inp : Input) (user : AuthUser) (id : Uuid) (stage : Stage Img)
    (s : Stores J) :
    GetStep json inp id s stage (image json router inp user (.getImage id) .start s) := by
  unfold image ImageCache.serve ImageCache.getImage
  dsimp only
  cases hhit : ImageCache.cachedValue json inp.api id s.imageState with
  | none => exact .miss
  | some v => exact .hit (cached_of_cachedValue hhit)

variable (json router deps) in
theorem getStep (inp : Input) (user : AuthUser) (id : Uuid) (stage : Stage Img) (s : Stores J) :
    GetStep json inp id s stage
      (serve json router deps inp (.image user (.getImage id)) stage s) := by
  cases stage with
  | start => exact getStep_start router inp user id _ s
  | image stage =>
    cases stage with
    | start => exact getStep_start router inp user id _ s
    | load =>
      simp only [serve, image, ImageCache.serve, ImageCache.getImage]
      cases inp.api.dbFault with
      | some text => exact .fail
      | none =>
        cases hrow : ImageCache.fetchOwnRow id user.id s.imageState with
        | none => exact .fail
        | some v => exact .load (valueOf_of_fetchOwnRow hrow)
    | store v => exact .store
    | update | refetch | remove | evict | done => exact .idle
  | update | remove | evict | work | done | processed => exact .idle

/-! The cached values after a call that is not of `get_image`. -/

theorem cached_del (cache : Cache J) (up : Bool) (id id' : Uuid) :
    cached json (cache.del up (Cache.metaKey id')).2 id =
      if up && id' == id then none else cached json cache id := by
  unfold cached
  rw [Cache.noop_del, Cache.entries_del]
  cases cache.noop with
  | true => simp
  | false =>
    cases up with
    | false => simp
    | true =>
      by_cases hid : id' = id
      · subst hid
        simp
      · have hkey : Cache.metaKey id ≠ Cache.metaKey id' := fun h =>
          hid (Cache.metaKey_injective h).symm
        simp [hid, hkey]

theorem cached_setEx (cache : Cache J) (up : Bool) (id id' : Uuid) (v : UploadResult) :
    cached json (cache.setEx up (Cache.metaKey id') (json.encode v)).2 id =
      if cache.noop = false ∧ up = true ∧ id = id' then some v else cached json cache id := by
  unfold cached
  rw [Cache.noop_setEx, Cache.entries_setEx]
  cases cache.noop with
  | true => simp
  | false =>
    cases up with
    | false => simp
    | true =>
      by_cases hid : id = id'
      · subst hid
        simp
      · have hkey : Cache.metaKey id ≠ Cache.metaKey id' := fun h =>
          hid (Cache.metaKey_injective h)
        simp [hid, hkey]

theorem cached_expire (cache : Cache J) (key : String) (id : Uuid) (v : UploadResult)
    (h : cached json (cache.expire key) id = some v) : cached json cache id = some v := by
  unfold cached at *
  rw [Cache.entries_expire] at h
  have hnoop : (cache.expire key).noop = cache.noop := rfl
  rw [hnoop] at h
  cases hn : cache.noop with
  | true => simp [hn] at h
  | false =>
    by_cases hkey : Cache.metaKey id = key
    · simp [hn, hkey] at h
    · simpa [hn, hkey] using h

/-- The cached values after a call that may delete some. -/
def Evicted (json : Codec UploadResult J) (evicts : Uuid → Bool) (cache cache' : Cache J) : Prop :=
  ∀ id, cached json cache' id = if evicts id then none else cached json cache id

theorem evicted_none {evicts : Uuid → Bool} {cache cache' : Cache J} (hcache : cache' = cache)
    (h : ∀ id, evicts id = false) : Evicted json evicts cache cache' := by
  intro id
  rw [h id, if_neg Bool.false_ne_true, hcache]

/-- A request for one image that is not `get_image`. -/
theorem evicted_image (inp : Input) (user : AuthUser) {request : ImageCache.Request}
    (hget : request.isGet = false) (stage : ImageCache.Stage) (s : Stores J) :
    Evicted json (evicts inp (.image user request) (.image stage : Stage Img)) s.cache
      (image json router inp user request stage s : Stage Img × Stores J).2.cache := by
  cases request with
  | getImage => cases hget
  | renameImage id' name =>
    cases stage with
    | evict reply => exact fun id => cached_del s.cache inp.api.delUp id id'
    | _ =>
      refine evicted_none ?_ fun _ => Bool.and_false _
      simp only [image, ImageCache.serve, ImageCache.renameImage]
      repeat' split
      all_goals rfl
  | moveImage id' categoryId =>
    cases stage with
    | evict reply => exact fun id => cached_del s.cache inp.api.delUp id id'
    | _ =>
      refine evicted_none ?_ fun _ => Bool.and_false _
      simp only [image, ImageCache.serve, ImageCache.moveImage]
      repeat' split
      all_goals rfl
  | deleteImage id' =>
    cases stage with
    | evict reply => exact fun id => cached_del s.cache inp.api.delUp id id'
    | _ =>
      refine evicted_none ?_ fun _ => Bool.and_false _
      simp only [image, ImageCache.serve, ImageCache.deleteImage]
      repeat' split
      all_goals rfl

theorem cache_evictNext (inp : Input) (id : Uuid) (rest : List Uuid) (reply : Reply)
    (s : Stores J) :
    (evictNext inp (id :: rest) reply s : Stage Img × Stores J).2.cache =
      (s.cache.del inp.api.delUp (Cache.metaKey id)).2 := by
  unfold evictNext
  dsimp only
  split <;> rfl

/-- The DEL for the next image of a batch. -/
theorem evicted_evictNext (inp : Input) (ids : List Uuid) (reply : Reply) (s : Stores J) :
    Evicted json (fun id => inp.api.delUp && (ids.head?.any fun id' => id' == id)) s.cache
      (evictNext inp ids reply s : Stage Img × Stores J).2.cache := by
  cases ids with
  | nil => exact evicted_none rfl fun _ => Bool.and_false _
  | cons id' rest =>
    intro id
    rw [cache_evictNext]
    exact cached_del s.cache inp.api.delUp id id'

variable (json router deps) in
/-- Whatever is not a `get_image` leaves the cached values or deletes some. -/
theorem evicted_serve (inp : Input) {request : Request}
    (hget : ∀ user id, request ≠ .image user (.getImage id)) (stage : Stage Img) (s : Stores J) :
    Evicted json (evicts inp request stage) s.cache
      (serve json router deps inp request stage s).2.cache := by
  cases request with
  | image user request =>
    have hother : request.isGet = false := by
      cases request with
      | getImage id => exact absurd rfl (hget user id)
      | _ => rfl
    -- only the stage `evict` deletes anything, under the identifier of the request
    cases stage with
    | image stage => exact evicted_image inp user hother stage s
    | start =>
      intro id
      rw [show evicts inp (.image user request) (.start : Stage Img) id =
        evicts inp (.image user request) (.image .start : Stage Img) id by cases request <;> rfl]
      exact evicted_image inp user hother .start s id
    | _ =>
      apply evicted_none rfl
      intro _
      cases request <;> exact Bool.and_false _
  | batchMove user imageIds categoryId =>
    cases stage with
    | evict ids reply => cases ids <;> exact evicted_evictNext inp _ reply s
    | _ =>
      refine evicted_none ?_ fun _ => Bool.and_false _
      simp only [serve, batchMove]
      repeat' split
      all_goals rfl
  | batchDelete user ids =>
    cases stage with
    | evict ids' reply => cases ids' <;> exact evicted_evictNext inp _ reply s
    | _ =>
      refine evicted_none ?_ fun _ => Bool.and_false _
      simp only [serve, batchDelete]
      repeat' split
      all_goals rfl
  | deleteCategory user id' =>
    refine evicted_none ?_ fun _ => Bool.and_false _
    simp only [serve, deleteCategory]
    repeat' split
    all_goals rfl
  | processTask task =>
    refine evicted_none ?_ fun _ => Bool.and_false _
    simp only [serve, processTask]
    repeat' split
    all_goals rfl
  | handleDeadLetter task =>
    refine evicted_none ?_ fun _ => Bool.and_false _
    simp only [serve, handleDeadLetter]
    repeat' split
    all_goals rfl

/-! What holds in every run. -/

theorem configs_evictNext (inp : Input) (ids : List Uuid) (reply : Reply) (s : Stores J) :
    (evictNext inp ids reply s : Stage Img × Stores J).2.configs = s.configs := by
  unfold evictNext
  split
  · rfl
  · dsimp only
    split <;> rfl

theorem configs_serve (inp : Input) (request : Request) (stage : Stage Img) (s : Stores J) :
    (serve json router deps inp request stage s).2.configs = s.configs := by
  cases request with
  | image user request =>
    simp only [serve]
    split <;> rfl
  | batchMove user imageIds categoryId =>
    cases stage with
    | evict ids reply => exact configs_evictNext inp ids reply s
    | _ =>
      simp only [serve, batchMove]
      repeat' split
      all_goals rfl
  | batchDelete user ids =>
    cases stage with
    | evict ids' reply => exact configs_evictNext inp ids' reply s
    | _ =>
      simp only [serve, batchDelete]
      repeat' split
      all_goals rfl
  | deleteCategory user id =>
    simp only [serve, deleteCategory]
    repeat' split
    all_goals rfl
  | processTask task =>
    simp only [serve, processTask]
    repeat' split
    all_goals rfl
  | handleDeadLetter task =>
    simp only [serve, handleDeadLetter]
    repeat' split
    all_goals rfl

theorem valueOf_of_unchanged {s s' : Stores J} (hconfigs : s'.configs = s.configs) {id : Uuid}
    (h : changed s s' id = false) : valueOf s' id = valueOf s id := by
  have hrow : rowOf s.images id = rowOf s'.images id := by
    simpa only [changed, bne_eq_false_iff_eq] using h
  unfold valueOf
  rw [hconfigs, hrow]

theorem changed_of_images {s s' : Stores J} (h : s'.images = s.images) (id : Uuid) :
    changed s s' id = false := by
  unfold changed
  rw [h, bne_self_eq_false]

theorem images_of_getStep {inp : Input} {id : Uuid} {s : Stores J} {stage : Stage Img}
    {next : Stage Img × Stores J} (h : GetStep json inp id s stage next) :
    next.2.images = s.images := by
  cases h <;> rfl

theorem loaded_of_getStep {inp : Input} {id : Uuid} {s : Stores J} {stage : Stage Img}
    {next : Stage Img × Stores J} {v : UploadResult} (h : GetStep json inp id s stage next)
    (hnext : next.1 = .image (.store v)) : valueOf s id = some v ∨ stage = .image (.store v) := by
  cases h with
  | load hrow =>
    cases hnext
    exact .inl hrow
  | idle => exact .inr hnext
  | hit | miss | fail | store => cases hnext

theorem answered_of_getStep {inp : Input} {id : Uuid} {s : Stores J} {stage : Stage Img}
    {next : Stage Img × Stores J} {v : UploadResult} (h : GetStep json inp id s stage next)
    (hnext : next.1 = .image (.done (.ok (.image v)))) :
    cached json s.cache id = some v ∨ stage = .image (.store v) ∨ stage = next.1 := by
  cases h with
  | hit hcached =>
    cases hnext
    exact .inl hcached
  | store =>
    cases hnext
    exact .inr (.inl rfl)
  | idle => exact .inr (.inr rfl)
  | miss | load | fail => cases hnext

theorem cache_of_getStep {inp : Input} {id : Uuid} {s : Stores J} {stage : Stage Img}
    {next : Stage Img × Stores J} (h : GetStep json inp id s stage next)
    (hstage : ∀ v, stage ≠ .image (.store v)) : next.2.cache = s.cache := by
  cases h with
  | store => exact absurd rfl (hstage _)
  | hit | miss | load | fail | idle => rfl

variable (json router deps) in
theorem Tracked.current_advance {s : State J Img} (h : Tracked s) (inp : Input) (i : ℕ)
    (c : Call Img) : Current (advance json router deps inp i c s).history
      (valueOf (advance json router deps inp i c s).stores) :=
  h.current.note fun _ hsame => valueOf_of_unchanged (configs_serve ..) hsame

variable (json router deps) in
theorem prefix_advance (s : State J Img) (inp : Input) (i : ℕ) (c : Call Img) (id : Uuid) :
    s.history id <+: (advance json router deps inp i c s).history id :=
  prefix_note ..

theorem mem_advance {s : State J Img} {inp : Input} {i : ℕ} {c c' : Call Img}
    (h : c' ∈ (advance json router deps inp i c s).calls) :
    c' ∈ s.calls ∨ c' = { c with
      stage := (serve json router deps inp c.request c.stage s.stores).1
      wrote := wroteAfter c s.stores (serve json router deps inp c.request c.stage s.stores).2
        (advance json router deps inp i c s).history } :=
  List.mem_or_eq_of_mem_set h

theorem le_floor_advance (s : State J Img) (inp : Input) (i : ℕ) (c : Call Img) (id : Uuid) :
    s.floor id ≤ (advance json router deps inp i c s).floor id := by
  unfold advance
  dsimp only
  split
  · exact Nat.le_max_left ..
  · exact Nat.le_refl _

theorem Tracked.advance {s : State J Img} (h : Tracked s) {i : ℕ} {c : Call Img}
    (hc : s.calls[i]? = some c) (inp : Input) : Tracked (advance json router deps inp i c s) := by
  have hmem : c ∈ s.calls := List.mem_of_getElem? hc
  have hcurrent := h.current_advance json router deps inp i c
  have hseen := prefix_advance json router deps s inp i c
  have hwrote : ∀ id, wroteAfter c s.stores
      (serve json router deps inp c.request c.stage s.stores).2
      (MetaCache.advance json router deps inp i c s).history id <
        ((MetaCache.advance json router deps inp i c s).history id).length := by
    intro id
    unfold wroteAfter
    split
    · exact hcurrent.top_lt id
    · exact lt_of_prefix (hseen id) (h.wrote_lt c hmem id)
  refine ⟨hcurrent, fun id => ?_, fun c' hc' id => ?_, fun c' hc' id => ?_,
    fun c' hc' user id hget => ?_, fun c' hc' user id v hget hstore => ?_⟩
  · have hfloor := lt_of_prefix (hseen id) (h.floor_lt id)
    unfold MetaCache.advance at hfloor ⊢
    dsimp only
    split
    · exact Nat.max_lt.mpr ⟨hfloor, hwrote id⟩
    · exact hfloor
  · rcases mem_advance hc' with hold | rfl
    · exact lt_of_prefix (hseen id) (h.wrote_lt c' hold id)
    · exact hwrote id
  · have hbegan : c'.began id ≤ s.floor id := by
      rcases mem_advance hc' with hold | rfl
      · exact h.began_le c' hold id
      · exact h.began_le c hmem id
    exact hbegan.trans (le_floor_advance s inp i c id)
  · rcases mem_advance hc' with hold | rfl
    · exact h.wrote_get c' hold user id hget
    · have himages := images_of_getStep
        (getStep json router deps inp user id c.stage s.stores)
      funext id'
      have hrequest : c.request = .image user (.getImage id) := hget
      show wroteAfter _ _ _ _ id' = 0
      rw [wroteAfter, hrequest, changed_of_images himages, if_neg Bool.false_ne_true,
        h.wrote_get c hmem user id hrequest]
  · rcases mem_advance hc' with hold | rfl
    · exact (h.loaded c' hold user id v hget hstore).extend (hseen id)
    · have hrequest : c.request = .image user (.getImage id) := hget
      have hstep := getStep json router deps inp user id c.stage
        s.stores
      rw [← hrequest] at hstep
      have hlt : c.began id < (s.history id).length :=
        Nat.lt_of_le_of_lt (h.began_le c hmem id) (h.floor_lt id)
      have hsince : Since s.history id (c.began id) v := by
        rcases loaded_of_getStep hstep hstore with hrow | hstage
        · exact h.current.since hrow hlt
        · exact h.loaded c hmem user id v hrequest hstage
      exact hsince.extend (hseen id)

theorem Tracked.step {s : State J Img} (h : Tracked s) (a : Action) :
    Tracked (step json router deps s a) := by
  cases a with
  | submit request =>
    refine ⟨h.current, h.floor_lt, fun c hc id => ?_, fun c hc id => ?_,
      fun c hc user id hget => ?_, fun c hc user id v hget hstore => ?_⟩
    all_goals rcases List.mem_append.mp hc with hc | hc
    · exact h.wrote_lt c hc id
    · rw [List.mem_singleton.mp hc]
      exact h.current.length_pos id
    · exact h.began_le c hc id
    · rw [List.mem_singleton.mp hc]
      exact Nat.le_refl _
    · exact h.wrote_get c hc user id hget
    · rw [List.mem_singleton.mp hc]
    · exact h.loaded c hc user id v hget hstore
    · rw [List.mem_singleton.mp hc] at hstore
      cases hstore
  | advance i inp =>
    unfold MetaCache.step
    dsimp only
    split
    · exact h
    · exact h.advance ‹_› inp
  | expire key =>
    exact ⟨h.current, h.floor_lt, h.wrote_lt, h.began_le, h.wrote_get, h.loaded⟩

/-! Asking. -/

theorem ask_of_cached (user : AuthUser) {id : Uuid} {s : Stores J} {v : UploadResult}
    (h : cached json s.cache id = some v) :
    ask json ⟨⟨none, true, true, true, fun _ => none⟩, ⟨none, none, none, ""⟩⟩ user id s =
      some v := by
  have hhit : ImageCache.cachedValue json ⟨none, true, true, true, fun _ => none⟩ id s.imageState =
      some v := cachedValue_of_cached rfl h
  simp only [ask, ImageCache.getImage, hhit]

theorem ask_cases {inp : Input} {user : AuthUser} {id : Uuid} {s : Stores J} {v : UploadResult}
    (h : ask json inp user id s = some v) :
    cached json s.cache id = some v ∨ valueOf s id = some v := by
  unfold ask at h
  cases hhit : ImageCache.cachedValue json inp.api id s.imageState with
  | some w =>
    simp only [ImageCache.getImage, hhit, Option.some.injEq] at h
    subst h
    exact .inl (cached_of_cachedValue hhit)
  | none =>
    cases hdb : inp.api.dbFault with
    | some text => simp [ImageCache.getImage, hhit, hdb] at h
    | none =>
      cases hrow : ImageCache.fetchOwnRow id user.id s.imageState with
      | none => simp [ImageCache.getImage, hhit, hdb, hrow] at h
      | some w =>
        simp only [ImageCache.getImage, hhit, hdb, hrow, Option.some.injEq] at h
        subst h
        exact .inr (valueOf_of_fetchOwnRow hrow)

/-- Asking yields only recent values exactly when only such are cached. -/
theorem asked_iff {s : State J Img} (h : Tracked s) :
    (∀ inp user id v, ask json inp user id s.stores = some v → Since s.history id (s.floor id) v) ↔
      Fresh s.history s.floor (cached json s.stores.cache) := by
  constructor
  · exact fun hasked id v hv => hasked _ ⟨0, false, none⟩ id v (ask_of_cached _ hv)
  · intro hfresh inp user id v hv
    rcases ask_cases hv with hcached | hrow
    · exact hfresh id v hcached
    · exact h.current.since hrow (h.floor_lt id)

/-! One step. -/

section Get

variable {s : State J Img} {i : ℕ} {c : Call Img} {user : AuthUser} {id : Uuid}

theorem wroteAfter_get (h : Tracked s) (hc : c ∈ s.calls)
    (hget : c.request = .image user (.getImage id)) (inp : Input)
    (history : History Uuid UploadResult) (id' : Uuid) :
    wroteAfter c s.stores (serve json router deps inp c.request c.stage s.stores).2 history id' =
      0 := by
  have himages := images_of_getStep
    (getStep json router deps inp user id c.stage s.stores)
  rw [wroteAfter, hget, changed_of_images himages, if_neg Bool.false_ne_true,
    h.wrote_get c hc user id hget]

variable (json router deps) in
/-- A `get_image` notes nothing and raises no floor. -/
theorem history_get (hget : c.request = .image user (.getImage id)) (inp : Input) :
    (advance json router deps inp i c s).history = s.history := by
  have himages := images_of_getStep
    (getStep json router deps inp user id c.stage s.stores)
  funext id'
  show note s.history (changed s.stores (serve json router deps inp c.request c.stage s.stores).2)
    _ id' = _
  rw [note, hget, changed_of_images himages, if_neg Bool.false_ne_true]

theorem floor_get (h : Tracked s) (hc : c ∈ s.calls)
    (hget : c.request = .image user (.getImage id)) (inp : Input) :
    (advance json router deps inp i c s).floor = s.floor := by
  unfold advance
  dsimp only
  split
  · funext id'
    rw [raise, wroteAfter_get h hc hget, Nat.max_zero]
  · rfl

variable (json router deps) in
theorem leavesRecent_get (h : Tracked s) (hc : c ∈ s.calls)
    (hget : c.request = .image user (.getImage id)) (inp : Input)
    (hf : Fresh s.history s.floor (cached json s.stores.cache)) :
    LeavesRecent json router deps inp c s := by
  unfold LeavesRecent
  intro next history _ id' v hv _
  rw [raise, wroteAfter_get h hc hget, Nat.max_zero]
  exact (hf id' v hv).extend (prefix_note ..)

variable (json router deps) in
/-- A `get_image` that stores what it has read writes one entry, unless the cache is down. -/
theorem cached_store {v : UploadResult} (hget : c.request = .image user (.getImage id))
    (hstore : c.stage = .image (.store v)) (inp : Input) (id' : Uuid) :
    cached json (advance json router deps inp i c s).stores.cache id' =
      if s.stores.cache.noop = false ∧ inp.api.setUp = true ∧ id' = id then some v
      else cached json s.stores.cache id' := by
  unfold advance
  rw [hget, hstore]
  exact cached_setEx s.stores.cache inp.api.setUp id' id v

theorem fresh_store_advance_iff {history : History Uuid UploadResult} {floor : Uuid → ℕ}
    (hf : Fresh history floor (cached json s.stores.cache)) {v : UploadResult}
    (hget : c.request = .image user (.getImage id)) (hstore : c.stage = .image (.store v))
    (inp : Input) :
    Fresh history floor (cached json (advance json router deps inp i c s).stores.cache) ↔
      (inp.api.setUp = true → s.stores.cache.noop = false → Since history id (floor id) v) := by
  have hcached := cached_store (i := i) (s := s) json router deps hget hstore inp
  by_cases hwrite : s.stores.cache.noop = false ∧ inp.api.setUp = true
  · have hstored := (hcached id).trans (if_pos ⟨hwrite.1, hwrite.2, rfl⟩)
    have hothers : ∀ id', id' ≠ id →
        cached json (advance json router deps inp i c s).stores.cache id' =
          cached json s.stores.cache id' :=
      fun id' hne => (hcached id').trans (if_neg fun hall => hne hall.2.2)
    rw [fresh_store_iff hf hstored hothers, forall_prop_of_true hwrite.2,
      forall_prop_of_true hwrite.1]
  · refine iff_of_true (hf.of_subset fun id' v' hv' => ?_)
      fun hup hnoop => absurd ⟨hnoop, hup⟩ hwrite
    rwa [hcached id', if_neg fun hall => hwrite ⟨hall.1, hall.2.1⟩] at hv'

/-- A `get_image` writes to the cache only what it has read. -/
theorem fresh_get_iff (h : Tracked s) (hc : c ∈ s.calls)
    (hget : c.request = .image user (.getImage id)) (inp : Input)
    (hf : Fresh s.history s.floor (cached json s.stores.cache)) :
    Fresh (advance json router deps inp i c s).history (advance json router deps inp i c s).floor
        (cached json (advance json router deps inp i c s).stores.cache) ↔
      StoresRecent inp c s := by
  rw [history_get json router deps hget, floor_get h hc hget]
  by_cases hstore : ∃ v, c.stage = .image (.store v)
  · obtain ⟨v, hstore⟩ := hstore
    rw [fresh_store_advance_iff hf hget hstore inp]
    constructor
    · intro hsince user' id' v' hget' hstore'
      rw [hget] at hget'
      rw [hstore] at hstore'
      cases hget'
      cases hstore'
      exact hsince
    · exact fun hrecent => hrecent user id v hget hstore
  · have hcache : (advance json router deps inp i c s).stores.cache = s.stores.cache := by
      have hstep := getStep json router deps inp user id c.stage s.stores
      rw [← hget] at hstep
      exact cache_of_getStep hstep fun v hv => hstore ⟨v, hv⟩
    rw [hcache]
    exact iff_of_true hf fun user id v _ hv => absurd ⟨v, hv⟩ hstore

end Get

/-- Any other request evicts entries, and raises the floor when it returns. -/
theorem fresh_other_iff {s : State J Img}
    (hf : Fresh s.history s.floor (cached json s.stores.cache)) {i : ℕ} {c : Call Img}
    (hother : ∀ user id, c.request ≠ .image user (.getImage id)) (inp : Input) :
    Fresh (advance json router deps inp i c s).history (advance json router deps inp i c s).floor
        (cached json (advance json router deps inp i c s).stores.cache) ↔
      LeavesRecent json router deps inp c s := by
  have hevicted := evicted_serve json router deps inp hother c.stage s.stores
  have hcached : ∀ id v,
      cached json (advance json router deps inp i c s).stores.cache id = some v ↔
        cached json s.stores.cache id = some v ∧ evicts inp c.request c.stage id = false := by
    intro id v
    rw [show cached json (advance json router deps inp i c s).stores.cache id = _ from
      hevicted id]
    cases evicts inp c.request c.stage id <;> simp
  have hseen := prefix_advance json router deps s inp i c
  cases hreturned : (serve json router deps inp c.request c.stage s.stores).1.returned with
  | false =>
    have hfloor : (advance json router deps inp i c s).floor = s.floor := by
      simp only [advance, hreturned, Bool.false_eq_true, if_false]
    rw [hfloor]
    refine iff_of_true ?_ fun hret => absurd hret (by rw [hreturned]; exact Bool.false_ne_true)
    exact (hf.extend hseen).of_subset fun id v hv => ((hcached id v).mp hv).1
  | true =>
    have hfloor : (advance json router deps inp i c s).floor =
        raise s.floor (wroteAfter c s.stores
          (serve json router deps inp c.request c.stage s.stores).2
          (advance json router deps inp i c s).history) := by
      simp only [advance, hreturned, if_true]
    rw [hfloor]
    constructor
    · exact fun hfresh _ id v hv hkept => hfresh id v ((hcached id v).mpr ⟨hv, hkept⟩)
    · intro hleaves id v hv
      obtain ⟨hold, hkept⟩ := (hcached id v).mp hv
      exact hleaves hreturned id v hold hkept

/-- The cache stays fresh exactly over timely steps. -/
theorem fresh_advance_iff {s : State J Img} (h : Tracked s)
    (hf : Fresh s.history s.floor (cached json s.stores.cache)) {i : ℕ} {c : Call Img}
    (hc : s.calls[i]? = some c) (inp : Input) :
    Fresh (advance json router deps inp i c s).history (advance json router deps inp i c s).floor
        (cached json (advance json router deps inp i c s).stores.cache) ↔
      StoresRecent inp c s ∧ LeavesRecent json router deps inp c s := by
  by_cases hget : ∃ user id, c.request = .image user (.getImage id)
  · obtain ⟨user, id, hget⟩ := hget
    have hmem : c ∈ s.calls := List.mem_of_getElem? hc
    rw [and_iff_left (leavesRecent_get json router deps h hmem hget inp hf)]
    exact fresh_get_iff h hmem hget inp hf
  · have hother : ∀ user id, c.request ≠ .image user (.getImage id) :=
      fun user id heq => hget ⟨user, id, heq⟩
    have hstores : StoresRecent inp c s := fun user id v heq => absurd heq (hother user id)
    rw [and_iff_right hstores]
    exact fresh_other_iff hf hother inp

/-- A `get_image` that is answered has read a fresh cache or the row. -/
theorem answered_advance {s : State J Img} (h : Tracked s) (hs : Coherent json s) {i : ℕ}
    {c : Call Img} (hc : s.calls[i]? = some c) (inp : Input) :
    ∀ c' ∈ (advance json router deps inp i c s).calls, ∀ user id v,
      c'.request = .image user (.getImage id) → c'.stage = .image (.done (.ok (.image v))) →
        Since (advance json router deps inp i c s).history id (c'.began id) v := by
  have hmem : c ∈ s.calls := List.mem_of_getElem? hc
  intro c' hc' user id v hget hdone
  refine Since.extend ?_ (prefix_advance json router deps s inp i c id)
  rcases mem_advance hc' with hold | rfl
  · exact hs.answered c' hold user id v hget hdone
  · have hrequest : c.request = .image user (.getImage id) := hget
    have hstep := getStep json router deps inp user id c.stage s.stores
    rw [← hrequest] at hstep
    show Since s.history id (c.began id) v
    rcases answered_of_getStep hstep hdone with hcached | hstore | hidle
    · exact ((asked_iff h).mp hs.asked id v hcached).of_le (h.began_le c hmem id)
    · exact h.loaded c hmem user id v hrequest hstore
    · exact hs.answered c hmem user id v hrequest (hidle.trans hdone)

theorem coherent_step_iff {s : State J Img} (h : Tracked s) (hs : Coherent json s) (a : Action) :
    Coherent json (step json router deps s a) ↔ Timely json router deps s a := by
  have hfresh := (asked_iff h).mp hs.asked
  cases a with
  | submit request =>
    refine iff_of_true ⟨fun c hc user id v hget hdone => ?_, hs.asked⟩ trivial
    rcases List.mem_append.mp hc with hc | hc
    · exact hs.answered c hc user id v hget hdone
    · rw [List.mem_singleton.mp hc] at hdone
      cases hdone
  | advance i inp =>
    cases hc : s.calls[i]? with
    | none =>
      have hstep : step json router deps s (.advance i inp) = s := by simp only [step, hc]
      rw [hstep]
      apply iff_of_true hs
      intro c hc'
      rw [hc] at hc'
      cases hc'
    | some c =>
      have hstep :
          step json router deps s (.advance i inp) = advance json router deps inp i c s := by
        simp only [step, hc]
      have htimely : Timely json router deps s (.advance i inp) ↔
          StoresRecent inp c s ∧ LeavesRecent json router deps inp c s := by
        simp only [Timely, hc, Option.mem_def, Option.some.injEq, forall_eq']
      rw [hstep, htimely, ← fresh_advance_iff h hfresh hc inp, ← asked_iff (h.advance hc inp)]
      exact ⟨fun hcoherent => hcoherent.asked,
        fun hasked => ⟨answered_advance h hs hc inp, hasked⟩⟩
  | expire key =>
    refine iff_of_true ⟨hs.answered, ?_⟩ trivial
    exact (asked_iff (h.step (.expire key))).mpr
      (hfresh.of_subset fun id v => cached_expire s.stores.cache key id v)

theorem tracked_start (images : ImageTable) (configs : ConfigTable)
    (categories : PartialUpdates.Categories) (objects : Objects) (noop : Bool)
    (workerRouter : StorageRouter) :
    Tracked (start images configs categories objects noop workerRouter : State J Img) where
  current _ := rfl
  floor_lt _ := Nat.zero_lt_one
  wrote_lt _ hc := absurd hc List.not_mem_nil
  began_le _ hc := absurd hc List.not_mem_nil
  wrote_get _ hc := absurd hc List.not_mem_nil
  loaded _ hc := absurd hc List.not_mem_nil

variable (json router deps) in
/-- Every `get_image` yields a value that is at least as recent as the changes from which a
request had returned when it came in, exactly in the runs in which no older value is stored
in the cache and none is left there by a request that returns. -/
theorem image_cache_coherent_iff (images : ImageTable) (configs : ConfigTable)
    (categories : PartialUpdates.Categories) (objects : Objects) (noop : Bool)
    (workerRouter : StorageRouter) (as : List Action) :
    let s : State J Img := start images configs categories objects noop workerRouter
    AllStates (step json router deps) (Coherent json) s as ↔
      AllSteps (step json router deps) (Timely json router deps) s as := by
  intro s
  have htracked : Tracked s := tracked_start images configs categories objects noop workerRouter
  have hempty : Fresh s.history s.floor (cached json s.stores.cache) := by
    intro id v hv
    cases noop <;> cases hv
  exact allStates_iff_allSteps (J := Tracked) (P := Coherent json) (fun _ a h => h.step a)
    (fun _ a h hs => coherent_step_iff h hs a) htracked
    ⟨fun _ hc => absurd hc List.not_mem_nil, (asked_iff htracked).mpr hempty⟩ as

/-- A `get_image` has read the row, the image is renamed, and what was read is stored. -/
def lateStoreRun : List Action :=
  let owner : AuthUser := ⟨9, false, none⟩
  let inp : Input := ⟨⟨none, true, true, true, fun _ => none⟩, ⟨none, none, none, ""⟩⟩
  [.submit (.image owner (.getImage 1)), .advance 0 inp, .advance 0 inp,
    .submit (.image owner (.renameImage 1 "new")), .advance 1 inp, .advance 1 inp, .advance 1 inp,
    .advance 1 inp, .advance 0 inp]

def noWorker : Worker.Deps Unit where
  decode _ := .error ""
  dimensions _ := (0, 0)
  hasAlpha _ := false
  applyWatermark _ img := .ok img
  encodeThumbnail _ _ := .error ""
  encodeWebp _ := []
  git := ⟨.error, fun _ => ""⟩
  publicUrl := ""

def lateStored : State UploadResult Unit :=
  lateStoreRun.foldl (step Codec.self BatchDelete.localRouter noWorker)
    (start BatchDelete.strangersStore.images .empty .empty (fun _ => none) false
      BatchDelete.localRouter)

def askInput : Input := ⟨⟨none, true, true, true, fun _ => none⟩, ⟨none, none, none, ""⟩⟩

/-- The old name is answered after the image has been renamed. -/
theorem image_cache_not_coherent :
    ¬ ∀ (images : ImageTable) (as : List Action),
      let s : State UploadResult Unit := start images .empty .empty (fun _ => none) false
        BatchDelete.localRouter
      AllStates (step Codec.self BatchDelete.localRouter noWorker) (Coherent Codec.self) s as := by
  intro h
  have hlast : Coherent Codec.self lateStored :=
    (h BatchDelete.strangersStore.images lateStoreRun).last
  have hask : (ask Codec.self askInput ⟨9, false, none⟩ 1 lateStored.stores).map (·.originalName) =
      some "cat.png" := by decide +kernel
  have hrecent : ((lateStored.history 1).drop (lateStored.floor 1)).map
      (Option.map (·.originalName)) = [some "new"] := by decide +kernel
  obtain ⟨v, hv, hname⟩ := Option.map_eq_some_iff.mp hask
  have hsince : some v ∈ (lateStored.history 1).drop (lateStored.floor 1) :=
    hlast.asked askInput ⟨9, false, none⟩ 1 v hv
  have hnames := List.mem_map_of_mem (f := Option.map (·.originalName)) hsince
  rw [hrecent, Option.map_some, hname] at hnames
  exact absurd hnames (by decide)

end PicHost.MetaCache
