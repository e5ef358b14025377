import PicHost.Api.Upload
import PicHost.Lib.Run

/-!
# What a failed upload leaves

Nothing is undone: every pipeline of a request leaves what it had written when the request
ended. The footprint of a pipeline is the object, the row and the task it has left.
-/

namespace PicHost.UploadFootprint

open LabelledRun Upload KeyedTable

inductive Footprint
  | nothing
  | object (place : Location) (data : Bytes)
  | upload (place : Location) (data : Bytes) (row : Image) (tasks : List TaskPayload)

namespace Footprint

/-- What was written, and where. -/
def contents : Footprint → List (Location × Bytes)
  | nothing => []
  | object place data | upload place data _ _ => [(place, data)]

def rows : Footprint → List Image
  | nothing | object _ _ => []
  | upload _ _ row _ => [row]

def tasks : Footprint → List TaskPayload
  | nothing | object _ _ => []
  | upload _ _ _ tasks => tasks

end Footprint

section Statements

variable (deps : Deps) (ctx : UploadCtx) (inputs : List Input) (s₀ : Stores)
  (configs : List UserStorageConfig)

/-- The configurations the request goes to. -/
def Resolved : Prop :=
  (∃ inp ∈ inputs, UploadConfigs.resolveUploadConfigs inp.dbUp inp.now ctx.user.id
    ctx.storageConfigIds s₀.configs = .ok configs) ∧
  UploadConfigs.validateUploadConfigs configs = .ok ()

/-- The router as it was, or after it has resolved some of the configurations. -/
def Routed (router : StorageRouter) : Prop :=
  ∃ cs : List UserStorageConfig, (∀ c ∈ cs, c ∈ configs) ∧
    router = cs.foldl (fun r c => (r.forConfig deps.git c).2) s₀.router

def ResolvesTo (config : UserStorageConfig) (backend : Backend) : Prop :=
  ∃ router, Routed deps s₀ configs router ∧ (router.forConfig deps.git config).1 = .ok backend

/-- Where the backend of the configuration keeps a file under the public key. -/
structure Keeps (config : UserStorageConfig) (backend : Backend)
    (publicKey storageKey : String) : Prop where
  resolves : ResolvesTo deps s₀ configs config backend
  key : ∃ inp ∈ inputs, storageKey = backend.storedKey inp.day
    (sourceKey ctx.user.id publicKey) (detectMime deps ctx.bytes)

/-- An object alone: the file, whose row could not be saved, or what the failing write of it
has left. -/
structure LeavesObject (config : UserStorageConfig) (e : ApiError) (place : Location)
    (data : Bytes) (backend : Backend) (publicKey storageKey : String) : Prop where
  keeps : Keeps deps ctx inputs s₀ configs config backend publicKey storageKey
  located : place = backend.locate storageKey
  written : e = saveFailed ∧ data = ctx.bytes ∨
    ∃ fault, e = storageErrorResponse (.writeFailed fault.message) ∧
      backend.left fault ctx.bytes = some data

/-- An upload: the file, its row, and the task if the queue has taken it. `ins` and `enq` are
what the last two calls were given. -/
structure LeavesUpload (config : UserStorageConfig) (r : UploadResult) (place : Location)
    (data : Bytes) (row : Image) (tasks : List TaskPayload) (backend : Backend)
    (publicKey storageKey : String) (ins enq : Input) : Prop where
  keeps : Keeps deps ctx inputs s₀ configs config backend publicKey storageKey
  given : ins ∈ inputs ∧ enq ∈ inputs
  located : place = backend.locate storageKey
  written : data = ctx.bytes
  inserted : row = newImage deps ctx config ins publicKey storageKey
    (storedUrl deps backend publicKey storageKey)
  reported : r = buildResult deps ctx config enq row.id publicKey row.url
  queued : tasks = if enq.queueUp then [newTask deps ctx config enq backend row.id storageKey]
    else []

/-- What the pipeline of a configuration has left when it ended with this result. -/
def Leaves (config : UserStorageConfig) : Except ApiError UploadResult → Footprint → Prop
  | .error e, .nothing => e ≠ saveFailed
  | .error e, .object place data => ∃ backend publicKey storageKey,
      LeavesObject deps ctx inputs s₀ configs config e place data backend publicKey storageKey
  | .error _, .upload _ _ _ _ => False
  | .ok r, .nothing => ∃ row ∈ s₀.images.rows,
      dedupWhere ctx.user.id (deps.sha256 ctx.bytes) config.dbConfigId row = true ∧
        r = UploadResult.fromRow (row.joinConfig s₀.configs)
  | .ok _, .object _ _ => False
  | .ok r, .upload place data row tasks => ∃ backend publicKey storageKey ins enq,
      LeavesUpload deps ctx inputs s₀ configs config r place data row tasks backend publicKey
        storageKey ins enq

/-- What a pipeline at this point has left. -/
def HasLeft (config : UserStorageConfig) : Pipeline → Footprint → Prop
  | .generatePublicKey backend, f | .writeToStorage backend _, f =>
    f = .nothing ∧ ResolvesTo deps s₀ configs config backend
  | .insertImageRecord backend publicKey storageKey url, f =>
    f = .object (backend.locate storageKey) ctx.bytes ∧
      Keeps deps ctx inputs s₀ configs config backend publicKey storageKey ∧
      url = storedUrl deps backend publicKey storageKey
  | .enqueue backend imageId publicKey storageKey url, f => ∃ ins ∈ inputs,
    f = .upload (backend.locate storageKey) ctx.bytes
        (newImage deps ctx config ins publicKey storageKey url) [] ∧ imageId = ins.imageId ∧
      Keeps deps ctx inputs s₀ configs config backend publicKey storageKey ∧
      url = storedUrl deps backend publicKey storageKey
  | .done result, f => Leaves deps ctx inputs s₀ configs config result f
  | _, f => f = .nothing

/-- The stores are those of the start and what the footprints say. A place that two pipelines
wrote to is as one of them left it. -/
structure Remains (s : Stores) (left : List Footprint) : Prop where
  configs : s.configs = s₀.configs
  images : ∃ rows, rows.Perm (left.flatMap Footprint.rows) ∧
    s.images.rows = s₀.images.rows ++ rows
  tasks : ∃ tasks, tasks.Perm (left.flatMap Footprint.tasks) ∧ s.tasks = s₀.tasks ++ tasks
  others : ∀ l, (∀ data, (l, data) ∉ left.flatMap Footprint.contents) →
    s.objects l = s₀.objects l
  places : ∀ l data, (l, data) ∈ left.flatMap Footprint.contents →
    ∃ data', (l, data') ∈ left.flatMap Footprint.contents ∧ s.objects l = some data'

/-- What an upload that failed with `e` leaves: nothing, or what its pipelines have left. -/
def FailsWith (e : ApiError) (s : Stores) : Prop :=
  Remains s₀ s [] ∨ ∃ (outcomes : List (UserStorageConfig × Except ApiError UploadResult))
      (left : List Footprint), outcomes.length ≤ 2 ∧
    Resolved ctx inputs s₀ (outcomes.map Prod.fst) ∧
    List.Forall₂ (fun o f => Leaves deps ctx inputs s₀ (outcomes.map Prod.fst) o.1 o.2 f)
      outcomes left ∧
    Remains s₀ s left ∧ .error e ∈ outcomes.map Prod.snd

/-- Where a request stands, with the footprints of its pipelines. -/
def Accounts (s : Stores) : Stage → Prop
  | .checkQuotas | .resolveConfigs _ => Remains s₀ s [] ∧ s.router = s₀.router
  | .running _ branches => ∃ left, Resolved ctx inputs s₀ (branches.map Prod.fst) ∧
      Routed deps s₀ (branches.map Prod.fst) s.router ∧
      List.Forall₂ (fun branch f =>
        HasLeft deps ctx inputs s₀ (branches.map Prod.fst) branch.1 branch.2 f) branches left ∧
      Remains s₀ s left
  | .done (.error e) => FailsWith deps ctx inputs s₀ e s
  | .done (.ok _) => True

end Statements

section Bookkeeping

/-- A call turns footprint `f` into `g` by what it adds to the stores. -/
structure Extends (s s' : Stores) (f g : Footprint) : Prop where
  configs : s'.configs = s.configs
  images : ∃ rows, g.rows = f.rows ++ rows ∧ s'.images.rows = s.images.rows ++ rows
  tasks : ∃ tasks, g.tasks = f.tasks ++ tasks ∧ s'.tasks = s.tasks ++ tasks
  objects : g.contents = f.contents ∧ s'.objects = s.objects ∨ ∃ l data, f.contents = [] ∧
    g.contents = [(l, data)] ∧ s'.objects = Function.update s.objects l (some data)

variable {s₀ s s' : Stores}

theorem Extends.refl {f : Footprint} {router : StorageRouter} :
    Extends s { s with router } f f :=
  ⟨rfl, ⟨[], by simp⟩, ⟨[], by simp⟩, .inl ⟨rfl, rfl⟩⟩

/-- A pipeline that writes its file, or a part of it. -/
theorem Extends.write (s : Stores) (l : Location) (data : Bytes) :
    Extends s { s with objects := Function.update s.objects l (some data) } .nothing
      (.object l data) :=
  ⟨rfl, ⟨[], rfl, by simp⟩, ⟨[], rfl, by simp⟩, .inr ⟨l, data, rfl, rfl, rfl⟩⟩

theorem perm_extend {α : Type} {xs ys zs news old : List α} (h : old.Perm (xs ++ (zs ++ ys))) :
    (old ++ news).Perm (xs ++ ((zs ++ news) ++ ys)) := by
  refine (h.append_right news).trans ?_
  rw [List.append_assoc, List.append_assoc, List.append_assoc]
  exact List.Perm.append_left xs (List.Perm.append_left zs List.perm_append_comm)

/-- The objects after one pipeline's call. -/
theorem Remains.objects_extend {xs ys : List Footprint} {f g : Footprint}
    (h : Remains s₀ s (xs ++ f :: ys)) (he : Extends s s' f g) :
    (∀ l, (∀ data, (l, data) ∉ (xs ++ g :: ys).flatMap Footprint.contents) →
      s'.objects l = s₀.objects l) ∧
    ∀ l data, (l, data) ∈ (xs ++ g :: ys).flatMap Footprint.contents →
      ∃ data', (l, data') ∈ (xs ++ g :: ys).flatMap Footprint.contents ∧
        s'.objects l = some data' := by
  have hothers := h.others
  have hplaces := h.places
  simp only [List.flatMap_append, List.flatMap_cons, List.mem_append] at hothers hplaces ⊢
  rcases he.objects with ⟨hcontents, hobjects⟩ | ⟨place, written, hf, hg, hobjects⟩
  · rw [hcontents, hobjects]
    exact ⟨hothers, hplaces⟩
  · rw [hobjects, hg]
    rw [hf] at hothers hplaces
    constructor
    · intro l hl
      have hne : l ≠ place := by
        rintro rfl
        exact hl written (.inr (.inl List.mem_cons_self))
      rw [Function.update_of_ne hne]
      exact hothers l fun data hdata => hl data
        (hdata.imp_right fun hrest => .inr (hrest.resolve_left List.not_mem_nil))
    · intro l data hl
      by_cases hplace : l = place
      · subst hplace
        exact ⟨written, .inr (.inl List.mem_cons_self), Function.update_self ..⟩
      · rw [Function.update_of_ne hplace]
        have hold : (l, data) ∉ [(place, written)] := fun hmem =>
          hplace (Prod.mk.inj (List.mem_singleton.mp hmem)).1
        obtain ⟨data', hdata', hobject⟩ := hplaces l data
          (hl.imp_right fun hrest => .inr (hrest.resolve_left hold))
        exact ⟨data', hdata'.imp_right fun hrest =>
          .inr (hrest.resolve_left List.not_mem_nil), hobject⟩

/-- One pipeline's call, seen from the footprints of all. -/
theorem Remains.extend {xs ys : List Footprint} {f g : Footprint}
    (h : Remains s₀ s (xs ++ f :: ys)) (he : Extends s s' f g) :
    Remains s₀ s' (xs ++ g :: ys) := by
  obtain ⟨rows, hrows, himages⟩ := he.images
  obtain ⟨tasks, htasks, hqueue⟩ := he.tasks
  obtain ⟨rows₀, hperm, hold⟩ := h.images
  obtain ⟨tasks₀, htperm, htold⟩ := h.tasks
  obtain ⟨hothers, hplaces⟩ := h.objects_extend he
  refine ⟨he.configs.trans h.configs, ⟨rows₀ ++ rows, ?_, ?_⟩, ⟨tasks₀ ++ tasks, ?_, ?_⟩, hothers,
    hplaces⟩
  · rw [List.flatMap_append, List.flatMap_cons] at hperm ⊢
    rw [hrows]
    exact perm_extend hperm
  · rw [himages, hold, List.append_assoc]
  · rw [List.flatMap_append, List.flatMap_cons] at htperm ⊢
    rw [htasks]
    exact perm_extend htperm
  · rw [hqueue, htold, List.append_assoc]

/-- Footprints of pipelines that have written nothing. -/
theorem Remains.replicate {left : List Footprint} (h : Remains s₀ s [])
    (hnothing : ∀ f ∈ left, f = .nothing) : Remains s₀ s left := by
  have hnil : ∀ {α : Type} (k : Footprint → List α), k .nothing = [] → left.flatMap k = [] := by
    intro α k hk
    apply List.flatMap_eq_nil_iff.mpr
    intro f hf
    rw [hnothing f hf, hk]
  obtain ⟨hconfigs, himages, htasks, hothers, hplaces⟩ := h
  refine ⟨hconfigs, ?_, ?_, ?_, ?_⟩
  · rwa [hnil _ rfl]
  · rwa [hnil _ rfl]
  · rwa [hnil _ rfl]
  · rwa [hnil _ rfl]

theorem forall₂_split {α β : Type} {R : α → β → Prop} {l : List α} {left : List β}
    (h : List.Forall₂ R l left) {b : ℕ} {x : α} (hx : l[b]? = some x) :
    ∃ xs f ys, left = xs ++ f :: ys ∧ R x f ∧
      ∀ y g, R y g → List.Forall₂ R (l.set b y) (xs ++ g :: ys) := by
  induction h generalizing b with
  | nil => cases hx
  | @cons a f l left hR htail ih =>
    cases b with
    | zero =>
      cases hx
      exact ⟨[], f, left, rfl, hR, fun y g hy => .cons hy htail⟩
    | succ b =>
      obtain ⟨xs, f', ys, rfl, hR', hset⟩ := ih hx
      exact ⟨f :: xs, f', ys, rfl, hR', fun y g hy => .cons hR (hset y g hy)⟩

theorem exists_of_forall₂ {α β : Type} {R : α → β → Prop} {l : List α} {left : List β}
    (h : List.Forall₂ R l left) {g : β} (hg : g ∈ left) : ∃ x ∈ l, R x g := by
  induction h with
  | nil => cases hg
  | cons hR htail ih =>
    rcases List.mem_cons.mp hg with rfl | hg
    · exact ⟨_, List.mem_cons_self, hR⟩
    · obtain ⟨x, hx, hRx⟩ := ih hg
      exact ⟨x, List.mem_cons_of_mem _ hx, hRx⟩

end Bookkeeping

variable {deps : Deps} {ctx : UploadCtx} {inputs : List Input} {s₀ s s' : Stores}
  {configs : List UserStorageConfig} {config : UserStorageConfig}

/-- The row of a footprint is recorded under the configuration of its pipeline. -/
theorem rows_of_hasLeft {p : Pipeline} {f : Footprint}
    (h : HasLeft deps ctx inputs s₀ configs config p f) {r : Image} (hr : r ∈ f.rows) :
    r.storageConfigId = config.dbConfigId := by
  cases p with
  | enqueue =>
    obtain ⟨ins, -, rfl, -⟩ := h
    rw [List.mem_singleton.mp hr]
    rfl
  | done result =>
    cases f with
    | nothing | object => cases hr
    | upload =>
      cases result with
      | error e => exact h.elim
      | ok result =>
        obtain ⟨backend, publicKey, storageKey, ins, enq, hleft⟩ := h
        rw [List.mem_singleton.mp hr, hleft.inserted]
        rfl
  | generatePublicKey | writeToStorage | insertImageRecord =>
    obtain ⟨rfl, -⟩ := h
    cases hr
  | _ =>
    cases h
    cases hr

/-- What a pipeline finds under its configuration was there before the request. -/
theorem row_before {branches : List (UserStorageConfig × Pipeline)} {left : List Footprint}
    (hdistinct : (branches.map Prod.fst).Pairwise fun c d => c.dbConfigId ≠ d.dbConfigId)
    (hleft : List.Forall₂ (fun branch f =>
      HasLeft deps ctx inputs s₀ configs branch.1 branch.2 f) branches left)
    (hremains : Remains s₀ s left) (hb : (config, .fetchDedupRow) ∈ branches) {r : Image}
    (hr : r ∈ s.images.rows) (hunder : r.storageConfigId = config.dbConfigId) :
    r ∈ s₀.images.rows := by
  obtain ⟨rows, hperm, hrows⟩ := hremains.images
  rw [hrows] at hr
  refine (List.mem_append.mp hr).resolve_right fun hnew => ?_
  obtain ⟨f, hf, hrf⟩ := List.mem_flatMap.mp (hperm.mem_iff.mp hnew)
  obtain ⟨⟨config', p⟩, hbranch, hp⟩ := exists_of_forall₂ hleft hf
  -- pipelines recorded alike are one pipeline
  have hsame : ((config', p) : UserStorageConfig × Pipeline) = (config, .fetchDedupRow) := by
    have hnodup : (branches.map fun branch => branch.1.dbConfigId).Nodup := by
      rw [List.pairwise_map] at hdistinct
      exact List.pairwise_map.mpr hdistinct
    exact List.inj_on_of_nodup_map hnodup hbranch hb ((rows_of_hasLeft hp hrf).symm.trans hunder)
  cases hsame
  cases hp
  cases hrf

/-- Every call extends the footprint of its pipeline. -/
theorem extends_call {inp : Input} {p p' : Pipeline} {f : Footprint}
    (hcall : Call deps ctx config inp p s p' s') (hinp : inp ∈ inputs)
    (hrouted : Routed deps s₀ configs s.router) (hconfigs : s.configs = s₀.configs)
    (hbefore : p = .fetchDedupRow → ∀ r ∈ s.images.rows,
      r.storageConfigId = config.dbConfigId → r ∈ s₀.images.rows)
    (h : HasLeft deps ctx inputs s₀ configs config p f) :
    ∃ g, HasLeft deps ctx inputs s₀ configs config p' g ∧ Extends s s' f g := by
  cases hcall with
  | found | notFound =>
    cases h
    exact ⟨_, rfl, .refl⟩
  | fetched hr hw =>
    cases h
    refine ⟨.nothing, ⟨_, hbefore rfl _ hr ?_, hw, by rw [hconfigs]⟩, .refl⟩
    simp only [dedupWhere, Bool.and_eq_true, beq_iff_eq] at hw
    exact hw.2
  | resolved hfor =>
    cases h
    exact ⟨.nothing, ⟨rfl, _, hrouted, congrArg Prod.fst hfor⟩, .refl⟩
  | keyTaken | keyFree => exact ⟨f, h, .refl⟩
  | written hk =>
    obtain ⟨rfl, hbackend⟩ := h
    exact ⟨_, ⟨rfl, ⟨hbackend, inp, hinp, hk⟩, rfl⟩, .write ..⟩
  | inserted hdb hins =>
    obtain ⟨rfl, hkeeps, hurl⟩ := h
    exact ⟨_, ⟨inp, hinp, rfl, rfl, hkeeps, hurl⟩, rfl,
      ⟨[_], rfl, Table.rows_of_insert hins⟩, ⟨[], rfl, by simp⟩, .inl ⟨rfl, rfl⟩⟩
  | enqueued hqueue =>
    obtain ⟨ins, hins, rfl, rfl, hkeeps, rfl⟩ := h
    exact ⟨.upload _ _ _ [_], ⟨_, _, _, ins, inp, hkeeps, ⟨hins, hinp⟩, rfl, rfl, rfl, rfl, by
      rw [hqueue, if_pos rfl]; rfl⟩, rfl, ⟨[], rfl, by simp⟩, ⟨[_], rfl, rfl⟩, .inl ⟨rfl, rfl⟩⟩
  | notEnqueued hqueue =>
    obtain ⟨ins, hins, rfl, rfl, hkeeps, rfl⟩ := h
    exact ⟨.upload _ _ _ [], ⟨_, _, _, ins, inp, hkeeps, ⟨hins, hinp⟩, rfl, rfl, rfl, rfl, by
      rw [hqueue, if_neg Bool.false_ne_true]⟩, .refl⟩
  | refused router hr hp he =>
    refine ⟨f, ?_, .refl⟩
    cases p with
    | insertImageRecord backend publicKey storageKey url =>
      obtain ⟨rfl, hkeeps, -⟩ := h
      exact ⟨_, _, _, hkeeps, rfl, .inl ⟨he.mpr rfl, rfl⟩⟩
    | enqueue | done => cases hp
    | generatePublicKey | writeToStorage =>
      obtain ⟨rfl, -⟩ := h
      exact fun hsave => absurd (he.mp hsave) Bool.false_ne_true
    | _ =>
      rw [h]
      exact fun hsave => absurd (he.mp hsave) Bool.false_ne_true
  | cut hr hfault hwritten =>
    obtain ⟨rfl, hbackend⟩ := h
    exact ⟨.object _ _, ⟨_, _, _, ⟨hbackend, inp, hinp, rfl⟩, rfl, .inr ⟨_, rfl, hwritten⟩⟩,
      .write ..⟩
  | idle => exact ⟨f, h, .refl⟩

theorem Routed.call {inp : Input} {p p' : Pipeline} (h : Routed deps s₀ configs s.router)
    (hconfig : config ∈ configs) (hcall : Call deps ctx config inp p s p' s') :
    Routed deps s₀ configs s'.router := by
  obtain ⟨cs, hcs, hr⟩ := h
  have hnext : Routed deps s₀ configs (s.router.forConfig deps.git config).2 := by
    refine ⟨cs ++ [config], fun c hc => ?_, by rw [List.foldl_append, hr]; rfl⟩
    rcases List.mem_append.mp hc with hold | hnew
    · exact hcs c hold
    · rwa [List.mem_singleton.mp hnew]
  cases hcall with
  | resolved hres =>
    rw [hres] at hnext
    exact hnext
  | refused router _ _ _ hrouter =>
    rcases hrouter with rfl | rfl
    · exact ⟨cs, hcs, hr⟩
    · exact hnext
  | _ => exact ⟨cs, hcs, hr⟩

theorem Resolved.length_le (h : Resolved ctx inputs s₀ configs) : configs.length ≤ 2 :=
  (UploadConfigs.validateUploadConfigs_ok.mp h.2).1

theorem Resolved.distinct (h : Resolved ctx inputs s₀ configs) :
    configs.Pairwise fun c d => c.dbConfigId ≠ d.dbConfigId := by
  obtain ⟨⟨inp, -, hr⟩, -⟩ := h
  exact UploadConfigs.resolveUploadConfigs_distinct hr

/-- The pipelines of the results, each with its configuration. -/
theorem leaves_of_done {branches : List (UserStorageConfig × Pipeline)} {left : List Footprint}
    (h : List.Forall₂ (fun branch f => HasLeft deps ctx inputs s₀ configs branch.1 branch.2 f)
      branches left) {results : List (Except ApiError UploadResult)}
    (hmap : branches.map Prod.snd = results.map .done) :
    ∃ outcomes : List (UserStorageConfig × Except ApiError UploadResult),
      outcomes.map Prod.fst = branches.map Prod.fst ∧ outcomes.map Prod.snd = results ∧
      List.Forall₂ (fun o f => Leaves deps ctx inputs s₀ configs o.1 o.2 f) outcomes left := by
  induction h generalizing results with
  | nil =>
    cases results with
    | nil => exact ⟨[], rfl, rfl, .nil⟩
    | cons => cases hmap
  | @cons branch f branches left hf htail ih =>
    cases results with
    | nil => cases hmap
    | cons result results =>
      obtain ⟨hp, hrest⟩ := List.cons.inj hmap
      obtain ⟨outcomes, hfst, hsnd, hleaves⟩ := ih hrest
      rw [hp] at hf
      exact ⟨(branch.1, result) :: outcomes, congrArg _ hfst, congrArg _ hsnd, .cons hf hleaves⟩

theorem accounts_settle {seen : Option ℤ} {branches : List (UserStorageConfig × Pipeline)}
    (h : Accounts deps ctx inputs s₀ s (.running seen branches)) :
    Accounts deps ctx inputs s₀ s (settle seen branches) := by
  rcases settle_cases seen branches with ⟨hrun, -⟩ | ⟨results, hdone, hmap⟩
  · rwa [hrun]
  · obtain ⟨left, hresolved, -, hleft, hremains⟩ := h
    rw [hdone]
    cases hall : unwrapAll results with
    | ok rs => trivial
    | error e =>
      obtain ⟨outcomes, hfst, hsnd, hleaves⟩ := leaves_of_done hleft hmap
      rw [← hfst] at hresolved hleaves
      refine .inr ⟨outcomes, left, ?_, hresolved, hleaves, hremains, hsnd ▸ unwrapAll_error hall⟩
      rw [← List.length_map Prod.fst]
      exact hresolved.length_le

theorem accounts_moved {inp : Input} {b : ℕ} {seen : Option ℤ}
    {branches : List (UserStorageConfig × Pipeline)} {p p' : Pipeline} (hinp : inp ∈ inputs)
    (h : Accounts deps ctx inputs s₀ s (.running seen branches))
    (hb : branches[b]? = some (config, p)) (hcall : Call deps ctx config inp p s p' s') :
    Accounts deps ctx inputs s₀ s' (.running seen (branches.set b (config, p'))) := by
  obtain ⟨left, hresolved, hrouted, hleft, hremains⟩ := h
  have hmem := List.mem_of_getElem? hb
  have hmap : (branches.set b (config, p')).map Prod.fst = branches.map Prod.fst :=
    map_set_of_eq hb rfl
  have hbefore : p = .fetchDedupRow → ∀ r ∈ s.images.rows,
      r.storageConfigId = config.dbConfigId → r ∈ s₀.images.rows := by
    rintro rfl r hr hunder
    exact row_before hresolved.distinct hleft hremains hmem hr hunder
  obtain ⟨xs, f, ys, rfl, hf, hset⟩ := forall₂_split hleft hb
  obtain ⟨g, hg, hextends⟩ :=
    extends_call hcall hinp hrouted hremains.configs hbefore hf
  simp only [Accounts, hmap]
  exact ⟨_, hresolved, hrouted.call (List.mem_map_of_mem hmem) hcall, hset (_, _) g hg,
    hremains.extend hextends⟩

theorem Accounts.advance {inp : Input} {b : ℕ} {stage stage' : Stage} (hinp : inp ∈ inputs)
    (h : Accounts deps ctx inputs s₀ s stage) (ha : Advance deps ctx inp b s stage stage' s') :
    Accounts deps ctx inputs s₀ s' stage' := by
  cases ha with
  | rejected hrej =>
    rcases hrej with rfl | ⟨seen, rfl⟩ <;> exact .inl h.1
  | checked => exact h
  | started hr hv =>
    rename_i seen configs
    obtain ⟨hremains, hrouter⟩ := h
    have hresolved : Resolved ctx inputs s₀ configs := by
      rw [hremains.configs] at hr
      exact ⟨⟨inp, hinp, hr⟩, hv⟩
    have hmap : (runBackendUploads configs).map Prod.fst = configs := by
      simp [runBackendUploads, List.take_of_length_le hresolved.length_le, Function.comp_def]
    refine ⟨(runBackendUploads configs).map fun _ => .nothing, by rwa [hmap],
      ⟨[], by simp, hrouter⟩, ?_, hremains.replicate fun f hf => ?_⟩
    · refine List.forall₂_map_right_iff.mpr (List.forall₂_same.mpr fun branch hbranch => ?_)
      obtain ⟨config, -, rfl⟩ := List.mem_map.mp hbranch
      rfl
    · obtain ⟨-, -, rfl⟩ := List.mem_map.mp hf
      rfl
  | moved hb hcall => exact accounts_settle (accounts_moved hinp h hb hcall)
  | idle => exact h

end PicHost.UploadFootprint
