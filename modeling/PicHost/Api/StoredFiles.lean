import PicHost.Api.Service

/-!
# The files of the images in a directory

A row records the digest of the file its upload has written. The key of a file is reserved by its
row, which goes in last, and a deletion removes the files before the rows.
-/

namespace PicHost.StoredFiles

open KeyedTable LabelledRun Upload Serving

section Statements

variable {J Img : Type} (deps : Deps) (dir : Directory)

abbrev locate (key : String) : Location := dir.backend.locate key

/-- The file has the digest. -/
def HasDigest (objects : Objects) (key digest : String) : Prop :=
  ∃ bytes, objects (locate dir key) = some bytes ∧ deps.sha256 bytes = digest

instance (objects : Objects) (key digest : String) :
    Decidable (HasDigest deps dir objects key digest) :=
  decidable_of_iff ((objects (locate dir key)).map deps.sha256 = some digest)
    Option.map_eq_some_iff

/-- Every row names a file with the digest it records. -/
def Matching (s : Service.State J Img) : Prop :=
  ∀ r ∈ s.images.rows, HasDigest deps dir s.objects r.storageKey r.sha256

instance (s : Service.State J Img) : Decidable (Matching deps dir s) :=
  inferInstanceAs (Decidable (∀ _ ∈ _, _))

/-- The rows are selected and not yet deleted. -/
def selected : Deletion.Stage → Bool
  | .clean _ _ _ | .remove => true
  | _ => false

/-- A deletion of the row is between its `SELECT` and its `DELETE`. -/
def BeingDeleted (deletions : List (Deletion.Request × Deletion.Stage)) (r : Image) : Prop :=
  ∃ d ∈ deletions, selected d.2 = true ∧ d.1.deletes r = true

/-- Every row that is not being deleted names a file with the digest it records. -/
def MatchingKept (s : Service.State J Img) : Prop :=
  ∀ r ∈ s.images.rows, ¬ BeingDeleted s.deletions r →
    HasDigest deps dir s.objects r.storageKey r.sha256

/-- The files a deletion has still to delete. -/
def pendingFiles : Deletion.Stage → List String
  | .clean _ keys rest => keys ++ rest.flatMap Deletion.keysOf
  | _ => []

/-- The file a pipeline has drawn a key for, as long as its row is not inserted. -/
def Pipeline.drawnFile (user : Uuid) (p : Pipeline) : Option String :=
  (Serving.Pipeline.drawnKey p).map (sourceKey user)

/-- The files the running pipelines have drawn keys for. -/
def drawnFiles (requests : List Request) : List String :=
  requests.flatMap fun req =>
    match req.stage with
    | .running _ branches =>
      branches.filterMap fun branch => Pipeline.drawnFile req.ctx.user.id branch.2
    | _ => []

/-- The file of the key that the pipeline draws, if it draws one. -/
def draws (requests : List Request) (i b draw : ℕ) : Option String :=
  match requests[i]? with
  | some ⟨ctx, .running _ branches⟩ =>
    match branches[b]? with
    | some (_, .generatePublicKey _) => some (sourceKey ctx.user.id (publicKeyOf draw))
    | _ => none
  | _ => none

/-- A key is drawn while no running pipeline of the user has drawn it and no deletion has its file
still to delete; the `DELETE` of a deletion does not fail. -/
def KeysApart (s : Service.State J Img) : Service.Action → Prop
  | .serving (.advance i b inp) => ∀ file ∈ draws s.system.uploads.requests i b inp.draw,
    file ∉ drawnFiles s.system.uploads.requests ∧ ∀ d ∈ s.deletions, file ∉ pendingFiles d.2
  | .deletion i inp => ∀ d ∈ s.deletions[i]?, d.2 = .remove → inp.dbUp = true
  | _ => True

instance (s : Service.State J Img) : DecidablePred (KeysApart s)
  | .serving (.advance _ _ _) => inferInstanceAs (Decidable (∀ _ ∈ _, _))
  | .deletion _ _ => inferInstanceAs (Decidable (∀ _ ∈ _, _ → _))
  | .serving (.submit _) | .serving (.dequeue _) | .serving (.process _ _)
  | .serving (.finish _ _) | .serving (.timeout _ _) | .serving (.crash _)
  | .serving (.recover _ _) | .delete _ | .expire _ => inferInstanceAs (Decidable True)

/-- What a pipeline holds of the directory and the key it has drawn. -/
def InDirectory (ctx : UploadCtx) : Pipeline → Prop
  | .generatePublicKey backend => backend = dir.backend
  | .writeToStorage backend publicKey => backend = dir.backend ∧ publicKey.length = 6
  | .insertImageRecord backend publicKey storageKey _ =>
    backend = dir.backend ∧ publicKey.length = 6 ∧ storageKey = sourceKey ctx.user.id publicKey
  | _ => True

/-- The key of an original: the user's directory and six digits. -/
def IsOriginal (file : String) : Prop :=
  ∃ user key, key.length = 6 ∧ file = sourceKey user key

/-- The keys of a row: its original has a short one, its variants have not. -/
structure KeysOf (r : Image) : Prop where
  storageKey : r.storageKey = sourceKey r.userId r.publicKey
  keyLength : r.publicKey.length = 6
  variants : ∀ key ∈ r.thumbnailKey.toList ++ r.webpKey.toList, ¬ IsOriginal key

/-- What holds in every run: everything is in the directory, the originals under short keys. -/
structure Local (order : List String → ℕ) (s : Service.State J Img) : Prop where
  router : s.router = dir.router order
  workerRouter : s.system.router = dir.router order
  configs : ∀ c ∈ s.system.uploads.stores.configs.rows, c.provider = "local"
  pipelines : ∀ i b ctx config p, At s.system.uploads.requests i b ctx config p →
    config.provider = "local" ∧ InDirectory dir ctx p
  held : ∀ hold ∈ s.system.held, ∀ backend, hold.2.backend = some backend → backend = dir.backend
  rows : ∀ r ∈ s.images.rows, KeysOf r
  deletions : ∀ d ∈ s.deletions, ∀ storage keys rest, d.2 = .clean storage keys rest →
    storage = dir.backend

/-- Pipeline `b` of request `i` has drawn the key of the file and not inserted its row. -/
def HoldsFile (requests : List Request) (i b : ℕ) (file : String) : Prop :=
  ∃ ctx config p, At requests i b ctx config p ∧ Pipeline.drawnFile ctx.user.id p = some file

/-- Nobody else has to do with the file. -/
structure Free (requests : List Request) (deletions : List (Deletion.Request × Deletion.Stage))
    (images : ImageTable) (file : String) : Prop where
  unheld : ∀ i b, ¬ HoldsFile requests i b file
  notPending : ∀ d ∈ deletions, file ∉ pendingFiles d.2
  noRow : ∀ r ∈ images.rows, r.storageKey ≠ file

/-- What holds over the steps that keep the keys apart: a file that a pipeline has drawn a key for
is nobody else's, and a file that is to be deleted is no row's that stays. -/
structure Intact (requests : List Request) (deletions : List (Deletion.Request × Deletion.Stage))
    (images : ImageTable) (objects : Objects) : Prop where
  held : ∀ i b i' b' file, HoldsFile requests i b file → HoldsFile requests i' b' file →
    i = i' ∧ b = b'
  fresh : ∀ i b file, HoldsFile requests i b file → ∀ r ∈ images.rows, r.storageKey ≠ file
  pending : ∀ d ∈ deletions, ∀ file ∈ pendingFiles d.2,
    (∀ i b, ¬ HoldsFile requests i b file) ∧
      ∀ r ∈ images.rows, r.storageKey = file → d.1.deletes r = true
  written : ∀ i b ctx config backend publicKey storageKey url,
    At requests i b ctx config (.insertImageRecord backend publicKey storageKey url) →
    objects (locate dir storageKey) = some ctx.bytes
  rows : ∀ r ∈ images.rows, BeingDeleted deletions r ∨
    HasDigest deps dir objects r.storageKey r.sha256

def State.Intact (s : Service.State J Img) : Prop :=
  StoredFiles.Intact deps dir s.system.uploads.requests s.deletions s.images s.objects

end Statements

variable {J Img : Type} {deps : Deps} {worker : Worker.Deps Img} {dir : Directory}
variable {order : List String → ℕ}

/-! The parts of the service that stay as they are. -/

variable (deps) in
theorem configs_advance (w : World) (i b : ℕ) (inp : Input) :
    (w.advance deps i b inp).stores.configs = w.stores.configs := by
  rcases w.advance_cases deps i b inp with ⟨-, hsame⟩ | ⟨ctx, stage, stage', s', -, hadvance, hnext⟩
  · rw [hsame]
  · rw [hnext]
    cases hadvance with
    | moved hb hcall => cases hcall <;> rfl
    | _ => rfl

/-- Local configurations leave the router as it is. -/
theorem router_advance {w : World} (hrouter : w.stores.router = dir.router order)
    (hlocal : ∀ i b ctx config p, At w.requests i b ctx config p → config.provider = "local")
    (i b : ℕ) (inp : Input) : (w.advance deps i b inp).stores.router = w.stores.router := by
  rcases w.advance_cases deps i b inp with
    ⟨-, hsame⟩ | ⟨ctx, stage, stage', s', hreq, hadvance, hnext⟩
  · rw [hsame]
  · rw [hnext]
    cases hadvance with
    | moved hb hcall =>
      rename_i config p p'
      have hfor := forConfig_local dir order deps.git (hlocal i b ctx config p ⟨_, _, hreq, hb⟩)
      rw [← hrouter] at hfor
      cases hcall with
      | resolved h => exact (Prod.mk.inj (h.symm.trans hfor)).2
      | refused router h hp he hr =>
        rcases hr with rfl | rfl
        · rfl
        · exact congrArg Prod.snd hfor
      | _ => rfl
    | _ => rfl

/-- A pipeline stays in the directory. -/
theorem inDirectory_advance {s : Service.State J Img} (h : Local dir order s) {i b : ℕ}
    {inp : Input} {i' b' : ℕ} {ctx : UploadCtx} {config : UserStorageConfig} {p : Pipeline}
    (hat : At (s.system.uploads.advance deps i b inp).requests i' b' ctx config p) :
    config.provider = "local" ∧ InDirectory dir ctx p := by
  cases Service.at_of_advance deps hat with
  | stays hat => exact h.pipelines i' b' ctx config p hat
  | starts hp hconfig hr =>
    subst hp
    refine ⟨?_, trivial⟩
    rcases UploadConfigs.mem_resolveUploadConfigs hr config hconfig with hrow | rfl
    · exact h.configs config hrow
    · rfl
  | moves hat hcall =>
    obtain ⟨hlocal, hin⟩ := h.pipelines i b ctx config _ hat
    refine ⟨hlocal, ?_⟩
    cases hcall with
    | resolved hfor =>
      have hdir := forConfig_local dir order deps.git hlocal
      rw [← show s.system.uploads.stores.router = _ from h.router] at hdir
      exact Except.ok.inj (Prod.mk.inj (hfor.symm.trans hdir)).1
    | keyTaken => exact hin
    | keyFree => exact ⟨hin, length_publicKeyOf _⟩
    | written hk =>
      obtain ⟨rfl, hlen⟩ := hin
      exact ⟨rfl, hlen, hk⟩
    | _ => exact trivial

/-! The invariant. -/

/-- A task in the directory. -/
def HeldLocal (dir : Directory) (held : List (TaskPayload × Worker.Work Img)) : Prop :=
  ∀ hold ∈ held, ∀ backend, hold.2.backend = some backend → backend = dir.backend

theorem HeldLocal.set {held : List (TaskPayload × Worker.Work Img)} (h : HeldLocal dir held)
    (j : ℕ) {hold : TaskPayload × Worker.Work Img}
    (hnew : ∀ backend, hold.2.backend = some backend → backend = dir.backend) :
    HeldLocal dir (held.set j hold) := by
  intro hold' hmem
  rcases List.mem_or_eq_of_mem_set hmem with hmem | rfl
  · exact h hold' hmem
  · exact hnew

theorem HeldLocal.erase {held : List (TaskPayload × Worker.Work Img)} (h : HeldLocal dir held)
    (j : ℕ) : HeldLocal dir (held.eraseIdx j) :=
  fun hold hmem => h hold (List.mem_of_mem_eraseIdx hmem)

theorem HeldLocal.append {held : List (TaskPayload × Worker.Work Img)} (h : HeldLocal dir held)
    (task : TaskPayload) : HeldLocal dir (held ++ [(task, .resolveBackend)]) := by
  intro hold hmem
  rcases List.mem_append.mp hmem with hmem | hmem
  · exact h hold hmem
  · rw [List.mem_singleton.mp hmem]
    exact fun backend hb => by cases hb

variable (deps worker) in
/-- The worker binds every task to the directory. -/
theorem worker_step {s : Service.State J Img} (h : Local dir order s) (a : Serving.Action) :
    let system := Serving.step deps worker s.system a
    system.router = dir.router order ∧ HeldLocal dir system.held := by
  intro system
  have hheld : HeldLocal dir s.system.held := h.held
  cases a with
  | submit | advance | recover => exact ⟨h.workerRouter, hheld⟩
  | dequeue up =>
    simp only [system, Serving.step]
    split
    · exact ⟨h.workerRouter, hheld.append _⟩
    · exact ⟨h.workerRouter, hheld⟩
  | process j inp =>
    simp only [system, Serving.step]
    split
    · exact ⟨h.workerRouter, hheld⟩
    · rename_i task work hj
      have hspec := Worker.processTask_spec worker inp task work
        ⟨s.images, s.system.uploads.stores.configs, s.objects, s.system.router⟩
      obtain ⟨-, -, hbound, hrouter⟩ := hspec
      obtain ⟨hresolve, hlocal⟩ := resolveBackend_local worker inp task
        ⟨s.images, s.system.uploads.stores.configs, s.objects, s.system.router⟩ h.workerRouter
        h.configs
      have hnew := fun backend hb => (hbound backend hb).elim
        (hheld (task, work) (List.mem_of_getElem? hj) backend) (hlocal backend)
      have hsame := (hrouter.elim id fun heq => heq.trans hresolve).trans h.workerRouter
      unfold Serving.process
      cases work with
      | handleDeadLetter => exact ⟨h.workerRouter, hheld.erase j⟩
      | _ => exact ⟨hsame, hheld.set j hnew⟩
  | finish j up =>
    simp only [system, Serving.step]
    split
    · unfold Serving.finish
      repeat' split
      · exact ⟨h.workerRouter, hheld.erase j⟩
      · exact ⟨h.workerRouter, hheld.set j fun backend hb => by cases hb⟩
      · exact ⟨h.workerRouter, hheld.erase j⟩
    · exact ⟨h.workerRouter, hheld⟩
  | timeout j up =>
    simp only [system, Serving.step]
    split
    · exact ⟨h.workerRouter, hheld⟩
    · exact ⟨h.workerRouter, hheld⟩
    · exact ⟨h.workerRouter, hheld⟩
    · exact ⟨h.workerRouter, hheld.erase j⟩
  | crash j => exact ⟨h.workerRouter, hheld.erase j⟩

/-! The rows. -/

theorem not_isOriginal_variant {key : String} {task : TaskPayload}
    (hkey : key = Worker.thumbKey task ∨ key = Worker.webpKey task) : ¬ IsOriginal key := by
  rintro ⟨user, name, hlen, rfl⟩
  rcases hkey with hkey | hkey
  · rw [thumbKey_eq] at hkey
    exact length_variant _ _ (sourceKey_injective hkey ▸ hlen)
  · rw [webpKey_eq] at hkey
    exact length_variant _ _ (sourceKey_injective hkey ▸ hlen)

theorem KeysOf.isOriginal {r : Image} (h : KeysOf r) : IsOriginal r.storageKey :=
  ⟨_, _, h.keyLength, h.storageKey⟩

theorem KeysOf.setReady {r : Image} (h : KeysOf r) (task : TaskPayload) (size : ℤ × ℤ)
    (thumbWritten webpWritten : Bool) :
    KeysOf (Worker.setReady worker task size thumbWritten webpWritten r) := by
  refine ⟨h.storageKey, h.keyLength, fun key hkey => @not_isOriginal_variant key task ?_⟩
  cases thumbWritten <;> cases webpWritten <;>
    simp only [Worker.setReady, Worker.someIf, Bool.false_eq_true, if_true, if_false,
      Option.toList_none, Option.toList_some, List.append_nil, List.nil_append, List.cons_append,
      List.mem_cons, List.not_mem_nil, or_false] at hkey
  · exact .inr hkey
  · exact .inl hkey
  · exact hkey

variable (deps worker) in
/-- The rows after a step of an upload or of the worker. -/
theorem keysOf_step {s : Service.State J Img} (h : Local dir order s) (a : Serving.Action) :
    ∀ r ∈ (Service.step deps worker s (.serving a)).images.rows, KeysOf r := by
  have heffect := Service.serving_effect deps worker s.system a
  intro r hr
  change r ∈ (Serving.step deps worker s.system a).uploads.stores.images.rows at hr
  generalize (Serving.step deps worker s.system a).uploads.stores.images = images at heffect hr
  generalize (Serving.step deps worker s.system a).uploads.stores.objects = objects at heffect
  cases heffect with
  | same | wrote => exact h.rows r hr
  | inserted hat hdb hins =>
    rcases (Table.mem_of_insert hins).mp hr with hr | rfl
    · exact h.rows r hr
    · obtain ⟨-, -, hlen, hkey⟩ := h.pipelines _ _ _ _ _ hat
      exact ⟨hkey, hlen, fun key hkey => absurd hkey List.not_mem_nil⟩
  | processed hj hobjects himages =>
    rcases himages with rfl | ⟨size, thumbWritten, webpWritten, rfl⟩
    · exact h.rows r hr
    · rcases Table.mem_update_iff.mp hr with ⟨hr, -⟩ | ⟨q, hq, -, rfl⟩
      · exact h.rows r hr
      · exact (h.rows q hq).setReady _ _ _ _
  | failed hj =>
    rcases Table.mem_update_iff.mp hr with ⟨hr, -⟩ | ⟨q, hq, -, rfl⟩
    · exact h.rows r hr
    · exact ⟨(h.rows q hq).storageKey, (h.rows q hq).keyLength, (h.rows q hq).variants⟩

/-- The rows of a deletion's next stage are in the directory, too. -/
theorem deletion_step {s : Service.State J Img} (h : Local dir order s) {i : ℕ}
    {inp : Deletion.Input} {request : Deletion.Request} {stage : Deletion.Stage}
    (hi : s.deletions[i]? = some (request, stage)) {storage : Backend} {keys : List String}
    {rest : List BatchDelete.DeleteTarget}
    (hstage : (Deletion.advance s.router inp request stage s.store).1 = .clean storage keys rest) :
    storage = dir.backend := by
  have hnext : ∀ targets, Deletion.nextTarget s.router targets = .clean storage keys rest →
      storage = dir.backend := by
    intro targets htargets
    cases targets with
    | nil => cases htargets
    | cons t targets =>
      cases htargets
      rw [h.router, forBackend_router]
  have hevict : ∀ ids reply, Deletion.nextEvict ids reply ≠ .clean storage keys rest := by
    intro ids reply
    unfold Deletion.nextEvict
    split <;> exact fun heq => by cases heq
  have heffect := Deletion.effect s.router inp request stage s.store
  have hold := h.deletions _ (List.mem_of_getElem? hi)
  generalize Deletion.advance s.router inp request stage s.store = next at heffect hstage
  cases heffect with
  | select htargets => exact hnext _ hstage
  | skip => exact hnext _ hstage
  | clean =>
    dsimp only at hstage
    split at hstage
    · exact hnext _ hstage
    · cases hstage
      exact hold _ _ _ rfl
  | remove | evict => exact absurd hstage (hevict _ _)
  | refuse | fail | finish | idle => cases hstage

variable (deps worker) in
/-- The requests and the stores after a step of an upload or of the worker. -/
theorem uploads_local {s : Service.State J Img} (h : Local dir order s) (a : Serving.Action) :
    let uploads := (Serving.step deps worker s.system a).uploads
    uploads.stores.router = dir.router order ∧
    uploads.stores.configs = s.system.uploads.stores.configs ∧
    ∀ i b ctx config p, At uploads.requests i b ctx config p →
      config.provider = "local" ∧ InDirectory dir ctx p := by
  intro uploads
  by_cases hsubmit : ∃ ctx, a = .submit ctx
  · obtain ⟨ctx, rfl⟩ := hsubmit
    exact ⟨h.router, rfl, fun i b ctx' config p hat => h.pipelines i b ctx' config p hat.of_submit⟩
  by_cases hadvance : ∃ i b inp, a = .advance i b inp
  · obtain ⟨i, b, inp, rfl⟩ := hadvance
    have hlocal := fun i b ctx config p hat => (h.pipelines i b ctx config p hat).1
    exact ⟨(router_advance h.router hlocal i b inp).trans h.router, configs_advance deps _ i b inp,
      fun _ _ _ _ _ hat => inDirectory_advance h hat⟩
  · obtain ⟨hrequests, hrouter, hconfigs⟩ := Service.uploads_step deps worker s.system
      (fun ctx heq => hsubmit ⟨ctx, heq⟩) (fun i b inp heq => hadvance ⟨i, b, inp, heq⟩)
    refine ⟨hrouter.trans h.router, hconfigs, ?_⟩
    simp only [uploads, hrequests]
    exact h.pipelines

theorem Local.step {s : Service.State J Img} (h : Local dir order s) (a : Service.Action) :
    Local dir order (Service.step deps worker s a) := by
  cases a with
  | serving a =>
    obtain ⟨hrouter, hconfigs, hpipelines⟩ := uploads_local deps worker h a
    obtain ⟨hworker, hheld⟩ := worker_step deps worker h a
    refine ⟨hrouter, hworker, ?_, hpipelines, hheld, keysOf_step deps worker h a, h.deletions⟩
    intro c hc
    apply h.configs c
    rw [← hconfigs]
    exact hc
  | delete request =>
    refine ⟨h.router, h.workerRouter, h.configs, h.pipelines, h.held, h.rows, fun d hd => ?_⟩
    rcases List.mem_append.mp hd with hd | hd
    · exact h.deletions d hd
    · rw [List.mem_singleton.mp hd]
      exact fun _ _ _ hstage => by cases hstage
  | deletion i inp =>
    simp only [Service.step]
    split
    · exact h
    · rename_i request stage hi
      refine ⟨h.router, h.workerRouter, h.configs, h.pipelines, h.held,
        fun r hr => h.rows r (Deletion.mem_of_advance hr), fun d hd => ?_⟩
      rcases List.mem_or_eq_of_mem_set hd with hd | rfl
      · exact h.deletions d hd
      · exact fun _ _ _ hstage => deletion_step h hi hstage
  | expire key =>
    exact ⟨h.router, h.workerRouter, h.configs, h.pipelines, h.held, h.rows, h.deletions⟩

/-! The files. -/

theorem HasDigest.of_eq {objects objects' : Objects} {key digest : String}
    (h : HasDigest deps dir objects key digest)
    (heq : objects' (locate dir key) = objects (locate dir key)) :
    HasDigest deps dir objects' key digest := by
  obtain ⟨bytes, hbytes, hdigest⟩ := h
  exact ⟨bytes, heq.trans hbytes, hdigest⟩

/-- A write is seen under its own key only. -/
theorem update_of_key_ne {objects : Objects} {key key' : String} {data : Option Bytes}
    (h : key' ≠ key) :
    Function.update objects (locate dir key) data (locate dir key') =
      objects (locate dir key') :=
  Function.update_of_ne (fun heq => h (dir.backend.locate_injective heq)) ..

theorem HoldsFile.mem_drawnFiles {requests : List Request} {i b : ℕ} {file : String}
    (h : HoldsFile requests i b file) : file ∈ drawnFiles requests := by
  obtain ⟨ctx, config, p, ⟨seen, branches, hreq, hb⟩, hfile⟩ := h
  refine List.mem_flatMap.mpr ⟨_, List.mem_of_getElem? hreq, ?_⟩
  exact List.mem_filterMap.mpr ⟨_, List.mem_of_getElem? hb, hfile⟩

theorem draws_of_at {requests : List Request} {i b : ℕ} {ctx : UploadCtx}
    {config : UserStorageConfig} {backend : Backend}
    (h : At requests i b ctx config (.generatePublicKey backend)) (draw : ℕ) :
    draws requests i b draw = some (sourceKey ctx.user.id (publicKeyOf draw)) := by
  obtain ⟨seen, branches, hreq, hb⟩ := h
  simp only [draws, hreq, hb]

section Steps

variable {requests requests' : List Request}
  {deletions : List (Deletion.Request × Deletion.Stage)} {images images' : ImageTable}
  {objects : Objects}

/-- A file that a pipeline has drawn a key for is an original. -/
theorem HoldsFile.isOriginal {i b : ℕ} {file : String} (h : HoldsFile requests i b file)
    (hin : ∀ i b ctx config p, At requests i b ctx config p → InDirectory dir ctx p) :
    IsOriginal file := by
  obtain ⟨ctx, config, p, hat, hfile⟩ := h
  have hp := hin _ _ _ _ _ hat
  cases p with
  | writeToStorage =>
    cases hfile
    exact ⟨_, _, hp.2, rfl⟩
  | insertImageRecord =>
    cases hfile
    exact ⟨_, _, hp.2.1, rfl⟩
  | _ => cases hfile

/-- The pipelines move on; a key is drawn for a file that is free only. -/
theorem Intact.restage (h : Intact deps dir requests deletions images objects) {i b : ℕ}
    (hholds : ∀ i' b' file, HoldsFile requests' i' b' file → HoldsFile requests i' b' file ∨
      (i' = i ∧ b' = b) ∧ Free requests deletions images file)
    (hwritten : ∀ i b ctx config backend publicKey storageKey url,
      At requests' i b ctx config (.insertImageRecord backend publicKey storageKey url) →
      objects (locate dir storageKey) = some ctx.bytes) :
    Intact deps dir requests' deletions images objects where
  held i₁ b₁ i₂ b₂ file h₁ h₂ := by
    rcases hholds _ _ _ h₁ with h₁ | ⟨h₁, hfree₁⟩ <;>
      rcases hholds _ _ _ h₂ with h₂ | ⟨h₂, hfree₂⟩
    · exact h.held _ _ _ _ _ h₁ h₂
    · exact absurd h₁ (hfree₂.unheld _ _)
    · exact absurd h₂ (hfree₁.unheld _ _)
    · exact ⟨h₁.1.trans h₂.1.symm, h₁.2.trans h₂.2.symm⟩
  fresh i' b' file hheld :=
    (hholds _ _ _ hheld).elim (h.fresh i' b' file) fun hfree => hfree.2.noRow
  pending d hd file hfile := by
    obtain ⟨hunheld, hrows⟩ := h.pending d hd file hfile
    refine ⟨fun i' b' hheld => ?_, hrows⟩
    rcases hholds _ _ _ hheld with hheld | ⟨-, hfree⟩
    · exact hunheld _ _ hheld
    · exact hfree.notPending d hd hfile
  written := hwritten
  rows := h.rows

/-- Something happens to an object that is neither a row's nor about to be one. -/
theorem Intact.put (h : Intact deps dir requests deletions images objects) {file : String}
    {data : Option Bytes} (hrows : ∀ r ∈ images.rows, r.storageKey ≠ file)
    (hwritten : ∀ i b ctx config backend publicKey storageKey url,
      At requests i b ctx config (.insertImageRecord backend publicKey storageKey url) →
      storageKey ≠ file) :
    Intact deps dir requests deletions images
      (Function.update objects (locate dir file) data) where
  held := h.held
  fresh := h.fresh
  pending := h.pending
  written _ _ _ _ _ _ _ _ hat :=
    (update_of_key_ne (hwritten _ _ _ _ _ _ _ _ hat)).trans (h.written _ _ _ _ _ _ _ _ hat)
  rows r hr := (h.rows r hr).imp_right fun hdigest => hdigest.of_eq (update_of_key_ne (hrows r hr))

/-- Rows stay what they are served by, or go. -/
theorem Intact.sameSource (h : Intact deps dir requests deletions images objects)
    (hold : ∀ r' ∈ images'.rows, ∃ r ∈ images.rows, SameSource r r') :
    Intact deps dir requests deletions images' objects where
  held := h.held
  fresh i b file hheld r' hr' := by
    obtain ⟨r, hr, hsame⟩ := hold r' hr'
    rw [hsame.storageKey]
    exact h.fresh i b file hheld r hr
  pending d hd file hfile := by
    obtain ⟨hunheld, hrows⟩ := h.pending d hd file hfile
    refine ⟨hunheld, fun r' hr' hkey => ?_⟩
    obtain ⟨r, hr, hsame⟩ := hold r' hr'
    rw [Deletion.deletes_iff, hsame.id, ← Deletion.deletes_iff]
    exact hrows r hr (hsame.storageKey.symm.trans hkey)
  written := h.written
  rows r' hr' := by
    obtain ⟨r, hr, hsame⟩ := hold r' hr'
    rw [hsame.storageKey, hsame.sha256]
    refine (h.rows r hr).imp_left ?_
    rintro ⟨d, hd, hselected, hdeletes⟩
    refine ⟨d, hd, hselected, ?_⟩
    rwa [Deletion.deletes_iff, hsame.id, ← Deletion.deletes_iff]

/-- The row of a file that is nobody's. -/
theorem Intact.insert (h : Intact deps dir requests deletions images objects) {r : Image}
    (hins : images.insert r = some images') (hunheld : ∀ i b, ¬ HoldsFile requests i b r.storageKey)
    (hpending : ∀ d ∈ deletions, r.storageKey ∉ pendingFiles d.2)
    (hdigest : HasDigest deps dir objects r.storageKey r.sha256) :
    Intact deps dir requests deletions images' objects where
  held := h.held
  fresh i b file hheld q hq := by
    rcases (Table.mem_of_insert hins).mp hq with hq | rfl
    · exact h.fresh i b file hheld q hq
    · rintro rfl
      exact hunheld i b hheld
  pending d hd file hfile := by
    obtain ⟨hfree, hrows⟩ := h.pending d hd file hfile
    refine ⟨hfree, fun q hq hkey => ?_⟩
    rcases (Table.mem_of_insert hins).mp hq with hq | rfl
    · exact hrows q hq hkey
    · exact absurd (hkey ▸ hfile) (hpending d hd)
  written := h.written
  rows q hq := by
    rcases (Table.mem_of_insert hins).mp hq with hq | rfl
    · exact h.rows q hq
    · exact .inr hdigest

/-! What an upload does. -/

/-- Pipeline `b` of request `i` has moved to `p'`, and no other. -/
structure Moved (requests requests' : List Request) (i b : ℕ) (ctx : UploadCtx)
    (config : UserStorageConfig) (p p' : Pipeline) : Prop where
  before : At requests i b ctx config p
  after : ∀ i' b' ctx' config' q, At requests' i' b' ctx' config' q →
    ¬ (i' = i ∧ b' = b) ∧ At requests i' b' ctx' config' q ∨
      (i' = i ∧ b' = b) ∧ ctx' = ctx ∧ q = p'

variable (deps) in
/-- A call moves one pipeline, or none. -/
theorem advance_moved (w : World) (i b : ℕ) (inp : Input) :
    ((w.advance deps i b inp).stores = w.stores ∧ ∀ i' b' ctx config p,
      At (w.advance deps i b inp).requests i' b' ctx config p →
        At w.requests i' b' ctx config p ∨ p = .dedupExists) ∨
    ∃ ctx config p p', Moved w.requests (w.advance deps i b inp).requests i b ctx config p p' ∧
      Call deps ctx config inp p w.stores p' (w.advance deps i b inp).stores := by
  rcases w.advance_cases deps i b inp with
    ⟨-, hsame⟩ | ⟨ctx, stage, stage', s', hreq, hadvance, hnext⟩
  · rw [hsame]
    exact .inl ⟨rfl, fun _ _ _ _ _ hat => .inl hat⟩
  · rw [hnext]
    cases hadvance with
    | rejected | checked =>
      refine .inl ⟨rfl, fun i' b' ctx' config p hat => ?_⟩
      rcases hat.of_set with ⟨-, hat⟩ | ⟨-, -, seen, branches, hstage, -⟩
      · exact .inl hat
      · cases hstage
    | started =>
      refine .inl ⟨rfl, fun i' b' ctx' config p hat => ?_⟩
      rcases hat.of_set with ⟨-, hat⟩ | ⟨-, -, seen, branches, hstage, hb⟩
      · exact .inl hat
      · cases hstage
        obtain ⟨c, -, heq⟩ := List.mem_map.mp (List.mem_of_getElem? hb)
        cases heq
        exact .inr rfl
    | idle =>
      refine .inl ⟨rfl, fun i' b' ctx' config p hat => ?_⟩
      rcases hat.of_set with ⟨-, hat⟩ | ⟨rfl, rfl, seen, branches, rfl, hb⟩
      · exact .inl hat
      · exact .inl ⟨seen, branches, hreq, hb⟩
    | moved hb hcall =>
      rename_i seen branches config p p'
      refine .inr ⟨ctx, config, p, p', ⟨⟨seen, branches, hreq, hb⟩, ?_⟩, hcall⟩
      intro i' b' ctx' config' q hat
      rcases hat.of_set with ⟨hi, hat⟩ | ⟨rfl, rfl, seen', branches', hstage, hb'⟩
      · exact .inl ⟨fun heq => hi heq.1, hat⟩
      rcases settle_cases seen (branches.set b (config, p')) with ⟨hrun, -⟩ | ⟨results, hdone, -⟩
      · rw [hrun] at hstage
        cases hstage
        by_cases hbb : b' = b
        · subst hbb
          rw [List.getElem?_set_self', hb] at hb'
          cases hb'
          exact .inr ⟨⟨rfl, rfl⟩, rfl, rfl⟩
        · rw [List.getElem?_set_ne (Ne.symm hbb)] at hb'
          exact .inl ⟨fun heq => hbb heq.2, _, _, hreq, hb'⟩
      · rw [hdone] at hstage
        cases hstage

section Move

variable {i b : ℕ} {ctx : UploadCtx} {config : UserStorageConfig} {p p' : Pipeline}

theorem Moved.holdsFile (hm : Moved requests requests' i b ctx config p p') {i' b' : ℕ}
    {file : String} (h : HoldsFile requests' i' b' file) :
    ¬ (i' = i ∧ b' = b) ∧ HoldsFile requests i' b' file ∨
      (i' = i ∧ b' = b) ∧ Pipeline.drawnFile ctx.user.id p' = some file := by
  obtain ⟨ctx', config', q, hat, hfile⟩ := h
  rcases hm.after _ _ _ _ _ hat with ⟨hne, hat⟩ | ⟨heq, rfl, rfl⟩
  · exact .inl ⟨hne, _, _, _, hat, hfile⟩
  · exact .inr ⟨heq, hfile⟩

/-- A pipeline that moves on without a file. -/
theorem Intact.moved (h : Intact deps dir requests deletions images objects)
    (hm : Moved requests requests' i b ctx config p p')
    (hp' : Pipeline.drawnFile ctx.user.id p' = none) :
    Intact deps dir requests' deletions images objects := by
  refine h.restage (i := i) (b := b) (fun i' b' file hheld => ?_) ?_
  · rcases hm.holdsFile hheld with ⟨-, hheld⟩ | ⟨-, hfile⟩
    · exact .inl hheld
    · cases hp'.symm.trans hfile
  · intro i' b' ctx' config' backend publicKey storageKey url hat
    rcases hm.after _ _ _ _ _ hat with ⟨-, hat⟩ | ⟨-, -, rfl⟩
    · exact h.written _ _ _ _ _ _ _ _ hat
    · cases hp'

/-- A pipeline writes to its file, all of it or a part. -/
theorem Intact.write (h : Intact deps dir requests deletions images objects) {backend : Backend}
    {publicKey : String} (hat : At requests i b ctx config (.writeToStorage backend publicKey))
    (hin : ∀ i b ctx config p, At requests i b ctx config p → InDirectory dir ctx p)
    (data : Bytes) :
    Intact deps dir requests deletions images
      (Function.update objects (locate dir (sourceKey ctx.user.id publicKey)) (some data)) := by
  have hholds : HoldsFile requests i b (sourceKey ctx.user.id publicKey) := ⟨_, _, _, hat, rfl⟩
  apply h.put (h.fresh i b _ hholds)
  rintro i' b' ctx' config' backend' publicKey' storageKey' url' hat' rfl
  obtain ⟨-, -, hkey⟩ := hin _ _ _ _ _ hat'
  obtain ⟨rfl, rfl⟩ := h.held i' b' i b _ ⟨_, _, _, hat', congrArg some hkey.symm⟩ hholds
  exact not_at_two hat hat' (by simp)

/-- A call of a pipeline that draws a key for a free file, if it draws one. -/
theorem Intact.call {w : World} {s' : Stores} {inp : Input}
    (h : Intact deps dir w.requests deletions w.stores.images w.stores.objects)
    (hm : Moved w.requests requests' i b ctx config p p')
    (hin : ∀ i b ctx config p, At w.requests i b ctx config p → InDirectory dir ctx p)
    (hdraw : ∀ backend, p = .generatePublicKey backend →
      (∀ r ∈ w.stores.images.rows, r.publicKey ≠ publicKeyOf inp.draw) →
      Free w.requests deletions w.stores.images (sourceKey ctx.user.id (publicKeyOf inp.draw)))
    (hcall : Call deps ctx config inp p w.stores p' s') :
    Intact deps dir requests' deletions s'.images s'.objects := by
  have hpIn := hin _ _ _ _ _ hm.before
  cases hcall with
  | keyFree hk =>
    refine h.restage (i := i) (b := b) (fun i' b' file hheld => ?_) ?_
    · rcases hm.holdsFile hheld with ⟨-, hheld⟩ | ⟨heq, hfile⟩
      · exact .inl hheld
      · cases hfile
        exact .inr ⟨heq, hdraw _ rfl hk⟩
    · intro i' b' ctx' config' backend publicKey storageKey url hat
      rcases hm.after _ _ _ _ _ hat with ⟨-, hat⟩ | ⟨-, -, heq⟩
      · exact h.written _ _ _ _ _ _ _ _ hat
      · cases heq
  | written hkey =>
    obtain ⟨rfl, hlen⟩ := hpIn
    have hstored : _ = sourceKey ctx.user.id _ := hkey
    rw [hstored] at hm ⊢
    refine (h.write hm.before hin ctx.bytes).restage (i := i) (b := b)
      (fun i' b' file hheld => ?_) ?_
    · rcases hm.holdsFile hheld with ⟨-, hheld⟩ | ⟨⟨rfl, rfl⟩, hfile⟩
      · exact .inl hheld
      · exact .inl ⟨_, _, _, hm.before, hfile⟩
    · intro i' b' ctx' config' backend publicKey storageKey url hat
      rcases hm.after _ _ _ _ _ hat with ⟨-, hat⟩ | ⟨-, rfl, heq⟩
      · exact (h.write hm.before hin ctx.bytes).written _ _ _ _ _ _ _ _ hat
      · cases heq
        exact Function.update_self ..
  | cut =>
    obtain ⟨rfl, -⟩ := hpIn
    exact (h.write hm.before hin _).moved hm rfl
  | inserted hdb hins =>
    obtain ⟨rfl, -, hkey⟩ := hpIn
    have hholds : HoldsFile w.requests i b _ := ⟨_, _, _, hm.before, congrArg some hkey.symm⟩
    refine (h.moved hm rfl).insert hins (fun i' b' hheld => ?_) (fun d hd hpending => ?_)
      ⟨ctx.bytes, h.written _ _ _ _ _ _ _ _ hm.before, rfl⟩
    · rcases hm.holdsFile hheld with ⟨hne, hheld⟩ | ⟨-, hfile⟩
      · exact hne (h.held _ _ _ _ _ hheld hholds)
      · cases hfile
    · exact (h.pending d hd _ hpending).1 i b hholds
  | found | notFound | fetched | resolved | keyTaken | enqueued | notEnqueued | refused | idle =>
    exact h.moved hm rfl

end Move

theorem Intact.advance {w : World} {i b : ℕ} {inp : Input}
    (h : Intact deps dir w.requests deletions w.stores.images w.stores.objects)
    (hrows : ∀ r ∈ w.stores.images.rows, KeysOf r)
    (hin : ∀ i b ctx config p, At w.requests i b ctx config p → InDirectory dir ctx p)
    (hapart : ∀ file ∈ draws w.requests i b inp.draw,
      file ∉ drawnFiles w.requests ∧ ∀ d ∈ deletions, file ∉ pendingFiles d.2) :
    Intact deps dir (w.advance deps i b inp).requests deletions
      (w.advance deps i b inp).stores.images (w.advance deps i b inp).stores.objects := by
  rcases advance_moved deps w i b inp with ⟨hstores, hat⟩ | ⟨ctx, config, p, p', hm, hcall⟩
  · rw [hstores]
    refine h.restage (i := i) (b := b) (fun i' b' file hheld => ?_) ?_
    · obtain ⟨ctx, config, p, hp, hfile⟩ := hheld
      rcases hat _ _ _ _ _ hp with hp | rfl
      · exact .inl ⟨_, _, _, hp, hfile⟩
      · cases hfile
    · intro i' b' ctx config backend publicKey storageKey url hp
      rcases hat _ _ _ _ _ hp with hp | heq
      · exact h.written _ _ _ _ _ _ _ _ hp
      · cases heq
  · refine h.call hm hin ?_ hcall
    rintro backend rfl hfree
    obtain ⟨hunheld, hpending⟩ := hapart _ (draws_of_at hm.before inp.draw)
    refine ⟨fun i' b' hheld => hunheld hheld.mem_drawnFiles, hpending, fun r hr hkey => ?_⟩
    -- `generate_public_key` has found no row with the key
    rw [(hrows r hr).storageKey] at hkey
    exact hfree r hr (sourceKey_injective hkey)

/-! What a deletion does. -/

theorem beingDeleted_set {i : ℕ} {request : Deletion.Request} {stage : Deletion.Stage}
    (hi : deletions[i]? = some (request, stage)) (stage' : Deletion.Stage) {r : Image}
    (h : BeingDeleted deletions r) :
    BeingDeleted (deletions.set i (request, stage')) r ∨
      selected stage = true ∧ request.deletes r = true := by
  obtain ⟨d, hd, hselected, hdeletes⟩ := h
  obtain ⟨j, hj⟩ := List.mem_iff_getElem?.mp hd
  by_cases hij : i = j
  · subst hij
    cases hi.symm.trans hj
    exact .inr ⟨hselected, hdeletes⟩
  · exact .inl ⟨d, List.mem_of_getElem? (i := j) (by rwa [List.getElem?_set_ne hij]), hselected,
      hdeletes⟩

theorem mem_set_self {i : ℕ} {d : Deletion.Request × Deletion.Stage} (hi : deletions[i]? = some d)
    (d' : Deletion.Request × Deletion.Stage) : d' ∈ deletions.set i d' :=
  List.mem_of_getElem? (i := i) (List.getElem?_set_self (List.getElem?_eq_some_iff.mp hi).1)

/-- A deletion moves on. -/
theorem Intact.setStage (h : Intact deps dir requests deletions images objects) {i : ℕ}
    {request : Deletion.Request} {stage stage' : Deletion.Stage}
    (hi : deletions[i]? = some (request, stage))
    (hpending : ∀ file ∈ pendingFiles stage', (∀ i b, ¬ HoldsFile requests i b file) ∧
      ∀ r ∈ images.rows, r.storageKey = file → request.deletes r = true)
    (hselected : ∀ r ∈ images.rows, selected stage = true → request.deletes r = true →
      selected stage' = true) :
    Intact deps dir requests (deletions.set i (request, stage')) images objects where
  held := h.held
  fresh := h.fresh
  pending d hd file hfile := by
    rcases List.mem_or_eq_of_mem_set hd with hd | rfl
    · exact h.pending d hd file hfile
    · exact hpending file hfile
  written := h.written
  rows r hr := by
    rcases h.rows r hr with hdeleted | hdigest
    · rcases beingDeleted_set hi stage' hdeleted with hdeleted | ⟨hsel, hdeletes⟩
      · exact .inl hdeleted
      · exact .inl ⟨_, mem_set_self hi _, hselected r hr hsel hdeletes, hdeletes⟩
    · exact .inr hdigest

/-- The files a deletion has selected are those of rows it deletes. -/
theorem Intact.targets (h : Intact deps dir requests deletions images objects)
    (hrows : ∀ r ∈ images.rows, KeysOf r)
    (hin : ∀ i b ctx config p, At requests i b ctx config p → InDirectory dir ctx p)
    {request : Deletion.Request} {up : Bool} {targets : List BatchDelete.DeleteTarget}
    (htargets : request.targets up images = .ok targets) {file : String}
    (hfile : file ∈ targets.flatMap Deletion.keysOf) :
    (∀ i b, ¬ HoldsFile requests i b file) ∧
      ∀ r ∈ images.rows, r.storageKey = file → request.deletes r = true := by
  obtain ⟨t, ht, hkey⟩ := List.mem_flatMap.mp hfile
  obtain ⟨r, hr, hdeletes, rfl⟩ := Deletion.mem_targets htargets ht
  rcases List.mem_cons.mp hkey with rfl | hvariant
  · refine ⟨fun i b hheld => h.fresh i b _ hheld r hr rfl, fun q hq hsame => ?_⟩
    have hpublic : q.publicKey = r.publicKey := by
      have hstored : q.storageKey = r.storageKey := hsame
      rw [(hrows q hq).storageKey, (hrows r hr).storageKey] at hstored
      exact sourceKey_injective hstored
    rwa [ImageTable.eq_of_publicKey hq hr hpublic]
  · have hno := (hrows r hr).variants file hvariant
    refine ⟨fun i b hheld => hno (hheld.isOriginal hin), fun q hq hsame => ?_⟩
    exact absurd (hsame ▸ (hrows q hq).isOriginal) hno

/-- A deletion deletes a file it has selected. -/
theorem Intact.deleteFile (h : Intact deps dir requests deletions images objects)
    (hin : ∀ i b ctx config p, At requests i b ctx config p → InDirectory dir ctx p)
    {d : Deletion.Request × Deletion.Stage} (hd : d ∈ deletions) (hselected : selected d.2 = true)
    {file : String} (hfile : file ∈ pendingFiles d.2) (fault : Option String) :
    Intact deps dir requests deletions images (dir.backend.delete fault file objects).2 where
  held := h.held
  fresh := h.fresh
  pending := h.pending
  written i b ctx config backend publicKey storageKey url hat := by
    refine (Backend.delete_of_ne _ _ _ _ fun heq => ?_).trans (h.written _ _ _ _ _ _ _ _ hat)
    obtain rfl := dir.backend.locate_injective heq
    obtain ⟨-, -, hkey⟩ := hin _ _ _ _ _ hat
    exact (h.pending d hd _ hfile).1 i b ⟨_, _, _, hat, congrArg some hkey.symm⟩
  rows r hr := by
    by_cases hkey : r.storageKey = file
    · exact .inl ⟨d, hd, hselected, (h.pending d hd file hfile).2 r hr hkey⟩
    · refine (h.rows r hr).imp_right fun hdigest => hdigest.of_eq ?_
      exact Backend.delete_of_ne _ _ _ _ fun heq => hkey (dir.backend.locate_injective heq)

end Steps

theorem pendingFiles_nextTarget (router : StorageRouter) (rest : List BatchDelete.DeleteTarget) :
    pendingFiles (Deletion.nextTarget router rest) = rest.flatMap Deletion.keysOf := by
  cases rest <;> rfl

theorem selected_nextTarget (router : StorageRouter) (rest : List BatchDelete.DeleteTarget) :
    selected (Deletion.nextTarget router rest) = true := by
  cases rest <;> rfl

theorem pendingFiles_nextEvict (ids : List Uuid) (reply : Deletion.Reply) :
    pendingFiles (Deletion.nextEvict ids reply) = [] := by
  unfold Deletion.nextEvict
  split <;> rfl

theorem intact_deletion {s : Service.State J Img} (hl : Local dir order s)
    (h : State.Intact deps dir s) {i : ℕ} {inp : Deletion.Input}
    (hapart : KeysApart s (.deletion i inp)) :
    State.Intact deps dir (Service.step deps worker s (.deletion i inp)) := by
  cases hi : s.deletions[i]? with
  | none =>
    simp only [Service.step, hi]
    exact h
  | some d =>
    obtain ⟨request, stage⟩ := d
    have hin := fun i b ctx config p hat => (hl.pipelines i b ctx config p hat).2
    have hmem := List.mem_of_getElem? hi
    have hpending := h.pending _ hmem
    have hstorage := hl.deletions _ hmem
    have hkept := hapart _ hi
    simp only [Service.step, hi]
    show Intact deps dir s.system.uploads.requests (s.deletions.set i _) _ _
    have heffect := Deletion.effect s.router inp request stage s.store
    generalize Deletion.advance s.router inp request stage s.store = next at heffect ⊢
    cases heffect with
    | select htargets =>
      refine h.setStage hi (fun file hfile => ?_) fun r hr hsel => by cases hsel
      rw [pendingFiles_nextTarget] at hfile
      exact h.targets hl.rows hin htargets hfile
    | refuse =>
      exact h.setStage hi (fun file hfile => by cases hfile) fun r hr hsel => by cases hsel
    | skip =>
      refine h.setStage hi (fun file hfile => ?_) fun r hr _ _ => selected_nextTarget _ _
      rw [pendingFiles_nextTarget] at hfile
      exact hpending file hfile
    | clean =>
      rename_i storage key keys rest
      obtain rfl := hstorage storage (key :: keys) rest rfl
      refine (h.deleteFile hin hmem rfl List.mem_cons_self inp.storageFault).setStage hi
        (fun file hfile => hpending file ?_) fun r hr _ _ => ?_
      · apply List.mem_cons_of_mem key
        split at hfile
        · rename_i hkeys
          rw [pendingFiles_nextTarget] at hfile
          rw [hkeys]
          exact hfile
        · exact hfile
      · split
        · exact selected_nextTarget _ _
        · rfl
    -- the files are gone by now, and the rows that named them go with this statement
    | remove hdb =>
      have hrest : Intact deps dir s.system.uploads.requests s.deletions
          (s.images.delete request.deletes) s.objects :=
        h.sameSource fun r hr => ⟨r, (Table.mem_delete.mp hr).1, .refl r⟩
      refine hrest.setStage hi (fun file hfile => ?_) fun r hr _ hdeletes => ?_
      · rw [pendingFiles_nextEvict] at hfile
        cases hfile
      · cases hdeletes.symm.trans (Table.mem_delete.mp hr).2
    | fail hdb => cases hdb.symm.trans (hkept rfl)
    | evict =>
      refine h.setStage hi (fun file hfile => ?_) fun r hr hsel => by cases hsel
      rw [pendingFiles_nextEvict] at hfile
      cases hfile
    | finish =>
      exact h.setStage hi (fun file hfile => by cases hfile) fun r hr hsel => by cases hsel
    | idle => exact h.setStage hi (fun file hfile => by cases hfile) fun r hr hsel => by cases hsel

/-! What the worker does. -/

theorem intact_worker {s : Service.State J Img} (hl : Local dir order s)
    (h : State.Intact deps dir s) {a : Serving.Action}
    (hadvance : ∀ i b inp, a ≠ .advance i b inp) :
    State.Intact deps dir (Service.step deps worker s (.serving a)) := by
  by_cases hsubmit : ∃ ctx, a = .submit ctx
  · obtain ⟨ctx, rfl⟩ := hsubmit
    refine h.restage (i := 0) (b := 0) (fun i b file hheld => ?_) ?_
    · obtain ⟨ctx', config, p, hat, hfile⟩ := hheld
      exact .inl ⟨_, _, _, hat.of_submit, hfile⟩
    · exact fun _ _ _ _ _ _ _ _ hat => h.written _ _ _ _ _ _ _ _ hat.of_submit
  · have hrequests := (Service.uploads_step deps worker s.system
      (fun ctx heq => hsubmit ⟨ctx, heq⟩) hadvance).1
    have heffect := Service.serving_effect deps worker s.system a
    show Intact deps dir (Serving.step deps worker s.system a).uploads.requests s.deletions
      (Serving.step deps worker s.system a).uploads.stores.images
      (Serving.step deps worker s.system a).uploads.stores.objects
    rw [hrequests]
    generalize (Serving.step deps worker s.system a).uploads.stores.images = images at heffect ⊢
    generalize (Serving.step deps worker s.system a).uploads.stores.objects = objects at heffect ⊢
    cases heffect with
    | same => exact h
    | wrote | inserted => exact absurd rfl (hadvance _ _ _)
    | processed hj hobjects himages =>
      have hwritten : Intact deps dir s.system.uploads.requests s.deletions s.images objects := by
        rcases hobjects with rfl | ⟨backend, day, key, mime, data, hb, hkey, rfl⟩
        · exact h
        · obtain rfl := hl.held _ (List.mem_of_getElem? hj) backend hb
          have hno := not_isOriginal_variant hkey
          rw [Backend.storedKey_of_not_isGit rfl]
          refine h.put (fun r hr heq => hno (heq ▸ (hl.rows r hr).isOriginal)) ?_
          rintro i b ctx config backend publicKey storageKey url hat rfl
          obtain ⟨-, -, hlen, rfl⟩ := hl.pipelines _ _ _ _ _ hat
          exact hno ⟨_, _, hlen, rfl⟩
      rcases himages with rfl | ⟨size, thumbWritten, webpWritten, rfl⟩
      · exact hwritten
      · exact hwritten.sameSource (sameSource_update
          (setReady_sameSource _ size thumbWritten webpWritten) fun _ => rfl).2
    | failed hj => exact h.sameSource (sameSource_update setFailed_sameSource fun _ => rfl).2

theorem intact_step {s : Service.State J Img} (hl : Local dir order s)
    (h : State.Intact deps dir s) (a : Service.Action) (hapart : KeysApart s a) :
    State.Intact deps dir (Service.step deps worker s a) := by
  cases a with
  | serving a =>
    by_cases hadvance : ∃ i b inp, a = .advance i b inp
    · obtain ⟨i, b, inp, rfl⟩ := hadvance
      exact h.advance hl.rows (fun i b ctx config p hat => (hl.pipelines i b ctx config p hat).2)
        hapart
    · exact intact_worker hl h fun i b inp heq => hadvance ⟨i, b, inp, heq⟩
  | delete request =>
    refine ⟨h.held, h.fresh, fun d hd => ?_, h.written, fun r hr => (h.rows r hr).imp_left ?_⟩
    · rcases List.mem_append.mp hd with hd | hd
      · exact h.pending d hd
      · rw [List.mem_singleton.mp hd]
        exact fun file hfile => by cases hfile
    · rintro ⟨d, hd, hrest⟩
      exact ⟨d, List.mem_append_left _ hd, hrest⟩
  | deletion i inp => exact intact_deletion hl h hapart
  | expire key => exact h

theorem local_init {configs : ConfigTable} (hlocal : ∀ c ∈ configs.rows, c.provider = "local")
    (noop : Bool) :
    Local dir order (Service.init (dir.router order) (dir.router order) configs noop :
      Service.State J Img) where
  router := rfl
  workerRouter := rfl
  configs := hlocal
  pipelines := by
    rintro i b ctx config p ⟨seen, branches, hreq, -⟩
    cases hreq
  held _ hhold := absurd hhold List.not_mem_nil
  rows _ hr := absurd hr List.not_mem_nil
  deletions _ hd := absurd hd List.not_mem_nil

theorem intact_init (configs : ConfigTable) (noop : Bool) :
    State.Intact deps dir (Service.init (dir.router order) (dir.router order) configs noop :
      Service.State J Img) where
  held := by
    rintro i b i' b' file ⟨ctx, config, p, ⟨seen, branches, hreq, -⟩, -⟩
    cases hreq
  fresh _ _ _ _ _ hr := absurd hr List.not_mem_nil
  pending _ hd := absurd hd List.not_mem_nil
  written := by
    rintro i b ctx config backend publicKey storageKey url ⟨seen, branches, hreq, -⟩
    cases hreq
  rows _ hr := absurd hr List.not_mem_nil

variable (deps worker dir order) in
/-- The files of the images have the recorded digests in every state, apart from rows that are
being deleted, if no key is drawn that a pipeline of the user holds or whose file a deletion has
still to delete, and deletions get to their end. -/
theorem stored_digests {configs : ConfigTable}
    (hlocal : ∀ c ∈ configs.rows, c.provider = "local") (noop : Bool) (as : List Service.Action)
    (hapart : AllSteps (Service.step deps worker) KeysApart
      (Service.init (dir.router order) (dir.router order) configs noop : Service.State J Img) as) :
    AllStates (Service.step deps worker) (MatchingKept deps dir)
      (Service.init (dir.router order) (dir.router order) configs noop : Service.State J Img) as :=
  (allStates_of_guarded (J := fun s => Local dir order s ∧ State.Intact deps dir s)
    (fun _ a h hapart => ⟨h.1.step a, intact_step h.1 h.2 a hapart⟩)
    ⟨local_init hlocal noop, intact_init configs noop⟩ hapart).mono
    fun _ h r hr hkept => (h.2.rows r hr).resolve_left hkept

/-- Two uploads of a user at once, each under a key of its own; one of the images is deleted. -/
def apart : List Service.Action :=
  [.serving (.submit demoCtx), .serving (.submit { demoCtx with bytes := pngSignature ++ [4] })] ++
    List.flatten (List.replicate 8
      [.serving (.advance 0 0 (smoothInput 1 1)), .serving (.advance 1 0 (smoothInput 2 2))]) ++
    [.delete (.deleteImage demoCtx.user 1)] ++
    List.replicate 4 (.deletion 0 ⟨true, none, true⟩)

theorem stored_digests_apart :
    AllStates (Service.step smallDeps brokenWorker) (MatchingKept smallDeps dataDirectory)
      (Service.init (dataDirectory.router fun _ => 0) (dataDirectory.router fun _ => 0) .empty
        true : Service.State Unit Unit) apart :=
  stored_digests smallDeps brokenWorker dataDirectory (fun _ => 0)
    (fun _ hc => absurd hc List.not_mem_nil) true apart (by decide +kernel)

/-- Two uploads of a user draw one key; the second writes its file before the first has
inserted its row. -/
def overwritten : List Service.Action := overwrittenRun.map .serving

/-- The row of the first records the digest of its file; the file is the second's. -/
theorem stored_digests_differ :
    ¬ AllStates (Service.step smallDeps brokenWorker) (Matching smallDeps dataDirectory)
      (Service.init (dataDirectory.router fun _ => 0) (dataDirectory.router fun _ => 0) .empty
        true : Service.State Unit Unit) overwritten := by
  decide +kernel

end PicHost.StoredFiles
