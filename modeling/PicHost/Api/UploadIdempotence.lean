import PicHost.Api.UploadDedup

/-!
# Uploading the same bytes again

Any number of uploads of some bytes by one user to one configuration, whose calls interleave. The
lookup and the insertion of an upload are separate calls; the unique index lets one of two
insertions through.
-/

namespace PicHost.UploadIdempotence

open LabelledRun Upload UploadDedup KeyedTable

/-- An upload of the bytes, under its file name. -/
structure Sender where
  fileName : String
  pipeline : Pipeline

/-- The stores, and the uploads in the order they came in. -/
structure World where
  stores : Stores
  senders : List Sender

variable (deps : Deps) (ctx : UploadCtx) (config : UserStorageConfig)

/-- Sender `a.1` makes its next call. -/
def step (w : World) (a : ℕ × Input) : World :=
  match w.senders[a.1]? with
  | none => w
  | some u =>
    let (pipeline, stores) := uploadToSingleBackend deps { ctx with fileName := u.fileName } config
      a.2 u.pipeline w.stores
    ⟨stores, w.senders.set a.1 { u with pipeline }⟩

/-- The configuration resolves to a backend, the backend takes the file, and the identifier drawn
for the row is unused. -/
def callSucceeds (w : World) (a : ℕ × Input) : Bool :=
  match w.senders[a.1]?.map Sender.pipeline with
  | some .forConfig => (w.stores.router.forConfig deps.git config).1.isOk
  | some (.writeToStorage backend publicKey) =>
    (backend.put a.2.storageFault a.2.day (sourceKey ctx.user.id publicKey) ctx.bytes
      (detectMime deps ctx.bytes) w.stores.objects).1.isOk
  | some (.insertImageRecord _ _ _ _) => !w.stores.images.anyRow fun r => r.id == a.2.imageId
  | _ => true

/-- The database answers and the backend works. -/
def Healthy (w : World) (a : ℕ × Input) : Prop :=
  a.2.dbUp = true ∧ callSucceeds deps ctx config w a = true

instance (w : World) : DecidablePred (Healthy deps ctx config w) := fun _ =>
  inferInstanceAs (Decidable (_ ∧ _))

/-- Sender `a.1` draws a public key that is taken. -/
def keyTaken (w : World) (a : ℕ × Input) : Bool :=
  match w.senders[a.1]?.map Sender.pipeline with
  | some (.generatePublicKey _) =>
    w.stores.images.anyRow fun r => r.publicKey == publicKeyOf a.2.draw
  | _ => false

/-- How often sender `i` moves in a run, not counting draws of taken keys. -/
def turnsOf (i : ℕ) : World → List (ℕ × Input) → ℕ
  | _, [] => 0
  | w, a :: as =>
    (if a.1 = i ∧ keyTaken w a = false then 1 else 0) + turnsOf i (step deps ctx config w a) as

/-- It has found no row and not yet put one in. -/
def InFlight : Pipeline → Prop
  | .forConfig | .generatePublicKey _ | .writeToStorage _ _ | .insertImageRecord _ _ _ _ => True
  | _ => False

instance : DecidablePred InFlight
  | .forConfig | .generatePublicKey _ | .writeToStorage _ _ | .insertImageRecord _ _ _ _ =>
    inferInstanceAs (Decidable True)
  | .dedupExists | .fetchDedupRow | .enqueue _ _ _ _ _ | .done _ =>
    inferInstanceAs (Decidable False)

def looking : Pipeline → Bool
  | .dedupExists => true
  | _ => false

/-- An upload that looks for the content and finds no row under the configuration does so while
the user has no row of the content at all and no other upload is in flight. -/
def LooksAlone (w : World) (a : ℕ × Input) : Prop :=
  ∀ u ∈ w.senders[a.1]?, looking u.pipeline = true → ¬ HasRow deps ctx w.stores config →
    (∀ r ∈ w.stores.images.rows, ¬ SameContent deps ctx r) ∧
    ∀ v ∈ w.senders, ¬ InFlight v.pipeline

instance (s : Stores) : Decidable (HasRow deps ctx s config) :=
  inferInstanceAs (Decidable (∃ r ∈ s.images.rows, (_ ∧ _) ∧ _))

instance : DecidablePred (SameContent deps ctx) := fun _ => inferInstanceAs (Decidable (_ ∧ _))

instance (w : World) : DecidablePred (LooksAlone deps ctx config w) := fun a =>
  inferInstanceAs (Decidable (∀ u ∈ w.senders[a.1]?, looking u.pipeline = true → _))

/-- A call of an upload that finds the bytes recorded leaves rows, objects and queue as they are. -/
def QuietWhenRecorded (w : World) (a : ℕ × Input) : Prop :=
  ∀ u, w.senders[a.1]? = some u →
    (looking u.pipeline = true ∧ HasRow deps ctx w.stores config ∨ u.pipeline = .fetchDedupRow) →
    (step deps ctx config w a).stores = w.stores ∧
    ((∃ result, (step deps ctx config w a).senders[a.1]? = some ⟨u.fileName, .done result⟩) ∨
      (step deps ctx config w a).senders[a.1]? = some ⟨u.fileName, .fetchDedupRow⟩)

/-- Two results name the same image by the same links. -/
structure Alike (r q : UploadResult) : Prop where
  id : r.id = q.id
  publicKey : r.publicKey = q.publicKey
  url : r.url = q.url
  markdown : r.markdown = q.markdown
  html : r.html = q.html
  bbcode : r.bbcode = q.bbcode

/-- What a run of uploads from `s₀` to `w` is to leave. -/
structure Idempotent (s₀ : Stores) (w : World) : Prop where
  oneRow : ∀ r ∈ w.stores.images.rows, ∀ q ∈ w.stores.images.rows,
    r ∉ s₀.images.rows → q ∉ s₀.images.rows → r = q
  oneObject : ∀ l m, w.stores.objects l ≠ s₀.objects l → w.stores.objects m ≠ s₀.objects m → l = m
  succeeded : ∀ u ∈ w.senders, ∃ r, u.pipeline = .done (.ok r)
  alike : ∀ u ∈ w.senders, ∀ v ∈ w.senders, ∀ r q, u.pipeline = .done (.ok r) →
    v.pipeline = .done (.ok q) → Alike r q

/-! ## A step of one upload -/

variable {deps ctx config} {w : World} {a : ℕ × Input}

/-- What a step does is a call of one upload, or nothing. -/
theorem step_cases (w : World) (a : ℕ × Input) :
    (w.senders[a.1]? = none ∧ step deps ctx config w a = w) ∨
    ∃ u p' s', w.senders[a.1]? = some u ∧
      Call deps { ctx with fileName := u.fileName } config a.2 u.pipeline w.stores p' s' ∧
      step deps ctx config w a = ⟨s', w.senders.set a.1 ⟨u.fileName, p'⟩⟩ := by
  cases hu : w.senders[a.1]? with
  | none => exact .inl ⟨rfl, by simp only [step, hu]⟩
  | some u =>
    refine .inr ⟨u, _, _, rfl, uploadToSingleBackend_call deps _ config a.2 u.pipeline w.stores, ?_⟩
    simp only [step, hu]

/-- A row of the content and what an upload or a result says of it. -/
structure Describes (r : Image) (result : UploadResult) : Prop where
  id : r.id = result.id
  publicKey : r.publicKey = result.publicKey
  url : r.url = result.url
  markdown : markdownLink r.originalName r.url = result.markdown
  html : htmlLink r.originalName r.url = result.html
  bbcode : bbcodeLink r.url = result.bbcode

variable (deps ctx config) in
/-- Where an upload of an orderly run can stand. -/
def Course (s : Stores) (u : Sender) : Prop :=
  match u.pipeline with
  | .dedupExists => True
  | .fetchDedupRow => HasRow deps ctx s config
  | .forConfig | .generatePublicKey _ => ∀ r ∈ s.images.rows, ¬ SameContent deps ctx r
  | .writeToStorage _ publicKey | .insertImageRecord _ publicKey _ _ =>
    (∀ r ∈ s.images.rows, ¬ SameContent deps ctx r) ∧
      ∀ r ∈ s.images.rows, r.publicKey ≠ publicKey
  | .enqueue _ imageId publicKey _ url => ∃ r ∈ s.images.rows, SameContent deps ctx r ∧
      r.id = imageId ∧ r.publicKey = publicKey ∧ r.url = url ∧ r.originalName = u.fileName
  | .done result => ∃ res, result = .ok res ∧
      ∃ r ∈ s.images.rows, SameContent deps ctx r ∧ Describes r res

theorem Course.noRow {s : Stores} {u : Sender} (h : Course deps ctx config s u)
    (hf : InFlight u.pipeline) : ∀ r ∈ s.images.rows, ¬ SameContent deps ctx r := by
  obtain ⟨fileName, p⟩ := u
  cases p with
  | forConfig | generatePublicKey backend => exact h
  | writeToStorage backend publicKey | insertImageRecord backend publicKey storageKey url =>
    exact h.1
  | _ => exact hf.elim

/-- More rows do not matter to an upload that is not in flight. -/
theorem Course.mono {s s' : Stores} {u : Sender} (h : Course deps ctx config s u)
    (hf : ¬ InFlight u.pipeline) (hrows : ∀ r ∈ s.images.rows, r ∈ s'.images.rows) :
    Course deps ctx config s' u := by
  obtain ⟨fileName, p⟩ := u
  cases p with
  | dedupExists => trivial
  | fetchDedupRow => exact HasRow.mono hrows h
  | enqueue backend imageId publicKey storageKey url =>
    obtain ⟨r, hr, hrest⟩ := h
    exact ⟨r, hrows r hr, hrest⟩
  | done result =>
    obtain ⟨res, hres, r, hr, hrest⟩ := h
    exact ⟨res, hres, r, hrows r hr, hrest⟩
  | _ => exact absurd trivial hf

/-- Equal rows do not matter to any upload. -/
theorem Course.of_rows {s s' : Stores} {u : Sender} (h : Course deps ctx config s u)
    (hrows : s'.images = s.images) : Course deps ctx config s' u := by
  have heq : Course deps ctx config s' u = Course deps ctx config s u := by
    unfold Course HasRow
    rw [hrows]
  rwa [heq]

theorem not_refused {u : Sender} (hhealthy : Healthy deps ctx config w a)
    (hu : w.senders[a.1]? = some u) (h : Course deps ctx config w.stores u) :
    ¬ Refused deps { ctx with fileName := u.fileName } config a.2 u.pipeline w.stores := by
  obtain ⟨hdb, hcall⟩ := hhealthy
  obtain ⟨fileName, p⟩ := u
  rw [callSucceeds, hu] at hcall
  intro hr
  cases hr with
  | database hdown => cases hdown.symm.trans hdb
  | rowGone hgone =>
    obtain ⟨r, hr, hrow⟩ := h
    cases (hgone r hr).symm.trans (dedupWhere_iff.mpr hrow)
  | resolve herr =>
    simp only [Option.map_some, herr] at hcall
    cases hcall
  | put herr =>
    simp only [Option.map_some, herr] at hcall
    cases hcall
  | insert hnone =>
    have hno : ∀ r ∈ w.stores.images.rows, ¬ SameContent deps { ctx with fileName } r := h.1
    have hid : ∀ r ∈ w.stores.images.rows, r.id ≠ a.2.imageId := by
      simp only [Option.map_some, Bool.not_eq_true', Table.anyRow_eq_false] at hcall
      exact fun r hr => beq_eq_false_iff_ne.mp (hcall r hr)
    exact insert_of_unseen hid hno h.2 hnone

/-- A call keeps an upload on course, if it looks for the content alone. -/
theorem Course.call {u : Sender} {p' : Pipeline} {s s' : Stores} {inp : Input}
    (h : Course deps ctx config s u)
    (hno : ¬ Refused deps { ctx with fileName := u.fileName } config inp u.pipeline s)
    (halone : looking u.pipeline = true → ¬ HasRow deps ctx s config →
      ∀ r ∈ s.images.rows, ¬ SameContent deps ctx r)
    (hcall : Call deps { ctx with fileName := u.fileName } config inp u.pipeline s p' s') :
    Course deps ctx config s' ⟨u.fileName, p'⟩ := by
  obtain ⟨fileName, p⟩ := u
  cases hcall with
  | found hr hw => exact ⟨_, hr, dedupWhere_iff.mp hw⟩
  | notFound hw =>
    apply halone rfl
    rintro ⟨r, hr, hrow⟩
    cases (hw r hr).symm.trans (dedupWhere_iff.mpr hrow)
  | fetched hr hw =>
    exact ⟨_, rfl, _, hr, (dedupWhere_iff.mp hw).1, ⟨rfl, rfl, rfl, rfl, rfl, rfl⟩⟩
  | resolved => exact h
  | keyTaken => exact h
  | keyFree hk => exact ⟨h, hk⟩
  | written => exact h
  | inserted hdb h =>
    exact ⟨_, (Table.mem_of_insert h).mpr (.inr rfl), ⟨rfl, rfl⟩, rfl, rfl, rfl, rfl⟩
  | enqueued | notEnqueued =>
    obtain ⟨r, hr, hc, rfl, rfl, rfl, rfl⟩ := h
    exact ⟨_, rfl, r, hr, hc, ⟨rfl, rfl, rfl, rfl, rfl, rfl⟩⟩
  | refused router hr | cut hr => exact absurd hr hno
  | idle => exact h

/-- Only an insertion adds a row; it puts its upload out of flight. -/
theorem rows_of_call {fileName : String} {p p' : Pipeline} {s s' : Stores} {inp : Input}
    (hcall : Call deps { ctx with fileName } config inp p s p' s') :
    s'.images = s.images ∨ InFlight p ∧ ¬ InFlight p' ∧ ∃ r, SameContent deps ctx r ∧
      ∀ q, q ∈ s'.images.rows ↔ q ∈ s.images.rows ∨ q = r := by
  cases hcall with
  | inserted hdb h => exact .inr ⟨trivial, id, _, ⟨rfl, rfl⟩, fun q => Table.mem_of_insert h⟩
  | _ => exact .inl rfl

/-- Only a write changes objects, one of them, and a row is to be inserted next; an insertion puts
it in. -/
theorem objects_of_call {fileName : String} {p p' : Pipeline} {s s' : Stores} {inp : Input}
    (hno : ¬ Refused deps { ctx with fileName } config inp p s)
    (hcall : Call deps { ctx with fileName } config inp p s p' s') :
    s'.objects = s.objects ∧ (p.inserting = true →
      ∃ r ∈ s'.images.rows, SameContent deps ctx r) ∨
    InFlight p ∧ p.inserting = false ∧ p'.inserting = true ∧
      ∃ l object, s'.objects = Function.update s.objects l object := by
  cases hcall with
  | written => exact .inr ⟨trivial, rfl, rfl, _, _, rfl⟩
  | refused router hr | cut hr => exact absurd hr hno
  | inserted hdb h =>
    exact .inl ⟨rfl, fun _ => ⟨_, (Table.mem_of_insert h).mpr (.inr rfl), ⟨rfl, rfl⟩⟩⟩
  | _ => exact .inl ⟨rfl, fun h => by cases h⟩

/-- An upload gets into flight by looking for the content in vain. -/
theorem inFlight_of_call {fileName : String} {p p' : Pipeline} {s s' : Stores} {inp : Input}
    (hcall : Call deps { ctx with fileName } config inp p s p' s') (hf : InFlight p') :
    InFlight p ∨ looking p = true ∧ ¬ HasRow deps ctx s config := by
  cases hcall with
  | notFound hw =>
    refine .inr ⟨rfl, ?_⟩
    rintro ⟨r, hr, hrow⟩
    cases (hw r hr).symm.trans (dedupWhere_iff.mpr hrow)
  | found | fetched | inserted | enqueued | notEnqueued | refused | cut => exact hf.elim
  | idle => exact hf.elim
  | _ => exact .inl trivial

/-! ## Orderly runs -/

variable (deps ctx config) in
/-- At most one upload is in flight, everything is on course, and at most one object was written
since `s₀`. -/
structure Orderly (s₀ : Stores) (w : World) : Prop where
  course : ∀ (i : ℕ) (u : Sender), w.senders[i]? = some u → Course deps ctx config w.stores u
  single : ∀ (i j : ℕ) (u v : Sender), w.senders[i]? = some u → w.senders[j]? = some v →
    InFlight u.pipeline → InFlight v.pipeline → i = j
  rows : ∀ r ∈ w.stores.images.rows, r ∈ s₀.images.rows ∨ SameContent deps ctx r
  object : ∃ l, ∀ m, m ≠ l → w.stores.objects m = s₀.objects m
  unwritten : (∀ r ∈ w.stores.images.rows, ¬ SameContent deps ctx r) →
    (∀ (i : ℕ) (u : Sender), w.senders[i]? = some u → u.pipeline.inserting = false) →
    w.stores.objects = s₀.objects

theorem inFlight_of_inserting {p : Pipeline} (h : p.inserting = true) : InFlight p := by
  cases p with
  | insertImageRecord => trivial
  | _ => cases h

/-- A sender after one of them has moved. -/
theorem sender_after {senders : List Sender} {i j : ℕ} {u v : Sender}
    (h : (senders.set i u)[j]? = some v) : i = j ∧ v = u ∨ i ≠ j ∧ senders[j]? = some v := by
  rw [List.getElem?_set] at h
  split at h
  · rename_i hij
    split at h
    · exact .inl ⟨hij, (Option.some.inj h).symm⟩
    · cases h
  · rename_i hij
    exact .inr ⟨hij, h⟩

theorem sender_moved {senders : List Sender} {i : ℕ} {u : Sender} (h : senders[i]? = some u)
    (v : Sender) : (senders.set i v)[i]? = some v := by
  rw [List.getElem?_set_self (List.getElem?_eq_some_iff.mp h).1]

/-- After a step of an orderly run only its own upload can be in flight, if it is. -/
theorem Orderly.others {s₀ : Stores} (h : Orderly deps ctx config s₀ w)
    (halone : LooksAlone deps ctx config w a) {u : Sender} {p' : Pipeline} {s' : Stores}
    (hu : w.senders[a.1]? = some u)
    (hcall : Call deps { ctx with fileName := u.fileName } config a.2 u.pipeline w.stores p' s')
    (hf : InFlight u.pipeline ∨ InFlight p') {j : ℕ} {v : Sender} (hj : a.1 ≠ j)
    (hv : w.senders[j]? = some v) : ¬ InFlight v.pipeline := by
  have hfirst : InFlight u.pipeline ∨
      looking u.pipeline = true ∧ ¬ HasRow deps ctx w.stores config :=
    hf.elim .inl (inFlight_of_call hcall)
  rcases hfirst with hfu | ⟨hlook, hno⟩
  · exact fun hfv => hj (h.single _ _ _ _ hu hv hfu hfv)
  · exact (halone u (Option.mem_def.mpr hu) hlook hno).2 v (List.mem_of_getElem? hv)

/-- A write is the first one: the user has no such row and nobody else is in flight. -/
theorem Orderly.object_step {s₀ : Stores} (h : Orderly deps ctx config s₀ w) {u : Sender}
    {p' : Pipeline} {s' : Stores} {inp : Input} {i : ℕ} (hu : w.senders[i]? = some u)
    (hok : ¬ Refused deps { ctx with fileName := u.fileName } config inp u.pipeline w.stores)
    (hcall : Call deps { ctx with fileName := u.fileName } config inp u.pipeline w.stores p' s')
    (hothers : InFlight u.pipeline →
      ∀ j v, i ≠ j → w.senders[j]? = some v → ¬ InFlight v.pipeline) :
    ∃ l, ∀ m ≠ l, s'.objects m = s₀.objects m := by
  rcases objects_of_call hok hcall with ⟨hobjects, -⟩ | ⟨hf, hins, -, l, object, hobjects⟩
  · rw [hobjects]
    exact h.object
  · have hbefore : w.stores.objects = s₀.objects := by
      apply h.unwritten ((h.course _ u hu).noRow hf)
      intro j v hv
      by_cases hj : i = j
      · subst hj
        cases hu.symm.trans hv
        exact hins
      · exact Bool.eq_false_of_not_eq_true fun hv' =>
          hothers hf j v hj hv (inFlight_of_inserting hv')
    refine ⟨l, fun m hm => ?_⟩
    rw [hobjects, Function.update_of_ne hm, hbefore]

/-- Without a row, and with none to be inserted, nothing has been written. -/
theorem Orderly.unwritten_step {s₀ : Stores} (h : Orderly deps ctx config s₀ w) {u : Sender}
    {p' : Pipeline} {s' : Stores} {inp : Input} {i : ℕ} (hu : w.senders[i]? = some u)
    (hok : ¬ Refused deps { ctx with fileName := u.fileName } config inp u.pipeline w.stores)
    (hcall : Call deps { ctx with fileName := u.fileName } config inp u.pipeline w.stores p' s')
    (hno : ∀ r ∈ s'.images.rows, ¬ SameContent deps ctx r)
    (hins : ∀ (j : ℕ) (v : Sender), (w.senders.set i ⟨u.fileName, p'⟩)[j]? = some v →
      v.pipeline.inserting = false) : s'.objects = s₀.objects := by
  rcases objects_of_call hok hcall with ⟨hobjects, hput⟩ | ⟨-, -, hins', -⟩
  · rw [hobjects]
    refine h.unwritten (fun r hr hc => hno r ?_ hc) fun j v hv => ?_
    · rcases rows_of_call hcall with hrows | ⟨-, -, q, hq, hrows⟩
      · rwa [hrows]
      · exact (hrows r).mpr (.inl hr)
    · by_cases hj : i = j
      · subst hj
        cases hu.symm.trans hv
        apply Bool.eq_false_of_not_eq_true
        intro hv'
        obtain ⟨r, hr, hc⟩ := hput hv'
        exact hno r hr hc
      · exact hins j v (by rw [List.getElem?_set_ne hj]; exact hv)
  · cases (hins i _ (sender_moved hu _)).symm.trans hins'

theorem Orderly.step {s₀ : Stores} (h : Orderly deps ctx config s₀ w)
    (hhealthy : Healthy deps ctx config w a) (halone : LooksAlone deps ctx config w a) :
    Orderly deps ctx config s₀ (step deps ctx config w a) := by
  rcases @step_cases deps ctx config w a with ⟨-, heq⟩ | ⟨u, p', s', hu, hcall, heq⟩
  · rw [heq]
    exact h
  rw [heq]
  have hcourse := h.course _ u hu
  have hok := not_refused hhealthy hu hcourse
  have hothers : ∀ j v, a.1 ≠ j → w.senders[j]? = some v →
      InFlight u.pipeline ∨ InFlight p' → ¬ InFlight v.pipeline :=
    fun j v hj hv hf => h.others halone hu hcall hf hj hv
  refine ⟨?_, ?_, ?_, h.object_step hu hok hcall fun hf j v hj hv => hothers j v hj hv (.inl hf),
    h.unwritten_step hu hok hcall⟩
  · intro j v hv
    rcases sender_after hv with ⟨-, rfl⟩ | ⟨hj, hv⟩
    · exact hcourse.call hok (fun hlook hno => (halone u (Option.mem_def.mpr hu) hlook hno).1) hcall
    · rcases rows_of_call hcall with hrows | ⟨hf, -, r, -, hrows⟩
      · exact (h.course j v hv).of_rows hrows
      · exact (h.course j v hv).mono (hothers j v hj hv (.inl hf)) fun q hq =>
          (hrows q).mpr (.inl hq)
  · intro i j v v' hv hv' hf hf'
    rcases sender_after hv with ⟨rfl, rfl⟩ | ⟨hi, hv⟩ <;>
      rcases sender_after hv' with ⟨rfl, rfl⟩ | ⟨hj, hv'⟩
    · rfl
    · exact absurd hf' (hothers j v' hj hv' (.inr hf))
    · exact absurd hf (hothers i v hi hv (.inr hf'))
    · exact h.single i j v v' hv hv' hf hf'
  · intro r hr
    rcases rows_of_call hcall with hrows | ⟨-, -, q, hq, hrows⟩
    · rw [hrows] at hr
      exact h.rows r hr
    · rcases (hrows r).mp hr with hr | rfl
      · exact h.rows r hr
      · exact .inr hq

theorem quietWhenRecorded (w : World) (a : ℕ × Input) : QuietWhenRecorded deps ctx config w a := by
  intro u hu hrecorded
  obtain ⟨fileName, p⟩ := u
  have hstep : ∀ p' s', uploadToSingleBackend deps { ctx with fileName } config a.2 p w.stores =
      (p', s') → step deps ctx config w a = ⟨s', w.senders.set a.1 ⟨fileName, p'⟩⟩ := by
    intro p' s' h
    simp only [step, hu, h]
  have hset := sender_moved hu
  rcases hrecorded with ⟨hlook, r, hr, hrow⟩ | rfl
  · cases p with
    | dedupExists =>
      have hany : w.stores.images.anyRow
          (dedupWhere ctx.user.id (deps.sha256 ctx.bytes) config.dbConfigId) = true :=
        Table.anyRow_iff.mpr ⟨r, hr, dedupWhere_iff.mpr hrow⟩
      cases hdb : a.2.dbUp with
      | true =>
        rw [hstep .fetchDedupRow w.stores (by simp [uploadToSingleBackend, hdb, hany])]
        exact ⟨rfl, .inr (hset _)⟩
      | false =>
        rw [hstep (.done (.error internalError)) w.stores (by simp [uploadToSingleBackend, hdb])]
        exact ⟨rfl, .inl ⟨_, hset _⟩⟩
    | _ => cases hlook
  · have hdone : ∃ result, uploadToSingleBackend deps { ctx with fileName } config a.2
        .fetchDedupRow w.stores = (.done result, w.stores) := by
      unfold uploadToSingleBackend
      simp only
      split
      · exact ⟨_, rfl⟩
      · exact ⟨_, rfl⟩
    obtain ⟨result, hresult⟩ := hdone
    rw [hstep _ _ hresult]
    exact ⟨rfl, .inl ⟨result, hset _⟩⟩

/-! ## Runs to the end -/

/-- A step brings an upload closer to its end when it is its turn. -/
theorem remaining_step {i : ℕ} {u : Sender} (hu : w.senders[i]? = some u) (a : ℕ × Input) :
    ∃ v, (step deps ctx config w a).senders[i]? = some v ∧ remaining v.pipeline ≤
      remaining u.pipeline - if a.1 = i ∧ keyTaken w a = false then 1 else 0 := by
  rcases @step_cases deps ctx config w a with ⟨hnone, heq⟩ | ⟨v, p', s', hv, hcall, heq⟩
  · rw [heq]
    have hi : a.1 ≠ i := by
      rintro rfl
      cases hnone.symm.trans hu
    exact ⟨u, hu, by simp [hi]⟩
  · rw [heq]
    by_cases hi : a.1 = i
    · subst hi
      cases hu.symm.trans hv
      refine ⟨_, sender_moved hu _, ?_⟩
      rcases remaining_call hcall with hless | ⟨rfl, ⟨backend, hgen⟩, hkey⟩
      · show remaining p' ≤ _
        split <;> omega
      · have htaken : keyTaken w a = true := by
          simp only [keyTaken, hu, Option.map_some, hgen, Table.anyRow_iff, beq_iff_eq]
          exact hkey
        simp [htaken]
    · refine ⟨u, by rw [List.getElem?_set_ne hi]; exact hu, by simp [hi]⟩

theorem length_run (as : List (ℕ × Input)) :
    (as.foldl (step deps ctx config) w).senders.length = w.senders.length := by
  refine invariant (step deps ctx config) (J := fun v => v.senders.length = w.senders.length)
    (fun v a hv => ?_) rfl as
  rcases @step_cases deps ctx config v a with ⟨-, heq⟩ | ⟨u, p', s', -, -, heq⟩
  · rwa [heq]
  · rw [heq]
    exact (List.length_set ..).trans hv

theorem remaining_run {i : ℕ} {u : Sender} (hu : w.senders[i]? = some u)
    (as : List (ℕ × Input)) :
    ∃ v, (as.foldl (step deps ctx config) w).senders[i]? = some v ∧
      remaining v.pipeline ≤ remaining u.pipeline - turnsOf deps ctx config i w as := by
  induction as generalizing w u with
  | nil => exact ⟨u, hu, le_rfl⟩
  | cons a as ih =>
    obtain ⟨v, hv, hstep⟩ := @remaining_step deps ctx config w i u hu a
    obtain ⟨v', hv', hrun⟩ := ih hv
    refine ⟨v', hv', ?_⟩
    rw [turnsOf]
    omega

variable (deps ctx) in
/-- An upload has failed, or one in flight is bound to. -/
def Conflict (w : World) : Prop :=
  (∃ u ∈ w.senders, ∃ e, u.pipeline = .done (.error e)) ∨
  (∃ u ∈ w.senders, InFlight u.pipeline ∧ ∃ r ∈ w.stores.images.rows, SameContent deps ctx r) ∨
  ∃ (i j : ℕ) (u v : Sender), i ≠ j ∧ w.senders[i]? = some u ∧ w.senders[j]? = some v ∧
    InFlight u.pipeline ∧ InFlight v.pipeline

/-- Where an upload in flight gets: only an insertion that is let through ends its flight well. -/
theorem inFlight_call {fileName : String} {p p' : Pipeline} {s s' : Stores} {inp : Input}
    (hcall : Call deps { ctx with fileName } config inp p s p' s') (hf : InFlight p) :
    (InFlight p' ∧ s'.images = s.images) ∨ (∃ e, p' = .done (.error e)) ∨
      (∀ r ∈ s.images.rows, ¬ SameContent deps ctx r) ∧
        ∃ r ∈ s'.images.rows, SameContent deps ctx r := by
  cases hcall with
  | refused | cut => exact .inr (.inl ⟨_, rfl⟩)
  | inserted hdb h =>
    refine .inr (.inr ⟨fun r hr hc => ?_, _, (Table.mem_of_insert h).mpr (.inr rfl), ⟨rfl, rfl⟩⟩)
    exact Table.not_clash_of_insert h r hr (.inr (.inr hc))
  | resolved | keyTaken | keyFree | written => exact .inl ⟨trivial, rfl⟩
  | _ => exact hf.elim

/-- Two uploads in flight, one of which moves. -/
theorem conflict_of_pair {u v : Sender} {p' : Pipeline} {s' : Stores} {j : ℕ} {inp : Input}
    (hne : a.1 ≠ j) (hu : w.senders[a.1]? = some u) (hv : w.senders[j]? = some v)
    (hf : InFlight u.pipeline) (hf' : InFlight v.pipeline)
    (hcall : Call deps { ctx with fileName := u.fileName } config inp u.pipeline w.stores p' s') :
    Conflict deps ctx ⟨s', w.senders.set a.1 ⟨u.fileName, p'⟩⟩ := by
  have hmoved := sender_moved hu ⟨u.fileName, p'⟩
  have hstayed : (w.senders.set a.1 ⟨u.fileName, p'⟩)[j]? = some v := by
    rw [List.getElem?_set_ne hne]
    exact hv
  rcases inFlight_call hcall hf with ⟨hfly, -⟩ | ⟨e, rfl⟩ | ⟨-, hrow⟩
  · exact .inr (.inr ⟨a.1, j, _, v, hne, hmoved, hstayed, hfly, hf'⟩)
  · exact .inl ⟨_, List.mem_of_getElem? hmoved, e, rfl⟩
  · exact .inr (.inl ⟨v, List.mem_of_getElem? hstayed, hf', hrow⟩)

theorem Conflict.step (h : Conflict deps ctx w) (a : ℕ × Input) :
    Conflict deps ctx (step deps ctx config w a) := by
  rcases @step_cases deps ctx config w a with ⟨-, heq⟩ | ⟨u, p', s', hu, hcall, heq⟩
  · rw [heq]
    exact h
  rw [heq]
  have hmoved := sender_moved hu ⟨u.fileName, p'⟩
  have hstayed : ∀ {j v}, a.1 ≠ j → w.senders[j]? = some v →
      (w.senders.set a.1 ⟨u.fileName, p'⟩)[j]? = some v := by
    intro j v hj hv
    rw [List.getElem?_set_ne hj]
    exact hv
  rcases h with ⟨v, hv, e, he⟩ | ⟨v, hv, hf, r, hr, hc⟩ | ⟨i, j, v, v', hne, hv, hv', hf, hf'⟩
  · obtain ⟨k, hk⟩ := List.mem_iff_getElem?.mp hv
    by_cases hak : a.1 = k
    · subst hak
      cases hu.symm.trans hk
      rw [he] at hcall
      cases hcall with
      | idle => exact .inl ⟨_, List.mem_of_getElem? hmoved, e, rfl⟩
      | refused router hr hp => cases hp
    · exact .inl ⟨v, List.mem_of_getElem? (hstayed hak hk), e, he⟩
  · obtain ⟨k, hk⟩ := List.mem_iff_getElem?.mp hv
    by_cases hak : a.1 = k
    · subst hak
      cases hu.symm.trans hk
      rcases inFlight_call hcall hf with ⟨hfly, himages⟩ | ⟨e, rfl⟩ | ⟨hno, -⟩
      · exact .inr (.inl ⟨_, List.mem_of_getElem? hmoved, hfly, r, by rwa [himages], hc⟩)
      · exact .inl ⟨_, List.mem_of_getElem? hmoved, e, rfl⟩
      · exact absurd hc (hno r hr)
    · exact .inr (.inl ⟨v, List.mem_of_getElem? (hstayed hak hk), hf, r, rows_call hcall r hr, hc⟩)
  · by_cases hi : a.1 = i
    · subst hi
      cases hu.symm.trans hv
      exact conflict_of_pair hne hu hv' hf hf' hcall
    · by_cases hj : a.1 = j
      · subst hj
        cases hu.symm.trans hv'
        exact conflict_of_pair (Ne.symm hne) hu hv hf' hf hcall
      · exact .inr (.inr ⟨i, j, v, v', hne, hstayed hi hv, hstayed hj hv', hf, hf'⟩)

/-- A lookup that is not alone leads to a conflict. -/
theorem conflict_of_not_alone (h : ¬ LooksAlone deps ctx config w a) :
    Conflict deps ctx (step deps ctx config w a) := by
  unfold LooksAlone at h
  push Not at h
  obtain ⟨u, hu, hlook, hno, hbad⟩ := h
  rcases @step_cases deps ctx config w a with ⟨hnone, -⟩ | ⟨v, p', s', hv, hcall, heq⟩
  · cases hnone.symm.trans (Option.mem_def.mp hu)
  cases (Option.mem_def.mp hu).symm.trans hv
  rw [heq]
  have hmoved := sender_moved hv ⟨u.fileName, p'⟩
  obtain ⟨fileName, p⟩ := u
  cases p with
  | dedupExists =>
    cases hcall with
    | found hr hw => exact absurd ⟨_, hr, dedupWhere_iff.mp hw⟩ hno
    | refused router hr => exact .inl ⟨_, List.mem_of_getElem? hmoved, _, rfl⟩
    | notFound hw =>
      by_cases hrow : ∃ r ∈ w.stores.images.rows, SameContent deps ctx r
      · exact .inr (.inl ⟨_, List.mem_of_getElem? hmoved, trivial, hrow⟩)
      · push Not at hrow
        obtain ⟨v, hvmem, hf⟩ := hbad hrow
        obtain ⟨k, hk⟩ := List.mem_iff_getElem?.mp hvmem
        have hne : a.1 ≠ k := by
          rintro rfl
          cases hv.symm.trans hk
          exact hf
        exact .inr (.inr ⟨a.1, k, _, v, hne, hmoved, by rw [List.getElem?_set_ne hne]; exact hk,
          trivial, hf⟩)
  | _ => cases hlook

theorem conflict_of_run {as : List (ℕ × Input)}
    (h : ¬ AllSteps (step deps ctx config) (LooksAlone deps ctx config) w as) :
    Conflict deps ctx (as.foldl (step deps ctx config) w) := by
  induction as generalizing w with
  | nil => exact absurd trivial h
  | cons a as ih =>
    by_cases ha : LooksAlone deps ctx config w a
    · exact ih fun has => h ⟨ha, has⟩
    · exact invariant (step deps ctx config) (J := Conflict deps ctx)
        (fun w a hw => hw.step a) (conflict_of_not_alone ha) as

theorem Orderly.run {s₀ : Stores} (h : Orderly deps ctx config s₀ w) {as : List (ℕ × Input)}
    (hhealthy : AllSteps (UploadIdempotence.step deps ctx config) (Healthy deps ctx config) w as)
    (halone : AllSteps (UploadIdempotence.step deps ctx config) (LooksAlone deps ctx config) w as) :
    Orderly deps ctx config s₀ (as.foldl (UploadIdempotence.step deps ctx config) w) := by
  induction as generalizing w with
  | nil => exact h
  | cons a as ih => exact ih (h.step hhealthy.1 halone.1) hhealthy.2 halone.2

theorem orderly_start (hfresh : ∀ u ∈ w.senders, u.pipeline = .dedupExists) :
    Orderly deps ctx config w.stores w := by
  have hstart : ∀ {i : ℕ} {u : Sender}, w.senders[i]? = some u → u.pipeline = .dedupExists :=
    fun hu => hfresh _ (List.mem_of_getElem? hu)
  refine ⟨fun i u hu => ?_, fun i j u v hu _ hf => ?_, fun r hr => .inl hr,
    ⟨(Backend.localStorage "" "").locate "", fun _ _ => rfl⟩, fun _ _ => rfl⟩
  · unfold Course
    rw [hstart hu]
    trivial
  · rw [hstart hu] at hf
    exact hf.elim

/-- What an orderly run leaves once every upload has had its turns. -/
theorem Orderly.idempotent {s₀ : Stores} (h : Orderly deps ctx config s₀ w)
    (hdone : ∀ u ∈ w.senders, remaining u.pipeline = 0) : Idempotent s₀ w := by
  have hsame : ∀ r ∈ w.stores.images.rows, ∀ q ∈ w.stores.images.rows, SameContent deps ctx r →
      SameContent deps ctx q → r = q := fun r hr q hq hrc hqc =>
    ImageTable.eq_of_sha256 hr hq (hrc.1.trans hqc.1.symm) (hrc.2.trans hqc.2.symm)
  have hresult : ∀ u ∈ w.senders, ∃ res, u.pipeline = .done (.ok res) ∧
      ∃ r ∈ w.stores.images.rows, SameContent deps ctx r ∧ Describes r res := by
    intro u hu
    obtain ⟨k, hk⟩ := List.mem_iff_getElem?.mp hu
    have hcourse := h.course k u hk
    obtain ⟨result, hp⟩ := remaining_eq_zero (hdone u hu)
    unfold Course at hcourse
    rw [hp] at hcourse
    obtain ⟨res, rfl, hrow⟩ := hcourse
    exact ⟨res, hp, hrow⟩
  refine ⟨?_, ?_, ?_, ?_⟩
  · intro r hr q hq hrnew hqnew
    exact hsame r hr q hq ((h.rows r hr).resolve_left hrnew) ((h.rows q hq).resolve_left hqnew)
  · obtain ⟨l₀, hl₀⟩ := h.object
    intro l m hl hm
    have hone : ∀ k, w.stores.objects k ≠ s₀.objects k → k = l₀ :=
      fun k hk => by_contra fun hne => hk (hl₀ k hne)
    rw [hone l hl, hone m hm]
  · intro u hu
    obtain ⟨res, hp, -⟩ := hresult u hu
    exact ⟨res, hp⟩
  · intro u hu v hv r q hr hq
    obtain ⟨res, hp, row, hrow, hc, hd⟩ := hresult u hu
    obtain ⟨res', hp', row', hrow', hc', hd'⟩ := hresult v hv
    cases hp.symm.trans hr
    cases hp'.symm.trans hq
    cases hsame row hrow row' hrow' hc hc'
    exact ⟨hd.id.symm.trans hd'.id, hd.publicKey.symm.trans hd'.publicKey,
      hd.url.symm.trans hd'.url, hd.markdown.symm.trans hd'.markdown,
      hd.html.symm.trans hd'.html, hd.bbcode.symm.trans hd'.bbcode⟩

theorem Conflict.not_idempotent {s₀ : Stores} (h : Conflict deps ctx w) : ¬ Idempotent s₀ w := by
  intro hi
  rcases h with ⟨u, hu, e, he⟩ | ⟨u, hu, hf, -⟩ | ⟨i, j, u, v, -, hu, -, hf, -⟩
  · obtain ⟨r, hr⟩ := hi.succeeded u hu
    cases he.symm.trans hr
  · obtain ⟨r, hr⟩ := hi.succeeded u hu
    rw [hr] at hf
    exact hf
  · obtain ⟨r, hr⟩ := hi.succeeded u (List.mem_of_getElem? hu)
    rw [hr] at hf
    exact hf

variable (deps ctx config) in
/-- Uploads whose calls succeed, run to their ends, leave one row, one object and one answer
exactly when each lookup in vain was alone. -/
theorem idempotent_iff {w : World} (hfresh : ∀ u ∈ w.senders, u.pipeline = .dedupExists)
    {as : List (ℕ × Input)}
    (hhealthy : AllSteps (step deps ctx config) (Healthy deps ctx config) w as)
    (hturns : ∀ i < w.senders.length, 6 ≤ turnsOf deps ctx config i w as) :
    (Idempotent w.stores (as.foldl (step deps ctx config) w) ∧
      AllSteps (step deps ctx config) (QuietWhenRecorded deps ctx config) w as) ↔
    AllSteps (step deps ctx config) (LooksAlone deps ctx config) w as := by
  have hquiet : AllSteps (step deps ctx config) (QuietWhenRecorded deps ctx config) w as := by
    clear hfresh hhealthy hturns
    induction as generalizing w with
    | nil => trivial
    | cons a as ih => exact ⟨quietWhenRecorded w a, ih⟩
  constructor
  · rintro ⟨hi, -⟩
    by_contra hno
    exact (conflict_of_run hno).not_idempotent hi
  · intro halone
    refine ⟨((orderly_start hfresh).run hhealthy halone).idempotent fun v hv => ?_, hquiet⟩
    obtain ⟨i, hi⟩ := List.mem_iff_getElem?.mp hv
    have hlen : i < w.senders.length := by
      rw [← @length_run deps ctx config w as]
      exact (List.getElem?_eq_some_iff.mp hi).1
    obtain ⟨v', hv', hleft⟩ := @remaining_run deps ctx config w i _
      (List.getElem?_eq_getElem hlen) as
    cases hi.symm.trans hv'
    have hsix := hturns i hlen
    rw [hfresh _ (List.getElem_mem hlen)] at hleft
    have : remaining Pipeline.dedupExists = 6 := rfl
    omega

/-- Two uploads of the bytes under different names, on a server that has nothing yet. -/
def twoSenders : World :=
  ⟨emptyStores, [⟨"a.png", .dedupExists⟩, ⟨"b.png", .dedupExists⟩]⟩

/-- One after the other. -/
def oneByOne : List (ℕ × Input) :=
  List.replicate 6 (0, smoothInput 2 1) ++ List.replicate 6 (1, smoothInput 3 5)

theorem idempotent_iff_oneByOne :
    Idempotent emptyStores (oneByOne.foldl (step smallDeps demoCtx localFallback) twoSenders) :=
  ((@idempotent_iff smallDeps demoCtx localFallback twoSenders (by simp [twoSenders]) oneByOne
    (by decide +kernel) (by decide +kernel)).mpr (by decide +kernel)).1

/-- Both look for the bytes before either puts its row in. -/
def overlapping : List (ℕ × Input) :=
  [(0, smoothInput 2 1), (1, smoothInput 3 5)] ++ List.replicate 5 (0, smoothInput 2 1) ++
    List.replicate 5 (1, smoothInput 3 5)

/-- The second of two overlapping uploads fails, and leaves an object without a row. -/
theorem overlapping_not_idempotent :
    ¬ ∀ (deps : Deps) (ctx : UploadCtx) (config : UserStorageConfig) (w : World)
      (as : List (ℕ × Input)), (∀ u ∈ w.senders, u.pipeline = .dedupExists) →
      AllSteps (step deps ctx config) (Healthy deps ctx config) w as →
      (∀ i < w.senders.length, 6 ≤ turnsOf deps ctx config i w as) →
      Idempotent w.stores (as.foldl (step deps ctx config) w) := by
  intro h
  have hi := h smallDeps demoCtx localFallback twoSenders overlapping (by simp [twoSenders])
    (by decide +kernel) (by decide +kernel)
  obtain ⟨r, hr⟩ := hi.succeeded ⟨"b.png", .done (.error saveFailed)⟩
    (List.mem_iff_getElem?.mpr ⟨1, rfl⟩)
  cases hr

end PicHost.UploadIdempotence
