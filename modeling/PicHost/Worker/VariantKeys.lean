import PicHost.Worker.Pipeline

/-!
# Variant keys

`put` returns the key an object is stored under. The pipeline drops that key and records the
one it asked for.
-/

namespace PicHost.Worker

open KeyedTable

variable {Img : Type} (deps : Deps Img)

/-- A `put` of the pipeline that succeeded: the key asked for and the key returned. -/
structure Put where
  backend : Backend
  key : String
  path : String
  data : Bytes
deriving DecidableEq

def Put.apply (p : Put) (objs : Objects) : Objects :=
  Function.update objs (p.backend.locate p.path) (some p.data)

/-- The `put` of a variant, when it succeeds. -/
def variantPut (inp : Input) (backend : Backend) (key : String) (data : Bytes) (mime : String)
    (objs : Objects) : Option Put :=
  match (backend.put inp.storageFault inp.day key data mime objs).1 with
  | .ok path => some ⟨backend, key, path, data⟩
  | .error _ => none

/-- The `put` a call of `process_task` makes. -/
def putOf (inp : Input) (task : TaskPayload) (work : Work Img) (s : Stores) : Option Put :=
  match work with
  | .generateThumbnail backend img fmt _ =>
    if shouldThumbnail fmt then
      let (outFmt, mime) := thumbnailOutputFormat deps img fmt
      match deps.encodeThumbnail img outFmt with
      | .error _ => none
      | .ok buf => variantPut inp backend (thumbKey task) buf mime s.objects
    else none
  | .convertToWebp backend img fmt _ _ =>
    if shouldWebp fmt then
      variantPut inp backend (webpKey task) (deps.encodeWebp img) "image/webp" s.objects
    else none
  | _ => none

/-- A task in hand, the stores, and the puts made for it so far, the last one in front. -/
structure Attempt (Img : Type) where
  work : Work Img
  stores : Stores
  puts : List Put

def Attempt.step (task : TaskPayload) (a : Attempt Img) (inp : Input) : Attempt Img where
  work := (processTask deps inp task a.work a.stores).1
  stores := (processTask deps inp task a.work a.stores).2
  puts := (putOf deps inp task a.work a.stores).toList ++ a.puts

/-- What the outside contributes to each call of one `process_task`. -/
structure Inputs where
  resolveBackend : Input
  readSourceImage : Input
  loadWatermarkedImage : Input
  generateThumbnail : Input
  convertToWebp : Input
  updateImageRecord : Input

def Inputs.toList (inps : Inputs) : List Input :=
  [inps.resolveBackend, inps.readSourceImage, inps.loadWatermarkedImage, inps.generateThumbnail,
    inps.convertToWebp, inps.updateImageRecord]

/-- `process_task` from its first call on. -/
def attempt (inps : Inputs) (task : TaskPayload) (s : Stores) : Attempt Img :=
  inps.toList.foldl (Attempt.step deps task) ⟨.resolveBackend, s, []⟩

/-- `key` is where the backend of a put finds its bytes and from where it removes them. -/
def Put.Named (p : Put) (key : String) (objs : Objects) : Prop :=
  p.backend.get none key objs = .ok p.data ∧
    ((p.backend.delete none key objs).1 = .ok () ∧
      (p.backend.delete none key objs).2 (p.backend.locate p.path) = none)

instance (p : Put) (key : String) (objs : Objects) : Decidable (p.Named key objs) :=
  inferInstanceAs (Decidable (_ ∧ _))

/-- Each variant key of the task's row names the object the pipeline put for it. -/
def Attempt.KeysNamed (task : TaskPayload) (a : Attempt Img) : Prop :=
  ∀ r ∈ a.stores.images.rows, r.id = task.imageId →
    (∀ key ∈ r.thumbnailKey, ∃ p ∈ a.puts, p.key = thumbKey task ∧
      p.Named key a.stores.objects) ∧
    ∀ key ∈ r.webpKey, ∃ p ∈ a.puts, p.key = webpKey task ∧ p.Named key a.stores.objects

section Lemmas

variable {deps}

theorem variantPut_some {inp : Input} {backend : Backend} {key mime : String} {data : Bytes}
    {objs : Objects} {p : Put} (h : variantPut inp backend key data mime objs = some p) :
    p = ⟨backend, key, backend.storedKey inp.day key mime, data⟩ := by
  unfold variantPut at h
  split at h
  · rename_i path hok
    have hput := Backend.put_ok (b := backend) (Prod.ext hok rfl)
    cases h
    rw [hput.1]
  · cases h

/-- Writing a variant is its `put`; one that is refused without a fault leaves the objects. -/
theorem writeVariant_eq (inp : Input) (backend : Backend) (key : String) (data : Bytes)
    (mime write : String) (objs : Objects) :
    (∃ p, variantPut inp backend key data mime objs = some p ∧
      writeVariant inp backend key data mime write objs = (.ok (), p.apply objs)) ∨
    variantPut inp backend key data mime objs = none ∧
      ∃ text objs', writeVariant inp backend key data mime write objs = (.error text, objs') ∧
        (inp.storageFault = none → objs' = objs) := by
  unfold variantPut writeVariant
  cases h : backend.put inp.storageFault inp.day key data mime objs with
  | mk result objs' =>
    cases result with
    | ok path =>
      obtain ⟨-, rfl⟩ := Backend.put_ok h
      exact .inl ⟨⟨backend, key, path, data⟩, rfl, rfl⟩
    | error e =>
      refine .inr ⟨rfl, write ++ e.toText, objs', rfl, fun hnone => ?_⟩
      rcases Backend.put_error h with hsame | ⟨fault, written, hfault, -⟩
      · exact hsame
      · cases hnone.symm.trans hfault

variable (deps) in
/-- The puts of the thumbnail step, and where the step leads. -/
theorem step_generateThumbnail (task : TaskPayload) (inp : Input) (backend : Backend) (img : Img)
    (fmt : ImageFormat) (size : ℤ × ℤ) (s : Stores) (puts : List Put) :
    (∃ e, (Attempt.step deps task ⟨.generateThumbnail backend img fmt size, s, puts⟩ inp).work =
      .returned (.error e)) ∨
    ∃ thumb : Option Put, thumb.isSome = shouldThumbnail fmt ∧
      (∀ p ∈ thumb, ∃ day mime data,
        p = ⟨backend, thumbKey task, backend.storedKey day (thumbKey task) mime, data⟩) ∧
      Attempt.step deps task ⟨.generateThumbnail backend img fmt size, s, puts⟩ inp =
        ⟨.convertToWebp backend img fmt size (shouldThumbnail fmt),
          { s with objects := thumb.elim s.objects fun p => p.apply s.objects },
          thumb.toList ++ puts⟩ := by
  cases hfmt : shouldThumbnail fmt with
  | false =>
    refine .inr ⟨none, rfl, by simp, ?_⟩
    simp [Attempt.step, processTask, putOf, hfmt]
  | true =>
    cases henc : deps.encodeThumbnail img (thumbnailOutputFormat deps img fmt).1 with
    | error text =>
      refine .inl ⟨.thumbnail text, ?_⟩
      simp [Attempt.step, processTask, hfmt, henc]
    | ok buf =>
      rcases writeVariant_eq inp backend (thumbKey task) buf (thumbnailOutputFormat deps img fmt).2
        "thumb storage write: " s.objects with ⟨p, hput, hwrite⟩ | ⟨hput, text, objects, hwrite, -⟩
      · refine .inr ⟨some p, rfl, ?_, ?_⟩
        · intro q hq
          cases hq
          exact ⟨_, _, _, variantPut_some hput⟩
        · simp [Attempt.step, processTask, putOf, hfmt, henc, hput, hwrite]
      · refine .inl ⟨.thumbnail text, ?_⟩
        simp [Attempt.step, processTask, hfmt, henc, hwrite]

variable (deps) in
/-- The puts of the WebP step, and where the step leads. -/
theorem step_convertToWebp (task : TaskPayload) (inp : Input) (backend : Backend) (img : Img)
    (fmt : ImageFormat) (size : ℤ × ℤ) (thumbWritten : Bool) (s : Stores) (puts : List Put) :
    (∃ e, (Attempt.step deps task
      ⟨.convertToWebp backend img fmt size thumbWritten, s, puts⟩ inp).work =
        .returned (.error e)) ∨
    ∃ webp : Option Put, webp.isSome = shouldWebp fmt ∧
      (∀ p ∈ webp, ∃ day mime data,
        p = ⟨backend, webpKey task, backend.storedKey day (webpKey task) mime, data⟩) ∧
      Attempt.step deps task ⟨.convertToWebp backend img fmt size thumbWritten, s, puts⟩ inp =
        ⟨.updateImageRecord size thumbWritten (shouldWebp fmt),
          { s with objects := webp.elim s.objects fun p => p.apply s.objects },
          webp.toList ++ puts⟩ := by
  cases hfmt : shouldWebp fmt with
  | false =>
    refine .inr ⟨none, rfl, by simp, ?_⟩
    simp [Attempt.step, processTask, putOf, hfmt]
  | true =>
    rcases writeVariant_eq inp backend (webpKey task) (deps.encodeWebp img) "image/webp"
      "webp storage write: " s.objects with ⟨p, hput, hwrite⟩ | ⟨hput, text, objects, hwrite, -⟩
    · refine .inr ⟨some p, rfl, ?_, ?_⟩
      · intro q hq
        cases hq
        exact ⟨_, _, _, variantPut_some hput⟩
      · simp [Attempt.step, processTask, putOf, hfmt, hput, hwrite]
    · refine .inl ⟨.webp text, ?_⟩
      simp [Attempt.step, processTask, hfmt, hwrite]

/-- An attempt that failed stays failed. -/
theorem foldl_error {task : TaskPayload} {e : PipelineError} (inps : List Input) {a : Attempt Img}
    (h : a.work = .returned (.error e)) :
    (inps.foldl (Attempt.step deps task) a).work = .returned (.error e) := by
  induction inps generalizing a with
  | nil => exact h
  | cons inp inps ih =>
    apply ih
    simp only [Attempt.step, h, processTask]

theorem not_ok_of_error {task : TaskPayload} {e : PipelineError} (inps : List Input)
    {a : Attempt Img} (h : a.work = .returned (.error e)) :
    (inps.foldl (Attempt.step deps task) a).work ≠ .returned (.ok ()) := by
  rw [foldl_error inps h]
  exact fun heq => (nomatch heq)

variable (deps) in
/-- What an attempt leaves that finished with `Ok`. -/
structure Finished (task : TaskPayload) (s : Stores) (a : Attempt Img) (backend : Backend)
    (fmt : ImageFormat) (thumb webp : Option Put) : Prop where
  thumbSome : thumb.isSome = shouldThumbnail fmt
  webpSome : webp.isSome = shouldWebp fmt
  thumbPut : ∀ p ∈ thumb, ∃ day mime data,
    p = ⟨backend, thumbKey task, backend.storedKey day (thumbKey task) mime, data⟩
  webpPut : ∀ p ∈ webp, ∃ day mime data,
    p = ⟨backend, webpKey task, backend.storedKey day (webpKey task) mime, data⟩
  puts : a.puts = webp.toList ++ thumb.toList
  objects : a.stores.objects =
    webp.elim (thumb.elim s.objects fun p => p.apply s.objects) fun p =>
      p.apply (thumb.elim s.objects fun p => p.apply s.objects)
  images : ∃ size, a.stores.images = s.images.update (fun r => r.id == task.imageId)
    (setReady deps task size (shouldThumbnail fmt) (shouldWebp fmt)) fun _ => rfl

variable (deps) in
/-- An attempt finishes with `Ok` through all six calls. -/
theorem attempt_ok {inps : Inputs} {task : TaskPayload} {s : Stores}
    (h : (attempt deps inps task s).work = .returned (.ok ())) :
    ∃ backend raw fmt thumb webp,
      (resolveBackend deps inps.resolveBackend task s).1 = .ok backend ∧
      readSourceImage deps inps.readSourceImage backend task s.objects = .ok (raw, fmt) ∧
      Finished deps task s (attempt deps inps task s) backend fmt thumb webp := by
  unfold attempt Inputs.toList at h ⊢
  simp only [List.foldl_cons] at h ⊢
  -- the backend
  cases hres : resolveBackend deps inps.resolveBackend task s with
  | mk result router =>
  cases result with
  | error e => exact absurd h (not_ok_of_error _ (e := e) (by
      simp [Attempt.step, processTask, hres]))
  | ok backend =>
  have h1 : Attempt.step deps task ⟨.resolveBackend, s, []⟩ inps.resolveBackend =
      ⟨.readSourceImage backend, { s with router }, []⟩ := by
    simp [Attempt.step, processTask, putOf, hres]
  rw [h1] at h ⊢
  -- the source image
  cases hread : readSourceImage deps inps.readSourceImage backend task s.objects with
  | error e => exact absurd h (not_ok_of_error _ (e := e) (by
      simp [Attempt.step, processTask, hread]))
  | ok decoded =>
  obtain ⟨raw, fmt⟩ := decoded
  have h2 : Attempt.step deps task ⟨.readSourceImage backend, { s with router }, []⟩
      inps.readSourceImage =
      ⟨.loadWatermarkedImage backend raw fmt, { s with router }, []⟩ := by
    simp [Attempt.step, processTask, putOf, hread]
  rw [h2] at h ⊢
  -- the watermark
  cases hload : loadWatermarkedImage deps inps.loadWatermarkedImage raw with
  | error e => exact absurd h (not_ok_of_error _ (e := e) (by
      simp [Attempt.step, processTask, hload]))
  | ok img =>
  have h3 : Attempt.step deps task ⟨.loadWatermarkedImage backend raw fmt, { s with router }, []⟩
      inps.loadWatermarkedImage =
      ⟨.generateThumbnail backend img fmt (deps.dimensions raw), { s with router }, []⟩ := by
    simp [Attempt.step, processTask, putOf, hload]
  rw [h3] at h ⊢
  -- the variants
  rcases step_generateThumbnail deps task inps.generateThumbnail backend img fmt
    (deps.dimensions raw) { s with router } [] with ⟨e, he⟩ | ⟨thumb, hthumb, hthumbPut, h4⟩
  · exact absurd h (not_ok_of_error [inps.convertToWebp, inps.updateImageRecord] he)
  rw [h4] at h ⊢
  rcases step_convertToWebp deps task inps.convertToWebp backend img fmt (deps.dimensions raw)
    (shouldThumbnail fmt)
    { s with router, objects := thumb.elim s.objects fun p => p.apply s.objects }
    (thumb.toList ++ []) with ⟨e, he⟩ | ⟨webp, hwebp, hwebpPut, h5⟩
  · exact absurd h (not_ok_of_error [inps.updateImageRecord] he)
  rw [h5] at h ⊢
  -- the row
  cases hdb : inps.updateImageRecord.dbFault with
  | some text =>
    refine absurd h (not_ok_of_error [] (e := .database text) ?_)
    simp [Attempt.step, processTask, hdb]
  | none =>
    refine ⟨backend, raw, fmt, thumb, webp, rfl, hread, hthumb, hwebp, hthumbPut, hwebpPut, ?_, ?_,
      deps.dimensions raw, ?_⟩ <;> simp [Attempt.step, processTask, putOf, hdb]

theorem thumbKey_ne_webpKey (task : TaskPayload) : thumbKey task ≠ webpKey task := by
  intro h
  have hlen := congrArg String.length h
  simp only [thumbKey, webpKey, String.length_append] at hlen
  have hthumb : ("/thumb." : String).length = 7 := rfl
  have hwebp : ("/webp." : String).length = 6 := rfl
  omega

theorem named_of_some {p : Put} {objs : Objects}
    (h : objs (p.backend.locate p.path) = some p.data) : p.Named p.path objs :=
  ⟨Backend.get_of_some h, Backend.delete_ok h, Backend.delete_self ..⟩

/-- A key that is not where the object lies does not remove it. -/
theorem not_named_of_ne {p : Put} {key : String} {objs : Objects} (hne : p.path ≠ key)
    (h : objs (p.backend.locate p.path) ≠ none) : ¬ p.Named key objs := by
  intro hnamed
  have hl : p.backend.locate p.path ≠ p.backend.locate key :=
    fun heq => hne (p.backend.locate_injective heq)
  exact h ((Backend.delete_of_ne p.backend none key objs hl).symm.trans hnamed.2.2)

namespace Finished

variable {task : TaskPayload} {s : Stores} {a : Attempt Img} {backend : Backend}
  {fmt : ImageFormat} {thumb webp : Option Put}

theorem rows (h : Finished deps task s a backend fmt thumb webp) {r : Image}
    (hr : r ∈ a.stores.images.rows) (hid : r.id = task.imageId) :
    r.thumbnailKey = someIf (shouldThumbnail fmt) (thumbKey task) ∧
      r.webpKey = someIf (shouldWebp fmt) (webpKey task) := by
  obtain ⟨size, himages⟩ := h.images
  rw [himages] at hr
  rcases Table.mem_update_iff.mp hr with ⟨-, hne⟩ | ⟨r₀, -, -, rfl⟩
  · rw [hid, beq_self_eq_true] at hne
    cases hne
  · exact ⟨rfl, rfl⟩

theorem exists_row (h : Finished deps task s a backend fmt thumb webp) {r : Image}
    (hr : r ∈ s.images.rows) (hid : r.id = task.imageId) :
    ∃ r' ∈ a.stores.images.rows, r'.id = task.imageId := by
  obtain ⟨size, himages⟩ := h.images
  rw [himages]
  refine ⟨_, Table.mem_update_iff.mpr (.inr ⟨r, hr, by simp [hid], rfl⟩), hid⟩

/-- The WebP variant is written last. -/
theorem webp_stored (h : Finished deps task s a backend fmt thumb webp) {p : Put}
    (hp : webp = some p) : a.stores.objects (p.backend.locate p.path) = some p.data := by
  rw [h.objects, hp]
  exact Function.update_self ..

/-- The thumbnail is still there, unless the WebP variant was put in its place. -/
theorem thumb_stored (h : Finished deps task s a backend fmt thumb webp) {p : Put}
    (hp : thumb = some p) : a.stores.objects (p.backend.locate p.path) = some p.data ∨
      ∃ q, webp = some q ∧ q.path = p.path ∧
        a.stores.objects (p.backend.locate p.path) = some q.data := by
  obtain ⟨day, mime, data, hpe⟩ := h.thumbPut p hp
  rw [h.objects, hp]
  cases hq : webp with
  | none => exact .inl (Function.update_self ..)
  | some q =>
    obtain ⟨day', mime', data', hqe⟩ := h.webpPut q hq
    have hbackend : q.backend = p.backend := by rw [hpe, hqe]
    by_cases hpath : q.path = p.path
    · refine .inr ⟨q, rfl, hpath, ?_⟩
      rw [← hpath, ← hbackend]
      exact Function.update_self ..
    · refine .inl ?_
      show Function.update _ (q.backend.locate q.path) _ (p.backend.locate p.path) = _
      rw [hbackend, Function.update_of_ne fun heq => hpath (p.backend.locate_injective heq).symm]
      exact Function.update_self ..

/-- A backend that keeps the keys it is given finds the variants under the recorded ones. -/
theorem keysNamed_of_not_isGit (h : Finished deps task s a backend fmt thumb webp)
    (hgit : backend.isGit = false) : a.KeysNamed task := by
  intro r hr hid
  obtain ⟨hthumbKey, hwebpKey⟩ := h.rows hr hid
  have hthumbPath : ∀ p, thumb = some p → p.key = thumbKey task ∧ p.path = thumbKey task := by
    intro p hp
    obtain ⟨day, mime, data, rfl⟩ := h.thumbPut p hp
    exact ⟨rfl, Backend.storedKey_of_not_isGit hgit ..⟩
  have hwebpPath : ∀ p, webp = some p → p.key = webpKey task ∧ p.path = webpKey task := by
    intro p hp
    obtain ⟨day, mime, data, rfl⟩ := h.webpPut p hp
    exact ⟨rfl, Backend.storedKey_of_not_isGit hgit ..⟩
  constructor
  · intro key hkey
    cases hfmt : shouldThumbnail fmt with
    | false => rw [hthumbKey, hfmt] at hkey; cases hkey
    | true =>
      rw [hthumbKey, hfmt] at hkey
      cases hkey
      obtain ⟨p, hp⟩ := Option.isSome_iff_exists.mp (h.thumbSome.trans hfmt)
      obtain ⟨hpkey, hppath⟩ := hthumbPath p hp
      refine ⟨p, by simp [h.puts, hp], hpkey, ?_⟩
      rw [← hppath]
      apply named_of_some
      rcases h.thumb_stored hp with hstored | ⟨q, hq, hpath, -⟩
      · exact hstored
      · rw [hppath, (hwebpPath q hq).2] at hpath
        exact absurd hpath.symm (thumbKey_ne_webpKey task)
  · intro key hkey
    cases hfmt : shouldWebp fmt with
    | false => rw [hwebpKey, hfmt] at hkey; cases hkey
    | true =>
      rw [hwebpKey, hfmt] at hkey
      cases hkey
      obtain ⟨p, hp⟩ := Option.isSome_iff_exists.mp (h.webpSome.trans hfmt)
      obtain ⟨hpkey, hppath⟩ := hwebpPath p hp
      refine ⟨p, by simp [h.puts, hp], hpkey, ?_⟩
      rw [← hppath]
      exact named_of_some (h.webp_stored hp)

/-- Without variants there are no keys to record. -/
theorem keysNamed_of_gif (h : Finished deps task s a backend fmt thumb webp)
    (hfmt : fmt = .gif) : a.KeysNamed task := by
  subst hfmt
  intro r hr hid
  obtain ⟨hthumbKey, hwebpKey⟩ := h.rows hr hid
  rw [hthumbKey, hwebpKey]
  exact ⟨fun key hkey => (nomatch hkey), fun key hkey => (nomatch hkey)⟩

/-- Git files the thumbnail elsewhere than under the key recorded for it. -/
theorem not_keysNamed_of_isGit (h : Finished deps task s a backend fmt thumb webp) {r : Image}
    (hr : r ∈ s.images.rows) (hid : r.id = task.imageId) (hgit : backend.isGit = true)
    (hfmt : fmt ≠ .gif) : ¬ a.KeysNamed task := by
  intro hnamed
  have hthumbnail : shouldThumbnail fmt = true := by simpa [shouldThumbnail] using hfmt
  obtain ⟨r', hr', hid'⟩ := h.exists_row hr hid
  obtain ⟨p, hp⟩ := Option.isSome_iff_exists.mp (h.thumbSome.trans hthumbnail)
  obtain ⟨p', hp', hkey, hpn⟩ := (hnamed r' hr' hid').1 (thumbKey task) (by
    rw [(h.rows hr' hid').1, hthumbnail]
    rfl)
  -- the put the row's key stands for is that of the thumbnail
  have hpp : p' = p := by
    rw [h.puts, List.mem_append, Option.mem_toList, Option.mem_toList] at hp'
    rcases hp' with hw | ht
    · obtain ⟨day, mime, data, rfl⟩ := h.webpPut p' hw
      exact absurd hkey.symm (thumbKey_ne_webpKey task)
    · exact Option.some.inj (ht.symm.trans hp)
  subst hpp
  have hpath : p'.path ≠ thumbKey task := by
    obtain ⟨day, mime, data, rfl⟩ := h.thumbPut p' hp
    exact Backend.storedKey_ne_of_isGit hgit day (thumbKey task) mime
  refine not_named_of_ne hpath ?_ hpn
  rcases h.thumb_stored hp with hstored | ⟨q, -, -, hstored⟩ <;> rw [hstored] <;> simp

end Finished

end Lemmas

/-- The backend the task is bound to stores objects under the keys it is given, or the source
is a GIF, of which no variant is made. -/
def KeysKept (inps : Inputs) (task : TaskPayload) (s : Stores) : Prop :=
  ∀ backend raw fmt, (resolveBackend deps inps.resolveBackend task s).1 = .ok backend →
    readSourceImage deps inps.readSourceImage backend task s.objects = .ok (raw, fmt) →
    backend.isGit = false ∨ fmt = .gif

/-- The variant keys of an image that was processed name the objects put for it exactly when
the backend keeps keys or there are no variants. -/
theorem variant_keys_named_iff {inps : Inputs} {task : TaskPayload} {s : Stores} {r : Image}
    (hr : r ∈ s.images.rows) (hid : r.id = task.imageId)
    (hok : (attempt deps inps task s).work = .returned (.ok ())) :
    (attempt deps inps task s).KeysNamed task ↔ KeysKept deps inps task s := by
  obtain ⟨backend, raw, fmt, thumb, webp, hres, hread, hfin⟩ := attempt_ok deps hok
  constructor
  · intro hnamed backend' raw' fmt' hres' hread'
    cases hres.symm.trans hres'
    cases hread.symm.trans hread'
    by_contra hne
    obtain ⟨hgit, hfmt⟩ := not_or.mp hne
    exact hfin.not_keysNamed_of_isGit hr hid (by simpa using hgit) hfmt hnamed
  · intro hkept
    rcases hkept backend raw fmt hres hread with hgit | hfmt
    · exact hfin.keysNamed_of_not_isGit hgit
    · exact hfin.keysNamed_of_gif hfmt

/-- Every source decodes to a picture in PNG. -/
def pngWorker : Deps Unit where
  decode _ := .ok ((), .png)
  dimensions _ := (4, 3)
  hasAlpha _ := false
  applyWatermark _ img := .ok img
  encodeThumbnail _ _ := .ok [1]
  encodeWebp _ := [2]
  git := ⟨.ok, fun _ => "missing field"⟩
  publicUrl := "http://pics"

def githubConfig : UserStorageConfig where
  id := 5
  userId := 7
  name := "pics"
  provider := "github"
  isDefault := true
  config := [("token_encrypted", .str "t"), ("repo", .str "me/pics"), ("branch", .str "main")]
  createdAt := 0
  updatedAt := 0

/-- An upload to the Git backend of `githubConfig`, waiting to be processed. -/
def githubImage : Image where
  id := 1
  userId := 7
  publicKey := "000001"
  originalName := "a.png"
  storageKey := "pichost/2026/01/01/a.png"
  storageBackend := githubConfig.id.toText
  mimeType := "image/png"
  fileSize := 1
  width := none
  height := none
  sha256 := "00"
  url := "http://pics"
  thumbnailKey := none
  thumbnailUrl := none
  webpKey := none
  webpUrl := none
  status := "active"
  storageConfigId := some 5
  categoryId := none
  createdAt := 0

def githubTask : TaskPayload where
  taskId := 1
  imageId := 1
  userId := 7
  storageBackend := githubConfig.id.toText
  storageConfigId := some 5
  storageBackendName := "pics"
  sourceKey := githubImage.storageKey
  sourceMime := "image/png"
  retryCount := 0
  maxRetries := 3

def githubStores : Stores where
  images := (Table.empty.insert githubImage).getD default
  configs := (Table.empty.insert githubConfig).getD default
  objects l :=
    if l = .content .gitHub "me" "pics" "main" githubImage.storageKey then some [3] else none
  router :=
    { backends := AList.singleton "local" (.localStorage "/data" "http://pics")
      default := "local"
      order := fun _ => 0
      registered := List.cons_ne_nil _ [] }

def calmInput : Input := ⟨none, none, none, "2026/01/02"⟩

def calmInputs : Inputs := ⟨calmInput, calmInput, calmInput, calmInput, calmInput, calmInput⟩

theorem githubAttempt_ok :
    (attempt pngWorker calmInputs githubTask githubStores).work = .returned (.ok ()) := by
  decide +kernel

theorem variant_keys_named_iff_github :
    (attempt pngWorker calmInputs githubTask githubStores).KeysNamed githubTask ↔
      KeysKept pngWorker calmInputs githubTask githubStores :=
  variant_keys_named_iff pngWorker (r := githubImage) (by decide +kernel) rfl githubAttempt_ok

/-- Stored in a repository, the variants lie under a dated path and the row names another. -/
theorem variant_keys_not_named :
    ¬ ∀ (deps : Deps Unit) (inps : Inputs) (task : TaskPayload) (s : Stores),
      (attempt deps inps task s).work = .returned (.ok ()) →
      (attempt deps inps task s).KeysNamed task := by
  intro h
  have hnamed := h pngWorker calmInputs githubTask githubStores githubAttempt_ok
  exact absurd hnamed (by unfold Attempt.KeysNamed; decide +kernel)

end PicHost.Worker
