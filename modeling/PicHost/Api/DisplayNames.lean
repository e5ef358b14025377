import PicHost.Api.Categories
import PicHost.Api.Upload
import PicHost.Api.UploadUrl
import PicHost.Lib.Run

/-!
# Names of images and categories

Uploads, renames and category requests write names; only some of them check what they write.
-/

namespace PicHost.DisplayNames

open KeyedTable LabelledRun Categories
open PartialUpdates (Category UpdateCategoryRequest ownCategory)
open ImageCache (validateOriginalName)

/-- Where the name of an uploaded file comes from. -/
inductive Source
  | multipart (fileName : Option String)
  | url (url : UploadUrl.Url)

def Source.fileName : Source → String
  | .multipart name => name.getD "file"
  | .url parsed => UploadUrl.extractFilename parsed

structure Rename where
  user : AuthUser
  id : Uuid
  originalName : String
  stage : ImageCache.Stage

structure State where
  stores : Upload.Stores
  uploads : List Upload.Request
  renames : List Rename
  categories : CategoryTable
  calls : List Request

def State.tables (s : State) : Tables := ⟨s.categories, s.stores.images⟩

inductive Action
  | upload (user : AuthUser) (bytes : Bytes) (source : Source)
      (storageConfigIds : Option (List Uuid))
  | advanceUpload (i b : ℕ) (inp : Upload.Input)
  | rename (user : AuthUser) (id : Uuid) (originalName : String)
  | advanceRename (i : ℕ) (env : ImageCache.Env)
  | call (call : Call)
  | advanceCall (i : ℕ) (inp : Input)

/-- The images as `rename_image` sees them; the cache has no part in what it writes. -/
def imageState (s : State) : ImageCache.State Unit :=
  .fresh s.stores.images s.stores.configs [] s.stores.objects true

variable (deps : Upload.Deps)

def step (s : State) : Action → State
  | .upload user bytes source storageConfigIds =>
    { s with
      uploads := s.uploads ++
        [⟨⟨user, bytes, source.fileName, storageConfigIds⟩, .checkQuotas⟩] }
  | .advanceUpload i b inp =>
    let w := (Upload.World.mk s.stores s.uploads).advance deps i b inp
    { s with stores := w.stores, uploads := w.requests }
  | .rename user id originalName =>
    { s with renames := s.renames ++ [⟨user, id, originalName, .start⟩] }
  | .advanceRename i env =>
    match s.renames[i]? with
    | none => s
    | some r =>
      let (stage, t) := ImageCache.renameImage env r.user r.id r.originalName r.stage (imageState s)
      { s with
        stores := { s.stores with images := t.images }
        renames := s.renames.set i { r with stage } }
  | .call call => { s with calls := s.calls ++ [⟨call, .received⟩] }
  | .advanceCall i inp =>
    match s.calls[i]? with
    | none => s
    | some r =>
      let (stage, t) := advance inp r s.tables
      { s with
        stores := { s.stores with images := t.images }
        categories := t.categories
        calls := s.calls.set i { r with stage } }

/-- No images, no categories and no requests. -/
def start (stores : Upload.Stores) : State := ⟨{ stores with images := .empty }, [], [], .empty, []⟩

def ValidName (name : String) : Prop := validateOriginalName name = .ok ()

def ValidCategoryName (name : String) : Prop :=
  trim name = name ∧ name ≠ "" ∧ name.utf8ByteSize ≤ 128

/-- Two categories of one user under one parent, or both under none, have different names. -/
def SiblingsDiffer (rows : List Category) : Prop :=
  ∀ c ∈ rows, ∀ d ∈ rows, c.userId = d.userId → c.parentId = d.parentId → c.name = d.name → c = d

structure Named (t : Tables) : Prop where
  images : ∀ r ∈ t.images.rows, ValidName r.originalName
  categories : ∀ c ∈ t.categories.rows, ValidCategoryName c.name
  siblings : SiblingsDiffer t.categories.rows

/-- The request whose row a step of an upload inserts. -/
def inserting (s : State) (i b : ℕ) (inp : Upload.Input) : Option Upload.UploadCtx :=
  match s.uploads[i]? with
  | some ⟨ctx, .running _ branches⟩ =>
    match branches[b]? with
    | some (config, .insertImageRecord _ publicKey storageKey url) =>
      if inp.dbUp && (s.stores.images.insert
          (Upload.newImage deps ctx config inp publicKey storageKey url)).isSome then some ctx
      else none
    | _ => none
  | _ => none

/-- No other category of the user at the top level has the name. -/
def FreeAtTop (rows : List Category) (user : AuthUser) (name : String) (but : Uuid) : Prop :=
  ∀ c ∈ rows, c.userId = user.id → c.parentId = none → c.name = name → c.id = but

/-- The name that a statement of a category request writes is fit for its place. -/
def WritesFitName (inp : Input) (r : Request) (t : Tables) : Prop :=
  match r.call, r.stage with
  | .createCategory user req, .insertCategory =>
    (insertCategory inp user req t.categories).isOk = true → req.parentId = none →
      FreeAtTop t.categories.rows user (trim req.name) inp.newId
  | .updateCategory user id req, .updateRow existing =>
    (updateCategory inp user id req existing t.categories).isOk = true →
      ValidCategoryName (req.name.getD existing.name) ∧
        ∀ c ∈ t.categories.rows, ownCategory user id c = true → c.parentId = none →
          FreeAtTop t.categories.rows user (req.name.getD existing.name) id
  | _, _ => True

def WritesFit (s : State) : Action → Prop
  | .advanceUpload i b inp => ∀ ctx ∈ inserting deps s i b inp, ValidName ctx.fileName
  | .advanceCall i inp =>
    ∀ r ∈ s.calls[i]?, WritesFitName inp r s.tables
  | _ => True

/-- What the checks of a request have established about the name it is going to write. -/
def NameChecked (r : Request) : Prop :=
  match r.call, r.stage with
  | .createCategory _ req, .validateDepth _ _ | .createCategory _ req, .insertCategory =>
    ValidCategoryName (trim req.name)
  | _, _ => True

structure Checked (s : State) : Prop where
  renames : ∀ r ∈ s.renames, r.stage = .update → ValidName r.originalName
  calls : ∀ r ∈ s.calls, NameChecked r

variable {deps} {s : State}

/-- A step of an upload adds a row with the request's file name, or leaves the rows. -/
theorem rows_advanceUpload (s : State) (i b : ℕ) (inp : Upload.Input) :
    (inserting deps s i b inp = none ∧
      (step deps s (.advanceUpload i b inp)).stores.images.rows = s.stores.images.rows) ∨
    ∃ ctx row, inserting deps s i b inp = some ctx ∧ row.originalName = ctx.fileName ∧
      (step deps s (.advanceUpload i b inp)).stores.images.rows =
        s.stores.images.rows ++ [row] := by
  cases hi : s.uploads[i]? with
  | none =>
    left
    simp only [inserting, step, Upload.World.advance, hi, and_self]
  | some req =>
    obtain ⟨ctx, stage⟩ := req
    simp only [inserting, step, Upload.World.advance, hi]
    have ha := Upload.processUpload_advance deps b inp ctx stage s.stores
    generalize (Upload.processUpload deps b inp ctx stage s.stores).1 = stage',
      (Upload.processUpload deps b inp ctx stage s.stores).2 = stores' at ha ⊢
    cases ha with
    | rejected hrej =>
      rcases hrej with rfl | ⟨seen, rfl⟩ <;> exact .inl ⟨rfl, rfl⟩
    | checked | started => exact .inl ⟨rfl, rfl⟩
    | idle hidle =>
      cases stage with
      | running seen branches =>
        dsimp only
        rw [hidle seen branches rfl]
        exact .inl ⟨rfl, rfl⟩
      | _ => exact .inl ⟨rfl, rfl⟩
    | moved hb hcall =>
      dsimp only
      rw [hb]
      cases hcall with
      | inserted hdb hins =>
        right
        simp only [hdb, hins, Option.isSome_some, Bool.and_self, if_true]
        exact ⟨ctx, _, rfl, rfl, Table.rows_of_insert hins⟩
      | refused router hr hp he hrouter =>
        rename_i p e
        left
        cases hr with
        | insert hins => simp only [hins, Option.isSome_none, Bool.and_false, and_true]; rfl
        | database hdown =>
          cases p with
          | insertImageRecord => simp only [hdown, Bool.false_and, and_true]; rfl
          | _ => exact ⟨rfl, rfl⟩
        | _ => exact ⟨rfl, rfl⟩
      | _ => exact .inl ⟨rfl, rfl⟩

/-! ## Siblings -/

/-- Under a parent the table itself keeps the names apart. -/
theorem siblingsDiffer_iff_top (categories : CategoryTable) :
    SiblingsDiffer categories.rows ↔ ∀ c ∈ categories.rows, ∀ d ∈ categories.rows,
      c.parentId = none → d.parentId = none → c.userId = d.userId → c.name = d.name → c = d := by
  constructor
  · exact fun h c hc d hd hctop hdtop hu hname => h c hc d hd hu (hctop.trans hdtop.symm) hname
  · intro h c hc d hd hu hparent hname
    by_cases htop : c.parentId = none
    · exact h c hc d hd htop (hparent.symm.trans htop) hu hname
    · exact categories.eq_of_clash PartialUpdates.CategoryKeys.Clash.symm hc hd
        (.inr ⟨hu, hname, htop, hparent⟩)

theorem ownCategory_iff {user : AuthUser} {id : Uuid} {c : Category} :
    ownCategory user id c = true ↔ c.id = id ∧ c.userId = user.id := by
  simp only [ownCategory, Bool.and_eq_true, beq_iff_eq]

theorem siblings_insert_iff {categories categories' : CategoryTable} {c : Category}
    (h : SiblingsDiffer categories.rows) (hins : categories.insert c = some categories') :
    SiblingsDiffer categories'.rows ↔ (c.parentId = none →
      ∀ d ∈ categories.rows, d.userId = c.userId → d.parentId = none → d.name ≠ c.name) := by
  have hmem := fun {d : Category} => Table.mem_of_insert hins (b := d)
  have hne : ∀ d ∈ categories.rows, d ≠ c := fun d hd heq =>
    Table.not_clash_of_insert hins d hd (.inl (congrArg Category.id heq))
  rw [siblingsDiffer_iff_top]
  constructor
  · intro hafter htop d hd hu hdtop hname
    exact hne d hd (hafter d (hmem.mpr (.inl hd)) c (hmem.mpr (.inr rfl)) hdtop htop hu hname)
  · intro hfree d hd e he hdtop hetop hu hname
    rcases hmem.mp hd with hd | rfl <;> rcases hmem.mp he with he | rfl
    · exact h d hd e he hu (hdtop.trans hetop.symm) hname
    · exact absurd hname (hfree hetop d hd hu hdtop)
    · exact absurd hname.symm (hfree hdtop e he hu.symm hetop)
    · rfl

/-- The rows after one has got another name. -/
theorem siblings_rename_iff {categories categories' : CategoryTable} {user : AuthUser} {id : Uuid}
    {name : String} {row : Category} (h : SiblingsDiffer categories.rows)
    (hupd : categories.updateReturning (ownCategory user id) (fun c => { c with name }) =
      some (row, categories')) :
    SiblingsDiffer categories'.rows ↔ ∀ c ∈ categories.rows, ownCategory user id c = true →
      c.parentId = none → FreeAtTop categories.rows user name id := by
  have hmem : ∀ d, d ∈ categories'.rows ↔ (d ∈ categories.rows ∧ ownCategory user id d = false) ∨
      ∃ c ∈ categories.rows, ownCategory user id c = true ∧ { c with name } = d := by
    intro d
    rw [(Table.of_updateReturning hupd).1]
    exact Table.mem_updated_iff
  rw [siblingsDiffer_iff_top]
  constructor
  · intro hafter c hc hown htop d hd hu hdtop hname
    by_contra hid
    have hdown : ownCategory user id d = false :=
      Bool.eq_false_of_not_eq_true fun hdown => hid (ownCategory_iff.mp hdown).1
    have hsame := hafter d ((hmem d).mpr (.inl ⟨hd, hdown⟩)) { c with name }
      ((hmem _).mpr (.inr ⟨c, hc, hown, rfl⟩)) hdtop htop
      (hu.trans (ownCategory_iff.mp hown).2.symm) hname
    exact hid ((congrArg Category.id hsame).trans (ownCategory_iff.mp hown).1)
  · -- of two rows with one name after the update at most one has been renamed
    intro hfree d hd e he hdtop hetop hu hname
    have hone : ∀ c ∈ categories.rows, ownCategory user id c = true → c.parentId = none →
        ∀ f ∈ categories.rows, ownCategory user id f = false → f.parentId = none →
          f.userId = c.userId → f.name ≠ name := by
      intro c hc hown htop f hf hfown hftop hfu hfname
      have hu' := hfu.trans (ownCategory_iff.mp hown).2
      have hid := hfree c hc hown htop f hf hu' hftop hfname
      cases hfown.symm.trans (ownCategory_iff.mpr ⟨hid, hu'⟩)
    rcases (hmem d).mp hd with ⟨hd, hdown⟩ | ⟨c, hc, hown, rfl⟩ <;>
      rcases (hmem e).mp he with ⟨he, heown⟩ | ⟨f, hf, hfown, rfl⟩
    · exact h d hd e he hu (hdtop.trans hetop.symm) hname
    · exact absurd hname (hone f hf hfown hetop d hd hdown hdtop hu)
    · exact absurd hname.symm (hone c hc hown hdtop e he heown hetop hu.symm)
    · have hid := (ownCategory_iff.mp hown).1.trans (ownCategory_iff.mp hfown).1.symm
      rw [PartialUpdates.Categories.eq_of_id c hc f hf hid]

/-! ## Steps -/

theorem images_of_effect {inp : Input} {t t' : Tables} {call : Call} {stage : Stage}
    (h : Effect inp t call stage t') {r : Image} (hr : r ∈ t'.images.rows) :
    ∃ q ∈ t.images.rows, r.originalName = q.originalName := by
  cases h with
  | deleted =>
    obtain ⟨q, hq, rfl⟩ := List.mem_map.mp hr
    exact ⟨q, hq, rfl⟩
  | moved =>
    obtain ⟨q, hq, rfl⟩ := List.mem_map.mp hr
    refine ⟨q, hq, ?_⟩
    split <;> rfl
  | _ => exact ⟨r, hr, rfl⟩

theorem named_create_iff {inp : Input} {t : Tables} {user : AuthUser} {req : CreateCategoryRequest}
    (h : Named t) (hname : ValidCategoryName (trim req.name)) :
    Named (advance inp ⟨.createCategory user req, .insertCategory⟩ t).2 ↔
      WritesFitName inp ⟨.createCategory user req, .insertCategory⟩ t := by
  simp only [advance, advanceCreate, WritesFitName]
  cases hins : insertCategory inp user req t.categories with
  | error e => exact iff_of_true h fun hok => by cases hok
  | ok categories =>
    have hinsert := (of_insertCategory hins).1
    have hsiblings := siblings_insert_iff h.siblings hinsert
    have hvalid : ∀ c ∈ categories.rows, ValidCategoryName c.name := by
      intro c hc
      rcases (Table.mem_of_insert hinsert).mp hc with hold | rfl
      · exact h.categories c hold
      · exact hname
    constructor
    · intro hafter _ htop c hc hu hctop hcname
      exact absurd hcname (hsiblings.mp hafter.siblings htop c hc hu hctop)
    · intro hfit
      refine ⟨h.images, hvalid, hsiblings.mpr fun htop c hc hu hctop hcname => ?_⟩
      have hid := hfit rfl htop c hc hu hctop hcname
      exact Table.not_clash_of_insert hinsert c hc (.inl hid)

theorem named_update_iff {inp : Input} {t : Tables} {user : AuthUser} {id : Uuid}
    {req : UpdateCategoryRequest} {existing : Category} (h : Named t) :
    Named (advance inp ⟨.updateCategory user id req, .updateRow existing⟩ t).2 ↔
      WritesFitName inp ⟨.updateCategory user id req, .updateRow existing⟩ t := by
  simp only [advance, advanceUpdate, WritesFitName]
  cases hupd : updateCategory inp user id req existing t.categories with
  | error e => exact iff_of_true h fun hok => by cases hok
  | ok result =>
    obtain ⟨row, categories⟩ := result
    have hret := of_updateCategory hupd
    have hsiblings := siblings_rename_iff h.siblings hret
    obtain ⟨hrows, c, hc, hown⟩ := Table.of_updateReturning hret
    obtain ⟨d, hd, hdname⟩ : ∃ d ∈ categories.rows, d.name = req.name.getD existing.name := by
      rw [hrows]
      exact ⟨_, Table.mem_updated_iff.mpr (.inr ⟨c, hc, hown, rfl⟩), rfl⟩
    constructor
    · intro hafter _
      have hname := hafter.categories d hd
      rw [hdname] at hname
      exact ⟨hname, hsiblings.mp hafter.siblings⟩
    · intro hfit
      obtain ⟨hname, hfree⟩ := hfit rfl
      refine ⟨h.images, fun d hd => ?_, hsiblings.mpr hfree⟩
      rw [hrows] at hd
      rcases Table.mem_updated_iff.mp hd with ⟨hold, -⟩ | ⟨e, -, -, rfl⟩
      · exact h.categories d hold
      · exact hname

/-- The other statements write no names. -/
theorem Named.effect {inp : Input} {t t' : Tables} {r : Request} (h : Named t)
    (heffect : Effect inp t r.call r.stage t')
    (hcreate : ∀ user req, r ≠ ⟨.createCategory user req, .insertCategory⟩)
    (hupdate : ∀ user id req existing, r ≠ ⟨.updateCategory user id req, .updateRow existing⟩) :
    Named t' := by
  have himages : ∀ q ∈ t'.images.rows, ValidName q.originalName := by
    intro q hq
    obtain ⟨q', hq', hname⟩ := images_of_effect heffect hq
    rw [hname]
    exact h.images q' hq'
  obtain ⟨call, stage⟩ := r
  cases heffect with
  | same => exact h
  | inserted => exact absurd rfl (hcreate _ _)
  | renamed => exact absurd rfl (hupdate _ _ _ _)
  | deleted =>
    refine ⟨himages, fun c hc => h.categories c (Table.mem_delete.mp hc).1, ?_⟩
    exact fun c hc d hd => h.siblings c (Table.mem_delete.mp hc).1 d (Table.mem_delete.mp hd).1
  | moved => exact ⟨himages, h.categories, h.siblings⟩

theorem named_call_iff {inp : Input} {t : Tables} {r : Request} (h : Named t)
    (hchecked : NameChecked r) : Named (advance inp r t).2 ↔ WritesFitName inp r t := by
  obtain ⟨call, stage⟩ := r
  by_cases hcreate : ∃ user req, (⟨call, stage⟩ : Request) =
      ⟨.createCategory user req, .insertCategory⟩
  · obtain ⟨user, req, heq⟩ := hcreate
    cases heq
    exact named_create_iff h hchecked
  · by_cases hupdate : ∃ user id req existing, (⟨call, stage⟩ : Request) =
        ⟨.updateCategory user id req, .updateRow existing⟩
    · obtain ⟨user, id, req, existing, heq⟩ := hupdate
      cases heq
      exact named_update_iff h
    · push Not at hcreate hupdate
      refine iff_of_true (h.effect (effect inp ⟨call, stage⟩ t) hcreate hupdate) ?_
      unfold WritesFitName
      split
      · rename_i hcall hstage
        cases hcall
        cases hstage
        exact absurd rfl (hcreate _ _)
      · rename_i hcall hstage
        cases hcall
        cases hstage
        exact absurd rfl (hupdate _ _ _ _)
      · trivial

/-- A rename writes its own name, and in one stage only. -/
theorem renameImage_spec {env : ImageCache.Env} {user : AuthUser} {id : Uuid}
    {originalName : String} {stage : ImageCache.Stage} {t : ImageCache.State Unit} :
    (∀ r ∈ (ImageCache.renameImage env user id originalName stage t).2.images.rows,
      r ∈ t.images.rows ∨ stage = .update ∧ r.originalName = originalName) ∧
    ((ImageCache.renameImage env user id originalName stage t).1 = .update →
      ValidName originalName) := by
  cases stage with
  | start =>
    simp only [ImageCache.renameImage]
    split
    · exact ⟨fun _ hr => .inl hr, fun h => by cases h⟩
    · rename_i hvalid
      exact ⟨fun _ hr => .inl hr, fun _ => hvalid⟩
  | update =>
    simp only [ImageCache.renameImage]
    split
    · exact ⟨fun _ hr => .inl hr, fun h => by cases h⟩
    · split
      · exact ⟨fun _ hr => .inl hr, fun h => by cases h⟩
      · refine ⟨fun r hr => ?_, fun h => by cases h⟩
        rcases Table.mem_updated_iff.mp hr with ⟨hold, -⟩ | ⟨q, -, -, rfl⟩
        · exact .inl hold
        · exact .inr ⟨trivial, rfl⟩
  | refetch =>
    simp only [ImageCache.renameImage]
    split <;> exact ⟨fun _ hr => .inl hr, fun h => by cases h⟩
  | _ => exact ⟨fun _ hr => .inl hr, fun h => by cases h⟩

theorem NameChecked.advance {inp : Input} {r : Request} (h : NameChecked r) (t : Tables) :
    NameChecked ⟨r.call, (advance inp r t).1⟩ := by
  obtain ⟨call, stage⟩ := r
  cases call with
  | createCategory user req =>
    cases stage with
    | received =>
      simp only [Categories.advance, advanceCreate, createCategory]
      split
      · trivial
      · rename_i hname
        push Not at hname
        have hvalid : ValidCategoryName (trim req.name) :=
          ⟨trim_trim req.name, hname.1, hname.2⟩
        split <;> exact hvalid
    | validateDepth parentId current =>
      simp only [Categories.advance, advanceCreate, validateDepth]
      split
      · trivial
      · split
        · trivial
        · trivial
        · split <;> exact h
    | insertCategory =>
      simp only [Categories.advance, advanceCreate]
      split <;> trivial
    | _ => exact h
  | _ => trivial

theorem Checked.step (h : Checked s) (a : Action) : Checked (DisplayNames.step deps s a) := by
  cases a with
  | upload => exact ⟨h.renames, h.calls⟩
  | advanceUpload => exact ⟨h.renames, h.calls⟩
  | rename user id originalName =>
    refine ⟨fun r hr => ?_, h.calls⟩
    rcases List.mem_append.mp hr with hr | hr
    · exact h.renames r hr
    · rw [List.mem_singleton.mp hr]
      exact fun hstage => by cases hstage
  | advanceRename i env =>
    cases hi : s.renames[i]? with
    | none => simpa only [DisplayNames.step, hi] using h
    | some r =>
      simp only [DisplayNames.step, hi]
      refine ⟨fun q hq => ?_, h.calls⟩
      rcases List.mem_or_eq_of_mem_set hq with hq | rfl
      · exact h.renames q hq
      · exact renameImage_spec.2
  | call call =>
    refine ⟨h.renames, fun r hr => ?_⟩
    rcases List.mem_append.mp hr with hr | hr
    · exact h.calls r hr
    · rw [List.mem_singleton.mp hr]
      cases call <;> trivial
  | advanceCall i inp =>
    cases hi : s.calls[i]? with
    | none => simpa only [DisplayNames.step, hi] using h
    | some r =>
      simp only [DisplayNames.step, hi]
      refine ⟨h.renames, fun q hq => ?_⟩
      rcases List.mem_or_eq_of_mem_set hq with hq | rfl
      · exact h.calls q hq
      · exact (h.calls r (List.mem_of_getElem? hi)).advance s.tables

theorem named_upload_iff (h : Named s.tables) (i b : ℕ) (inp : Upload.Input) :
    Named (step deps s (.advanceUpload i b inp)).tables ↔
      WritesFit deps s (.advanceUpload i b inp) := by
  have hkeep : Named (step deps s (.advanceUpload i b inp)).tables ↔
      ∀ r ∈ (step deps s (.advanceUpload i b inp)).stores.images.rows, ValidName r.originalName :=
    ⟨fun hafter => hafter.images, fun himages => ⟨himages, h.categories, h.siblings⟩⟩
  rw [hkeep, WritesFit]
  rcases @rows_advanceUpload deps s i b inp with ⟨hnone, hrows⟩ |
    ⟨ctx, row, hsome, hname, hrows⟩
  · rw [hrows, hnone]
    exact iff_of_true h.images fun _ hctx => by cases hctx
  · rw [hrows, hsome]
    simp only [List.mem_append, List.mem_singleton, Option.mem_def, Option.some.injEq, forall_eq',
      or_imp, forall_and, forall_eq, hname]
    exact and_iff_right h.images

theorem Named.rename (h : Named s.tables) (hc : Checked s) (i : ℕ) (env : ImageCache.Env) :
    Named (step deps s (.advanceRename i env)).tables := by
  cases hi : s.renames[i]? with
  | none => simpa only [step, hi] using h
  | some r =>
    simp only [step, hi]
    refine ⟨fun q hq => ?_, h.categories, h.siblings⟩
    rcases renameImage_spec.1 q hq with hold | ⟨hstage, hname⟩
    · exact h.images q hold
    · rw [hname]
      exact hc.renames r (List.mem_of_getElem? hi) hstage

theorem named_step_iff (h : Named s.tables) (hc : Checked s) (a : Action) :
    Named (step deps s a).tables ↔ WritesFit deps s a := by
  cases a with
  | advanceUpload i b inp => exact named_upload_iff h i b inp
  | advanceRename i env => exact iff_of_true (h.rename hc i env) trivial
  | advanceCall i inp =>
    cases hi : s.calls[i]? with
    | none =>
      simp only [step, WritesFit, hi]
      exact iff_of_true h fun _ hr => by cases hr
    | some r =>
      simp only [step, WritesFit, hi, Option.mem_def, Option.some.injEq, forall_eq']
      exact named_call_iff h (hc.calls r (List.mem_of_getElem? hi))
  | _ => exact iff_of_true h trivial

variable (deps) in
/-- The names of images and categories are valid, and those of siblings different, in every state
of a run exactly if every step that writes a name writes a fit one. -/
theorem names_valid_iff (stores : Upload.Stores) (as : List Action) :
    AllStates (step deps) (fun s => Named s.tables) (start stores) as ↔
      AllSteps (step deps) (WritesFit deps) (start stores) as := by
  refine allStates_iff_allSteps (J := Checked) (fun _ a h => h.step a)
    (fun s a hc hnamed => named_step_iff hnamed hc a) ?_ ?_ as
  · exact ⟨fun _ hr => (List.not_mem_nil hr).elim, fun _ hr => (List.not_mem_nil hr).elim⟩
  · exact ⟨fun _ hr => (List.not_mem_nil hr).elim, fun _ hc => (List.not_mem_nil hc).elim,
      fun _ hc => (List.not_mem_nil hc).elim⟩

/-- Two top-level categories of one name. -/
def sameTwice : List Action :=
  [.call (.createCategory Upload.demoCtx.user ⟨"a", none⟩), .advanceCall 0 ⟨true, "", 1, 0⟩,
    .advanceCall 0 ⟨true, "", 1, 0⟩, .call (.createCategory Upload.demoCtx.user ⟨"a", none⟩),
    .advanceCall 1 ⟨true, "", 2, 0⟩, .advanceCall 1 ⟨true, "", 2, 0⟩]

/-- `NULL`s are different for `UNIQUE (user_id, name, parent_id)`. -/
theorem names_not_valid :
    ¬ ∀ (deps : Upload.Deps) (stores : Upload.Stores) (as : List Action),
      AllStates (step deps) (fun s => Named s.tables) (start stores) as := by
  intro h
  have hnamed := (h Upload.smallDeps Upload.emptyStores sameTwice).last
  have hrows : (sameTwice.foldl (step Upload.smallDeps)
      (start Upload.emptyStores)).categories.rows =
        [⟨1, 7, "a", none, 0⟩, ⟨2, 7, "a", none, 0⟩] := by decide +kernel
  have hsiblings : SiblingsDiffer (sameTwice.foldl (step Upload.smallDeps)
      (start Upload.emptyStores)).categories.rows := hnamed.siblings
  rw [hrows] at hsiblings
  have hsame := hsiblings ⟨1, 7, "a", none, 0⟩ (by simp) ⟨2, 7, "a", none, 0⟩ (by simp) rfl rfl rfl
  revert hsame
  decide

end PicHost.DisplayNames
