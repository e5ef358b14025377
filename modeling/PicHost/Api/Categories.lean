import PicHost.Api.ImageCache
import PicHost.Api.PartialUpdates
import PicHost.Lib.Placeholder
import PicHost.Lib.Trimmed

/-!
# Categories and the images in them

The category routes, `move_image` and `batch_move_images`, from one statement to the next. The
foreign keys of the migrations are enforced; what a move evicts from the cache is left out.
-/

namespace PicHost.Categories

open KeyedTable Placeholder
open PartialUpdates (Category UpdateCategoryRequest ownCategory deleteCategories)

abbrev CategoryTable := PartialUpdates.Categories

/-- `char::is_whitespace`. -/
def isWhitespace (c : Char) : Bool :=
  let n := c.toNat
  (9 ≤ n && n ≤ 13) || n == 0x20 || n == 0x85 || n == 0xa0 || n == 0x1680 ||
    (0x2000 ≤ n && n ≤ 0x200a) || n == 0x2028 || n == 0x2029 || n == 0x202f || n == 0x205f ||
    n == 0x3000

/-- `str::trim`. -/
def trim (s : String) : String := String.ofList (Trimmed.trim isWhitespace s.toList)

def maxDepth : ℕ := 2

/-! ## The tree -/

inductive CategoryTreeNode
  | mk (id : Uuid) (name : String) (parentId : Option Uuid) (children : List CategoryTreeNode)

def buildChildren (parentId : Uuid) (all : List Category) : List CategoryTreeNode :=
  (all.filter fun c => c.parentId == some parentId).map
    fun c => .mk c.id c.name (some parentId) []

def buildTree (categories : List Category) : List CategoryTreeNode :=
  (categories.filter fun c => c.parentId == none).map
    fun c => .mk c.id c.name none (buildChildren c.id categories)

/-! ## Requests -/

structure CreateCategoryRequest where
  name : String
  parentId : Option Uuid

inductive Call
  | createCategory (user : AuthUser) (req : CreateCategoryRequest)
  | updateCategory (user : AuthUser) (id : Uuid) (req : UpdateCategoryRequest)
  | deleteCategory (user : AuthUser) (id : Uuid)
  | listCategories (user : AuthUser)
  | moveImage (user : AuthUser) (id : Uuid) (categoryId : Option Uuid)
  | batchMoveImages (user : AuthUser) (imageIds : List Uuid) (categoryId : Uuid)

inductive Reply
  | category (row : Category)
  | deleted
  | tree (nodes : List CategoryTreeNode)
  | moved (count : ℕ)

/-- The statement that comes next, with what the earlier ones have read. -/
inductive Stage
  | received
  | validateDepth (parentId : Uuid) (current : ℕ)
  | insertCategory
  | updateRow (existing : Category)
  | updateImages
  | returned (result : Except ApiError Reply)

structure Request where
  call : Call
  stage : Stage

/-- What the outside contributes to one statement: whether the database runs it, the driver's
text if it fails, the identifier that `gen_random_uuid` gives, the time. -/
structure Input where
  dbUp : Bool
  error : String
  newId : Uuid
  now : Instant

structure Tables where
  categories : CategoryTable
  images : ImageTable

def errorDetail (inp : Input) : ApiError :=
  { status := 500, key := "common.internal_error_detail", args := [inp.error] }

def dbError (inp : Input) : ApiError :=
  { status := 500, key := "common.db_error", args := [inp.error] }

def categoryNotFound : ApiError := { status := 404, key := "category.not_found" }

/-- `SELECT … FROM categories WHERE id = $1 AND user_id = $2`. -/
def fetchCategory (user : AuthUser) (id : Uuid) (categories : CategoryTable) : Option Category :=
  (categories.select (ownCategory user id)).head?

def createCategory (req : CreateCategoryRequest) : Stage :=
  let name := trim req.name
  if name = "" ∨ 128 < name.utf8ByteSize then
    .returned (.error { status := 400, key := "category.invalid_name" })
  else
    match req.parentId with
    | some parentId => .validateDepth parentId 1
    | none => .insertCategory

/-- One level of the recursion. -/
def validateDepth (inp : Input) (user : AuthUser) (parentId : Uuid) (current : ℕ)
    (categories : CategoryTable) : Stage :=
  -- before the parent is looked up, so a parent of a parent at the limit is never read
  if maxDepth ≤ current then
    .returned (.error
      { status := 400, key := "category.depth_exceeded", args := [toString maxDepth] })
  else
    match inp.dbUp, fetchCategory user parentId categories with
    | false, _ => .returned (.error (errorDetail inp))
    | true, none => .returned (.error { status := 404, key := "category.parent_not_found" })
    | true, some parent =>
      match parent.parentId with
      | some grandparent => .validateDepth grandparent (current + 1)
      | none => .insertCategory

def newCategory (inp : Input) (user : AuthUser) (req : CreateCategoryRequest) : Category where
  id := inp.newId
  userId := user.id
  name := trim req.name
  parentId := req.parentId
  createdAt := inp.now

/-- `REFERENCES categories(id)`, of a column that may be null. -/
def referencesCategory (id : Option Uuid) (categories : CategoryTable) : Bool :=
  id.all fun k => categories.anyRow fun c => c.id == k

/-- The `INSERT`. A clash of keys is found before the foreign key is checked. -/
def insertCategory (inp : Input) (user : AuthUser) (req : CreateCategoryRequest)
    (categories : CategoryTable) : Except ApiError CategoryTable :=
  if inp.dbUp then
    match categories.insert (newCategory inp user req) with
    | none => .error { status := 409, key := "category.name_exists" }
    | some categories' =>
      if referencesCategory req.parentId categories then .ok categories'
      else .error (errorDetail inp)
  else .error (errorDetail inp)

/-- A category that was inserted has its parent in the table. -/
theorem of_insertCategory {inp : Input} {user : AuthUser} {req : CreateCategoryRequest}
    {categories categories' : CategoryTable}
    (h : insertCategory inp user req categories = .ok categories') :
    categories.insert (newCategory inp user req) = some categories' ∧
      referencesCategory req.parentId categories = true := by
  unfold insertCategory at h
  split at h
  · split at h
    · cases h
    · split at h
      · rename_i hinsert href
        cases h
        exact ⟨hinsert, href⟩
      · cases h
  · cases h

def advanceCreate (inp : Input) (user : AuthUser) (req : CreateCategoryRequest) (stage : Stage)
    (t : Tables) : Stage × Tables :=
  match stage with
  | .received => (createCategory req, t)
  | .validateDepth parentId current =>
    (validateDepth inp user parentId current t.categories, t)
  | .insertCategory =>
    match insertCategory inp user req t.categories with
    | .error e => (.returned (.error e), t)
    | .ok categories =>
      (.returned (.ok (.category (newCategory inp user req))), { t with categories })
  | stage => (stage, t)

/-- The `UPDATE`; it touches no column with a foreign key. -/
def updateCategory (inp : Input) (user : AuthUser) (id : Uuid) (req : UpdateCategoryRequest)
    (existing : Category) (categories : CategoryTable) :
    Except ApiError (Category × CategoryTable) :=
  if inp.dbUp then
    -- no row any more, or a clash of names: unlike the INSERT, both count as a failure
    match categories.updateReturning (ownCategory user id)
        fun c => { c with name := req.name.getD existing.name } with
    | none => .error (errorDetail inp)
    | some result => .ok result
  else .error (errorDetail inp)

theorem of_updateCategory {inp : Input} {user : AuthUser} {id : Uuid}
    {req : UpdateCategoryRequest} {existing row : Category} {categories categories' : CategoryTable}
    (h : updateCategory inp user id req existing categories = .ok (row, categories')) :
    categories.updateReturning (ownCategory user id)
      (fun c => { c with name := req.name.getD existing.name }) = some (row, categories') := by
  unfold updateCategory at h
  split at h
  · split at h
    · cases h
    · rename_i hupd
      cases h
      exact hupd
  · cases h

def advanceUpdate (inp : Input) (user : AuthUser) (id : Uuid) (req : UpdateCategoryRequest)
    (stage : Stage) (t : Tables) : Stage × Tables :=
  match stage with
  | .received =>
    match inp.dbUp, fetchCategory user id t.categories with
    | false, _ => (.returned (.error (errorDetail inp)), t)
    | true, none => (.returned (.error categoryNotFound), t)
    | true, some existing => (.updateRow existing, t)
  | .updateRow existing =>
    match updateCategory inp user id req existing t.categories with
    | .error e => (.returned (.error e), t)
    | .ok (row, categories) => (.returned (.ok (.category row)), { t with categories })
  | stage => (stage, t)

/-- `ON DELETE SET NULL`. -/
def setNull (categories : CategoryTable) (r : Image) : Image :=
  { r with categoryId := r.categoryId.filter fun k => categories.anyRow fun c => c.id == k }

/-- The `DELETE` with its cascade over `parent_id` and the reference from `images`. -/
def deleteCategory (user : AuthUser) (id : Uuid) (t : Tables) : Tables :=
  let categories := deleteCategories (ownCategory user id) t.categories
  { categories
    images := t.images.update (fun _ => true) (setNull categories) fun _ => rfl }

def advanceDelete (inp : Input) (user : AuthUser) (id : Uuid) (stage : Stage) (t : Tables) :
    Stage × Tables :=
  match stage with
  | .received =>
    if inp.dbUp then
      if t.categories.anyRow (ownCategory user id) then
        (.returned (.ok .deleted), deleteCategory user id t)
      else (.returned (.error categoryNotFound), t)
    else (.returned (.error (errorDetail inp)), t)
  | stage => (stage, t)

/-- `SELECT … WHERE user_id = $1 ORDER BY created_at`. -/
def userRows (user : AuthUser) (categories : CategoryTable) : List Category :=
  (categories.select fun c => c.userId == user.id).mergeSort
    fun c d => decide (c.createdAt ≤ d.createdAt)

def advanceList (inp : Input) (user : AuthUser) (stage : Stage) (t : Tables) : Stage × Tables :=
  match stage with
  | .received =>
    if inp.dbUp then (.returned (.ok (.tree (buildTree (userRows user t.categories)))), t)
    else (.returned (.error (errorDetail inp)), t)
  | stage => (stage, t)

/-! ## Moves -/

def ensureCategoryOwned (inp : Input) (user : AuthUser) (categoryId : Uuid)
    (categories : CategoryTable) : Except ApiError Unit :=
  match inp.dbUp, fetchCategory user categoryId categories with
  | false, _ => .error (dbError inp)
  | true, none => .error categoryNotFound
  | true, some _ => .ok ()

/-- `WHERE user_id = $2 AND id IN ($3, …)`. -/
def batchWhere (categoryId : Option Uuid) (user : AuthUser) (imageIds : List Uuid) (r : Image) :
    Bool :=
  let binds := [categoryId, some user.id] ++ imageIds.map some
  bound binds 2 == some (some r.userId) &&
    inList binds (placeholders 3 imageIds.length) (some r.id)

theorem keys_movedTo (categoryId : Option Uuid) (r : Image) :
    Image.keys { r with categoryId } = Image.keys r := rfl

/-- `UPDATE images SET category_id = $1 WHERE p`, with the number of rows. -/
def setCategory (inp : Input) (categoryId : Option Uuid) (p : Image → Bool) (t : Tables) :
    Except ApiError (ℕ × Tables) :=
  let count := (t.images.select p).length
  if inp.dbUp && (count == 0 || referencesCategory categoryId t.categories) then
    .ok (count,
      { t with
        images := t.images.update p (fun r => { r with categoryId }) (keys_movedTo categoryId) })
  else .error (dbError inp)

def advanceMove (inp : Input) (user : AuthUser) (id : Uuid) (categoryId : Option Uuid)
    (stage : Stage) (t : Tables) : Stage × Tables :=
  match stage with
  | .received =>
    match categoryId with
    | none => (.updateImages, t)
    | some k =>
      match ensureCategoryOwned inp user k t.categories with
      | .error e => (.returned (.error e), t)
      | .ok () => (.updateImages, t)
  | .updateImages =>
    match setCategory inp categoryId (ImageCache.ownWhere id user.id) t with
    | .error e => (.returned (.error e), t)
    | .ok (0, t) => (.returned (.error { status := 404, key := "image.move_not_found" }), t)
    | .ok (count + 1, t) => (.returned (.ok (.moved (count + 1))), t)
  | stage => (stage, t)

def validateBatchMove (ids : List Uuid) : Except ApiError Unit :=
  if ids = [] then .error { status := 400, key := "image.batch_move_empty" }
  else if 100 < ids.length then .error { status := 400, key := "image.batch_move_limit" }
  else .ok ()

def advanceBatchMove (inp : Input) (user : AuthUser) (imageIds : List Uuid) (categoryId : Uuid)
    (stage : Stage) (t : Tables) : Stage × Tables :=
  match stage with
  | .received =>
    match validateBatchMove imageIds with
    | .error e => (.returned (.error e), t)
    | .ok () =>
      match ensureCategoryOwned inp user categoryId t.categories with
      | .error e => (.returned (.error e), t)
      | .ok () => (.updateImages, t)
  | .updateImages =>
    match setCategory inp (some categoryId) (batchWhere (some categoryId) user imageIds) t with
    | .error e => (.returned (.error e), t)
    | .ok (count, t) => (.returned (.ok (.moved count)), t)
  | stage => (stage, t)

/-- One statement of a request. -/
def advance (inp : Input) (r : Request) (t : Tables) : Stage × Tables :=
  match r.call with
  | .createCategory user req => advanceCreate inp user req r.stage t
  | .updateCategory user id req => advanceUpdate inp user id req r.stage t
  | .deleteCategory user id => advanceDelete inp user id r.stage t
  | .listCategories user => advanceList inp user r.stage t
  | .moveImage user id categoryId => advanceMove inp user id categoryId r.stage t
  | .batchMoveImages user imageIds categoryId =>
    advanceBatchMove inp user imageIds categoryId r.stage t

/-! ## What one statement does to the tables -/

/-- The caller, the category and the rows of a move. -/
def moveWhere : Call → Option (AuthUser × Option Uuid × (Image → Bool))
  | .moveImage user id categoryId => some (user, categoryId, ImageCache.ownWhere id user.id)
  | .batchMoveImages user imageIds k =>
    some (user, some k, batchWhere (some k) user imageIds)
  | _ => none

/-- The tables that a statement of a request leaves. -/
inductive Effect (inp : Input) (t : Tables) : Call → Stage → Tables → Prop
  | same {call stage} : Effect inp t call stage t
  | inserted {user req categories}
      (hins : t.categories.insert (newCategory inp user req) = some categories)
      (href : referencesCategory req.parentId t.categories = true) :
      Effect inp t (.createCategory user req) .insertCategory { t with categories }
  | renamed {user id existing row categories} {req : UpdateCategoryRequest}
      (hupd : t.categories.updateReturning (ownCategory user id)
        (fun c => { c with name := req.name.getD existing.name }) =
          some (row, categories)) :
      Effect inp t (.updateCategory user id req) (.updateRow existing) { t with categories }
  | deleted {user id} : Effect inp t (.deleteCategory user id) .received (deleteCategory user id t)
  | moved {call user categoryId p} (hcall : moveWhere call = some (user, categoryId, p))
      (href : (∀ r ∈ t.images.rows, p r = false) ∨
        referencesCategory categoryId t.categories = true) :
      Effect inp t call .updateImages
        { t with images := t.images.update p (fun r => { r with categoryId }) fun _ => rfl }

theorem effect_setCategory {inp : Input} {t t' : Tables} {call : Call} {user : AuthUser}
    {categoryId : Option Uuid} {p : Image → Bool} {count : ℕ}
    (hcall : moveWhere call = some (user, categoryId, p))
    (h : setCategory inp categoryId p t = .ok (count, t')) :
    Effect inp t call .updateImages t' := by
  unfold setCategory at h
  dsimp only at h
  split at h
  · rename_i hok
    cases h
    simp only [Bool.and_eq_true, Bool.or_eq_true, beq_iff_eq] at hok
    refine .moved hcall (hok.2.imp_left fun hcount r hr => ?_)
    have hnil := List.filter_eq_nil_iff.mp (List.length_eq_zero_iff.mp hcount) r hr
    exact Bool.eq_false_of_not_eq_true hnil
  · cases h

section Handlers

variable (inp : Input) (user : AuthUser) (stage : Stage) (t : Tables)

theorem effect_create (req : CreateCategoryRequest) :
    Effect inp t (.createCategory user req) stage (advanceCreate inp user req stage t).2 := by
  cases stage with
  | insertCategory =>
    simp only [advanceCreate]
    split
    · exact .same
    · rename_i categories hins
      obtain ⟨hinsert, href⟩ := of_insertCategory hins
      exact .inserted hinsert href
  | _ => exact .same

theorem effect_update (id : Uuid) (req : UpdateCategoryRequest) :
    Effect inp t (.updateCategory user id req) stage (advanceUpdate inp user id req stage t).2 := by
  cases stage with
  | received =>
    simp only [advanceUpdate]
    split <;> exact .same
  | updateRow existing =>
    simp only [advanceUpdate]
    split
    · exact .same
    · rename_i row categories hupd
      exact .renamed (of_updateCategory hupd)
  | _ => exact .same

theorem effect_delete (id : Uuid) :
    Effect inp t (.deleteCategory user id) stage (advanceDelete inp user id stage t).2 := by
  cases stage with
  | received =>
    simp only [advanceDelete]
    split
    · split
      · exact .deleted
      · exact .same
    · exact .same
  | _ => exact .same

theorem effect_list :
    Effect inp t (.listCategories user) stage (advanceList inp user stage t).2 := by
  cases stage with
  | received =>
    simp only [advanceList]
    split <;> exact .same
  | _ => exact .same

theorem effect_move (id : Uuid) (categoryId : Option Uuid) :
    Effect inp t (.moveImage user id categoryId) stage
      (advanceMove inp user id categoryId stage t).2 := by
  cases stage with
  | received =>
    simp only [advanceMove]
    split
    · exact .same
    · split <;> exact .same
  | updateImages =>
    simp only [advanceMove]
    split
    · exact .same
    · rename_i hset
      exact effect_setCategory rfl hset
    · rename_i hset
      exact effect_setCategory rfl hset
  | _ => exact .same

theorem effect_batchMove (imageIds : List Uuid) (categoryId : Uuid) :
    Effect inp t (.batchMoveImages user imageIds categoryId) stage
      (advanceBatchMove inp user imageIds categoryId stage t).2 := by
  cases stage with
  | received =>
    simp only [advanceBatchMove]
    split
    · exact .same
    · split <;> exact .same
  | updateImages =>
    simp only [advanceBatchMove]
    split
    · exact .same
    · rename_i hset
      exact effect_setCategory rfl hset
  | _ => exact .same

end Handlers

theorem effect (inp : Input) (r : Request) (t : Tables) :
    Effect inp t r.call r.stage (advance inp r t).2 := by
  obtain ⟨call, stage⟩ := r
  cases call with
  | createCategory user req => exact effect_create inp user stage t req
  | updateCategory user id req => exact effect_update inp user stage t id req
  | deleteCategory user id => exact effect_delete inp user stage t id
  | listCategories user => exact effect_list inp user stage t
  | moveImage user id categoryId => exact effect_move inp user stage t id categoryId
  | batchMoveImages user imageIds k => exact effect_batchMove inp user stage t imageIds k

theorem moveWhere_own {call : Call} {user : AuthUser} {categoryId : Option Uuid}
    {p : Image → Bool} (hcall : moveWhere call = some (user, categoryId, p)) {r : Image}
    (hr : p r = true) : r.userId = user.id := by
  cases call with
  | moveImage =>
    cases hcall
    simp only [ImageCache.ownWhere, Bool.and_eq_true, beq_iff_eq] at hr
    exact hr.2
  | batchMoveImages =>
    cases hcall
    simp only [batchWhere, Bool.and_eq_true, beq_iff_eq] at hr
    exact (Option.some.inj (Option.some.inj hr.1)).symm
  | _ => cases hcall

theorem fetchCategory_eq {user : AuthUser} {id : Uuid} {categories : CategoryTable} {c : Category}
    (h : fetchCategory user id categories = some c) :
    c ∈ categories.rows ∧ c.id = id ∧ c.userId = user.id := by
  obtain ⟨hc, hown⟩ := Table.mem_of_select_head? h
  simp only [ownCategory, Bool.and_eq_true, beq_iff_eq] at hown
  exact ⟨hc, hown⟩

theorem referencesCategory_some {k : Uuid} {categories : CategoryTable} :
    referencesCategory (some k) categories = true ↔ ∃ c ∈ categories.rows, c.id = k := by
  simp only [referencesCategory, Option.all_some, Table.anyRow_iff, beq_iff_eq]

theorem trim_trim (s : String) : trim (trim s) = trim s := by
  simp only [trim, String.toList_ofList, Trimmed.trim_trim]

end PicHost.Categories
