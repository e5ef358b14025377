import Mathlib
import PicHost.Api.UploadResult
import PicHost.Api.Categories
import PicHost.Lib.Placeholder
import PicHost.Lib.Paging
import PicHost.Lib.LikePattern
import PicHost.Lib.FloatQuotient

/-!
# Listing images

`list_images` runs two statements, one that counts and one that selects a page. Their texts are
built apart from the values bound to their parameters.
-/

namespace PicHost.ImageList

open KeyedTable Placeholder

inductive Engine
  | postgres
  | sqlite
deriving DecidableEq

/-- What the locale of a database settles: `LOWER`, character by character, and the order of
texts. -/
structure Database where
  engine : Engine
  lower : Char → Char
  collation : String → String → Bool
  lower_lower : ∀ c, lower (lower c) = lower c
  lower_symbol : ∀ m ∈ ['%', '_', '\\', '\x00'], ∀ c, lower c = m ↔ c = m
  collated : Paging.IsTotalPreorder collation

namespace Database

variable (db : Database)

/-- The symbols of `LIKE` without an `ESCAPE` clause. -/
def likeDialect : LikePattern.Dialect Char where
  run := '%'
  one := '_'
  escape := if db.engine = .postgres then some '\\' else none
  escape_ne := by split <;> simp

/-- `LIKE` of SQLite reads strings up to a terminator. -/
def cString (s : List Char) : List Char :=
  if db.engine = .sqlite then s.takeWhile (· ≠ '\x00') else s

def like (text pattern : List Char) : Bool :=
  db.likeDialect.like (db.cString text) (db.cString pattern)

/-- PostgreSQL refuses a text value with a null character. -/
def accepts (s : String) : Bool := db.engine = .sqlite || !s.toList.contains '\x00'

def lowered (s : String) : List Char := s.toList.map db.lower

end Database

/-- Lowering leaves what is no letter alone and makes nothing else of it. -/
theorem toLower_eq_iff {m : Char} (hlower : m.isLower = false) (hupper : m.isUpper = false)
    (c : Char) : c.toLower = m ↔ c = m := by
  by_cases hc : c.isUpper = true
  · have hletter : c.toLower.isLower = true := by
      rw [Char.isLower_toLower_eq_isAlpha, Char.isAlpha, hc, Bool.true_or]
    refine iff_of_false (fun h => ?_) fun h => ?_
    · rw [h, hlower] at hletter
      cases hletter
    · rw [h, hupper] at hc
      cases hc
  · rw [Char.toLower_eq_of_not_isUpper hc]

/-- SQLite lowers the letters of ASCII and compares bytes. -/
def sqliteDatabase : Database where
  engine := .sqlite
  lower := Char.toLower
  collation a b := decide (a ≤ b)
  lower_lower c := Char.toLower_toLower_eq_toLower c
  lower_symbol m hm := by
    have hplain : (['%', '_', '\\', '\x00'].all fun m => !m.isLower && !m.isUpper) = true := by
      decide
    have h := List.all_eq_true.mp hplain m hm
    rw [Bool.and_eq_true, Bool.not_eq_true', Bool.not_eq_true'] at h
    exact toLower_eq_iff h.1 h.2
  collated :=
    { trans := fun a b c hab hbc => by
        rw [decide_eq_true_eq] at *
        exact String.le_trans hab hbc
      total := fun a b => by
        rw [Bool.or_eq_true, decide_eq_true_eq, decide_eq_true_eq]
        exact String.le_total a b }

/-! ## The statements -/

inductive Bind
  | uuid (u : Uuid)
  | text (s : String)
  | int (n : ℤ)
deriving DecidableEq

/-- A conjunct of `WHERE`, with the number of the parameter it compares to. -/
inductive Condition
  | userId (param : ℕ)
  | originalName (param : ℕ)
  | storageConfigId (param : ℕ)
  | categoryId (param : ℕ)
deriving DecidableEq

/-- The conjuncts both statements have, and the last parameter they use. -/
def conditions (searchTerm : String) (configId categoryId : Option Uuid) :
    ℕ × List Condition :=
  let n := 1
  let sql := [.userId n]
  -- the numbers run on over the conjuncts that are left out
  let (n, sql) := if searchTerm = "" then (n, sql) else (n + 1, sql ++ [.originalName (n + 1)])
  let (n, sql) := if configId = none then (n, sql) else (n + 1, sql ++ [.storageConfigId (n + 1)])
  if categoryId = none then (n, sql) else (n + 1, sql ++ [.categoryId (n + 1)])

def buildCountSql (searchTerm : String) (configId categoryId : Option Uuid) : List Condition :=
  (conditions searchTerm configId categoryId).2

structure ListSql where
  conditions : List Condition
  sortCol : String
  orderDir : String
  limit : ℕ
  offset : ℕ
deriving DecidableEq

def buildListSql (searchTerm : String) (configId categoryId : Option Uuid)
    (sortCol orderDir : String) : ListSql :=
  let (n, conditions) := conditions searchTerm configId categoryId
  { conditions, sortCol, orderDir, limit := n + 1, offset := n + 2 }

/-- The values bound for the conjuncts. -/
def binds (userId : Uuid) (searchTerm : String) (configId categoryId : Option Uuid) : List Bind :=
  .uuid userId :: ((if searchTerm = "" then [] else [.text ("%" ++ searchTerm ++ "%")]) ++
    (configId.toList.map .uuid ++ categoryId.toList.map .uuid))

namespace Condition

variable (db : Database) (binds : List Bind) (r : Image)

def holds : Condition → Bool
  | .userId param => bound binds param == some (.uuid r.userId)
  | .originalName param =>
    match bound binds param with
    | some (.text pattern) => db.like (db.lowered r.originalName) (db.lowered pattern)
    | _ => false
  | .storageConfigId param =>
    r.storageConfigId.any fun id => bound binds param == some (.uuid id)
  | .categoryId param => r.categoryId.any fun id => bound binds param == some (.uuid id)

end Condition

/-- The rows that meet every conjunct. -/
def selected (db : Database) (sql : List Condition) (binds : List Bind) (images : ImageTable) :
    List Image :=
  images.select fun r => sql.all fun c => c.holds db binds r

/-- Whether `ORDER BY i.{sort_col} {order_dir}` lets the first row come before the second. -/
def sortLe (db : Database) (sortCol orderDir : String) (r q : Image) : Bool :=
  let ascending := fun r q : Image =>
    if sortCol = "file_size" then decide (r.fileSize ≤ q.fileSize)
    else if sortCol = "original_name" then db.collation r.originalName q.originalName
    else decide (r.createdAt ≤ q.createdAt)
  -- no second key: rows that tie come in any order, and not always in the same
  if orderDir = "ASC" then ascending r q else ascending q r

def internalError : ApiError := { status := 500, key := "common.internal_error" }

/-- `LIMIT $limit OFFSET $offset`. -/
def limited (sql : ListSql) (binds : List Bind) (rows : List Image) : List Image :=
  match bound binds sql.limit, bound binds sql.offset with
  | some (.int limit), some (.int offset) => (rows.drop offset.toNat).take limit.toNat
  | _, _ => []

def countUserImages (db : Database) (up : Bool) (userId : Uuid) (searchTerm : String)
    (configId categoryId : Option Uuid) (images : ImageTable) : Except ApiError Int64 :=
  if up && db.accepts searchTerm then
    let sql := buildCountSql searchTerm configId categoryId
    .ok (.ofNat
      (selected db sql (binds userId searchTerm configId categoryId) images).length)
  else .error internalError

/-- `arrange` is how the database orders the rows of this statement. -/
def fetchUserImages (db : Database) (up : Bool) (arrange : List Image → List Image)
    (userId : Uuid) (sortCol orderDir searchTerm : String) (limit offset : ℤ)
    (configId categoryId : Option Uuid) (configs : ConfigTable) (images : ImageTable) :
    Except ApiError (List ImageRow) :=
  if up && db.accepts searchTerm then
    let sql := buildListSql searchTerm configId categoryId sortCol orderDir
    let binds := binds userId searchTerm configId categoryId ++ [.int limit, .int offset]
    .ok ((limited sql binds (arrange (selected db sql.conditions binds images))).map
      (Image.joinConfig configs))
  else .error internalError

/-! ## The handler -/

structure ImageListQuery where
  page : UInt32 := 1
  perPage : UInt32 := 20
  sort : String := "created_at"
  order : String := "desc"
  search : String := ""
  storageConfigId : Option Uuid := none
  categoryId : Option Uuid := none
deriving DecidableEq

structure ImageListResponse where
  items : List UploadResult
  total : Int64
  page : UInt32
  perPage : UInt32
  totalPages : UInt32

def resolveSort (params : ImageListQuery) : String × String :=
  (if params.sort ∈ ["created_at", "file_size", "original_name"] then params.sort
    else "created_at",
   if params.order ∈ ["asc", "ASC"] then "ASC" else "DESC")

/-- `total as f64 / per_page as f64`, rounded up. -/
def calcTotalPages (total : Int64) (perPage : UInt32) : UInt32 :=
  if total = 0 then 1
  else FloatQuotient.ceilToUInt32 (Float.Model.UnpackedFloat.div .binary64
    (.ofInt64 .binary64 total) (.ofUInt32 .binary64 perPage))

namespace ImageListQuery

variable (params : ImageListQuery)

def clampedPage : UInt32 := max params.page 1

def clampedPerPage : UInt32 := min (max params.perPage 1) 100

/-- The product wraps: the release profile has no overflow checks. -/
def offset : ℤ := ((params.clampedPage - 1) * params.clampedPerPage).toNat

def searchTerm : String := Categories.trim params.search

end ImageListQuery

/-- Which of the two statements the database answers. -/
structure Calls where
  count : Bool
  list : Bool
  arrange : List Image → List Image

def listImages (db : Database) (calls : Calls) (user : AuthUser) (params : ImageListQuery)
    (configs : ConfigTable) (images : ImageTable) : Except ApiError ImageListResponse := do
  let (sortCol, orderDir) := resolveSort params
  let total ← countUserImages db calls.count user.id params.searchTerm params.storageConfigId
    params.categoryId images
  let rows ← fetchUserImages db calls.list calls.arrange user.id sortCol orderDir
    params.searchTerm params.clampedPerPage.toNat params.offset params.storageConfigId
    params.categoryId configs images
  return {
    items := rows.map .fromRow
    total
    page := params.clampedPage
    perPage := params.clampedPerPage
    totalPages := calcTotalPages total params.clampedPerPage }

/-! ## What the statements select -/

/-- The rows a listing is about. -/
def matchesFilter (db : Database) (userId : Uuid) (searchTerm : String)
    (configId categoryId : Option Uuid) (r : Image) : Bool :=
  r.userId == userId &&
    (searchTerm = "" || db.like (db.lowered r.originalName)
      (db.lowered ("%" ++ searchTerm ++ "%"))) &&
    (configId.all fun id => r.storageConfigId == some id) &&
    categoryId.all fun id => r.categoryId == some id

variable {db : Database} {userId : Uuid} {searchTerm : String} {configId categoryId : Option Uuid}

theorem uuid_beq (a b : Uuid) : (Bind.uuid a == .uuid b) = (b == a) := by
  rw [Bool.eq_iff_iff, beq_iff_eq, beq_iff_eq, Bind.uuid.injEq]
  exact eq_comm

theorem any_beq (id : Uuid) (o : Option Uuid) : (o.any fun k => k == id) = (o == some id) := by
  cases o with
  | none => rfl
  | some k => rfl

/-- Each parameter of a conjunct has been bound the value the conjunct is for. -/
theorem all_holds (post : List Bind) (r : Image) :
    ((conditions searchTerm configId categoryId).2.all fun c =>
      c.holds db (binds userId searchTerm configId categoryId ++ post) r) =
      matchesFilter db userId searchTerm configId categoryId r := by
  by_cases hterm : searchTerm = "" <;> cases configId <;> cases categoryId <;>
    simp [conditions, binds, matchesFilter, Condition.holds, bound, hterm, uuid_beq, any_beq,
      Bool.and_assoc]

theorem conditions_fst : (conditions searchTerm configId categoryId).1 =
    (binds userId searchTerm configId categoryId).length := by
  by_cases hterm : searchTerm = "" <;> cases configId <;> cases categoryId <;>
    simp [conditions, binds, hterm]

theorem selected_eq (post : List Bind) (images : ImageTable) :
    selected db (conditions searchTerm configId categoryId).2
      (binds userId searchTerm configId categoryId ++ post) images =
      images.select (matchesFilter db userId searchTerm configId categoryId) := by
  unfold selected
  congr 1
  funext r
  exact all_holds post r

/-- The two parameters after the conjuncts' are the page. -/
theorem limited_eq (sortCol orderDir : String) (limit offset : ℤ) (rows : List Image) :
    limited (buildListSql searchTerm configId categoryId sortCol orderDir)
      (binds userId searchTerm configId categoryId ++ [.int limit, .int offset]) rows =
      (rows.drop offset.toNat).take limit.toNat := by
  simp only [limited, buildListSql, @conditions_fst userId, bound_length, bound_length_succ]
  rfl

theorem countUserImages_eq (images : ImageTable) :
    countUserImages db true userId searchTerm configId categoryId images =
      if db.accepts searchTerm then
        .ok (.ofNat (images.select
          (matchesFilter db userId searchTerm configId categoryId)).length)
      else .error internalError := by
  have hselected := @selected_eq db userId searchTerm configId categoryId [] images
  rw [List.append_nil] at hselected
  rw [countUserImages, Bool.true_and, buildCountSql]
  simp only [hselected]

theorem fetchUserImages_eq (arrange : List Image → List Image) (sortCol orderDir : String)
    (limit offset : ℤ) (configs : ConfigTable) (images : ImageTable) :
    fetchUserImages db true arrange userId sortCol orderDir searchTerm limit offset configId
      categoryId configs images =
      if db.accepts searchTerm then
        .ok ((((arrange (images.select
          (matchesFilter db userId searchTerm configId categoryId))).drop offset.toNat).take
            limit.toNat).map (Image.joinConfig configs))
      else .error internalError := by
  rw [fetchUserImages, Bool.true_and]
  simp only [limited_eq]
  rw [show (buildListSql searchTerm configId categoryId sortCol orderDir).conditions =
    (conditions searchTerm configId categoryId).2 from rfl, selected_eq]

variable (db) (user : AuthUser) (params : ImageListQuery) (configs : ConfigTable)
variable (images : ImageTable)

/-- The rows a request is about. -/
def matching : List Image :=
  images.select (matchesFilter db user.id params.searchTerm params.storageConfigId
    params.categoryId)

def item (r : Image) : UploadResult := .fromRow (r.joinConfig configs)

/-- The answer when the database answers both statements. -/
theorem listImages_eq (arrange : List Image → List Image) :
    listImages db ⟨true, true, arrange⟩ user params configs images =
      if db.accepts params.searchTerm then
        .ok {
          items := (((arrange (matching db user params images)).drop params.offset.toNat).take
            params.clampedPerPage.toNat).map (item configs)
          total := .ofNat (matching db user params images).length
          page := params.clampedPage
          perPage := params.clampedPerPage
          totalPages := calcTotalPages (.ofNat (matching db user params images).length)
            params.clampedPerPage }
      else .error internalError := by
  simp only [listImages, countUserImages_eq, fetchUserImages_eq]
  split
  · simp only [bind, Except.bind, pure, Except.pure, List.map_map, Int.toNat_natCast]
    rfl
  · rfl

end PicHost.ImageList
