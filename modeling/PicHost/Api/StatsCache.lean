import Mathlib.Data.List.Dedup
import PicHost.Api.Admin
import PicHost.Lib.IntText

/-!
# The statistics of the administrator

`get_admin_stats` keeps what the database answers in a hash of the cache, field by field, and
reads it back from there. The writer and the reader name the fields separately.
-/

namespace PicHost.StatsCache

open KeyedTable Admin
open Registration (internalError)

structure BackendStats where
  totalImages : ℤ
  totalSize : ℤ
deriving DecidableEq

structure AdminStats where
  totalUsers : ℤ
  totalImages : ℤ
  totalSize : ℤ
  activeUsers24h : ℤ
  totalQuota : Option ℤ
  storageBackends : String → Option BackendStats

/-! ## The hash -/

/-- The fields of a hash of Redis. -/
abbrev Hash := String → Option String

/-- `None` is stored as the empty text. -/
def fieldText (value : Option ℤ) : String := value.elim "" fun n => String.ofList (IntText.render n)

/-- One `HSET` for each field. -/
def setUserStats (fields : List (String × Option ℤ)) (hash : Hash) : Hash :=
  fields.foldl (fun hash field => Function.update hash field.1 (some (fieldText field.2))) hash

structure StatsCacheParams where
  totalUsers : ℤ
  totalImages : ℤ
  totalSize : ℤ
  activeUsers24h : ℤ
  totalQuota : Option ℤ
  localImages : ℤ
  localSize : ℤ
  rustfsSize : ℤ

def StatsCacheParams.fields (params : StatsCacheParams) : List (String × Option ℤ) :=
  [("total_users", some params.totalUsers), ("total_images", some params.totalImages),
    ("total_size", some params.totalSize), ("active_users_24h", some params.activeUsers24h),
    ("total_quota", params.totalQuota), ("local_images", some params.localImages),
    ("local_size", some params.localSize), ("rustfs_size", some params.rustfsSize)]

def populateStatsCache (params : StatsCacheParams) (hash : Hash) : Hash :=
  setUserStats params.fields hash

def parseI64 (v : String) : Option ℤ := IntText.parse 64 v.toList

/-- `stats_map.get(k).and_then(|v| v.parse().ok()).unwrap_or(fallback)`. -/
def parseOr (hash : Hash) (key : String) (fallback : ℤ) : ℤ :=
  ((hash key).bind parseI64).getD fallback

def buildBackendsMap (localStats rustfs : BackendStats) : String → Option BackendStats :=
  Function.update (Function.update (fun _ => none) "local" (some localStats)) "rustfs"
    (some rustfs)

def tryParseCachedStats (hash : Hash) : Option AdminStats := do
  let totalUsers ← (hash "total_users").bind parseI64
  let totalImages ← (hash "total_images").bind parseI64
  let totalSize ← (hash "total_size").bind parseI64
  let activeUsers24h := parseOr hash "active_users_24h" 0
  let localStats : BackendStats :=
    ⟨parseOr hash "local_images" totalImages, parseOr hash "local_size" totalSize⟩
  -- `StatsCacheParams` has no `rustfs_images`, and nothing else writes it.
  let rustfs : BackendStats := ⟨parseOr hash "rustfs_images" 0, parseOr hash "rustfs_size" 0⟩
  let totalQuota ← (hash "total_quota").map fun v => if v = "" then none else parseI64 v
  return {
    totalUsers, totalImages, totalSize, activeUsers24h, totalQuota
    storageBackends := buildBackendsMap localStats rustfs }

@[simp] theorem buildBackendsMap_rustfs (localStats rustfs : BackendStats) :
    buildBackendsMap localStats rustfs "rustfs" = some rustfs := Function.update_self ..

/-! ## The database -/

structure Database (J : Type) where
  users : UserRows J
  images : ImageTable

inductive Query
  | totalUsers
  | imageStats
  | activeUsers24h
  | totalQuota
  | backendStats (backendName : String)

section Queries

variable {J : Type} (cutoff : Instant)

/-- A number that is no `BIGINT` is an error of the database. -/
def bigint (n : ℤ) : Option ℤ := if IntText.Fits 64 n then some n else none

def countAndSize (images : List Image) : Option BackendStats := do
  let totalImages ← bigint images.length
  let totalSize ← bigint (images.map (·.fileSize)).sum
  return { totalImages, totalSize }

def queryTotalUsers (db : Database J) : Option ℤ := bigint db.users.rows.length

def queryImageStats (db : Database J) : Option BackendStats := countAndSize db.images.rows

def queryActiveUsers24h (db : Database J) : Option ℤ :=
  bigint ((db.images.select fun r => cutoff ≤ r.createdAt).map (·.userId)).dedup.length

/-- `SUM` of no rows is `NULL`. -/
def queryTotalQuota (db : Database J) : Option (Option ℤ) :=
  let quotas := db.users.rows.filterMap (·.storageQuota)
  if quotas = [] then some none else (bigint quotas.sum).map some

def queryBackendStats (backendName : String) (db : Database J) : Option BackendStats :=
  countAndSize (db.images.select fun r => r.storageBackend == backendName)

structure Found where
  totalUsers : ℤ
  images : BackendStats
  activeUsers24h : ℤ
  totalQuota : Option ℤ
  localStats : BackendStats
  rustfsStats : BackendStats
deriving DecidableEq

namespace Found

def stats (found : Found) : AdminStats where
  totalUsers := found.totalUsers
  totalImages := found.images.totalImages
  totalSize := found.images.totalSize
  activeUsers24h := found.activeUsers24h
  totalQuota := found.totalQuota
  storageBackends := buildBackendsMap found.localStats found.rustfsStats

def cacheParams (found : Found) : StatsCacheParams where
  totalUsers := found.totalUsers
  totalImages := found.images.totalImages
  totalSize := found.images.totalSize
  activeUsers24h := found.activeUsers24h
  totalQuota := found.totalQuota
  localImages := found.localStats.totalImages
  localSize := found.localStats.totalSize
  rustfsSize := found.rustfsStats.totalSize

end Found

/-- What the queries find, one after the other; each has its own snapshot of the tables, or fails.
-/
def queryStats (snapshot : Query → Option (Database J)) : Option Found := do
  let totalUsers ← (snapshot .totalUsers).bind queryTotalUsers
  let images ← (snapshot .imageStats).bind queryImageStats
  let activeUsers24h := ((snapshot .activeUsers24h).bind (queryActiveUsers24h cutoff)).getD 0
  let totalQuota ← (snapshot .totalQuota).bind queryTotalQuota
  let localStats ← (snapshot (.backendStats "local")).bind (queryBackendStats "local")
  let rustfsStats ← (snapshot (.backendStats "rustfs")).bind (queryBackendStats "rustfs")
  return { totalUsers, images, activeUsers24h, totalQuota, localStats, rustfsStats }

/-- The answer, and the hash after it. -/
def getAdminStats (cacheUp : Bool) (snapshot : Query → Option (Database J)) (hash : Hash) :
    Except ApiError AdminStats × Hash :=
  match if cacheUp then tryParseCachedStats hash else none with
  | some stats => (.ok stats, hash)
  | none =>
    match queryStats cutoff snapshot with
    | none => (.error internalError, hash)
    | some found =>
      (.ok found.stats, if cacheUp then populateStatsCache found.cacheParams hash else hash)

end Queries

/-! ## Reading back what was written -/

theorem setUserStats_of_notMem {fields : List (String × Option ℤ)} {key : String}
    (h : key ∉ fields.map Prod.fst) (hash : Hash) : setUserStats fields hash key = hash key := by
  induction fields generalizing hash with
  | nil => rfl
  | cons field fields ih =>
    rw [List.map_cons, List.mem_cons, not_or] at h
    rw [setUserStats, List.foldl_cons]
    exact (ih h.2 _).trans (Function.update_of_ne h.1 _ _)

/-- Fields of different names do not overwrite each other. -/
theorem setUserStats_of_mem {fields : List (String × Option ℤ)}
    (hfields : (fields.map Prod.fst).Nodup) {field : String × Option ℤ} (h : field ∈ fields)
    (hash : Hash) : setUserStats fields hash field.1 = some (fieldText field.2) := by
  induction fields generalizing hash with
  | nil => cases h
  | cons first fields ih =>
    rw [List.map_cons, List.nodup_cons] at hfields
    rw [setUserStats, List.foldl_cons]
    rcases List.mem_cons.mp h with rfl | hrest
    · exact (setUserStats_of_notMem hfields.1 _).trans (Function.update_self ..)
    · exact ih hfields.2 hrest _

theorem parseI64_fieldText {n : ℤ} (h : IntText.Fits 64 n) :
    parseI64 (fieldText (some n)) = some n := by
  rw [parseI64, fieldText, Option.elim_some, String.toList_ofList (l := IntText.render n),
    IntText.parse_render h]

theorem fieldText_ne_empty (n : ℤ) : fieldText (some n) ≠ "" := by
  intro h
  have htext := congrArg String.toList h
  rw [fieldText, Option.elim_some, String.toList_ofList (l := IntText.render n)] at htext
  exact IntText.render_ne_nil n htext

/-- The database answers with `i64` values. -/
structure Found.InRange (found : Found) : Prop where
  totalUsers : IntText.Fits 64 found.totalUsers
  totalImages : IntText.Fits 64 found.images.totalImages
  totalSize : IntText.Fits 64 found.images.totalSize
  activeUsers24h : IntText.Fits 64 found.activeUsers24h
  totalQuota : ∀ quota ∈ found.totalQuota, IntText.Fits 64 quota
  localImages : IntText.Fits 64 found.localStats.totalImages
  localSize : IntText.Fits 64 found.localStats.totalSize
  rustfsSize : IntText.Fits 64 found.rustfsStats.totalSize

theorem fits_of_bigint {n m : ℤ} (h : bigint n = some m) : IntText.Fits 64 m := by
  unfold bigint at h
  split at h
  · rename_i hfits
    rwa [← Option.some.inj h]
  · cases h

theorem fits_of_countAndSize {images : List Image} {stats : BackendStats}
    (h : countAndSize images = some stats) :
    IntText.Fits 64 stats.totalImages ∧ IntText.Fits 64 stats.totalSize := by
  rw [countAndSize, Option.bind_eq_bind, Option.bind_eq_some_iff] at h
  obtain ⟨totalImages, hcount, h⟩ := h
  rw [Option.bind_eq_some_iff] at h
  obtain ⟨totalSize, hsize, h⟩ := h
  rw [← Option.some.inj h]
  exact ⟨fits_of_bigint hcount, fits_of_bigint hsize⟩

theorem fits_of_queryTotalQuota {J : Type} {db : Database J} {quota : Option ℤ}
    (h : queryTotalQuota db = some quota) : ∀ q ∈ quota, IntText.Fits 64 q := by
  unfold queryTotalQuota at h
  dsimp only at h
  split at h
  · rw [← Option.some.inj h]
    exact fun q hq => by cases hq
  · obtain ⟨sum, hsum, rfl⟩ := Option.map_eq_some_iff.mp h
    rintro q ⟨⟩
    exact fits_of_bigint hsum

theorem inRange_of_queryStats {J : Type} {cutoff : Instant}
    {snapshot : Query → Option (Database J)} {found : Found}
    (h : queryStats cutoff snapshot = some found) : found.InRange := by
  simp only [queryStats, Option.bind_eq_bind, Option.bind_eq_some_iff] at h
  obtain ⟨totalUsers, ⟨db₁, -, husers⟩, images, ⟨db₂, -, himages⟩, quota, ⟨db₃, -, hquota⟩,
    localStats, ⟨db₄, -, hlocal⟩, rustfsStats, ⟨db₅, -, hrustfs⟩, h⟩ := h
  rw [← Option.some.inj h]
  have hactive : IntText.Fits 64
      (((snapshot .activeUsers24h).bind (queryActiveUsers24h cutoff)).getD 0) := by
    cases hquery : (snapshot .activeUsers24h).bind (queryActiveUsers24h cutoff) with
    | none => decide
    | some active =>
      obtain ⟨db, -, hdb⟩ := Option.bind_eq_some_iff.mp hquery
      exact fits_of_bigint hdb
  exact ⟨fits_of_bigint husers, (fits_of_countAndSize himages).1, (fits_of_countAndSize himages).2,
    hactive, fits_of_queryTotalQuota hquota, (fits_of_countAndSize hlocal).1,
    (fits_of_countAndSize hlocal).2, (fits_of_countAndSize hrustfs).2⟩

/-- An empty text is no quota. -/
theorem read_totalQuota {quota : Option ℤ} (h : ∀ q ∈ quota, IntText.Fits 64 q) :
    (if fieldText quota = "" then none else parseI64 (fieldText quota)) = quota := by
  cases quota with
  | none => exact if_pos rfl
  | some q => rw [if_neg (fieldText_ne_empty q), parseI64_fieldText (h q rfl)]

theorem map_fst_fields (params : StatsCacheParams) : params.fields.map Prod.fst =
    ["total_users", "total_images", "total_size", "active_users_24h", "total_quota",
      "local_images", "local_size", "rustfs_size"] := rfl

/-- What is read back: no field is written for the number of `rustfs` images. -/
theorem tryParse_populate {found : Found} (hrange : found.InRange) (hash : Hash) :
    tryParseCachedStats (populateStatsCache found.cacheParams hash) =
      some { found.stats with
        storageBackends := buildBackendsMap found.localStats
          ⟨parseOr hash "rustfs_images" 0, found.rustfsStats.totalSize⟩ } := by
  have hwritten : ∀ field ∈ found.cacheParams.fields,
      populateStatsCache found.cacheParams hash field.1 = some (fieldText field.2) :=
    fun field hfield => setUserStats_of_mem (by rw [map_fst_fields]; decide) hfield hash
  have hkept : populateStatsCache found.cacheParams hash "rustfs_images" = hash "rustfs_images" :=
    setUserStats_of_notMem (by rw [map_fst_fields]; decide) hash
  generalize populateStatsCache found.cacheParams hash = hash' at hwritten hkept ⊢
  simp only [StatsCacheParams.fields, List.forall_mem_cons] at hwritten
  obtain ⟨husers, himages, hsize, hactive, hquota, hlocalImages, hlocalSize, hrustfsSize, -⟩ :=
    hwritten
  simp only [tryParseCachedStats, parseOr, husers, himages, hsize, hactive, hquota, hlocalImages,
    hlocalSize, hrustfsSize, hkept, Option.bind_some, Option.map_some, Option.bind_eq_bind,
    Found.cacheParams, parseI64_fieldText hrange.totalUsers, parseI64_fieldText hrange.totalImages,
    parseI64_fieldText hrange.totalSize, parseI64_fieldText hrange.activeUsers24h,
    parseI64_fieldText hrange.localImages, parseI64_fieldText hrange.localSize,
    parseI64_fieldText hrange.rustfsSize, read_totalQuota hrange.totalQuota, Option.getD_some]
  rfl

/-- The hash says what the database said, and a request after that answers so. -/
structure RoundTrip (found : Found) (hash : Hash) : Prop where
  parsed : tryParseCachedStats (populateStatsCache found.cacheParams hash) = some found.stats
  answered : ∀ {J : Type} (cutoff : Instant) (snapshot : Query → Option (Database J)),
    (getAdminStats cutoff true snapshot (populateStatsCache found.cacheParams hash)).1 =
      .ok found.stats

/-- The statistics come back exactly where the hash has already told the number of `rustfs`
images. -/
theorem roundTrip_iff {J : Type} {cutoff : Instant} {snapshot : Query → Option (Database J)}
    {found : Found} (hfound : queryStats cutoff snapshot = some found) (hash : Hash) :
    RoundTrip found hash ↔
      found.rustfsStats.totalImages = parseOr hash "rustfs_images" 0 := by
  have hread := tryParse_populate (inRange_of_queryStats hfound) hash
  constructor
  · intro h
    have hparsed := h.parsed
    rw [hread, Option.some.injEq, AdminStats.mk.injEq] at hparsed
    have hbackend := congrFun hparsed.2.2.2.2.2 "rustfs"
    change _ = buildBackendsMap found.localStats found.rustfsStats "rustfs" at hbackend
    rw [buildBackendsMap_rustfs, buildBackendsMap_rustfs, Option.some.injEq] at hbackend
    exact (congrArg BackendStats.totalImages hbackend).symm
  · intro h
    rw [← h] at hread
    refine ⟨hread, fun cutoff snapshot => ?_⟩
    rw [getAdminStats, if_pos rfl, hread]
    rfl

/-- One image of 4096 bytes, and its owner without a quota. -/
def oneImage (backend : String) : Query → Option (Database Unit) := fun _ =>
  some
    { users := ⟨[⟨1, "admin", none, "", true, "local", none, none⟩], List.pairwise_singleton ..⟩
      images :=
        ⟨[{ BatchDelete.strangersImage with storageBackend := backend, fileSize := 4096 }],
          List.pairwise_singleton ..⟩ }

def foundOne (localStats rustfsStats : BackendStats) : Found where
  totalUsers := 1
  images := ⟨1, 4096⟩
  activeUsers24h := 1
  totalQuota := none
  localStats := localStats
  rustfsStats := rustfsStats

theorem roundTrip_local : RoundTrip (foundOne ⟨1, 4096⟩ ⟨0, 0⟩) fun _ => none :=
  (@roundTrip_iff Unit 0 (oneImage "local") _ (by decide +kernel) _).mpr rfl

/-- An image on `rustfs` is counted once, and never again while the cache holds. -/
theorem rustfs_forgotten : ¬ ∀ (cutoff : Instant) (snapshot : Query → Option (Database Unit))
    (found : Found) (hash : Hash), queryStats cutoff snapshot = some found →
    RoundTrip found hash := by
  intro h
  have htrip := h 0 (oneImage "rustfs") (foundOne ⟨0, 0⟩ ⟨1, 4096⟩) (fun _ => none)
    (by decide +kernel)
  have hparsed := congrArg (Option.map fun stats => stats.storageBackends "rustfs") htrip.parsed
  revert hparsed
  decide +kernel

end PicHost.StatsCache
