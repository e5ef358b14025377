import PicHost.Api.BatchDelete
import PicHost.Api.ImageList

/-!
# Whether the pages of a listing are the listing

Each page is cut from its own run of a sorted selection, and the sort column does not tell all
rows apart.
-/

namespace PicHost.Pagination

open KeyedTable ImageList Paging

section

variable (db : Database) (user : AuthUser) (params : ImageListQuery) (configs : ConfigTable)
variable (images : ImageTable)

/-- How the requested sort lets two rows follow each other. -/
def ordered : Image → Image → Bool := sortLe db (resolveSort params).1 (resolveSort params).2

/-- The offset is `(page - 1) * per_page`. -/
def OffsetExact : Prop :=
  params.offset = ((params.clampedPage.toNat - 1) * params.clampedPerPage.toNat : ℕ)

def totalPages : ℕ :=
  (calcTotalPages (.ofNat (matching db user params images).length) params.clampedPerPage).toNat

/-- The answer to each page from the first to the last. -/
def Listed (pages : ℕ → ImageListResponse) : Prop :=
  (∀ k < totalPages db user params images,
    OffsetExact { params with page := .ofNat (k + 1) } ∧
      (pages k).total.toInt = (matching db user params images).length ∧
      (pages k).totalPages.toNat = totalPages db user params images) ∧
  ((List.range (totalPages db user params images)).flatMap fun k => (pages k).items).Perm
    ((matching db user params images).map (item configs))

/-- The offset is exact, and however the database orders what ties, in one page and the next, all
pages are answered and together list each matching image once. -/
def Partitions : Prop :=
  OffsetExact params ∧ ∀ arrange : ℕ → List Image → List Image,
    (∀ k, Arrangement (ordered db params) (matching db user params images)
      (arrange k (matching db user params images))) →
    ∃ pages : ℕ → ImageListResponse,
      (∀ k, listImages db ⟨true, true, arrange k⟩ user { params with page := .ofNat (k + 1) }
        configs images = .ok (pages k)) ∧
      Listed db user params configs images pages

end

variable {db : Database} {user : AuthUser} {params : ImageListQuery} {configs : ConfigTable}
variable {images : ImageTable}

theorem one_le_max (x : UInt32) : 1 ≤ max x 1 := by
  show 1 ≤ if x ≤ 1 then 1 else x
  split
  · exact UInt32.le_refl 1
  · exact UInt32.le_of_lt (UInt32.not_le.mp ‹_›)

theorem one_le_clampedPage : 1 ≤ params.clampedPage := one_le_max _

theorem clampedPerPage_bounds :
    0 < params.clampedPerPage.toNat ∧ params.clampedPerPage.toNat ≤ 100 := by
  have hlow := UInt32.le_iff_toNat_le.mp (one_le_max params.perPage)
  have hmin : params.clampedPerPage =
      if max params.perPage 1 ≤ 100 then max params.perPage 1 else 100 := rfl
  rw [hmin]
  split
  · exact ⟨hlow, UInt32.le_iff_toNat_le.mp ‹_›⟩
  · decide

theorem offset_toNat : params.offset.toNat =
    (params.clampedPage.toNat - 1) * params.clampedPerPage.toNat % 2 ^ 32 := by
  rw [ImageListQuery.offset, Int.toNat_natCast, UInt32.toNat_mul,
    UInt32.toNat_sub_of_le _ _ one_le_clampedPage]
  rfl

theorem offsetExact_iff : OffsetExact params ↔
    (params.clampedPage.toNat - 1) * params.clampedPerPage.toNat < 2 ^ 32 := by
  have hoffset : params.offset = params.offset.toNat := by
    rw [ImageListQuery.offset, Int.toNat_natCast]
  rw [OffsetExact, hoffset, offset_toNat, Int.natCast_inj]
  constructor
  · intro h
    rw [← h]
    exact Nat.mod_lt _ (by positivity)
  · exact Nat.mod_eq_of_lt

theorem clampedPage_ofNat {k : ℕ} (h : k + 1 < 2 ^ 32) :
    ImageListQuery.clampedPage { params with page := .ofNat (k + 1) } = .ofNat (k + 1) := by
  show (if UInt32.ofNat (k + 1) ≤ 1 then 1 else UInt32.ofNat (k + 1)) = _
  split
  · rename_i hle
    have hval := UInt32.le_iff_toNat_le.mp hle
    rw [UInt32.toNat_ofNat_of_lt' h, UInt32.toNat_one] at hval
    obtain rfl : k = 0 := by omega
    rfl
  · rfl

/-- The number and the offset of the last page fit their type. -/
def LastPageFits (count perPage : ℕ) : Prop :=
  (count - 1) / perPage + 1 < 2 ^ 32 ∧ (count - 1) / perPage * perPage < 2 ^ 32

theorem count_le {count perPage : ℕ} (hpos : 0 < perPage) :
    count ≤ ((count - 1) / perPage + 1) * perPage := by
  have hdiv := Nat.div_add_mod (count - 1) perPage
  have hmod := Nat.mod_lt (count - 1) hpos
  rw [Nat.mul_comm] at hdiv
  rw [Nat.add_mul]
  omega

theorem calcTotalPages_eq {count : ℕ} {perPage : UInt32} (hpos : 0 < perPage.toNat)
    (hmax : perPage.toNat ≤ 100) (hfits : LastPageFits count perPage.toNat) :
    (calcTotalPages (.ofNat count) perPage).toNat = (count - 1) / perPage.toNat + 1 := by
  obtain ⟨hpage, hoffset⟩ := hfits
  have hlast := @count_le count _ hpos
  have hdiv := Nat.div_mul_le_self (count - 1) perPage.toNat
  have hcount : count < 2 ^ 40 := by
    rw [Nat.add_mul] at hlast
    omega
  have hval : (Int64.ofNat count).toInt = count := Int64.toInt_ofNat_of_lt (by omega)
  rcases Nat.eq_zero_or_pos count with rfl | hcountPos
  · show 1 = _
    simp
  · have hne : Int64.ofNat count ≠ 0 := by
      intro h
      rw [h] at hval
      exact hcountPos.ne (Int.ofNat_inj.mp hval)
    rw [calcTotalPages, if_neg hne, Float.Model.UnpackedFloat.ofInt64, hval]
    exact FloatQuotient.ceilToUInt32_div hpos hcount (hmax.trans (by norm_num)) (by omega) hlast
      hpage

theorem matching_nodup : (matching db user params images).Nodup := by
  refine List.Pairwise.filter _ (images.unique.imp ?_)
  rintro r _ hclash rfl
  exact hclash (.inl rfl)

theorem key_preorder (key : Image → ℤ) :
    IsTotalPreorder fun r q => decide (key r ≤ key q) where
  trans r q p hrq hqp := by
    rw [decide_eq_true_eq] at *
    exact hrq.trans hqp
  total r q := by
    rw [Bool.or_eq_true, decide_eq_true_eq, decide_eq_true_eq]
    exact le_total _ _

theorem ordered_preorder : IsTotalPreorder (ordered db params) := by
  let ascending := fun r q : Image =>
    if (resolveSort params).1 = "file_size" then decide (r.fileSize ≤ q.fileSize)
    else if (resolveSort params).1 = "original_name" then
      db.collation r.originalName q.originalName
    else decide (r.createdAt ≤ q.createdAt)
  have hascending : IsTotalPreorder ascending := by
    dsimp only [ascending]
    split
    · exact key_preorder Image.fileSize
    · split
      · exact ⟨fun _ _ _ => db.collated.trans _ _ _, fun _ _ => db.collated.total _ _⟩
      · exact key_preorder Image.createdAt
  show IsTotalPreorder fun r q =>
    if (resolveSort params).2 = "ASC" then ascending r q else ascending q r
  split
  · exact hascending
  · exact hascending.flip

theorem page_toNat {k : ℕ} (hk : k + 1 < 2 ^ 32) :
    (ImageListQuery.clampedPage { params with page := .ofNat (k + 1) }).toNat - 1 = k := by
  rw [clampedPage_ofNat hk, UInt32.toNat_ofNat_of_lt' hk, Nat.add_sub_cancel]

theorem offsetExact_page_iff {k : ℕ} (hk : k + 1 < 2 ^ 32) :
    OffsetExact { params with page := .ofNat (k + 1) } ↔
      k * params.clampedPerPage.toNat < 2 ^ 32 := by
  rw [offsetExact_iff, page_toNat hk]
  rfl

theorem offset_page {k : ℕ} (hk : k + 1 < 2 ^ 32)
    (h : OffsetExact { params with page := .ofNat (k + 1) }) :
    (ImageListQuery.offset { params with page := .ofNat (k + 1) }).toNat =
      k * params.clampedPerPage.toNat := by
  rw [h, page_toNat hk, Int.toNat_natCast]
  rfl

/-- The pages are the windows of the arrangements. -/
theorem flatMap_items {n perPage : ℕ} (f : Image → UploadResult) (l : ℕ → List Image)
    {items : ℕ → List UploadResult}
    (h : ∀ k < n, items k = (window perPage k (l k)).map f) :
    (List.range n).flatMap items = (windows perPage n l).map f := by
  rw [windows, List.map_flatMap]
  exact List.flatMap_congr fun k hk => h k (List.mem_range.mp hk)

/-- Rows whose descriptions are those of the matching rows are the matching rows. -/
theorem perm_of_items {rows : List Image} (hrows : ∀ r ∈ rows, r ∈ matching db user params images)
    (h : (rows.map (item configs)).Perm ((matching db user params images).map (item configs))) :
    rows.Perm (matching db user params images) := by
  have hids : (rows.map Image.id).Perm ((matching db user params images).map Image.id) := by
    have := h.map UploadResult.id
    rwa [List.map_map, List.map_map] at this
  have hunique : ((matching db user params images).map Image.id).Nodup := by
    apply matching_nodup.map_on
    intro r hr q hq heq
    exact ImageTable.eq_of_id (List.mem_of_mem_filter hr) (List.mem_of_mem_filter hq) heq
  refine (List.perm_ext_iff_of_nodup (List.Nodup.of_map _ (hids.nodup_iff.mpr hunique))
    matching_nodup).mpr fun r => ⟨hrows r, fun hr => ?_⟩
  obtain ⟨q, hq, heq⟩ := List.mem_map.mp (hids.mem_iff.mpr (List.mem_map_of_mem hr))
  have hsame : q = r :=
    ImageTable.eq_of_id (List.mem_of_mem_filter (hrows q hq)) (List.mem_of_mem_filter hr) heq
  exact hsame ▸ hq

theorem mem_of_windows {per n : ℕ} {le : Image → Image → Bool} {xs : List Image}
    {l : ℕ → List Image} (hl : ∀ k, Arrangement le xs (l k)) :
    ∀ r ∈ windows per n l, r ∈ xs := by
  intro r hr
  obtain ⟨k, -, hk⟩ := mem_windows.mp hr
  exact (hl k).1.mem_iff.mp (List.mem_of_mem_drop (List.mem_of_mem_take hk))

/-- What the pages of an accepted search hold. -/
theorem page_eq (haccepts : db.accepts params.searchTerm = true)
    (arrange : List Image → List Image) (page : UInt32) :
    listImages db ⟨true, true, arrange⟩ user { params with page } configs images =
      .ok {
        items := (((arrange (matching db user params images)).drop
          (ImageListQuery.offset { params with page }).toNat).take
            params.clampedPerPage.toNat).map (item configs)
        total := .ofNat (matching db user params images).length
        page := ImageListQuery.clampedPage { params with page }
        perPage := params.clampedPerPage
        totalPages := calcTotalPages (.ofNat (matching db user params images).length)
          params.clampedPerPage } :=
  (listImages_eq ..).trans (if_pos haccepts)

/-- What a partitioned listing says of the windows. -/
theorem Partitions.windows_perm (h : Partitions db user params configs images)
    (haccepts : db.accepts params.searchTerm = true) {l : ℕ → List Image}
    (hl : ∀ k, Arrangement (ordered db params) (matching db user params images) (l k)) :
    (windows params.clampedPerPage.toNat (totalPages db user params images) l).Perm
      (matching db user params images) := by
  obtain ⟨pages, hpages, hlisted, hperm⟩ := h.2 (fun k _ => l k) hl
  have hitems : ∀ k < totalPages db user params images, (pages k).items =
      (window params.clampedPerPage.toNat k (l k)).map (item configs) := by
    intro k hk
    have hfits : k + 1 < 2 ^ 32 := Nat.lt_of_le_of_lt hk (UInt32.toNat_lt _)
    have hpage := hpages k
    rw [page_eq haccepts, offset_page hfits (hlisted k hk).1] at hpage
    exact (congrArg ImageListResponse.items (Except.ok.inj hpage)).symm
  rw [flatMap_items (item configs) l hitems] at hperm
  exact perm_of_items (mem_of_windows hl) hperm

/-- The pages of a listing partition it exactly when the database takes the search term, the
offsets and the number of the last page fit in 32 bits, and no rows that tie in the sort column
are on both sides of the end of a page. -/
theorem partitions_iff : Partitions db user params configs images ↔
    db.accepts params.searchTerm = true ∧
      (params.clampedPage.toNat - 1) * params.clampedPerPage.toNat < 2 ^ 32 ∧
      LastPageFits (matching db user params images).length params.clampedPerPage.toNat ∧
      ∀ r ∈ matching db user params images, Together (ordered db params)
        params.clampedPerPage.toNat (matching db user params images) r := by
  set xs := matching db user params images
  set T := totalPages db user params images
  obtain ⟨hpos, hmax⟩ := @clampedPerPage_bounds params
  have hT : T < 2 ^ 32 := UInt32.toNat_lt _
  have hle : IsTotalPreorder (ordered db params) := ordered_preorder
  constructor
  · intro h
    obtain ⟨l, hl⟩ := exists_arrangement hle xs
    obtain ⟨pages, hpages, hlisted, -⟩ := h.2 (fun _ _ => l) fun _ => hl
    have haccepts : db.accepts params.searchTerm = true := by
      by_contra hno
      cases (hpages 0).symm.trans ((listImages_eq ..).trans (if_neg hno))
    obtain ⟨hreach, htogether⟩ :=
      (windows_perm_iff hle hpos matching_nodup).mp fun l hl => h.windows_perm haccepts hl
    have hlast : (xs.length - 1) / params.clampedPerPage.toNat < T := by
      rcases Nat.eq_zero_or_pos xs.length with hzero | hlen
      · have hone : T = 1 := by
          show (calcTotalPages (.ofNat xs.length) _).toNat = 1
          rw [hzero]
          rfl
        rw [hzero, hone, Nat.zero_sub, Nat.zero_div]
        exact Nat.zero_lt_one
      · apply Nat.div_lt_of_lt_mul
        rw [Nat.mul_comm]
        exact (Nat.sub_lt hlen Nat.one_pos).trans_le hreach
    refine ⟨haccepts, offsetExact_iff.mp h.1, ⟨by omega, ?_⟩, htogether⟩
    exact (offsetExact_page_iff (by omega)).mp (hlisted _ hlast).1
  · rintro ⟨haccepts, hoffset, hfits, htogether⟩
    refine ⟨offsetExact_iff.mpr hoffset, fun arrange harrange =>
      ⟨_, fun k => page_eq haccepts _ _, ?_⟩⟩
    have hcount : T = (xs.length - 1) / params.clampedPerPage.toNat + 1 :=
      calcTotalPages_eq hpos hmax hfits
    have hexact : ∀ k < T, OffsetExact { params with page := .ofNat (k + 1) } := by
      intro k hk
      refine (offsetExact_page_iff (by omega)).mpr ?_
      exact (Nat.mul_le_mul_right _ (by omega)).trans_lt hfits.2
    have hreach : xs.length ≤ T * params.clampedPerPage.toNat := hcount ▸ count_le hpos
    have htotal : (Int64.ofNat xs.length).toInt = xs.length := by
      apply Int64.toInt_ofNat_of_lt
      have := Nat.mul_le_mul (Nat.le_of_lt hT) hmax
      omega
    refine ⟨fun k hk => ⟨hexact k hk, htotal, rfl⟩, ?_⟩
    rw [flatMap_items (item configs) (fun k => arrange k xs) fun k hk => ?_]
    · exact (windows_perm hle hpos matching_nodup hreach htogether harrange).map _
    · show List.map _ (List.take _ (List.drop _ _)) = _
      rw [offset_page (by omega) (hexact k hk)]
      rfl

/-- Another image of user 9, from the same moment as `strangersImage`. -/
def otherImage : Image :=
  { BatchDelete.strangersImage with id := 2, publicKey := "11ff11", sha256 := "bb" }

def twoImages : ImageTable :=
  ⟨[BatchDelete.strangersImage, otherImage], by simp; decide⟩

/-- The second page is cut from the other order of two images of one moment. -/
theorem listing_repeats_image :
    ¬ ∀ (db : Database) (user : AuthUser) (params : ImageListQuery) (configs : ConfigTable)
      (images : ImageTable), Partitions db user params configs images := by
  intro h
  let params : ImageListQuery := { perPage := 1 }
  let user : AuthUser := ⟨9, false, none⟩
  let l : ℕ → List Image := fun k =>
    if k = 0 then [BatchDelete.strangersImage, otherImage]
    else [otherImage, BatchDelete.strangersImage]
  have hl : ∀ k, Arrangement (ordered sqliteDatabase params)
      (matching sqliteDatabase user params twoImages) (l k) := by
    intro k
    by_cases hk : k = 0
    · simp only [l, if_pos hk]
      exact ⟨by decide +kernel, by decide +kernel⟩
    · simp only [l, if_neg hk]
      exact ⟨by decide +kernel, by decide +kernel⟩
  have hperm := (h sqliteDatabase user params Table.empty twoImages).windows_perm
    (by decide +kernel) hl
  have htwo : totalPages sqliteDatabase user params twoImages = 2 := by decide +kernel
  rw [htwo] at hperm
  revert hperm
  decide +kernel

end PicHost.Pagination
