import PicHost.Api.BatchDelete
import PicHost.Api.ImageList

/-!
# What a search finds

The search term is spliced into a pattern of `LIKE`.
-/

namespace PicHost.Search

open KeyedTable ImageList LikePattern

section

variable (db : Database) (user : AuthUser) (params : ImageListQuery) (images : ImageTable)

/-- The name contains the term, whatever the case of its letters. -/
def containsTerm (term : String) (r : Image) : Bool :=
  decide (db.lowered term <:+: db.lowered r.originalName)

/-- The user's images under the other filters whose name contains the term. -/
def found : List Image :=
  images.select fun r => r.userId == user.id && containsTerm db params.searchTerm r &&
    (params.storageConfigId.all fun id => r.storageConfigId == some id) &&
    params.categoryId.all fun id => r.categoryId == some id

/-- A rename refuses a name with a null character, and no file name of an upload has one. -/
def Named : Prop := ∀ r ∈ images.rows, '\x00' ∉ r.originalName.toList

/-- Over every set of images the count and the listing are about the images found. -/
def Literal : Prop :=
  ∀ (configs : ConfigTable) (images : ImageTable), Named images →
    ∀ arrange : List Image → List Image, ∃ answer,
      listImages db ⟨true, true, arrange⟩ user params configs images = .ok answer ∧
      answer.total = .ofNat (found db user params images).length ∧
      answer.items = (((arrange (found db user params images)).drop params.offset.toNat).take
        params.clampedPerPage.toNat).map (item configs)

/-- The term has no symbol of a pattern and no null character. -/
def PlainTerm (term : String) : Prop :=
  ∀ c ∈ term.toList, c ≠ '%' ∧ c ≠ '_' ∧ c ≠ '\x00' ∧ (db.engine = .postgres → c ≠ '\\')

end

variable {db : Database} {user : AuthUser} {params : ImageListQuery}

theorem lower_percent (db : Database) : db.lower '%' = '%' :=
  (db.lower_symbol '%' (by simp) '%').mpr rfl

theorem lowered_pattern (term : String) :
    db.lowered ("%" ++ term ++ "%") = '%' :: (db.lowered term ++ ['%']) := by
  simp [Database.lowered, lower_percent]

theorem null_mem_lowered {s : String} : '\x00' ∈ db.lowered s ↔ '\x00' ∈ s.toList := by
  rw [Database.lowered, List.mem_map]
  constructor
  · rintro ⟨c, hc, hnull⟩
    rwa [(db.lower_symbol '\x00' (by simp) c).mp hnull] at hc
  · exact fun h => ⟨_, h, (db.lower_symbol '\x00' (by simp) _).mpr rfl⟩

theorem cString_of_no_null {s : List Char} (h : '\x00' ∉ s) : db.cString s = s := by
  unfold Database.cString
  split
  · apply List.takeWhile_eq_self_iff.mpr
    intro c hc
    have hne : c ≠ '\x00' := fun heq => h (heq ▸ hc)
    simpa using hne
  · rfl

theorem escape_lower {c : Char} :
    db.likeDialect.escape ≠ some (db.lower c) ↔ (db.engine = .postgres → c ≠ '\\') := by
  have hsymbol := db.lower_symbol '\\' (by simp) c
  show (if db.engine = .postgres then some '\\' else none) ≠ some (db.lower c) ↔ _
  split
  · rename_i hengine
    simp only [hengine, ne_eq, Option.some.injEq, forall_const]
    rw [eq_comm, hsymbol]
  · rename_i hengine
    simp [hengine]

/-- A term is plain exactly when what `LOWER` makes of it is, and has no null character. -/
theorem plainTerm_iff {term : String} : PlainTerm db term ↔
    '\x00' ∉ term.toList ∧ db.likeDialect.Plain (db.lowered term) := by
  have hplain : db.likeDialect.Plain (db.lowered term) ↔
      ∀ c ∈ term.toList, c ≠ '%' ∧ c ≠ '_' ∧ (db.engine = .postgres → c ≠ '\\') := by
    unfold Dialect.Plain Database.lowered
    rw [List.forall_mem_map]
    apply forall₂_congr
    intro c _
    show db.lower c ≠ '%' ∧ db.lower c ≠ '_' ∧ _ ↔ _
    rw [escape_lower, ne_eq, db.lower_symbol '%' (by simp), ne_eq, db.lower_symbol '_' (by simp)]
  rw [hplain]
  constructor
  · exact fun h => ⟨fun hnull => (h _ hnull).2.2.1 rfl, fun c hc =>
      ⟨(h c hc).1, (h c hc).2.1, (h c hc).2.2.2⟩⟩
  · rintro ⟨hnull, h⟩ c hc
    exact ⟨(h c hc).1, (h c hc).2.1, fun heq => hnull (heq ▸ hc), (h c hc).2.2⟩

theorem accepts_of_no_null {term : String} (h : '\x00' ∉ term.toList) :
    db.accepts term = true := by
  simp [Database.accepts, h]

/-- The pattern of a plain term matches the names that contain it. -/
theorem like_of_plain {term name : String} (hterm : PlainTerm db term)
    (hname : '\x00' ∉ name.toList) :
    db.like (db.lowered name) (db.lowered ("%" ++ term ++ "%")) =
      decide (db.lowered term <:+: db.lowered name) := by
  obtain ⟨hnull, hplain⟩ := plainTerm_iff.mp hterm
  rw [Database.like, lowered_pattern, cString_of_no_null (null_mem_lowered.not.mpr hname),
    cString_of_no_null (by simpa using null_mem_lowered.not.mpr hnull)]
  exact like_infix hplain _

/-- For a plain term the listing is about the images found. -/
theorem matching_eq (hterm : PlainTerm db params.searchTerm) {images : ImageTable}
    (hnamed : Named images) : matching db user params images = found db user params images := by
  apply List.filter_congr
  intro r hr
  have hcontains : (params.searchTerm = "" || db.like (db.lowered r.originalName)
      (db.lowered ("%" ++ params.searchTerm ++ "%"))) =
      containsTerm db params.searchTerm r := by
    rw [like_of_plain hterm (hnamed r hr), containsTerm]
    by_cases hempty : params.searchTerm = ""
    · simp [hempty, Database.lowered]
    · simp [hempty]
  rw [matchesFilter, hcontains]

/-! ## The terms that are not plain -/

/-- The image of the user with a name, under the other filters of the request. -/
def probe (user : AuthUser) (params : ImageListQuery) (name : String) : Image :=
  { BatchDelete.strangersImage with
    userId := user.id
    originalName := name
    storageConfigId := params.storageConfigId
    categoryId := params.categoryId }

def probeTable (user : AuthUser) (params : ImageListQuery) (name : String) : ImageTable :=
  ⟨[probe user params name], List.pairwise_singleton _ _⟩

theorem all_beq_self (o : Option Uuid) : (o.all fun id => o == some id) = true := by
  cases o with
  | none => rfl
  | some id => simp

theorem lowered_ofList {s : List Char} (h : ∀ c ∈ s, db.lower c = c) :
    db.lowered (String.ofList s) = s := by
  rw [Database.lowered, String.toList_ofList]
  exact (List.map_congr_left h).trans (List.map_id _)

/-- `a`, or what stands for it in lower case. -/
def filler (db : Database) : Char := db.lower 'a'

theorem filler_ne {m : Char} (hm : m ∈ ['%', '_', '\\', '\x00']) (ha : 'a' ≠ m) :
    filler db ≠ m :=
  fun h => ha ((db.lower_symbol m hm 'a').mp h)

/-- A text made of what is in a lowered term, of `%` and of the filler is in lower case. -/
theorem lower_eq_self {term : String} {c : Char}
    (h : c = filler db ∨ c ∈ db.lowered term ∨ c = '%') : db.lower c = c := by
  rcases h with rfl | h | rfl
  · exact db.lower_lower _
  · obtain ⟨c', -, rfl⟩ := List.mem_map.mp h
    exact db.lower_lower c'
  · exact lower_percent db

theorem null_ne {term : String} {c : Char} (hterm : c ∈ db.lowered term → c ≠ '\x00')
    (h : c = filler db ∨ c ∈ db.lowered term ∨ c = '%') : c ≠ '\x00' := by
  rcases h with rfl | h | rfl
  · exact filler_ne (by simp) (by decide)
  · exact hterm h
  · decide

/-- A term that is not plain matches, if the database takes it, a name that does not contain it. -/
theorem exists_wrong_match {term : String} (hterm : ¬ PlainTerm db term)
    (haccepts : db.accepts term = true) : ∃ name : String, '\x00' ∉ name.toList ∧
      db.like (db.lowered name) (db.lowered ("%" ++ term ++ "%")) = true ∧
      ¬ db.lowered term <:+: db.lowered name := by
  by_cases hnull : '\x00' ∈ term.toList
  · -- SQLite reads the pattern up to the null character
    have hengine : db.engine = .sqlite := by
      by_contra hno
      simp [Database.accepts, hno, hnull] at haccepts
    let pattern := db.cString (db.lowered ("%" ++ term ++ "%"))
    let t := resolve (filler db) (db.likeDialect.tokens pattern)
    have hmem : ∀ c ∈ t, (c = filler db ∨ c ∈ db.lowered term ∨ c = '%') ∧ c ≠ '\x00' := by
      intro c hc
      rcases mem_resolve_tokens _ hc with h | h
      · exact ⟨.inl h, h ▸ filler_ne (by simp) (by decide)⟩
      · have hpattern : pattern = (db.lowered ("%" ++ term ++ "%")).takeWhile (· ≠ '\x00') := by
          simp only [pattern, Database.cString, hengine, if_true]
        rw [hpattern] at h
        refine ⟨?_, by simpa using List.mem_takeWhile_imp h⟩
        have hin := (List.takeWhile_sublist _).subset h
        rw [lowered_pattern] at hin
        rcases List.mem_cons.mp hin with h | hin
        · exact .inr (.inr h)
        · exact .inr ((List.mem_append.mp hin).imp_right List.mem_singleton.mp)
    have hlowered : db.lowered (String.ofList t) = t :=
      lowered_ofList fun c hc => lower_eq_self (hmem c hc).1
    have hclean : '\x00' ∉ t := fun h => (hmem _ h).2 rfl
    refine ⟨String.ofList t, by rwa [String.toList_ofList], ?_, ?_⟩
    · rw [Database.like, hlowered, cString_of_no_null hclean]
      exact matchTokens_resolve _ _
    · rw [hlowered]
      exact fun h => hclean (h.subset (null_mem_lowered.mpr hnull))
  · have hsymbols : ¬ db.likeDialect.Plain (db.lowered term) :=
      fun h => hterm (plainTerm_iff.mpr ⟨hnull, h⟩)
    obtain ⟨t, hmem, hlike, hnot⟩ := exists_like_not_infix
      (@filler_ne db '%' (by simp) (by decide)) (@filler_ne db '_' (by simp) (by decide))
      (escape_lower.mpr fun _ => by decide) hsymbols
    have hlowered : db.lowered (String.ofList t) = t :=
      lowered_ofList fun c hc => lower_eq_self (hmem c hc)
    have hclean : '\x00' ∉ t := by
      intro h
      refine null_ne (fun hin heq => ?_) (hmem _ h) rfl
      exact hnull (null_mem_lowered.mp (heq ▸ hin))
    refine ⟨String.ofList t, by rwa [String.toList_ofList], ?_, ?_⟩
    · rw [Database.like, hlowered, lowered_pattern, cString_of_no_null hclean,
        cString_of_no_null (by simpa using null_mem_lowered.not.mpr hnull)]
      exact hlike
    · rwa [hlowered]

/-- The listing and the count are about the images whose names contain the search term, over
every set of images, exactly when the term has no symbol of a pattern and no null character. -/
theorem literal_iff : Literal db user params ↔ PlainTerm db params.searchTerm := by
  constructor
  · intro h
    by_contra hterm
    have haccepts : db.accepts params.searchTerm = true := by
      obtain ⟨answer, hanswer, -⟩ := h Table.empty Table.empty (fun r hr => by cases hr) id
      by_contra hno
      cases hanswer.symm.trans ((listImages_eq ..).trans (if_neg hno))
    obtain ⟨name, hname, hlike, hnot⟩ := exists_wrong_match hterm haccepts
    obtain ⟨answer, hanswer, htotal, -⟩ := h Table.empty (probeTable user params name)
      (fun r hr => List.mem_singleton.mp hr ▸ hname) id
    have hone : matching db user params (probeTable user params name) =
        [probe user params name] := by
      apply List.filter_eq_self.mpr
      intro r hr
      rw [List.mem_singleton.mp hr, matchesFilter]
      show (user.id == user.id && (_ || db.like (db.lowered name) _) && _ && _) = true
      rw [hlike]
      simp [probe, all_beq_self]
    have hnone : found db user params (probeTable user params name) = [] := by
      apply List.filter_eq_nil_iff.mpr
      intro r hr
      rw [List.mem_singleton.mp hr]
      show ¬ (user.id == user.id && decide (_ <:+: db.lowered name) && _ && _) = true
      simp [hnot]
    rw [listImages_eq, if_pos haccepts, hone] at hanswer
    rw [← Except.ok.inj hanswer, hnone] at htotal
    have hdiffer : Int64.ofNat 1 ≠ Int64.ofNat 0 := by decide
    exact hdiffer htotal
  · intro hterm configs images hnamed arrange
    have haccepts : db.accepts params.searchTerm = true :=
      accepts_of_no_null (plainTerm_iff.mp hterm).1
    refine ⟨_, (listImages_eq ..).trans (if_pos haccepts), ?_, ?_⟩
    · rw [matching_eq hterm hnamed]
    · rw [matching_eq hterm hnamed]

/-- A search for `100%` counts an image named `1000.png`. -/
theorem search_not_literal :
    ¬ ∀ (db : Database) (user : AuthUser) (params : ImageListQuery), Literal db user params := by
  intro h
  let user : AuthUser := ⟨9, false, none⟩
  let params : ImageListQuery := { search := "100%" }
  let images := probeTable user params "1000.png"
  have hnamed : Named images := by
    intro r hr
    rw [List.mem_singleton.mp hr]
    decide
  obtain ⟨answer, hanswer, htotal, -⟩ := h sqliteDatabase user params Table.empty images hnamed id
  have hcount : (listImages sqliteDatabase ⟨true, true, id⟩ user params Table.empty images).map
      (fun answer => answer.total) = .ok 1 := by decide +kernel
  have hfound : (found sqliteDatabase user params images).length = 0 := by decide +kernel
  rw [hanswer] at hcount
  rw [hfound] at htotal
  exact absurd (htotal.symm.trans (Except.ok.inj hcount)) (by decide)

end PicHost.Search
