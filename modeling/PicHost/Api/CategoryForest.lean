import PicHost.Api.Categories
import PicHost.Lib.ParentRows
import PicHost.Lib.Run

/-!
# The forest of categories

A category is a root or lies under a root of its user, and an image lies in a category of its
user. A check and the statement that relies on it are apart; in between the category checked
can only disappear, and the foreign key refuses one that has.
-/

namespace PicHost.CategoryForest

open KeyedTable LabelledRun ParentRows Categories
open PartialUpdates (Category ownCategory deleteCategories)

structure Forest (t : Tables) : Prop where
  categories : TwoLevel Category.id Category.userId Category.parentId t.categories.rows
  images : ∀ r ∈ t.images.rows, ∀ k, r.categoryId = some k →
    ∃ c ∈ t.categories.rows, c.id = k ∧ c.userId = r.userId

/-- A node of a tree: its fields and the identifier of the node it lies under. -/
structure Placed where
  id : Uuid
  name : String
  parentId : Option Uuid
  above : Option Uuid
deriving DecidableEq

mutual

def placedNode (above : Option Uuid) : CategoryTreeNode → List Placed
  | .mk id name parentId children => ⟨id, name, parentId, above⟩ :: placed (some id) children

/-- All nodes of a list of trees under a node. -/
def placed (above : Option Uuid) : List CategoryTreeNode → List Placed
  | [] => []
  | node :: nodes => placedNode above node ++ placed above nodes

end

/-- The tree of a user's rows has each of them once, under its own parent. -/
def TreeComplete (t : Tables) : Prop :=
  ∀ (userId : Uuid) (rows : List Category),
    rows.Perm (t.categories.select fun c => c.userId == userId) →
      (placed none (buildTree rows)).Perm
        (rows.map fun c => ⟨c.id, c.name, c.parentId, c.parentId⟩)

/-- `issued` are the identifiers that `gen_random_uuid` has given. -/
structure State where
  tables : Tables
  requests : List Request
  issued : List Uuid

inductive Action
  | submit (call : Call)
  | advance (i : ℕ) (inp : Input)

/-- The identifier that the statement generates. -/
def drawn (inp : Input) (r : Request) : List Uuid :=
  match r.call, r.stage with
  | .createCategory _ _, .insertCategory => [inp.newId]
  | _, _ => []

def step (s : State) : Action → State
  | .submit call => { s with requests := s.requests ++ [⟨call, .received⟩] }
  | .advance i inp =>
    match s.requests[i]? with
    | none => s
    | some r =>
      let (stage, tables) := advance inp r s.tables
      ⟨tables, s.requests.set i { r with stage }, s.issued ++ drawn inp r⟩

def start (t : Tables) : State := ⟨t, [], t.categories.rows.map Category.id⟩

/-- `gen_random_uuid` gives no identifier twice. -/
def DrawsFresh (s : State) : Action → Prop
  | .submit _ => True
  | .advance i inp => ∀ r ∈ s.requests[i]?, ∀ k ∈ drawn inp r, k ∉ s.issued

instance (s : State) : DecidablePred (DrawsFresh s)
  | .submit _ => inferInstanceAs (Decidable True)
  | .advance i inp =>
    have : DecidablePred fun r => ∀ k ∈ drawn inp r, k ∉ s.issued :=
      fun _ => List.decidableBAll _ _
    inferInstanceAs (Decidable (∀ r ∈ s.requests[i]?, _))

/-- Whatever category has the identifier satisfies `P`, now and later. -/
def Vouched (s : State) (k : Uuid) (P : Category → Prop) : Prop :=
  k ∈ s.issued ∧ ∀ c ∈ s.tables.categories.rows, c.id = k → P c

/-- What the checks of a request have established. -/
structure Checked (s : State) (r : Request) : Prop where
  parent : ∀ user req, r.call = .createCategory user req → r.stage = .insertCategory →
    ∀ k, req.parentId = some k → Vouched s k fun c => c.userId = user.id ∧ c.parentId = none
  depth : ∀ user req parentId current, r.call = .createCategory user req →
    r.stage = .validateDepth parentId current →
      (current = 1 ∧ req.parentId = some parentId) ∨ maxDepth ≤ current
  category : ∀ user categoryId p, moveWhere r.call = some (user, categoryId, p) →
    r.stage = .updateImages → ∀ k, categoryId = some k → Vouched s k fun c => c.userId = user.id

structure Sound (s : State) : Prop where
  forest : Forest s.tables
  issued : ∀ c ∈ s.tables.categories.rows, c.id ∈ s.issued
  checked : ∀ r ∈ s.requests, Checked s r

variable {s : State} {t : Tables} {inp : Input} {r : Request}

/-! ## The tree -/

def asPlaced (c : Category) : Placed := ⟨c.id, c.name, c.parentId, c.parentId⟩

theorem placed_children (k : Uuid) (rows : List Category) :
    placed (some k) (buildChildren k rows) =
      (childrenOf Category.parentId k rows).map asPlaced := by
  unfold buildChildren childrenOf
  have hparent : ∀ c ∈ rows.filter (fun c => c.parentId == some k), c.parentId = some k :=
    fun c hc => beq_iff_eq.mp (List.mem_filter.mp hc).2
  generalize rows.filter (fun c => c.parentId == some k) = children at hparent ⊢
  induction children with
  | nil => rfl
  | cons c children ih =>
    have hc := hparent c List.mem_cons_self
    change ⟨c.id, c.name, some k, some k⟩ :: placed (some k) (children.map _) = _
    rw [ih fun d hd => hparent d (List.mem_cons_of_mem _ hd), List.map_cons, asPlaced, hc]

/-- The tree lists the blocks of the rows: a root, then what lies under it. -/
theorem placed_buildTree (rows : List Category) :
    placed none (buildTree rows) = (blocks Category.id Category.parentId rows).map asPlaced := by
  unfold buildTree blocks roots
  have hroot : ∀ c ∈ rows.filter (fun c => c.parentId == none), c.parentId = none :=
    fun c hc => beq_iff_eq.mp (List.mem_filter.mp hc).2
  generalize rows.filter (fun c => c.parentId == none) = roots at hroot ⊢
  induction roots with
  | nil => rfl
  | cons c roots ih =>
    have hc := hroot c List.mem_cons_self
    change (⟨c.id, c.name, none, none⟩ :: placed (some c.id) (buildChildren c.id rows)) ++
      placed none (roots.map _) = _
    rw [ih fun d hd => hroot d (List.mem_cons_of_mem _ hd), placed_children, List.flatMap_cons,
      List.map_append, List.map_cons, asPlaced, hc]

theorem Forest.treeComplete (h : Forest t) : TreeComplete t := by
  intro userId rows hperm
  have hids : (rows.map Category.id).Nodup := by
    have hselect : (t.categories.select fun c => c.userId == userId).Pairwise
        fun c d => c.id ≠ d.id :=
      (t.categories.unique.filter _).imp fun hclash heq => hclash (.inl heq)
    exact (hperm.map Category.id).nodup_iff.mpr (List.pairwise_map.mpr hselect)
  have hlevel : TwoLevel Category.id Category.userId Category.parentId rows := by
    intro c hc k hk
    obtain ⟨hrow, hu⟩ := List.mem_filter.mp (hperm.mem_iff.mp hc)
    obtain ⟨p, hp, hid, hroot, hown⟩ := h.categories c hrow k hk
    refine ⟨p, hperm.mem_iff.mpr (List.mem_filter.mpr ⟨hp, ?_⟩), hid, hroot, hown⟩
    rw [hown]
    exact hu
  rw [placed_buildTree]
  exact (blocks_perm hlevel hids).map _

/-! ## Statements -/

/-- A category under a deleted one is deleted too. -/
theorem TwoLevel.deleted {categories : CategoryTable}
    (h : TwoLevel Category.id Category.userId Category.parentId categories.rows)
    (p : Category → Bool) :
    TwoLevel Category.id Category.userId Category.parentId
      (deleteCategories p categories).rows := by
  apply TwoLevel.filter h
  intro c hc hkept d hd hparent hroot _
  have hroots : ∀ depth, d.isUnder categories.rows p depth = p d := by
    intro depth
    cases depth with
    | zero => rfl
    | succ depth => simp [Category.isUnder, hroot]
  rw [hroots]
  obtain ⟨depth, hdepth⟩ : ∃ depth, categories.rows.length = depth + 1 :=
    Nat.exists_eq_add_one.mpr (List.length_pos_of_mem hc)
  rw [hdepth, Category.isUnder, Bool.not_eq_true', Bool.or_eq_false_iff, List.any_eq_false] at hkept
  have hd' := hkept.2 d hd
  rw [hroots] at hd'
  simpa [hparent] using hd'

/-- The categories after a statement are those before, with other names, or new. -/
theorem origin {t' : Tables} (h : Effect inp t r.call r.stage t') {c : Category}
    (hc : c ∈ t'.categories.rows) :
    (∃ d ∈ t.categories.rows, c.id = d.id ∧ c.userId = d.userId ∧ c.parentId = d.parentId) ∨
      c.id ∈ drawn inp r := by
  obtain ⟨call, stage⟩ := r
  cases h with
  | same => exact .inl ⟨c, hc, rfl, rfl, rfl⟩
  | inserted hins =>
    rcases (Table.mem_of_insert hins).mp hc with hold | rfl
    · exact .inl ⟨c, hold, rfl, rfl, rfl⟩
    · exact .inr (List.mem_singleton_self _)
  | renamed hupd =>
    rw [(Table.of_updateReturning hupd).1, List.mem_map] at hc
    obtain ⟨d, hd, rfl⟩ := hc
    refine .inl ⟨d, hd, ?_⟩
    split <;> exact ⟨rfl, rfl, rfl⟩
  | deleted => exact .inl ⟨c, (Table.mem_delete.mp hc).1, rfl, rfl, rfl⟩
  | moved => exact .inl ⟨c, hc, rfl, rfl, rfl⟩

theorem Forest.effect {t' : Tables} (hs : Sound s) (hr : Checked s r)
    (h : Effect inp s.tables r.call r.stage t') : Forest t' := by
  obtain ⟨hcategories, himages⟩ := hs.forest
  obtain ⟨call, stage⟩ := r
  cases h with
  | same => exact hs.forest
  | @inserted user req categories hins href =>
    have hrows := Table.rows_of_insert hins
    refine ⟨?_, fun r hr k hk => ?_⟩
    · rw [hrows]
      apply hcategories.append
      intro k hk
      rw [show req.parentId = some k from hk, referencesCategory_some] at href
      obtain ⟨p, hp, hid⟩ := href
      obtain ⟨hu, hroot⟩ := (hr.parent user req rfl rfl k hk).2 p hp hid
      exact ⟨p, hp, hid, hroot, hu⟩
    · obtain ⟨c, hc, hid, hu⟩ := himages r hr k hk
      exact ⟨c, by rw [hrows]; exact List.mem_append_left _ hc, hid, hu⟩
  | renamed hupd =>
    have hrows := (Table.of_updateReturning hupd).1
    refine ⟨?_, fun r hr k hk => ?_⟩
    · rw [hrows]
      refine hcategories.map ?_ ?_ ?_ <;> intro c <;> split <;> rfl
    · obtain ⟨c, hc, rfl, hu⟩ := himages r hr k hk
      refine ⟨_, by rw [hrows]; exact List.mem_map_of_mem hc, ?_, ?_⟩
      · split <;> rfl
      · split <;> exact hu
  | @deleted user id =>
    refine ⟨TwoLevel.deleted hcategories _, fun r hr k hk => ?_⟩
    obtain ⟨q, hq, rfl⟩ := List.mem_map.mp hr
    change q.categoryId.filter _ = some k at hk
    obtain ⟨hk, hleft⟩ := Option.filter_eq_some_iff.mp hk
    obtain ⟨c, hc, rfl⟩ : ∃ c ∈ (deleteCategories (ownCategory user id)
        s.tables.categories).rows, c.id = k := by simpa using hleft
    obtain ⟨d, hd, hid, hu⟩ := himages q hq c.id hk
    have hmem : c ∈ s.tables.categories.rows := (Table.mem_delete.mp hc).1
    rw [PartialUpdates.Categories.eq_of_id d hd c hmem hid] at hu
    exact ⟨c, hc, rfl, hu⟩
  | @moved _ user categoryId p hcall href =>
    refine ⟨hcategories, fun r hrow k hk => ?_⟩
    rcases Table.mem_updated_iff.mp hrow with ⟨hold, -⟩ | ⟨q, hq, hp, rfl⟩
    · exact himages r hold k hk
    · rcases href with hnone | href
      · cases (hnone q hq).symm.trans hp
      · rw [show categoryId = some k from hk, referencesCategory_some] at href
        obtain ⟨c, hc, hid⟩ := href
        have hu := (hr.category user categoryId p hcall rfl k hk).2 c hc hid
        exact ⟨c, hc, hid, hu.trans (moveWhere_own hcall hp).symm⟩

/-! ## Runs -/

/-- What is vouched for stays so, since no identifier is drawn twice. -/
theorem Vouched.after {s' : State} {k : Uuid} {P : Category → Prop} (h : Vouched s k P)
    (hP : ∀ c d : Category, c.userId = d.userId → c.parentId = d.parentId → P d → P c)
    (heffect : Effect inp s.tables r.call r.stage s'.tables)
    (hfresh : ∀ k ∈ drawn inp r, k ∉ s.issued) (hissued : s.issued ⊆ s'.issued) :
    Vouched s' k P := by
  refine ⟨hissued h.1, fun c hc hid => ?_⟩
  rcases origin heffect hc with ⟨d, hd, hcd, hu, hparent⟩ | hnew
  · exact hP c d hu hparent (h.2 d hd (hcd.symm.trans hid))
  · rw [hid] at hnew
    exact absurd h.1 (hfresh k hnew)

theorem Checked.after {s' : State} {q : Request} (h : Checked s q)
    (heffect : Effect inp s.tables r.call r.stage s'.tables)
    (hfresh : ∀ k ∈ drawn inp r, k ∉ s.issued) (hissued : s.issued ⊆ s'.issued) :
    Checked s' q where
  parent user req hcall hstage k hk := by
    refine (h.parent user req hcall hstage k hk).after (fun c d hu hparent hd => ?_) heffect hfresh
      hissued
    exact ⟨hu.trans hd.1, hparent.trans hd.2⟩
  depth := h.depth
  category user categoryId p hcall hstage k hk :=
    (h.category user categoryId p hcall hstage k hk).after (fun _ _ hu _ hd => hu.trans hd) heffect
      hfresh hissued

/-- Before its statement a request's category has been found among the user's. -/
theorem vouched_of_fetch (hs : Sound s) {user : AuthUser} {id : Uuid} {c : Category}
    (h : fetchCategory user id s.tables.categories = some c) (P : Category → Prop) (hP : P c) :
    Vouched s id P := by
  obtain ⟨hc, rfl, -⟩ := fetchCategory_eq h
  exact ⟨hs.issued c hc, fun d hd hid => by
    rwa [PartialUpdates.Categories.eq_of_id d hd c hc hid]⟩

theorem vouched_of_owned (hs : Sound s) {user : AuthUser} {id : Uuid}
    (h : ensureCategoryOwned inp user id s.tables.categories = .ok ()) :
    Vouched s id fun c => c.userId = user.id := by
  unfold ensureCategoryOwned at h
  split at h
  · cases h
  · cases h
  · rename_i c _ hfetch
    exact vouched_of_fetch hs hfetch _ (fetchCategory_eq hfetch).2.2

/-- A request whose next statement relies on no check. -/
theorem Checked.of_stage {call : Call} {stage : Stage} (hinsert : stage ≠ .insertCategory)
    (hdepth : ∀ parentId current, stage ≠ .validateDepth parentId current)
    (hmove : stage ≠ .updateImages) : Checked s ⟨call, stage⟩ :=
  ⟨fun _ _ _ h => absurd h hinsert, fun _ _ _ _ _ h => absurd h (hdepth _ _),
    fun _ _ _ _ h => absurd h hmove⟩

theorem Checked.returned {call : Call} {result : Except ApiError Reply} :
    Checked s ⟨call, .returned result⟩ :=
  .of_stage (by simp) (by simp) (by simp)

theorem Checked.insertCategory {user : AuthUser} {req : CreateCategoryRequest}
    (h : ∀ k, req.parentId = some k → Vouched s k fun c => c.userId = user.id ∧ c.parentId = none) :
    Checked s ⟨.createCategory user req, .insertCategory⟩ where
  parent _ _ hcall _ := by
    cases hcall
    exact h
  depth _ _ _ _ _ hstage := by cases hstage
  category _ _ _ _ hstage := by cases hstage

theorem Checked.validateDepth {user : AuthUser} {req : CreateCategoryRequest} {parentId : Uuid}
    {current : ℕ} (h : (current = 1 ∧ req.parentId = some parentId) ∨ maxDepth ≤ current) :
    Checked s ⟨.createCategory user req, .validateDepth parentId current⟩ where
  parent _ _ _ hstage := by cases hstage
  depth _ _ _ _ hcall hstage := by
    cases hcall
    cases hstage
    exact h
  category _ _ _ _ hstage := by cases hstage

theorem Checked.updateImages {call : Call} {user : AuthUser} {categoryId : Option Uuid}
    {p : Image → Bool} (hcall : moveWhere call = some (user, categoryId, p))
    (h : ∀ k, categoryId = some k → Vouched s k fun c => c.userId = user.id) :
    Checked s ⟨call, .updateImages⟩ where
  parent _ _ _ hstage := by cases hstage
  depth _ _ _ _ _ hstage := by cases hstage
  category _ _ _ hcall' _ := by
    cases hcall.symm.trans hcall'
    exact h

theorem Checked.advanceCreate (hs : Sound s) {user : AuthUser} {req : CreateCategoryRequest}
    {stage : Stage} (h : Checked s ⟨.createCategory user req, stage⟩) :
    Checked s ⟨.createCategory user req, (advanceCreate inp user req stage s.tables).1⟩ := by
  cases stage with
  | received =>
    simp only [Categories.advanceCreate, createCategory]
    split
    · exact .returned
    · split
      · rename_i hparent
        exact .validateDepth (.inl ⟨rfl, hparent⟩)
      · rename_i hparent
        exact .insertCategory fun k hk => by cases hparent.symm.trans hk
  | validateDepth parentId current =>
    simp only [Categories.advanceCreate, Categories.validateDepth]
    split
    · exact .returned
    · rename_i hcurrent
      obtain ⟨rfl, hparent⟩ := (h.depth user req parentId current rfl rfl).resolve_right hcurrent
      split
      · exact .returned
      · exact .returned
      · rename_i parent _ hfetch
        split
        · exact .validateDepth (.inr le_rfl)
        · rename_i hroot
          refine .insertCategory fun k hk => ?_
          cases hparent.symm.trans hk
          exact vouched_of_fetch hs hfetch _ ⟨(fetchCategory_eq hfetch).2.2, hroot⟩
  | insertCategory =>
    simp only [Categories.advanceCreate]
    split <;> exact .returned
  | _ => exact h

theorem Checked.advanceMove (hs : Sound s) {user : AuthUser} {id : Uuid}
    {categoryId : Option Uuid} {stage : Stage}
    (h : Checked s ⟨.moveImage user id categoryId, stage⟩) :
    Checked s ⟨.moveImage user id categoryId,
      (advanceMove inp user id categoryId stage s.tables).1⟩ := by
  cases stage with
  | received =>
    simp only [Categories.advanceMove]
    split
    · exact .updateImages rfl fun k hk => by cases hk
    · split
      · exact .returned
      · rename_i howned
        refine .updateImages rfl fun k hk => ?_
        cases hk
        exact vouched_of_owned hs howned
  | updateImages =>
    simp only [Categories.advanceMove]
    split <;> exact .returned
  | _ => exact h

theorem Checked.advanceBatchMove (hs : Sound s) {user : AuthUser} {imageIds : List Uuid}
    {categoryId : Uuid} {stage : Stage}
    (h : Checked s ⟨.batchMoveImages user imageIds categoryId, stage⟩) :
    Checked s ⟨.batchMoveImages user imageIds categoryId,
      (advanceBatchMove inp user imageIds categoryId stage s.tables).1⟩ := by
  cases stage with
  | received =>
    simp only [Categories.advanceBatchMove]
    split
    · exact .returned
    · split
      · exact .returned
      · rename_i howned
        refine .updateImages rfl fun k hk => ?_
        cases hk
        exact vouched_of_owned hs howned
  | updateImages =>
    simp only [Categories.advanceBatchMove]
    split <;> exact .returned
  | _ => exact h

/-- The checks of a request establish what its last statement relies on. -/
theorem Checked.advance (hs : Sound s) (h : Checked s r) :
    Checked s ⟨r.call, (advance inp r s.tables).1⟩ := by
  obtain ⟨call, stage⟩ := r
  cases call with
  | createCategory user req => exact h.advanceCreate hs
  | moveImage user id categoryId => exact h.advanceMove hs
  | batchMoveImages user imageIds categoryId => exact h.advanceBatchMove hs
  | updateCategory | deleteCategory | listCategories =>
    exact ⟨fun _ _ hcall => (by cases hcall), fun _ _ _ _ hcall => (by cases hcall),
      fun _ _ _ hcall => (by cases hcall)⟩

theorem Sound.step (h : Sound s) {a : Action} (hfresh : DrawsFresh s a) :
    Sound (CategoryForest.step s a) := by
  cases a with
  | submit call =>
    refine ⟨h.forest, h.issued, fun q hq => ?_⟩
    rcases List.mem_append.mp hq with hq | hq
    · exact ⟨(h.checked q hq).parent, (h.checked q hq).depth, (h.checked q hq).category⟩
    · rw [List.mem_singleton.mp hq]
      exact ⟨fun _ _ _ hstage => (by cases hstage), fun _ _ _ _ _ hstage => (by cases hstage),
        fun _ _ _ _ hstage => by cases hstage⟩
  | advance i inp =>
    cases hi : s.requests[i]? with
    | none => simpa only [CategoryForest.step, hi] using h
    | some r =>
      have hr := h.checked r (List.mem_of_getElem? hi)
      have hdrawn := hfresh r hi
      have heffect := effect inp r s.tables
      simp only [CategoryForest.step, hi]
      refine ⟨Forest.effect h hr heffect, fun c hc => ?_, fun q hq => ?_⟩
      · rcases origin heffect hc with ⟨d, hd, hid, -⟩ | hnew
        · rw [hid]
          exact List.mem_append_left _ (h.issued d hd)
        · exact List.mem_append_right _ hnew
      · have hq' : Checked s q := by
          rcases List.mem_or_eq_of_mem_set hq with hq | rfl
          · exact h.checked q hq
          · exact hr.advance h
        exact hq'.after heffect hdrawn (List.subset_append_left _ _)

theorem sound_start (h : Forest t) : Sound (start t) :=
  ⟨h, fun _ hc => List.mem_map_of_mem hc, fun _ hq => (List.not_mem_nil hq).elim⟩

/-- From a forest every state of every run of the requests is one, and the tree of each user has
every category of the user once, under its own parent. -/
theorem forest_kept (h : Forest t) (as : List Action)
    (hfresh : AllSteps step DrawsFresh (start t) as) :
    AllStates step (fun s => Forest s.tables ∧ TreeComplete s.tables) (start t) as :=
  (allStates_of_guarded (J := Sound) (fun _ _ hs hg => hs.step hg) (sound_start h) hfresh).mono
    fun _ hs => ⟨hs.forest, hs.forest.treeComplete⟩

def uncategorised : Tables := ⟨.empty, BatchDelete.strangersStore.images⟩

theorem forest_uncategorised : Forest uncategorised :=
  ⟨.nil, fun r hr k hk => by
    rw [List.mem_singleton.mp hr] at hk
    cases hk⟩

def owner : AuthUser := ⟨9, false, none⟩

def upInput (newId : Uuid) : Input := ⟨true, "", newId, 0⟩

/-- A category and one under it; the image moves into the first, which is deleted while another
move has passed its check. -/
def deletedMeanwhile : List Action :=
  [.submit (.createCategory owner ⟨"trips", none⟩), .advance 0 (upInput 5), .advance 0 (upInput 5),
    .submit (.createCategory owner ⟨"rome", some 5⟩), .advance 1 (upInput 6),
    .advance 1 (upInput 6), .advance 1 (upInput 6), .submit (.moveImage owner 1 (some 5)),
    .advance 2 (upInput 0), .advance 2 (upInput 0), .submit (.moveImage owner 1 (some 6)),
    .advance 3 (upInput 0), .submit (.deleteCategory owner 5), .advance 4 (upInput 0),
    .advance 3 (upInput 0)]

theorem forest_kept_deletedMeanwhile :
    AllStates step (fun s => Forest s.tables ∧ TreeComplete s.tables) (start uncategorised)
      deletedMeanwhile :=
  forest_kept forest_uncategorised deletedMeanwhile (by decide +kernel)

end PicHost.CategoryForest
