import PicHost.Api.Upload
import PicHost.Lib.Run

/-!
# The storage quota under concurrent uploads

A request reads the user's usage once, before its pipelines run, and nobody looks again when
its rows go in.
-/

namespace PicHost.UploadQuota

open LabelledRun Upload

inductive Action
  | submit (userId : Uuid) (isAdmin : Bool) (bytes : Bytes) (fileName : String)
      (storageConfigIds : Option (List Uuid))
  | advance (i b : ℕ) (inp : Input)

variable (deps : Deps) (quotas : Uuid → Option ℤ)

/-- `quotas` is the column `users.storage_quota`, read when a request is authenticated. -/
def step (w : World) : Action → World
  | .submit userId isAdmin bytes fileName storageConfigIds =>
    w.submit ⟨⟨userId, isAdmin, quotas userId⟩, bytes, fileName, storageConfigIds⟩
  | .advance i b inp => w.advance deps i b inp

variable (u : Uuid) (q : ℤ)

def WithinQuota (w : World) : Prop := usage u w.stores.images ≤ q

instance : DecidablePred (WithinQuota u q) := fun _ => inferInstanceAs (Decidable (_ ≤ _))

/-- The call puts in a row of the user. -/
def insertsRow (ctx : UploadCtx) (config : UserStorageConfig) (inp : Input) (p : Pipeline)
    (s : Stores) : Bool :=
  match p with
  | .insertImageRecord _ publicKey storageKey url =>
    ctx.user.id == u && inp.dbUp &&
      (s.images.insert (newImage deps ctx config inp publicKey storageKey url)).isSome
  | _ => false

/-- The pipeline that moves, and the usage its request was checked against. -/
def moving (w : World) (i b : ℕ) : Option (UploadCtx × ℤ × UserStorageConfig × Pipeline) :=
  match w.requests[i]? with
  | some ⟨ctx, .running (some seen) branches⟩ => branches[b]?.map fun branch => (ctx, seen, branch)
  | _ => none

/-- A row of the user goes in while its usage is still what the request was checked against: no
other row has gone in since. The sum of the check is an `i64`. -/
def Unraced (w : World) : Action → Prop
  | .submit _ _ _ _ _ => True
  | .advance i b inp => ∀ m ∈ moving w i b, insertsRow deps u m.1 m.2.2.1 inp m.2.2.2 w.stores →
      usage u w.stores.images ≤ m.2.1 ∧
        addI64 m.2.1 m.1.bytes.length = m.2.1 + m.1.bytes.length

instance (w : World) : DecidablePred (Unraced deps u w)
  | .submit _ _ _ _ _ => inferInstanceAs (Decidable True)
  | .advance _ _ _ => inferInstanceAs (Decidable (∀ _ ∈ _, _ → _ ∧ _))

/-- A request past the check has read a usage that leaves room for its file. -/
def Stage.RoomSeen (fileSize : ℕ) : Stage → Prop
  | .resolveConfigs seen | .running seen _ => ∃ n, seen = some n ∧ addI64 n fileSize ≤ q
  | _ => True

/-- The requests of the user carry the quota and were checked against it. -/
def Checked (w : World) : Prop :=
  ∀ req ∈ w.requests, req.ctx.user.id = u →
    req.ctx.user.storageQuota = some q ∧ Stage.RoomSeen q req.ctx.bytes.length req.stage

variable {deps quotas u q}

/-- What `check_upload_quotas` lets through. -/
theorem room_of_checkUploadQuotas {inp : Input} {user : AuthUser} {fileSize : ℕ}
    {images : ImageTable} {seen : Option ℤ} (hq : user.storageQuota = some q)
    (h : checkUploadQuotas deps inp user fileSize images = .ok seen) :
    ∃ n, seen = some n ∧ addI64 n fileSize ≤ q := by
  simp only [checkUploadQuotas, hq] at h
  repeat' split at h
  all_goals cases h
  all_goals exact ⟨_, rfl, Int.not_lt.mp ‹_›⟩

theorem roomSeen_settle {fileSize : ℕ} {seen : Option ℤ}
    (h : ∃ n, seen = some n ∧ addI64 n fileSize ≤ q)
    (branches : List (UserStorageConfig × Pipeline)) :
    Stage.RoomSeen q fileSize (settle seen branches) := by
  unfold settle
  split
  · trivial
  · exact h

theorem Stage.RoomSeen.advance {b : ℕ} {inp : Input} {ctx : UploadCtx} {s s' : Stores}
    {stage stage' : Stage} (hq : ctx.user.storageQuota = some q)
    (h : Stage.RoomSeen q ctx.bytes.length stage) (ha : Advance deps ctx inp b s stage stage' s') :
    Stage.RoomSeen q ctx.bytes.length stage' := by
  cases ha with
  | rejected => trivial
  | checked hcheck => exact room_of_checkUploadQuotas hq hcheck
  | started => exact h
  | moved => exact roomSeen_settle h _
  | idle => exact h

theorem Checked.step (hquota : quotas u = some q) {w : World} (h : Checked u q w) (a : Action) :
    Checked u q (step deps quotas w a) := by
  cases a with
  | submit userId isAdmin bytes fileName storageConfigIds =>
    intro req hreq hu
    rcases List.mem_append.mp hreq with hreq | hreq
    · exact h req hreq hu
    · rw [List.mem_singleton.mp hreq] at hu ⊢
      subst hu
      exact ⟨hquota, trivial⟩
  | advance i b inp =>
    cases hreq : w.requests[i]? with
    | none => simpa only [UploadQuota.step, World.advance, hreq] using h
    | some req =>
      simp only [UploadQuota.step, World.advance, hreq]
      intro r hr hu
      rcases List.mem_or_eq_of_mem_set hr with hr | rfl
      · exact h r hr hu
      · obtain ⟨hq, hseen⟩ := h req (List.mem_of_getElem? hreq) hu
        exact ⟨hq, hseen.advance hq (processUpload_advance deps b inp req.ctx req.stage w.stores)⟩

theorem usage_insert {t t' : ImageTable} {r : Image} (h : t.insert r = some t') :
    usage u t' = usage u t + if r.userId = u then r.fileSize else 0 := by
  simp only [usage, KeyedTable.Table.select, KeyedTable.Table.rows_of_insert h,
    List.filter_append, List.map_append, List.sum_append, List.filter_cons, List.filter_nil,
    beq_iff_eq]
  split <;> simp

/-- A call leaves the usage as it is, unless it inserts a row of the user. -/
theorem usage_call {ctx : UploadCtx} {config : UserStorageConfig} {inp : Input}
    {p p' : Pipeline} {s s' : Stores} (h : Call deps ctx config inp p s p' s') :
    usage u s'.images = usage u s.images ∨ insertsRow deps u ctx config inp p s = true ∧
      usage u s'.images = usage u s.images + ctx.bytes.length := by
  cases h with
  | inserted hdb h =>
    have husage := usage_insert (u := u) h
    by_cases hu : ctx.user.id = u
    · refine .inr ⟨by simp [insertsRow, hu, hdb, h], ?_⟩
      rw [husage]
      simp only [newImage, hu, if_true]
    · refine .inl ?_
      rw [husage]
      simp only [newImage, hu, if_false, add_zero]
  | _ => exact .inl rfl

theorem user_of_insertsRow {ctx : UploadCtx} {config : UserStorageConfig} {inp : Input}
    {p : Pipeline} {s : Stores} (h : insertsRow deps u ctx config inp p s = true) :
    ctx.user.id = u := by
  unfold insertsRow at h
  split at h
  · simp only [Bool.and_eq_true, beq_iff_eq] at h
    exact h.1.1
  · cases h

/-- The row of a request that was checked finds the room it was promised. -/
theorem withinQuota_step {w : World} (hc : Checked u q w) (hw : WithinQuota u q w) {a : Action}
    (hunraced : Unraced deps u w a) : WithinQuota u q (step deps quotas w a) := by
  cases a with
  | submit userId isAdmin bytes fileName storageConfigIds => exact hw
  | advance i b inp =>
    rcases w.advance_cases deps i b inp with
      ⟨-, hsame⟩ | ⟨ctx, stage, stage', s', hreq, hadvance, hnext⟩
    · rw [step, hsame]
      exact hw
    · rw [step, hnext]
      cases hadvance with
      | moved hb hcall =>
        rename_i seen branches config p p'
        rcases usage_call (u := u) hcall with husage | ⟨hins, husage⟩
        · exact husage.trans_le hw
        · have huser := user_of_insertsRow hins
          obtain ⟨-, n, rfl, hroom⟩ := hc _ (List.mem_of_getElem? hreq) huser
          have hmoving : moving w i b = some (ctx, n, config, p) := by
            simp only [moving, hreq, hb, Option.map_some]
          obtain ⟨hstill, hsum⟩ := hunraced _ hmoving hins
          calc usage u s'.images = usage u w.stores.images + ctx.bytes.length := husage
            _ ≤ n + ctx.bytes.length := Int.add_le_add_right hstill _
            _ = addI64 n ctx.bytes.length := hsum.symm
            _ ≤ q := hroom
      | _ => exact hw

variable (deps quotas) in
/-- The quota of a user is kept in every run in which no other row of the user goes in between
the check of a request and its row. -/
theorem quota_kept (hquota : quotas u = some q) {s : Stores} (hs : usage u s.images ≤ q)
    {as : List Action} (h : AllSteps (step deps quotas) (Unraced deps u) ⟨s, []⟩ as) :
    AllStates (step deps quotas) (WithinQuota u q) ⟨s, []⟩ as :=
  (allStates_of_guarded (s := ⟨s, []⟩) (J := fun w => Checked u q w ∧ WithinQuota u q w)
    (fun _ a hw hunraced => ⟨hw.1.step hquota a, withinQuota_step hw.1 hw.2 hunraced⟩)
    ⟨fun _ hreq => absurd hreq List.not_mem_nil, hs⟩ h).mono fun _ hw => hw.2

/-- A file of six bytes. -/
def sixBytes (last : UInt8) : Bytes := pngSignature ++ [0, last]

/-- Two uploads are checked before either of them stores its row. -/
def overtakenRun : List Action :=
  [.submit 7 false (sixBytes 1) "a" none, .submit 7 false (sixBytes 2) "b" none] ++
    List.flatten ((List.range 7).map fun _ =>
      [.advance 0 0 (smoothInput 1 1), .advance 1 0 (smoothInput 2 2)])

/-- Two six-byte uploads of a user with a quota of ten both go through. -/
theorem quota_not_kept :
    ¬ ∀ (deps : Deps) (quotas : Uuid → Option ℤ) (u : Uuid) (q : ℤ) (s : Stores)
      (as : List Action), quotas u = some q → usage u s.images ≤ q →
      AllStates (step deps quotas) (WithinQuota u q) ⟨s, []⟩ as := by
  intro h
  exact absurd (h smallDeps (fun _ => some 10) 7 10 emptyStores overtakenRun rfl (by decide))
    (by decide +kernel)

/-- The same uploads one after the other: the second is refused. -/
def sequentialRun : List Action :=
  .submit 7 false (sixBytes 1) "a" none :: List.replicate 7 (.advance 0 0 (smoothInput 1 1)) ++
    .submit 7 false (sixBytes 2) "b" none :: List.replicate 7 (.advance 1 0 (smoothInput 2 2))

theorem quota_kept_sequential :
    AllStates (step smallDeps fun _ => some 10) (WithinQuota 7 10) ⟨emptyStores, []⟩
      sequentialRun :=
  quota_kept smallDeps (fun _ => some 10) rfl (by decide) (by decide +kernel)

end PicHost.UploadQuota
