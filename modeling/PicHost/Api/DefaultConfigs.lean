import PicHost.Api.StorageConfigs
import PicHost.Lib.Run

/-!
# Uploads to the default configuration

An upload without a list of configurations goes to the default one alone, and what passes
validation has a local configuration in it.
-/

namespace PicHost.DefaultConfigs

open KeyedTable LabelledRun StorageConfigs UploadConfigs

/-- An upload of the user that lists no configurations passes both checks. -/
def Uploadable (userId : Uuid) (configs : ConfigTable) : Prop :=
  ∀ now, ∃ found, resolveUploadConfigs true now userId none configs = .ok found ∧
    validateUploadConfigs found = .ok ()

def AllUploadable (s : State) : Prop := ∀ userId, Uploadable userId s.configs

/-- The statement makes a row the default one of its user. -/
def MarksDefault (inp : Input) (configs : ConfigTable) (r : Request) : Prop :=
  match r.call, r.stage with
  | .createConfig user req, .insertConfig configJson =>
    req.isDefault = some true ∧ (insertConfig inp user req configJson configs).isSome
  | .setDefault user id, .setDefault => (StorageConfigs.setDefault inp user id configs).isSome
  | _, _ => False

def MarksNone (s : State) : Action → Prop
  | .submit _ => True
  | .advance i inp _ => ∀ r, s.requests[i]? = some r → ¬ MarksDefault inp s.configs r

def init : State := ⟨.empty, []⟩

def NoDefault (configs : ConfigTable) : Prop := ∀ c ∈ configs.rows, c.isDefault = false

theorem git_init : Git init := ⟨fun _ hc => (List.not_mem_nil hc).elim, fun _ hr =>
  (List.not_mem_nil hr).elim⟩

/-- A Git configuration fails validation alone. -/
theorem validateUploadConfigs_singleton {c : UserStorageConfig} (h : c.provider ≠ "local") :
    validateUploadConfigs [c] ≠ .ok () := by
  rw [ne_eq, validateUploadConfigs_ok]
  rintro ⟨-, d, hd, hlocal⟩
  rw [List.mem_singleton.mp hd] at hlocal
  exact h hlocal

theorem allUploadable_iff {s : State} (h : Git s) : AllUploadable s ↔ NoDefault s.configs := by
  constructor
  · intro hup c hc
    by_contra hdefault
    obtain ⟨found, hfound, hvalid⟩ := hup c.userId 0
    have hmem : c ∈ s.configs.select fun d => d.userId == c.userId && d.isDefault := by
      simpa using And.intro hc hdefault
    -- the default row that is found need not be `c`, but it is a Git one like all of the table
    cases hhead : (s.configs.select fun d => d.userId == c.userId && d.isDefault).head? with
    | none =>
      rw [List.head?_eq_none_iff.mp hhead] at hmem
      cases hmem
    | some d =>
      have hd := (Table.mem_of_select_head? hhead).1
      simp only [resolveUploadConfigs, fetchDefaultConfig, if_true, hhead] at hfound
      cases hfound
      exact validateUploadConfigs_singleton (h.provider_ne hd) hvalid
  · intro hnone userId now
    have hhead : (s.configs.select fun d => d.userId == userId && d.isDefault).head? = none := by
      rw [List.head?_eq_none_iff, List.eq_nil_iff_forall_not_mem]
      intro c hc
      have hsel := Table.mem_select.mp hc
      simp [hnone c hsel.1] at hsel
    refine ⟨[localFallbackConfig now userId], ?_, ?_⟩
    · simp only [resolveUploadConfigs, fetchDefaultConfig, if_true, hhead]
    · exact validateUploadConfigs_ok.mpr
        ⟨Nat.le_succ 1, localFallbackConfig now userId, List.mem_singleton_self _, rfl⟩

/-- Only the two statements write a default. -/
theorem noDefault_of_effect {inp : Input} {configs configs' : ConfigTable} {r : Request}
    (h : Effect inp configs r.call r.stage configs') (hnone : NoDefault configs)
    (hmarks : ¬ MarksDefault inp configs r) : NoDefault configs' := by
  obtain ⟨call, stage⟩ := r
  intro c hc
  cases h with
  | same => exact hnone c hc
  | unset user hrows =>
    rw [hrows, List.mem_map] at hc
    obtain ⟨d, hd, rfl⟩ := hc
    split
    · rfl
    · exact hnone d hd
  | @inserted user req configJson _ hdb hins =>
    rcases (Table.mem_of_insert hins).mp hc with hold | rfl
    · exact hnone c hold
    · cases hdefault : req.isDefault with
      | none => simp only [newConfig, hdefault, Option.getD_none]
      | some b =>
        cases b with
        | false => simp only [newConfig, hdefault, Option.getD_some]
        | true => exact absurd ⟨hdefault, by simp [insertConfig, hdb, hins]⟩ hmarks
  | updated hupd =>
    rw [(Table.of_updateReturning (PartialUpdates.updateConfig_eq_some.mp hupd).2).1,
      List.mem_map] at hc
    obtain ⟨d, hd, rfl⟩ := hc
    split <;> exact hnone d hd
  | deleted hdel =>
    rw [eq_of_deleteConfig hdel] at hc
    exact hnone c (Table.mem_delete.mp hc).1
  | defaulted hset => exact absurd (by simp [MarksDefault, hset]) hmarks

theorem not_noDefault_of_marks {config : Config} {inp : Input} {images : ImageTable} {r : Request}
    {configs : ConfigTable} (h : MarksDefault inp configs r) :
    ¬ NoDefault (advance config inp images r configs).2 := by
  obtain ⟨call, stage⟩ := r
  unfold MarksDefault at h
  split at h
  · rename_i user req configJson hcall hstage
    cases hcall
    cases hstage
    obtain ⟨hdefault, hsome⟩ := h
    obtain ⟨configs', hins⟩ := Option.isSome_iff_exists.mp hsome
    have hnew : newConfig inp user req configJson ∈ configs'.rows :=
      (Table.mem_of_insert (insertConfig_eq_some.mp hins).2).mpr (.inr rfl)
    simp only [advance, advanceCreate, hins]
    intro hnone
    have hfalse := hnone _ hnew
    simp [newConfig, hdefault] at hfalse
  · rename_i user id hcall hstage
    cases hcall
    cases hstage
    obtain ⟨⟨row, configs'⟩, hset⟩ := Option.isSome_iff_exists.mp h
    simp only [advance, advanceDefault, hset]
    obtain ⟨hrows, c, hc, hown⟩ := Table.of_updateReturning (setDefault_eq_some.mp hset).2
    intro hnone
    have hmem : makeDefault inp.now c ∈ configs'.rows := by
      rw [hrows]
      exact Table.mem_updated_iff.mpr (.inr ⟨c, hc, hown, rfl⟩)
    cases hnone _ hmem
  · exact h.elim

theorem noDefault_step_iff {config : Config} {s : State} (hnone : NoDefault s.configs)
    (a : Action) : NoDefault (StorageConfigs.step config s a).configs ↔ MarksNone s a := by
  cases a with
  | submit call => exact iff_of_true hnone trivial
  | advance i inp images =>
    cases hi : s.requests[i]? with
    | none =>
      simp only [StorageConfigs.step, MarksNone, hi]
      exact iff_of_true hnone fun r hr => by cases hr
    | some r =>
      simp only [StorageConfigs.step, MarksNone, hi, Option.some.injEq, forall_eq']
      constructor
      · exact fun h hmarks => not_noDefault_of_marks hmarks h
      · exact fun h => noDefault_of_effect (effect config inp images r s.configs) hnone h

/-- Every upload without a list of configurations passes both checks in every state of a run of
the configuration API exactly if no request of the run marks a configuration as the default. -/
theorem default_uploadable_iff (config : Config) (as : List Action) :
    AllStates (StorageConfigs.step config) AllUploadable init as ↔
      AllSteps (StorageConfigs.step config) MarksNone init as := by
  refine allStates_iff_allSteps (J := Git) (P := AllUploadable) (fun _ a h => h.step a)
    (fun s a hgit hup => ?_) git_init ?_ as
  · rw [allUploadable_iff (hgit.step a)]
    exact noDefault_step_iff ((allUploadable_iff hgit).mp hup) a
  · exact (allUploadable_iff git_init).mpr fun c hc => (List.not_mem_nil hc).elim

def owner : AuthUser := ⟨1, false, none⟩

def githubRequest : CreateConfigRequest where
  name := "pics"
  provider := "github"
  token := "ghp_1"
  repo := "me/pics"
  isDefault := some true

def keyConfig : Config := ⟨⟨["local"], some "key"⟩, none⟩

def upInput : Input :=
  ⟨⟨true, 5, none, none, some "sealed", ""⟩, 8, fun _ _ => .response 200 ""⟩

/-- One user creates a configuration on GitHub and makes it the default. -/
def githubDefault : List Action :=
  .submit (.createConfig owner githubRequest) :: List.replicate 5 (.advance 0 upInput .empty)

def githubConfig : UserStorageConfig :=
  newConfig upInput owner githubRequest (buildConfigJson githubRequest "sealed")

/-- The user's next upload is refused with `upload.configs_need_local`. -/
theorem default_not_uploadable :
    ¬ ∀ as, AllStates (StorageConfigs.step keyConfig) AllUploadable init as := by
  intro h
  obtain ⟨found, hfound, hvalid⟩ := (h githubDefault).last owner.id 9
  have hdefault : resolveUploadConfigs true 9 owner.id none
      (githubDefault.foldl (StorageConfigs.step keyConfig) init).configs = .ok [githubConfig] := by
    rfl
  rw [hdefault] at hfound
  cases hfound
  exact validateUploadConfigs_singleton (by decide) hvalid

end PicHost.DefaultConfigs
