import PicHost.Api.UsableConfigs
import PicHost.Core.Storage
import PicHost.Lib.Trimmed

/-!
# Editing a storage configuration in the web interface

The dialog is filled from the response of the API, where a missing prefix becomes an empty text,
and sends every field but an empty token back, trimmed.
-/

namespace PicHost.EditStorageConfig

open KeyedTable Serialised
open PartialUpdates (Config UpdateConfigRequest fetchConfig checkNameUnique mergeConfigDetail)

/-! ## The dialog -/

/-- White space and line terminators of ECMAScript. -/
def isWhiteSpace (c : Char) : Bool :=
  let n := c.toNat
  (9 ≤ n && n ≤ 13) || n == 0x20 || n == 0xa0 || n == 0x1680 || (0x2000 ≤ n && n ≤ 0x200a) ||
    n == 0x2028 || n == 0x2029 || n == 0x202f || n == 0x205f || n == 0x3000 || n == 0xfeff

/-- `String.prototype.trim`. -/
def trim (s : String) : String := String.ofList (Trimmed.trim isWhiteSpace s.toList)

structure UserStorageConfigResponse where
  id : Uuid
  name : String
  provider : String
  repo : String
  branch : String
  pathPrefix : Option String
  isDefault : Bool

def buildResponse (config : UserStorageConfig) : UserStorageConfigResponse where
  id := config.id
  name := config.name
  provider := config.provider
  repo := (config.config.str "repo").getD ""
  branch := (config.config.str "branch").getD "main"
  pathPrefix := config.config.str "path_prefix"
  isDefault := config.isDefault

structure FormState where
  name : String
  provider : String
  token : String
  repo : String
  branch : String
  pathPrefix : String
  isDefault : Bool

/-- The form of a configuration that is opened for editing. -/
def formOf (editing : UserStorageConfigResponse) : FormState where
  name := editing.name
  provider := editing.provider
  token := ""
  repo := editing.repo
  branch := editing.branch
  pathPrefix := editing.pathPrefix.getD ""
  isDefault := editing.isDefault

namespace FormState

/-- The message of the first check that fails, for an edit. -/
def validate (form : FormState) : Option String :=
  if trim form.name = "" then some "storageConfig.nameRequired"
  else if trim form.repo = "" then some "storageConfig.repoRequired"
  else if trim form.branch = "" then some "storageConfig.branchRequired"
  else if '/' ∉ form.repo.toList then some "storageConfig.repoFormat"
  else none

/-- The body of the edit. -/
def data (form : FormState) : UpdateConfigRequest where
  name := some (trim form.name)
  token := if trim form.token = "" then none else some (trim form.token)
  repo := some (trim form.repo)
  branch := some (trim form.branch)
  pathPrefix := some (trim form.pathPrefix)

end FormState

/-! ## The request -/

/-- The request comes to its last statement with the configuration it has read and the token it
has encrypted. Other requests may change the table between the statements. -/
inductive Prepared (config : Config) (user : AuthUser) (id : Uuid) (req : UpdateConfigRequest)
    (configs : ConfigTable) (existing : UserStorageConfig) : Option String → Prop
  | sameName {inp : PartialUpdates.Input} {encryptedToken : Option String}
      (hfetch : fetchConfig (J := Unit) config inp user id req configs =
        .updateConfig existing encryptedToken) :
      Prepared config user id req configs existing encryptedToken
  | newName {inp inp' : PartialUpdates.Input} {found : ConfigTable}
      {encryptedToken : Option String}
      (hfetch : fetchConfig (J := Unit) config inp user id req configs = .checkNameUnique existing)
      (hcheck : checkNameUnique (J := Unit) config inp' user req existing found =
        .updateConfig existing encryptedToken) :
      Prepared config user id req configs existing encryptedToken

/-- A form is saved, and `row` is what the request leaves. -/
structure Saved (config : Config) (user : AuthUser) (id : Uuid) (form : FormState)
    (configs : ConfigTable) (row : UserStorageConfig) : Prop where
  valid : form.validate = none
  updated : ∃ existing encryptedToken inp found after,
    Prepared config user id form.data configs existing encryptedToken ∧
      PartialUpdates.updateConfig inp user id form.data existing encryptedToken found =
        some (row, after)

/-! ## What an edit leaves -/

/-- The backend has the prefix of the configuration. -/
def BuiltFrom (c : UserStorageConfig) (g : GitStorage) : Prop :=
  ∃ detail, GitConfigDetail.fromValue c.config = some detail ∧ g.pathPrefix = detail.pathPrefix

/-- Fields that the form shows unchanged have the effect they had. -/
structure SameEffect (c : UserStorageConfig) (form : FormState) (row : UserStorageConfig) :
    Prop where
  token : form.token = (formOf (buildResponse c)).token →
    row.config.field "token_encrypted" = c.config.field "token_encrypted"
  repo : form.repo = (formOf (buildResponse c)).repo →
    row.config.field "repo" = c.config.field "repo"
  branch : form.branch = (formOf (buildResponse c)).branch →
    row.config.field "branch" = c.config.field "branch"
  path : form.pathPrefix = (formOf (buildResponse c)).pathPrefix →
    ∀ g g', BuiltFrom c g → BuiltFrom row g' →
      ∀ day key ext, g'.buildPath day key ext = g.buildPath day key ext

/-- What is not changed is stored as a trimmed text. -/
structure StoredTrimmed (c : UserStorageConfig) (form : FormState) : Prop where
  repo : form.repo = (formOf (buildResponse c)).repo →
    ∀ repo, c.config.field "repo" = some (.str repo) → trim repo = repo
  branch : form.branch = (formOf (buildResponse c)).branch →
    ∃ branch, c.config.field "branch" = some (.str branch) ∧ trim branch = branch
  pathPrefix : form.pathPrefix = (formOf (buildResponse c)).pathPrefix →
    ∀ detail, GitConfigDetail.fromValue c.config = some detail →
      ∃ pathPrefix, detail.pathPrefix = some pathPrefix ∧ trim pathPrefix = pathPrefix

theorem builtFrom_of_gitBackend {deps : GitDeps} {c : UserStorageConfig} {g : GitStorage}
    (h : gitBackend deps c = .ok (.git g)) : BuiltFrom c g := by
  simp only [gitBackend, bind, Except.bind] at h
  cases hdetail : GitConfigDetail.fromValue c.config with
  | none =>
    rw [hdetail] at h
    cases h
  | some detail =>
    rw [hdetail] at h
    dsimp only at h
    repeat' split at h
    any_goals cases h
    all_goals exact ⟨detail, hdetail, rfl⟩

theorem existing_of_encryptToken {config : Config} {inp : PartialUpdates.Input}
    {req : UpdateConfigRequest} {existing existing' : UserStorageConfig}
    {encryptedToken : Option String}
    (h : PartialUpdates.encryptToken (J := Unit) config inp req existing =
      .updateConfig existing' encryptedToken) : existing' = existing := by
  unfold PartialUpdates.encryptToken at h
  split at h <;> cases h <;> rfl

/-- The request works on a row of the user with the identifier. -/
theorem existing_of_prepared {config : Config} {user : AuthUser} {id : Uuid}
    {req : UpdateConfigRequest} {configs : ConfigTable} {existing : UserStorageConfig}
    {encryptedToken : Option String}
    (h : Prepared config user id req configs existing encryptedToken) :
    existing ∈ configs.rows ∧ PartialUpdates.ownConfig user id existing = true := by
  have hread {inp : PartialUpdates.Input} {stage : PartialUpdates.Stage Unit}
      (hfetch : fetchConfig config inp user id req configs = stage)
      (hstage : stage = .checkNameUnique existing ∨
        stage = .updateConfig existing encryptedToken) :
      existing ∈ configs.rows ∧ PartialUpdates.ownConfig user id existing = true := by
    unfold fetchConfig at hfetch
    split at hfetch
    · split at hfetch
      · subst hfetch
        rcases hstage with hstage | hstage <;> cases hstage
      · rename_i found hhead
        have hmem := List.mem_filter.mp (List.mem_of_head? hhead)
        suffices hsame : existing = found by rwa [hsame]
        split at hfetch
        · subst hfetch
          rcases hstage with hstage | hstage
          · cases hstage
            rfl
          · cases hstage
        · rcases hstage with rfl | rfl
          · unfold PartialUpdates.encryptToken at hfetch
            split at hfetch <;> cases hfetch
          · exact existing_of_encryptToken hfetch
    · subst hfetch
      rcases hstage with hstage | hstage <;> cases hstage
  -- The row is the one that was read first, whether or not the name is checked after that.
  cases h with
  | sameName hfetch => exact hread hfetch (.inr rfl)
  | newName hfetch hcheck => exact hread hfetch (.inl rfl)

theorem encryptedToken_isSome {config : Config} {user : AuthUser} {id : Uuid}
    {req : UpdateConfigRequest} {configs : ConfigTable} {existing : UserStorageConfig}
    {encryptedToken : Option String}
    (h : Prepared config user id req configs existing encryptedToken) :
    encryptedToken.isSome = req.token.isSome := by
  cases h with
  | @sameName inp _ hfetch =>
    have hprepared := @PartialUpdates.prepared_fetchConfig Unit config inp user id req configs
    rw [hfetch] at hprepared
    exact hprepared
  | @newName inp inp' found _ hfetch hcheck =>
    have hprepared :=
      @PartialUpdates.prepared_checkNameUnique Unit config inp' user id req existing found
    rw [hcheck] at hprepared
    exact hprepared

theorem saved_config {config : Config} {user : AuthUser} {id : Uuid} {form : FormState}
    {configs : ConfigTable} {row : UserStorageConfig}
    (h : Saved config user id form configs row) {c : UserStorageConfig} (hc : c ∈ configs.rows)
    (hown : PartialUpdates.ownConfig user id c = true) :
    ∃ encryptedToken : Option String, encryptedToken.isSome = form.data.token.isSome ∧
      row.config = mergeConfigDetail c.config form.data encryptedToken := by
  obtain ⟨existing, encryptedToken, inp, found, after, hprepared, hupdate⟩ := h.updated
  obtain ⟨hmem, hown'⟩ := existing_of_prepared hprepared
  have hsame : existing = c := ConfigTable.eq_of_id hmem hc
    ((PartialUpdates.ownConfig_id hown').trans (PartialUpdates.ownConfig_id hown).symm)
  refine ⟨encryptedToken, encryptedToken_isSome hprepared, ?_⟩
  obtain ⟨-, d, -, -, rfl⟩ :=
    Table.row_of_updateReturning (PartialUpdates.updateConfig_eq_some.mp hupdate).2
  rw [PartialUpdates.setConfig, hsame]

theorem field_eq_of_str {o : Object} {name text : String} (h : o.str name = some text) :
    o.field name = some (.str text) := by
  unfold Object.str at h
  split at h
  · rename_i hfield
    rw [hfield, Option.some.inj h]
  · cases h

theorem str_eq_of_field {o : Object} {name text : String} (h : o.field name = some (.str text)) :
    o.str name = some text := by
  rw [Object.str, h]

@[simp] theorem trim_empty : trim "" = "" := rfl

/-- What the three texts of a form are stored as. -/
theorem field_saved (o : Object) (form : FormState) {encryptedToken : Option String}
    (hsent : encryptedToken.isSome = form.data.token.isSome) :
    (mergeConfigDetail o form.data encryptedToken).field "repo" = some (.str (trim form.repo)) ∧
      (mergeConfigDetail o form.data encryptedToken).field "branch" =
        some (.str (trim form.branch)) := by
  rw [PartialUpdates.field_mergeConfigDetail o form.data hsent,
    PartialUpdates.field_mergeConfigDetail o form.data hsent]
  simp [UpdateConfigRequest.member, FormState.data]

/-- A token that is not filled in is not sent. -/
theorem token_saved (o : Object) {form : FormState} {encryptedToken : Option String}
    (hsent : encryptedToken.isSome = form.data.token.isSome) (hempty : form.token = "") :
    (mergeConfigDetail o form.data encryptedToken).field "token_encrypted" =
      o.field "token_encrypted" := by
  rw [PartialUpdates.field_mergeConfigDetail o form.data hsent]
  simp [UpdateConfigRequest.member, FormState.data, hempty]

theorem repo_same_iff {c : UserStorageConfig} {form : FormState}
    (hvalid : form.validate = none) (hsame : form.repo = (formOf (buildResponse c)).repo) :
    some (.str (trim form.repo)) = c.config.field "repo" ↔
      ∀ repo, c.config.field "repo" = some (.str repo) → trim repo = repo := by
  change form.repo = (c.config.str "repo").getD "" at hsame
  cases hrepo : c.config.str "repo" with
  | none =>
    -- The form refuses an empty repository.
    rw [hrepo, Option.getD_none] at hsame
    rw [FormState.validate, hsame, trim_empty, if_pos rfl] at hvalid
    split at hvalid <;> cases hvalid
  | some repo =>
    rw [hrepo, Option.getD_some] at hsame
    rw [hsame, field_eq_of_str hrepo]
    simp

theorem branch_same_iff {c : UserStorageConfig} {form : FormState}
    (hsame : form.branch = (formOf (buildResponse c)).branch) :
    some (.str (trim form.branch)) = c.config.field "branch" ↔
      ∃ branch, c.config.field "branch" = some (.str branch) ∧ trim branch = branch := by
  change form.branch = (c.config.str "branch").getD "main" at hsame
  constructor
  · intro h
    have hstr := str_eq_of_field h.symm
    rw [hstr, Option.getD_some] at hsame
    exact ⟨_, h.symm, congrArg trim hsame.symm⟩
  · rintro ⟨branch, hfield, htrim⟩
    rw [str_eq_of_field hfield, Option.getD_some] at hsame
    rw [hfield, hsame, htrim]

theorem buildPath_inj {g g' : GitStorage} :
    (∀ day key ext, g'.buildPath day key ext = g.buildPath day key ext) ↔
      g'.pathPrefix.getD "pichost" = g.pathPrefix.getD "pichost" := by
  constructor
  · intro h
    -- One path tells the prefix, since the rest of it is the same.
    have hpath := congrArg String.toList (h "" "" "")
    simp only [GitStorage.buildPath, String.append_assoc] at hpath
    rw [String.toList_append, String.toList_append (s := g.pathPrefix.getD "pichost")] at hpath
    exact String.toList_injective (List.append_cancel_right hpath)
  · intro h day key ext
    rw [GitStorage.buildPath, GitStorage.buildPath, h]

theorem str_eq_of_optStr {o : Object} {name : String} {text : Option String}
    (h : o.optStr name = some text) : o.str name = text := by
  unfold Object.optStr at h
  rw [Object.str]
  split at h
  · rename_i hfield
    rw [hfield, ← Option.some.inj h]
  · rename_i hfield
    rw [hfield, ← Option.some.inj h]
  · rename_i hfield
    rw [hfield, ← Option.some.inj h]
  · cases h

theorem path_same_iff {c row : UserStorageConfig} {form : FormState}
    {encryptedToken : Option String}
    (hrow : row.config = mergeConfigDetail c.config form.data encryptedToken)
    (hsame : form.pathPrefix = (formOf (buildResponse c)).pathPrefix) :
    (∀ g g', BuiltFrom c g → BuiltFrom row g' →
        ∀ day key ext, g'.buildPath day key ext = g.buildPath day key ext) ↔
      ∀ detail, GitConfigDetail.fromValue c.config = some detail →
        ∃ pathPrefix, detail.pathPrefix = some pathPrefix ∧ trim pathPrefix = pathPrefix := by
  have hafter {detail : GitConfigDetail}
      (hdetail : GitConfigDetail.fromValue c.config = some detail) :
      ∃ detail', GitConfigDetail.fromValue row.config = some detail' ∧
        detail'.pathPrefix = some (trim form.pathPrefix) := by
    rw [hrow, UsableConfigs.fromValue_mergeConfigDetail hdetail]
    exact ⟨_, rfl, rfl⟩
  have hshown {detail : GitConfigDetail}
      (hdetail : GitConfigDetail.fromValue c.config = some detail) :
      form.pathPrefix = detail.pathPrefix.getD "" := by
    rw [hsame, formOf, buildResponse,
      str_eq_of_optStr (UsableConfigs.fromValue_eq_some.mp hdetail).2.2.2]
  constructor
  · intro h detail hdetail
    obtain ⟨detail', hdetail', hstored'⟩ := hafter hdetail
    have hpath := buildPath_inj.mp (h ⟨.gitHub, "", "", "", detail.pathPrefix, ""⟩
      ⟨.gitHub, "", "", "", detail'.pathPrefix, ""⟩ ⟨detail, hdetail, rfl⟩
      ⟨detail', hdetail', rfl⟩)
    dsimp only at hpath
    rw [hstored', Option.getD_some, hshown hdetail] at hpath
    cases hstored : detail.pathPrefix with
    | none =>
      -- The form shows no prefix, and an empty one is stored.
      rw [hstored, Option.getD_none, Option.getD_none, trim_empty] at hpath
      exact absurd hpath (by decide)
    | some pathPrefix =>
      rw [hstored, Option.getD_some, Option.getD_some] at hpath
      exact ⟨pathPrefix, rfl, hpath⟩
  · rintro h g g' ⟨detail, hdetail, hg⟩ ⟨detail', hdetail', hg'⟩
    obtain ⟨detail'', hdetail'', hstored'⟩ := hafter hdetail
    obtain ⟨pathPrefix, hstored, htrim⟩ := h detail hdetail
    obtain rfl : detail'' = detail' := Option.some.inj (hdetail''.symm.trans hdetail')
    apply buildPath_inj.mpr
    rw [hg', hg, hstored', hshown hdetail, hstored, Option.getD_some, Option.getD_some,
      Option.getD_some, htrim]

/-- Saving leaves what is shown unchanged exactly where it was stored as a trimmed text. -/
theorem sameEffect_iff {config : Config} {user : AuthUser} {id : Uuid} {form : FormState}
    {configs : ConfigTable} {row : UserStorageConfig}
    (h : Saved config user id form configs row) {c : UserStorageConfig} (hc : c ∈ configs.rows)
    (hown : PartialUpdates.ownConfig user id c = true) :
    SameEffect c form row ↔ StoredTrimmed c form := by
  obtain ⟨encryptedToken, hsent, hrow⟩ := saved_config h hc hown
  obtain ⟨hrepo, hbranch⟩ := field_saved c.config form hsent
  rw [← hrow] at hrepo hbranch
  constructor
  · intro heffect
    refine ⟨fun hsame => ?_, fun hsame => ?_, fun hsame => ?_⟩
    · exact (repo_same_iff h.valid hsame).mp (hrepo.symm.trans (heffect.repo hsame))
    · exact (branch_same_iff hsame).mp (hbranch.symm.trans (heffect.branch hsame))
    · exact (path_same_iff hrow hsame).mp (heffect.path hsame)
  · intro htrimmed
    refine ⟨fun hsame => ?_, fun hsame => ?_, fun hsame => ?_, fun hsame => ?_⟩
    · rw [hrow]
      exact token_saved c.config hsent hsame
    · exact hrepo.trans ((repo_same_iff h.valid hsame).mpr (htrimmed.repo hsame))
    · exact hbranch.trans ((branch_same_iff hsame).mpr (htrimmed.branch hsame))
    · exact (path_same_iff hrow hsame).mpr (htrimmed.pathPrefix hsame)

def ann : AuthUser := ⟨1, false, none⟩

/-- What a configuration is created from, with a prefix or without one. -/
def createPics (pathPrefix : Option String) : StorageConfigs.CreateConfigRequest :=
  { name := "pics", provider := "github", token := "ghp_1", repo := "ann/pics", pathPrefix }

def picsRow (pathPrefix : Option String) : UserStorageConfig :=
  ⟨4, 1, "pics", "github", false,
    StorageConfigs.buildConfigJson (createPics pathPrefix) "sealed", 1, 1⟩

def oneConfig (pathPrefix : Option String) : ConfigTable := ⟨[picsRow pathPrefix], by simp⟩

/-- Only the branch is changed. -/
def devForm (pathPrefix : Option String) : FormState :=
  { formOf (buildResponse (picsRow pathPrefix)) with branch := "dev" }

def devRow (pathPrefix : Option String) : UserStorageConfig :=
  PartialUpdates.setConfig 5 (devForm pathPrefix).data none (picsRow pathPrefix)
    (picsRow pathPrefix)

def devInput : PartialUpdates.Input := ⟨true, 5, none, none, none, ""⟩

theorem saved_devForm {pathPrefix : Option String} (hstored : pathPrefix = none ∨
    pathPrefix = some "img") :
    Saved ⟨[], none⟩ ann 4 (devForm pathPrefix) (oneConfig pathPrefix) (devRow pathPrefix) := by
  rcases hstored with rfl | rfl
  · exact ⟨by decide, picsRow none, none, devInput, oneConfig none, _,
      @Prepared.sameName _ _ _ _ _ _ devInput _ rfl, rfl⟩
  · exact ⟨by decide, picsRow _, none, devInput, oneConfig _, _,
      @Prepared.sameName _ _ _ _ _ _ devInput _ rfl, rfl⟩

theorem sameEffect_devForm : SameEffect (picsRow (some "img")) (devForm (some "img"))
    (devRow (some "img")) := by
  refine (sameEffect_iff (saved_devForm (.inr rfl)) List.mem_cons_self rfl).mpr
    ⟨fun _ repo hrepo => ?_, fun hbranch => ?_, fun _ detail hdetail => ?_⟩
  · obtain rfl : repo = "ann/pics" := by
      simpa [picsRow, StorageConfigs.buildConfigJson, createPics, Object.field] using hrepo.symm
    decide
  · exact absurd hbranch (by decide)
  · refine ⟨"img", ?_, by decide⟩
    rw [show GitConfigDetail.fromValue _ = some ⟨"sealed", "ann/pics", "main", some "img"⟩ from rfl]
      at hdetail
    rw [← Option.some.inj hdetail]

/-- The uploads of a configuration without a prefix move from `pichost/` to the top. -/
theorem uploads_move : ¬ ∀ (config : Config) (user : AuthUser) (id : Uuid) (form : FormState)
    (configs : ConfigTable) (row c : UserStorageConfig), Saved config user id form configs row →
    c ∈ configs.rows → PartialUpdates.ownConfig user id c = true → SameEffect c form row := by
  intro h
  have heffect := h _ _ _ _ _ _ (picsRow none) (saved_devForm (.inl rfl)) List.mem_cons_self rfl
  have hpath := heffect.path rfl ⟨.gitHub, "ann", "pics", "main", none, "ghp_1"⟩
    ⟨.gitHub, "ann", "pics", "dev", some "", "ghp_1"⟩ ⟨_, rfl, rfl⟩ ⟨_, rfl, rfl⟩
  have hstored := buildPath_inj.mp hpath
  revert hstored
  decide

end PicHost.EditStorageConfig
