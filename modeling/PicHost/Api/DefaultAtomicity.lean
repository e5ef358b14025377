import PicHost.Api.DefaultConfigs

/-!
# A new default configuration

The old default is cleared by one statement and the new one set by the next. A request is
compared with its absence: `without` is the table as the other requests alone leave it.
-/

namespace PicHost.DefaultAtomicity

open KeyedTable LabelledRun StorageConfigs Serialised
open PartialUpdates (ownConfig ownConfig_id)

/-- The requests that mark a configuration as the default. -/
inductive Marking
  | createConfig (user : AuthUser) (req : CreateConfigRequest)
  | setDefault (user : AuthUser) (id : Uuid)

namespace Marking

def call : Marking → Call
  | createConfig user req => .createConfig user req
  | setDefault user id => .setDefault user id

def user : Marking → AuthUser
  | createConfig user _ | setDefault user _ => user

/-- The `INSERT` fails on a name that is too long for its column. -/
def input (nameLimit : Option ℕ) (m : Marking) (stage : Stage) (inp : Input) : Input :=
  match m, stage with
  | createConfig _ req, .insertConfig _ =>
    { inp with dbUp := inp.dbUp && nameLimit.all fun limit => req.name.length ≤ limit }
  | _, _ => inp

end Marking

structure AloneState where
  stage : Stage
  configs : ConfigTable
  without : ConfigTable

/-- The request's next statement, or a configuration deleted by another request. -/
inductive Event
  | statement (inp : Input) (images : ImageTable)
  | deleted (user : AuthUser) (id : Uuid)

variable (config : Config) (nameLimit : Option ℕ) (m : Marking)

def alone (s : AloneState) : Event → AloneState
  | .statement inp images =>
    let (stage, configs) :=
      advance config (m.input nameLimit s.stage inp) images ⟨m.call, s.stage⟩ s.configs
    { s with stage, configs }
  | .deleted user id =>
    { s with
      configs := s.configs.delete (ownConfig user id)
      without := s.without.delete (ownConfig user id) }

def start (configs : ConfigTable) : AloneState := ⟨.received, configs, configs⟩

/-- The default configurations of a user. -/
def defaultOf (userId : Uuid) (configs : ConfigTable) : List Uuid :=
  (configs.select fun c => c.userId == userId && c.isDefault).map (·.id)

def Failed (stage : Stage) : Prop := ∃ e, stage = .returned (.error e)

/-- A request that has failed has left the user's default as it would be without it. -/
def DefaultKept (s : AloneState) : Prop :=
  Failed s.stage → defaultOf m.user.id s.configs = defaultOf m.user.id s.without

/-- The database takes the new row. -/
def Takes (inp : Input) (user : AuthUser) (req : CreateConfigRequest) (configs : ConfigTable) :
    Prop :=
  inp.dbUp = true ∧ (∀ limit ∈ nameLimit, req.name.length ≤ limit) ∧
    ∀ c ∈ configs.rows, c.id ≠ inp.newId ∧ ¬ (c.userId = user.id ∧ c.name = req.name)

/-- The statement after the old default has been cleared finds what it needs, or there was no
default to clear. -/
def SetsAfterClearing (s : AloneState) : Event → Prop
  | .deleted _ _ => True
  | .statement inp _ =>
    match m, s.stage with
    | .createConfig user req, .insertConfig _ =>
      req.isDefault = some true → defaultOf user.id s.without ≠ [] →
        Takes nameLimit inp user req s.configs
    | .setDefault user id, .setDefault =>
      defaultOf user.id s.without ≠ [] →
        inp.dbUp = true ∧ ∃ c ∈ s.configs.rows, ownConfig user id c = true
    | _, _ => True

def AtMostOneDefault (configs : ConfigTable) : Prop :=
  ∀ userId, (defaultOf userId configs).length ≤ 1

/-- The user's default has been cleared. -/
def clearedRows (userId : Uuid) (configs : ConfigTable) : List UserStorageConfig :=
  configs.rows.map fun c => if c.userId == userId then unsetDefault c else c

/-- What the request has done to the rows before it returns. -/
def Progress (s : AloneState) : Prop :=
  match m, s.stage with
  | .createConfig _ req, .unsetOtherDefaults _ => req.isDefault = some true ∧ s.configs = s.without
  | .createConfig user req, .insertConfig _ =>
    (req.isDefault = some true ∧ s.configs.rows = clearedRows user.id s.without) ∨
      (req.isDefault ≠ some true ∧ s.configs = s.without)
  | .setDefault user _, .setDefault => s.configs.rows = clearedRows user.id s.without
  | _, .returned (.ok _) => True
  | _, _ => s.configs = s.without

variable {config nameLimit m}

/-- `idx_default_per_user` at work. -/
theorem atMostOneDefault (configs : ConfigTable) : AtMostOneDefault configs := by
  intro userId
  have hpair : (configs.select fun c => c.userId == userId && c.isDefault).Pairwise
      fun _ _ => False := by
    refine (List.Pairwise.and_mem.mp (configs.unique.filter _)).imp ?_
    rintro c d ⟨hc, hd, hclash⟩
    simp only [List.mem_filter, Bool.and_eq_true, beq_iff_eq] at hc hd
    exact hclash (.inr (.inr ⟨hc.2.1.trans hd.2.1.symm, hc.2.2, hd.2.2⟩))
  rw [defaultOf, List.length_map]
  generalize configs.select (fun c => c.userId == userId && c.isDefault) = rows at hpair
  cases hpair with
  | nil => exact Nat.zero_le _
  | cons h hrest =>
    rename_i c rest
    cases rest with
    | nil => exact le_rfl
    | cons d rest => exact (h d List.mem_cons_self).elim

theorem defaultOf_cleared {userId : Uuid} {configs configs' : ConfigTable}
    (h : configs'.rows = clearedRows userId configs) : defaultOf userId configs' = [] := by
  have hno : ∀ c ∈ configs'.rows, ¬ (c.userId == userId && c.isDefault) = true := by
    intro c hc
    rw [h, clearedRows, List.mem_map] at hc
    obtain ⟨d, -, rfl⟩ := hc
    split <;> rename_i hd
    · simp [unsetDefault]
    · simp [hd]
  rw [defaultOf, Table.select, List.filter_eq_nil_iff.mpr hno, List.map_nil]

/-- Clearing changes nothing for a user without a default. -/
theorem clearedRows_of_none {userId : Uuid} {configs : ConfigTable}
    (h : defaultOf userId configs = []) : clearedRows userId configs = configs.rows := by
  have hnone := List.filter_eq_nil_iff.mp (List.map_eq_nil_iff.mp h)
  refine (List.map_congr_left fun c hc => ?_).trans (List.map_id _)
  split <;> rename_i hu
  · have hdefault := hnone c hc
    rw [hu, Bool.true_and, Bool.not_eq_true] at hdefault
    change { c with isDefault := false } = c
    rw [← hdefault]
  · rfl

theorem clearedRows_delete (userId : Uuid) (configs : ConfigTable) (user : AuthUser) (id : Uuid) :
    clearedRows userId (configs.delete (ownConfig user id)) =
      (clearedRows userId configs).filter fun c => !ownConfig user id c := by
  rw [clearedRows, clearedRows, List.filter_map]
  congr 1
  apply List.filter_congr
  intro c _
  rw [Function.comp_apply]
  split <;> rfl

theorem isDefault_of_cleared {userId : Uuid} {configs configs' : ConfigTable}
    (h : configs'.rows = clearedRows userId configs) {c : UserStorageConfig}
    (hc : c ∈ configs'.rows) (hu : c.userId = userId) : c.isDefault = false := by
  rw [h, clearedRows, List.mem_map] at hc
  obtain ⟨d, -, rfl⟩ := hc
  split at hu <;> rename_i hd
  · rw [if_pos hd]
    rfl
  · exact absurd (beq_iff_eq.mpr hu) hd

/-- Once the old default is cleared, only the row's own columns can refuse it. -/
theorem insertConfig_isSome {inp : Input} {user : AuthUser} {req : CreateConfigRequest}
    (configJson : Object) {configs configs' : ConfigTable}
    (h : configs'.rows = clearedRows user.id configs) :
    (insertConfig ((Marking.createConfig user req).input nameLimit (.insertConfig configJson) inp)
      user req configJson configs').isSome ↔ Takes nameLimit inp user req configs' := by
  have hlimit : (nameLimit.all fun limit => decide (req.name.length ≤ limit)) = true ↔
      ∀ limit ∈ nameLimit, req.name.length ≤ limit := by
    cases nameLimit <;> simp
  unfold insertConfig Takes
  by_cases hup : inp.dbUp = true ∧ ∀ limit ∈ nameLimit, req.name.length ≤ limit
  · have hdb : ((Marking.createConfig user req).input nameLimit (.insertConfig configJson)
        inp).dbUp = true := by
      simp only [Marking.input, hup.1, hlimit.mpr hup.2, Bool.and_self]
    rw [if_pos hdb, Table.insert_isSome]
    rw [and_iff_right hup.1, and_iff_right hup.2]
    apply forall₂_congr
    intro c hc
    have hcleared := isDefault_of_cleared h hc
    simp only [ConfigKeys.Clash, UserStorageConfig.keys, newConfig, Marking.input, not_or,
      ne_eq]
    constructor
    · rintro ⟨hid, hname, -⟩
      exact ⟨hid, hname⟩
    · rintro ⟨hid, hname⟩
      refine ⟨hid, hname, fun hboth => ?_⟩
      have hdefault := hboth.2.1
      rw [hcleared hboth.1] at hdefault
      cases hdefault
  · have hdb : ¬ ((Marking.createConfig user req).input nameLimit (.insertConfig configJson)
        inp).dbUp = true := by
      intro hdb
      simp only [Marking.input, Bool.and_eq_true] at hdb
      exact hup ⟨hdb.1, hlimit.mp hdb.2⟩
    rw [if_neg hdb]
    exact iff_of_false (by simp) fun h => hup ⟨h.1, h.2.1⟩

theorem ownConfig_userId {user : AuthUser} {id : Uuid} {c : UserStorageConfig}
    (h : ownConfig user id c = true) : c.userId = user.id := by
  simp only [ownConfig, Bool.and_eq_true, beq_iff_eq] at h
  exact h.2

/-- A row made the default has the other key columns it had. -/
theorem keys_made (now : Instant) (user : AuthUser) (id : Uuid) (c : UserStorageConfig) :
    (if ownConfig user id c then makeDefault now c else c).keys =
      { c.keys with isDefault := ownConfig user id c || c.isDefault } := by
  split <;> rename_i h
  · rw [h]
    rfl
  · rw [Bool.eq_false_of_not_eq_true h]
    rfl

/-- Once the old default is cleared, a row of the user can become the default. -/
theorem setDefault_isSome {inp : Input} {user : AuthUser} {id : Uuid}
    {configs configs' : ConfigTable} (h : configs'.rows = clearedRows user.id configs) :
    (StorageConfigs.setDefault inp user id configs').isSome ↔
      inp.dbUp = true ∧ ∃ c ∈ configs'.rows, ownConfig user id c = true := by
  unfold StorageConfigs.setDefault
  by_cases hdb : inp.dbUp = true
  · rw [if_pos hdb, Table.updateReturning_isSome]
    refine ⟨fun hsome => ⟨hdb, hsome.2⟩, fun hsome => ⟨?_, hsome.2⟩⟩
    refine List.pairwise_map.mpr ((List.Pairwise.and_mem.mp configs'.unique).imp ?_)
    rintro c d ⟨hc, hd, hclash⟩ hnew
    rw [keys_made, keys_made] at hnew
    rcases hnew with hid | hname | ⟨hu, hcdefault, hddefault⟩
    · exact hclash (.inl hid)
    · exact hclash (.inr (.inl hname))
    · -- of two defaults of one user at least one is a row that the update has left alone
      rcases Bool.or_eq_true_iff.mp hcdefault with hown | hold
      · rcases Bool.or_eq_true_iff.mp hddefault with hown' | hold'
        · exact hclash (.inl ((ownConfig_id hown).trans (ownConfig_id hown').symm))
        · have hud : d.userId = user.id := hu.symm.trans (ownConfig_userId hown)
          rw [isDefault_of_cleared h hd hud] at hold'
          cases hold'
      · rcases Bool.or_eq_true_iff.mp hddefault with hown' | hold'
        · have huc : c.userId = user.id := Eq.trans hu (ownConfig_userId hown')
          rw [isDefault_of_cleared h hc huc] at hold
          cases hold
        · exact hclash (.inr (.inr ⟨hu, hold, hold'⟩))
  · rw [if_neg hdb]
    exact iff_of_false (by simp) fun hsome => hdb hsome.1

theorem Progress.kept {s : AloneState} (h : Progress m s) : DefaultKept m s := by
  rintro ⟨e, he⟩
  obtain ⟨stage, configs, without⟩ := s
  cases he
  cases m <;> exact congrArg (defaultOf _) h

/-- Without a default to clear, clearing has left the table as it was. -/
theorem eq_of_cleared {userId : Uuid} {configs configs' : ConfigTable}
    (h : configs'.rows = clearedRows userId configs) (hnone : defaultOf userId configs = []) :
    configs' = configs :=
  Table.ext (h.trans (clearedRows_of_none hnone))

theorem unset_rows {inp : Input} {user : AuthUser} {configs configs' : ConfigTable}
    (h : unsetOtherDefaults inp user configs = some configs') :
    configs'.rows = clearedRows user.id configs :=
  Table.rows_of_tryUpdate (unsetOtherDefaults_eq_some.mp h).2

theorem getD_false_iff {b : Option Bool} : b.getD false = true ↔ b = some true := by
  cases b <;> simp

theorem Progress.create {s : AloneState} {user : AuthUser} {req : CreateConfigRequest}
    (h : Progress (.createConfig user req) s) {inp : Input} {images : ImageTable}
    (hg : SetsAfterClearing nameLimit (.createConfig user req) s (.statement inp images)) :
    Progress (.createConfig user req)
      (alone config nameLimit (.createConfig user req) s (.statement inp images)) := by
  obtain ⟨stage, configs, without⟩ := s
  simp only [alone, advance, Marking.call]
  cases stage with
  | received =>
    simp only [advanceCreate, createConfig]
    split
    · exact h
    · split <;> exact h
  | checkNameUnique =>
    simp only [advanceCreate]
    split <;> exact h
  | verifyRepoAccess =>
    simp only [advanceCreate, prepareConfig]
    split
    · exact h
    · split
      · exact h
      · exact h
      · by_cases hdefault : req.isDefault.getD false = true
        · rw [if_pos hdefault]
          exact ⟨getD_false_iff.mp hdefault, h⟩
        · rw [if_neg hdefault]
          exact .inr ⟨fun hsome => hdefault (getD_false_iff.mpr hsome), h⟩
  | unsetOtherDefaults configJson =>
    obtain ⟨hdefault, hsame⟩ := h
    simp only [advanceCreate]
    split
    · exact hsame
    · rename_i configs' hunset
      have hrows := unset_rows hunset
      rw [show configs = without from hsame] at hrows
      exact .inl ⟨hdefault, hrows⟩
  | insertConfig configJson =>
    simp only [advanceCreate]
    split
    · rename_i hins
      rcases h with ⟨hdefault, hcleared⟩ | ⟨-, hsame⟩
      · by_cases hnone : defaultOf user.id without = []
        · exact eq_of_cleared hcleared hnone
        · have hsome := (insertConfig_isSome configJson hcleared).mpr
            (hg hdefault hnone)
          rw [hins] at hsome
          cases hsome
      · exact hsame
    · trivial
  | returned result => exact h
  | _ => exact h

theorem Progress.setDefault {s : AloneState} {user : AuthUser} {id : Uuid}
    (h : Progress (.setDefault user id) s) {inp : Input} {images : ImageTable}
    (hg : SetsAfterClearing nameLimit (.setDefault user id) s (.statement inp images)) :
    Progress (.setDefault user id)
      (alone config nameLimit (.setDefault user id) s (.statement inp images)) := by
  obtain ⟨stage, configs, without⟩ := s
  simp only [alone, advance, Marking.call]
  cases stage with
  | received =>
    simp only [advanceDefault]
    split <;> exact h
  | unsetDefaults =>
    simp only [advanceDefault]
    split
    · exact h
    · rename_i configs' hunset
      have hrows := unset_rows hunset
      rw [show configs = without from h] at hrows
      exact hrows
  | setDefault =>
    simp only [advanceDefault]
    split
    · rename_i hset
      by_cases hnone : defaultOf user.id without = []
      · exact eq_of_cleared h hnone
      · have hsome := (setDefault_isSome h).mpr (hg hnone)
        have hinp : Marking.input nameLimit (.setDefault user id) .setDefault inp = inp := rfl
        rw [hinp] at hset
        rw [hset] at hsome
        cases hsome
    · trivial
  | _ => exact h

/-- Another request's deletion changes both tables alike. -/
theorem Progress.deleted {s : AloneState} (h : Progress m s) (user : AuthUser) (id : Uuid) :
    Progress m (alone config nameLimit m s (.deleted user id)) := by
  obtain ⟨stage, configs, without⟩ := s
  have hcleared : ∀ {u : Uuid}, configs.rows = clearedRows u without →
      (configs.delete (ownConfig user id)).rows =
        clearedRows u (without.delete (ownConfig user id)) := by
    intro u hrows
    rw [clearedRows_delete, ← hrows]
    rfl
  have hsame : configs = without →
      configs.delete (ownConfig user id) = without.delete (ownConfig user id) :=
    fun heq => by rw [heq]
  cases m with
  | createConfig u req =>
    cases stage with
    | unsetOtherDefaults => exact ⟨h.1, hsame h.2⟩
    | insertConfig => exact h.imp (.imp_right hcleared) (.imp_right hsame)
    | returned result =>
      cases result with
      | ok => trivial
      | error => exact hsame h
    | _ => exact hsame h
  | setDefault u target =>
    cases stage with
    | setDefault => exact hcleared h
    | returned result =>
      cases result with
      | ok => trivial
      | error => exact hsame h
    | _ => exact hsame h

theorem Progress.alone {s : AloneState} {a : Event} (h : Progress m s)
    (hg : SetsAfterClearing nameLimit m s a) : Progress m (alone config nameLimit m s a) := by
  cases a with
  | deleted user id => exact h.deleted user id
  | statement inp images =>
    cases m with
    | createConfig user req => exact h.create hg
    | setDefault user id => exact h.setDefault hg

/-- A statement that fails after the old default has been cleared has lost it. -/
theorem setsAfterClearing_of_kept {s : AloneState} {a : Event} (h : Progress m s)
    (hkept : DefaultKept m (DefaultAtomicity.alone config nameLimit m s a)) :
    SetsAfterClearing nameLimit m s a := by
  obtain ⟨stage, configs, without⟩ := s
  cases a with
  | deleted => trivial
  | statement inp images =>
    cases m with
    | createConfig user req =>
      cases stage with
      | insertConfig configJson =>
        intro hdefault hne
        rcases h with ⟨-, hcleared⟩ | ⟨hno, -⟩
        · by_contra hnot
          have hins := Option.not_isSome_iff_eq_none.mp
            (mt (insertConfig_isSome configJson hcleared).mp hnot)
          simp only [DefaultAtomicity.alone, advance, Marking.call, advanceCreate, hins,
            DefaultKept, Marking.user] at hkept
          exact hne ((hkept ⟨_, rfl⟩).symm.trans (defaultOf_cleared hcleared))
        · exact absurd hdefault hno
      | _ => trivial
    | setDefault user id =>
      cases stage with
      | setDefault =>
        intro hne
        by_contra hnot
        have hset := Option.not_isSome_iff_eq_none.mp (mt (setDefault_isSome h).mp hnot)
        have hinp : Marking.input nameLimit (.setDefault user id) .setDefault inp = inp := rfl
        simp only [DefaultAtomicity.alone, advance, Marking.call, advanceDefault, hinp, hset,
          DefaultKept, Marking.user] at hkept
        exact hne ((hkept ⟨_, rfl⟩).symm.trans (defaultOf_cleared h))
      | _ => trivial

variable (config nameLimit) in
/-- A user has at most one default configuration in every state. A request that marks one
leaves the user's default alone whenever it fails, exactly if the statements after the old
default has been cleared find what they need. -/
theorem failed_marking_keeps_iff :
    (∀ (s : State) (as : List Action),
      AllStates (step config) (fun s => AtMostOneDefault s.configs) s as) ∧
    ∀ (m : Marking) (configs : ConfigTable) (events : List Event),
      AllStates (alone config nameLimit m) (DefaultKept m) (start configs) events ↔
        AllSteps (alone config nameLimit m) (SetsAfterClearing nameLimit m) (start configs)
          events := by
  constructor
  · exact .of_forall fun s => atMostOneDefault s.configs
  · intro m configs events
    refine allStates_iff_of_guarded (J := Progress m) (fun _ h => h.kept)
      (fun _ _ h hg => h.alone hg) (fun _ _ h hkept => setsAfterClearing_of_kept h hkept) ?_ events
    cases m <;> rfl

/-- The user's default is a configuration on GitHub. -/
def oneDefault : ConfigTable := (Table.empty.insert DefaultConfigs.githubConfig).getD Table.empty

def longName : CreateConfigRequest :=
  { DefaultConfigs.githubRequest with name := String.ofList (List.replicate 65 'a') }

def freshInput : Input := { DefaultConfigs.upInput with newId := 9 }

/-- The name of the new default is too long: the request fails and the user has no default. -/
theorem failed_marking_loses_default :
    ¬ ∀ (config : Config) (nameLimit : Option ℕ) (m : Marking) (configs : ConfigTable)
      (events : List Event),
      AllStates (alone config nameLimit m) (DefaultKept m) (start configs) events := by
  intro h
  have hkept := (h DefaultConfigs.keyConfig (some 64)
    (.createConfig DefaultConfigs.owner longName) oneDefault
    (List.replicate 5 (.statement freshInput .empty))).last
  have hlost := hkept ⟨Registration.internalError, by rfl⟩
  revert hlost
  decide +kernel

end PicHost.DefaultAtomicity
