import PicHost.Api.AdminConfig
import PicHost.Api.ConfigBackups
import PicHost.Lib.Run

/-!
# Runs of updates, backups and restores

An update backs the file up first, if it can; a restore does not.
-/

namespace PicHost.BackupRuns

open AdminConfig ConfigBackups FileTree
open ConfigFile (ConfigError SystemConfig TomlEdit Written ofBytes ofBytes_toBytes readConfigToml
  toBytes writeConfigToml)

/-! ## The handlers -/

def configFile (tree : Tree) (dir : Place) : ConfigFile.File :=
  match configNode tree dir with
  | none => .missing
  | some (.file content) => ofBytes content
  | some _ => .unreadable "Is a directory (os error 21)"

section Handlers

variable (toml : TomlEdit) (server : Server) (effective : SystemConfig) (tree : Tree) (dir : Place)

def updateAdminConfig (backupFault writeFault : Option Fault) (now : ℕ)
    (body : UpdateConfigBody) : Tree × Outcome ConfigResponse :=
  -- best effort: the update goes on whatever has become of the backup
  let tree := (backupConfig tree dir backupFault now).1
  let existing := (readConfigToml toml (configFile tree dir)).toOption.getD {}
  match writeConfigToml toml none (configFile tree dir) (mergedConfig server body existing) with
  | .panicked => (tree, .panicked)
  | .failed e => (tree, .replied (.error (writeFailed e)))
  | .saved text =>
    match write tree dir writeFault configName (toBytes text) with
    | (tree, .error message) => (tree, .replied (.error (writeFailed (.io message))))
    | (tree, .ok ()) => (tree, .replied (getAdminConfig toml server (configFile tree dir)))

/-- The file of the effective configuration, where there is none. -/
def materialize (writeFault : Option Fault) : Tree × Outcome Unit :=
  if (configNode tree dir).isNone then
    match writeConfigToml toml none .missing effective with
    | .panicked => (tree, .panicked)
    | .failed e => (tree, .replied (.error
        { status := 500, key := "config.materialize_failed", args := [e.message] }))
    | .saved text =>
      match write tree dir writeFault configName (toBytes text) with
      | (tree, .error message) => (tree, .replied (.error
          { status := 500, key := "config.materialize_failed"
            args := [(ConfigError.io message).message] }))
      -- a file that is there is taken as it is, valid or not
      | (tree, .ok ()) => (tree, .replied (.ok ()))
  else (tree, .replied (.ok ()))

def backupAdminConfig (writeFault backupFault : Option Fault) (now : ℕ) :
    Tree × Outcome String :=
  match materialize toml effective tree dir writeFault with
  | (tree, .panicked) => (tree, .panicked)
  | (tree, .replied (.error e)) => (tree, .replied (.error e))
  | (tree, .replied (.ok ())) =>
    match backupConfig tree dir backupFault now with
    | (tree, .error _) =>
      (tree, .replied (.error { status := 500, key := "common.internal_error" }))
    | (tree, .ok name) => (tree, .replied (.ok name))

def restoreError : ConfigError → ApiError
  | .io message =>
    if "Backup not found".toList.isPrefixOf message.toList then
      { status := 500, key := "config.backup_not_found", args := [message] }
    else { status := 500, key := "common.internal_error" }
  | _ => { status := 500, key := "common.internal_error" }

def restoreAdminConfig (fault : Option Fault) (backupFile : String) :
    Tree × Except ApiError String :=
  let restored := restoreConfig tree dir fault backupFile
  (restored.1, restored.2.mapError restoreError |>.map fun _ => backupFile)

end Handlers

/-! ## The files of the directory -/

/-- A directory whose entries are no links, with a `config.toml` that is a file or missing. -/
structure Ordinary (tree : Tree) (dir : Place) : Prop where
  directory : tree.lookup dir = some .directory
  isName : ∀ name, (tree.lookup (dir ++ [name])).isSome → IsName name
  noLink : ∀ name target, tree.lookup (dir ++ [name]) ≠ some (.link target)
  config : tree.lookup (dir ++ [configName]) ≠ some .directory

/-- The bytes of a file of the directory. -/
def held (tree : Tree) (dir : Place) (name : String) : Option (List UInt8) :=
  match tree.lookup (dir ++ [name]) with
  | some (.file content) => some content
  | _ => none

variable {tree : Tree} {dir : Place} {fault : Option Fault} {name other : String}
  {content : List UInt8}

theorem held_eq_some_iff :
    held tree dir name = some content ↔ tree.lookup (dir ++ [name]) = some (.file content) := by
  unfold held
  split
  · rename_i content' h
    rw [h, Option.some.injEq, Option.some.injEq, Node.file.injEq]
  · rename_i h
    exact iff_of_false (fun hnone => by cases hnone) fun hfile => h content hfile

theorem place_ne (h : other ≠ name) : dir ++ [other] ≠ dir ++ [name] := by
  rw [Ne, List.append_cancel_left_eq, List.singleton_inj]
  exact h

namespace Ordinary

variable (h : Ordinary tree dir)

include h

theorem resolve (hname : IsName name) : resolve tree dir name = some (dir ++ [name]) :=
  (resolve_name_iff hname).mpr ⟨h.directory, follow_of_not_link (h.noLink name)⟩

theorem configNode_eq : configNode tree dir = tree.lookup (dir ++ [configName]) := by
  rw [configNode, nodeAt, h.resolve isName_configName]
  rfl

theorem canCreate_iff :
    canCreate tree (dir ++ [name]) = true ↔ tree.lookup (dir ++ [name]) ≠ some .directory := by
  unfold canCreate
  split
  · rename_i hfile
    rw [hfile]
    exact iff_of_true rfl fun heq => by cases heq
  · rename_i node hfile hnode
    rw [hnode]
    cases node with
    | file content => exact absurd rfl (hfile content)
    | directory => simp
    | link target => exact absurd hnode (h.noLink name target)
  · rename_i hnone
    rw [hnone, List.dropLast_concat]
    exact iff_of_true (decide_eq_true h.directory) fun heq => by cases heq

theorem canCreate_config : canCreate tree (dir ++ [configName]) = true :=
  h.canCreate_iff.mpr h.config

/-- Writing to an entry leaves an ordinary directory. -/
theorem writeAt (hname : IsName name) :
    Ordinary (writeAt tree fault (dir ++ [name]) content).1 dir := by
  have hshape := @sameShape_writeAt tree (dir ++ [name]) fault content
  refine ⟨(hshape dir .directory fun _ => by simp).mpr h.directory, fun n hn => ?_,
    fun n target => ?_, ?_⟩
  · by_cases heq : n = name
    · exact heq ▸ hname
    · rw [lookup_writeAt_ne (place_ne heq)] at hn
      exact h.isName n hn
  · rw [Ne, hshape _ (.link target) fun _ => by simp]
    exact h.noLink n target
  · rw [Ne, hshape _ .directory fun _ => by simp]
    exact h.config

theorem held_writeAt_self {written : List UInt8}
    (hcreate : tree.lookup (dir ++ [name]) ≠ some .directory)
    (hwritten : Fault.written fault content = some written) :
    held (FileTree.writeAt tree fault (dir ++ [name]) content).1 dir name = some written :=
  held_eq_some_iff.mpr (lookup_writeAt_self (h.canCreate_iff.mpr hcreate) hwritten)

end Ordinary

theorem held_writeAt_ne (hne : other ≠ name) :
    held (writeAt tree fault (dir ++ [name]) content).1 dir other = held tree dir other := by
  rw [held, lookup_writeAt_ne (place_ne hne)]
  rfl

/-- A backup is a file under one of the names of backups. -/
theorem listed_iff {list : List String} (hlist : listBackups tree dir = .ok list) :
    name ∈ list ∧ held tree dir name = some content ↔
      isBackupName name = true ∧ held tree dir name = some content := by
  apply and_congr_left
  intro hheld
  rw [mem_listBackups_iff hlist, held_eq_some_iff.mp hheld]
  exact and_iff_left rfl

/-! ## The names of backups -/

theorem slash_not_mem_encode (w n : ℕ) : '/' ∉ Radix.decimal.encode w n :=
  Radix.decimal.not_mem_encode (by decide) w n

theorem slash_not_mem_yearText (y : ℕ) : '/' ∉ Timestamps.yearText y := by
  unfold Timestamps.yearText
  split
  · exact slash_not_mem_encode 4 y
  · rw [List.mem_cons, not_or]
    refine ⟨by decide, fun hmem => ?_⟩
    have hdigit := Nat.isDigit_of_mem_toDigits (by decide) (by decide) hmem
    exact absurd hdigit (by decide)

theorem slash_not_mem_stamp (t : ℕ) : '/' ∉ stamp t := by
  simp only [stamp, Timestamps.minuteText, Timestamps.dateText, Timestamps.monthDayText,
    Timestamps.clockText, List.mem_append, List.mem_cons, List.not_mem_nil, or_false,
    slash_not_mem_encode, slash_not_mem_yearText, false_or, not_or]
  decide

theorem toList_backupName (t : ℕ) :
    (backupName t).toList = "config.toml.".toList ++ (stamp t ++ ".bak".toList) :=
  String.toList_ofList

theorem isBackupName_backupName (t : ℕ) : isBackupName (backupName t) = true := by
  have hends (a s b : List Char) : a <+: a ++ (s ++ b) ∧ b <:+ a ++ (s ++ b) :=
    ⟨List.prefix_append a _, (List.suffix_append s b).trans (List.suffix_append a _)⟩
  rw [isBackupName, toList_backupName, Bool.and_eq_true,
    List.isPrefixOf_iff_prefix, List.isSuffixOf_iff_suffix]
  exact hends _ _ _

/-- The name of a backup is longer than that of the configuration. -/
theorem ne_configName (h : isBackupName name = true) : name ≠ configName := by
  rintro rfl
  exact absurd h (by decide +kernel)

theorem isName_backupName (t : ℕ) : IsName (backupName t) := by
  have hne {s : String} (hs : isBackupName s = false) : backupName t ≠ s := by
    rintro heq
    rw [← heq, isBackupName_backupName] at hs
    cases hs
  have hslash : '/' ∉ (backupName t).toList := by
    have hdot : '/' ∉ "config.toml.".toList := by decide +kernel
    have hbak : '/' ∉ ".bak".toList := by decide +kernel
    rw [toList_backupName, List.mem_append, List.mem_append, not_or, not_or]
    exact ⟨hdot, slash_not_mem_stamp t, hbak⟩
  have hempty : isBackupName "" = false := by decide +kernel
  have hdot : isBackupName "." = false := by decide +kernel
  have hdots : isBackupName ".." = false := by decide +kernel
  exact ⟨hslash, hne hempty, hne hdot, hne hdots⟩

/-! ## What the handlers write -/

section Effects

variable (h : Ordinary tree dir) {now : ℕ}

include h

theorem configNode_of_held_none (hheld : held tree dir configName = none) :
    configNode tree dir = none := by
  rw [h.configNode_eq]
  cases hnode : tree.lookup (dir ++ [configName]) with
  | none => rfl
  | some node =>
    cases node with
    | file content => rw [held_eq_some_iff.mpr hnode] at hheld; cases hheld
    | directory => exact absurd hnode h.config
    | link target => exact absurd hnode (h.noLink configName target)

theorem configNode_of_held (hheld : held tree dir configName = some content) :
    configNode tree dir = some (.file content) :=
  h.configNode_eq.trans (held_eq_some_iff.mp hheld)

theorem backupConfig_missing (hheld : held tree dir configName = none) :
    backupConfig tree dir fault now = (tree, .error (.io "config.toml not found")) := by
  have hnode := configNode_of_held_none h hheld
  rw [configNode] at hnode
  rw [backupConfig, hnode]
  rfl

theorem backupConfig_eq (hheld : held tree dir configName = some content) :
    (backupConfig tree dir fault now).1 =
      (writeAt tree fault (dir ++ [backupName now]) content).1 := by
  have hnode := configNode_of_held h hheld
  rw [configNode] at hnode
  have hplace : dir ++ [configName] ≠ dir ++ [backupName now] :=
    place_ne (ne_configName (isBackupName_backupName now)).symm
  rw [backupConfig, hnode]
  simp only [Option.isNone_some, Bool.false_eq_true, if_false, copy,
    h.resolve isName_configName, h.resolve (isName_backupName now), held_eq_some_iff.mp hheld,
    if_neg hplace]

theorem write_config (bytes : List UInt8) :
    write tree dir fault configName bytes = writeAt tree fault (dir ++ [configName]) bytes := by
  rw [write, h.resolve isName_configName]

end Effects

/-! ## Runs -/

structure State where
  tree : Tree
  /-- The names that backups were made under, with what they were made of. -/
  taken : List (String × List UInt8)

/-- Every action with the failures of its writes. -/
inductive Action
  | update (backupFault writeFault : Option Fault) (now : ℕ) (body : UpdateConfigBody)
  | backup (writeFault backupFault : Option Fault) (now : ℕ)
  | restore (fault : Option Fault) (backupFile : String)

/-- A backup is made as soon as its file is opened. -/
def made (tree : Tree) (dir : Place) (fault : Option Fault) (now : ℕ) :
    List (String × List UInt8) :=
  match held tree dir configName with
  | some content =>
    if canCreate tree (dir ++ [backupName now]) && (Fault.written fault content).isSome then
      [(backupName now, content)]
    else []
  | none => []

section Steps

variable (toml : TomlEdit) (server : Server) (effective : SystemConfig) (dir : Place)

def step (s : State) : Action → State
  | .update backupFault writeFault now body =>
    { tree := (updateAdminConfig toml server s.tree dir backupFault writeFault now body).1
      taken := s.taken ++ made s.tree dir backupFault now }
  | .backup writeFault backupFault now =>
    { tree := (backupAdminConfig toml effective s.tree dir writeFault backupFault now).1
      taken := s.taken ++
        match materialize toml effective s.tree dir writeFault with
        | (tree, .replied (.ok ())) => made tree dir backupFault now
        | _ => [] }
  | .restore fault backupFile =>
    { s with tree := (restoreAdminConfig s.tree dir fault backupFile).1 }

/-- An update or a restore that is answered with success. -/
def Succeeds (s : State) : Action → Prop
  | .update backupFault writeFault now body => ∃ response,
    (updateAdminConfig toml server s.tree dir backupFault writeFault now body).2 =
      .replied (.ok response)
  | .backup _ _ _ => False
  | .restore fault backupFile => ∃ from',
    (restoreAdminConfig s.tree dir fault backupFile).2 = .ok from'

/-- What was replaced is in a backup. -/
def Recoverable (s s' : State) : Prop :=
  ∀ content, held s.tree dir configName = some content →
    ∃ list name, listBackups s'.tree dir = .ok list ∧ name ∈ list ∧
      held s'.tree dir name = some content

/-- The backups that were there are there as they were. -/
def Kept (s s' : State) : Prop :=
  ∀ list name content, listBackups s.tree dir = .ok list →
    name ∈ list ∧ held s.tree dir name = some content → held s'.tree dir name = some content

/-- A listed backup brings back what it was made of. -/
def Restores (s : State) : Prop :=
  ∀ e ∈ s.taken, ∀ list, listBackups s.tree dir = .ok list → e.1 ∈ list →
    (restoreConfig s.tree dir none e.1).2 = .ok () ∧
      configNode (restoreConfig s.tree dir none e.1).1 dir = some (.file e.2)

/-- What an action must do. -/
def Faithful (s : State) (a : Action) : Prop :=
  (Succeeds toml server dir s a → Recoverable dir s (step toml server effective dir s a)) ∧
    Kept dir s (step toml server effective dir s a) ∧
    Restores dir (step toml server effective dir s a)

/-! ## When an action does it -/

/-- A backup of the content is whole, and its name is free or has the same content already. -/
def Clear (tree : Tree) (fault : Option Fault) (now : ℕ) (content : List UInt8) : Prop :=
  canCreate tree (dir ++ [backupName now]) = true → ∀ written,
    Fault.written fault content = some written →
      written = content ∧ ∀ old, held tree dir (backupName now) = some old → old = content

/-- The configuration is in a backup. -/
def BackedUp (tree : Tree) : Prop :=
  ∀ content, held tree dir configName = some content →
    ∃ name, isBackupName name = true ∧ held tree dir name = some content

/-- An update is written and can be read back. -/
def Updates (tree : Tree) (writeFault : Option Fault) (body : UpdateConfigBody) : Prop :=
  writeFault = none ∧ ∃ text response,
    writeConfigToml toml none (configFile tree dir) (mergedConfig server body
      ((readConfigToml toml (configFile tree dir)).toOption.getD {})) = .saved text ∧
    getAdminConfig toml server (ofBytes (toBytes text)) = .ok response

/-- What an explicit backup is of: the configuration, or the one written where there is none. -/
def toBackUp (tree : Tree) (writeFault : Option Fault) : Option (List UInt8) :=
  match held tree dir configName, writeFault with
  | some content, _ => some content
  | none, none =>
    match writeConfigToml toml none .missing effective with
    | .saved text => some (toBytes text)
    | _ => none
  | none, some _ => none

def Guarded (s : State) : Action → Prop
  | .update backupFault writeFault now body =>
    (∀ content, held s.tree dir configName = some content →
      Clear dir s.tree backupFault now content) ∧
    (Updates toml server dir s.tree writeFault body → made s.tree dir backupFault now = [] →
      BackedUp dir s.tree)
  | .backup writeFault backupFault now =>
    ∀ content, toBackUp toml effective dir s.tree writeFault = some content →
      Clear dir s.tree backupFault now content
  | .restore fault backupFile =>
    fault = none → (∃ src dst content, Opened s.tree dir backupFile src dst content) →
      BackedUp dir s.tree

end Steps

/-! ## What one backup does -/

/-- The same backups. -/
def SameBackups (dir : Place) (tree tree' : Tree) : Prop :=
  ∀ name, isBackupName name = true →
    tree'.lookup (dir ++ [name]) = tree.lookup (dir ++ [name])

theorem SameBackups.held {tree' : Tree} (h : SameBackups dir tree tree')
    (hname : isBackupName name = true) : held tree' dir name = held tree dir name := by
  rw [BackupRuns.held, h name hname]
  rfl

theorem sameBackups_config :
    SameBackups dir tree (writeAt tree fault (dir ++ [configName]) content).1 := fun _ hname =>
  lookup_writeAt_ne (place_ne (ne_configName hname))

section Backups

variable (h : Ordinary tree dir) {now : ℕ}

include h

theorem made_cases (hheld : held tree dir configName = some content) :
    (made tree dir fault now = [] ∧ (backupConfig tree dir fault now).1 = tree ∧
      ¬ (canCreate tree (dir ++ [backupName now]) = true ∧
        (Fault.written fault content).isSome)) ∨
    made tree dir fault now = [(backupName now, content)] ∧
      canCreate tree (dir ++ [backupName now]) = true ∧
      ∃ written, Fault.written fault content = some written ∧
        held (backupConfig tree dir fault now).1 dir (backupName now) = some written ∧
        ∀ other, other ≠ backupName now →
          held (backupConfig tree dir fault now).1 dir other = held tree dir other := by
  rw [backupConfig_eq h hheld, made, hheld]
  dsimp only
  split
  · rename_i hopen
    rw [Bool.and_eq_true] at hopen
    obtain ⟨hcreate, hwritten⟩ := hopen
    obtain ⟨written, hwritten⟩ := Option.isSome_iff_exists.mp hwritten
    exact .inr ⟨rfl, hcreate, written, hwritten,
      h.held_writeAt_self (h.canCreate_iff.mp hcreate) hwritten, fun _ => held_writeAt_ne⟩
  · rename_i hclosed
    rw [Bool.and_eq_true] at hclosed
    refine .inl ⟨rfl, ?_, hclosed⟩
    cases hcreate : canCreate tree (dir ++ [backupName now]) with
    | false => exact writeAt_blocked hcreate
    | true =>
      refine writeAt_refused (Option.not_isSome_iff_eq_none.mp fun hwritten => ?_)
      exact hclosed ⟨hcreate, hwritten⟩

theorem made_of_missing (hheld : held tree dir configName = none) :
    made tree dir fault now = [] ∧ (backupConfig tree dir fault now).1 = tree := by
  rw [made, hheld, backupConfig_missing h hheld]
  exact ⟨rfl, rfl⟩

/-- A backup leaves the older ones alone and can be restored, with them, exactly when it is
clear. -/
theorem backup_iff {tree' : Tree}
    (hsame : SameBackups dir (backupConfig tree dir fault now).1 tree')
    {taken : List (String × List UInt8)}
    (htaken : ∀ e ∈ taken, isBackupName e.1 = true ∧ held tree dir e.1 = some e.2) :
    ((∀ name content, isBackupName name = true → held tree dir name = some content →
        held tree' dir name = some content) ∧
      ∀ e ∈ taken ++ made tree dir fault now, held tree' dir e.1 = some e.2) ↔
      ∀ content, held tree dir configName = some content → Clear dir tree fault now content := by
  have hunchanged (hmade : made tree dir fault now = [])
      (htree : (backupConfig tree dir fault now).1 = tree) :
      (∀ name content, isBackupName name = true → held tree dir name = some content →
        held tree' dir name = some content) ∧
      ∀ e ∈ taken ++ made tree dir fault now, held tree' dir e.1 = some e.2 := by
    rw [htree] at hsame
    rw [hmade, List.append_nil]
    exact ⟨fun name content hname hold => (hsame.held hname).trans hold,
      fun e he => (hsame.held (htaken e he).1).trans (htaken e he).2⟩
  cases hheld : held tree dir configName with
  | none =>
    obtain ⟨hmade, htree⟩ := @made_of_missing tree dir fault h now hheld
    exact iff_of_true (hunchanged hmade htree) fun _ hnone => by cases hnone
  | some content =>
    simp only [Option.some.injEq, forall_eq']
    rcases @made_cases tree dir fault content h now hheld with
      ⟨hmade, hnone, hclosed⟩ | ⟨hmade, hcreate, written, hwritten, hself, hother⟩
    · refine iff_of_true (hunchanged hmade hnone) fun hcreate written hwritten =>
        absurd ⟨hcreate, ?_⟩ hclosed
      rw [hwritten]
      rfl
    · have hnew : held tree' dir (backupName now) = some written :=
        (hsame.held (isBackupName_backupName now)).trans hself
      constructor
      · rintro ⟨hkept, hall⟩ - written' hwritten'
        have hcontent := hall (backupName now, content) (by simp [hmade])
        rw [hnew, Option.some.injEq] at hcontent
        rw [hwritten, Option.some.injEq] at hwritten'
        refine ⟨hwritten' ▸ hcontent, fun old hold => ?_⟩
        have hafter := hkept _ old (isBackupName_backupName now) hold
        rw [hnew, Option.some.injEq] at hafter
        rw [← hafter, hcontent]
      · intro hclear
        obtain ⟨hcontent, hold⟩ := hclear hcreate written hwritten
        have hkept : ∀ name content, isBackupName name = true →
            held tree dir name = some content → held tree' dir name = some content := by
          intro name content' hname hbefore
          by_cases heq : name = backupName now
          · rw [heq] at hbefore ⊢
            rw [hnew, hcontent, hold _ hbefore]
          · rw [hsame.held hname, hother _ heq, hbefore]
        refine ⟨hkept, fun e he => ?_⟩
        rw [hmade, List.mem_append, List.mem_singleton] at he
        rcases he with he | rfl
        · obtain ⟨hname, hbefore⟩ := htaken e he
          exact hkept _ _ hname hbefore
        · rw [hnew, hcontent]

/-- After a clear backup what was to be backed up is, unless no file was opened for it. -/
theorem recovered_iff {tree' : Tree}
    (hsame : SameBackups dir (backupConfig tree dir fault now).1 tree')
    (hclear : ∀ content, held tree dir configName = some content →
      Clear dir tree fault now content) :
    (∀ content, held tree dir configName = some content →
      ∃ name, isBackupName name = true ∧ held tree' dir name = some content) ↔
      (made tree dir fault now = [] → BackedUp dir tree) := by
  cases hheld : held tree dir configName with
  | none =>
    refine iff_of_true (fun _ hnone => by cases hnone) fun _ content hcontent => ?_
    rw [hheld] at hcontent
    cases hcontent
  | some content =>
    simp only [BackedUp, hheld, Option.some.injEq, forall_eq']
    rcases @made_cases tree dir fault content h now hheld with
      ⟨hmade, hnone, -⟩ | ⟨hmade, hcreate, written, hwritten, hself, -⟩
    · rw [forall_prop_of_true hmade]
      rw [hnone] at hsame
      refine exists_congr fun name => and_congr_right fun hname => ?_
      rw [hsame.held hname]
    · rw [hmade]
      refine iff_of_true ⟨backupName now, isBackupName_backupName now, ?_⟩ fun hnil => by cases hnil
      rw [hsame.held (isBackupName_backupName now), hself,
        (hclear content hheld hcreate written hwritten).1]

/-- A restore of a backup brings back what its file holds. -/
theorem restores_iff (hname : isBackupName name = true) {written : List UInt8}
    (hheld : held tree dir name = some written) :
    ((restoreConfig tree dir none name).2 = .ok () ∧
      configNode (restoreConfig tree dir none name).1 dir = some (.file content)) ↔
      written = content := by
  have hfile := held_eq_some_iff.mp hheld
  have hplace : dir ++ [name] ≠ dir ++ [configName] := place_ne (ne_configName hname)
  have hopen : Opened tree dir name (dir ++ [name]) (dir ++ [configName]) written :=
    ⟨h.resolve (h.isName name (by rw [hfile]; rfl)), hfile, h.resolve isName_configName,
      h.canCreate_config⟩
  have hok : (writeAt tree none (dir ++ [configName]) written).2 = .ok () :=
    writeAt_result_iff.mpr ⟨h.canCreate_config, rfl⟩
  have hafter : (writeAt tree none (dir ++ [configName]) written).1.lookup (dir ++ [configName]) =
      some (.file written) := lookup_writeAt_self h.canCreate_config rfl
  rw [restoreConfig_of_opened hopen, if_neg hplace, configNode_writeAt hopen.target, hok, hafter,
    Option.some.injEq, Node.file.injEq]
  exact and_iff_right rfl

/-- All that was ever backed up is still there under its name. -/
theorem taken_listed {tree' : Tree}
    (hsame : SameBackups dir (backupConfig tree dir fault now).1 tree')
    {taken : List (String × List UInt8)}
    (htaken : ∀ e ∈ taken, isBackupName e.1 = true ∧ held tree dir e.1 = some e.2) :
    ∀ e ∈ taken ++ made tree dir fault now,
      isBackupName e.1 = true ∧ (held tree' dir e.1).isSome := by
  have hunchanged (hmade : made tree dir fault now = [])
      (htree : (backupConfig tree dir fault now).1 = tree) :
      ∀ e ∈ taken ++ made tree dir fault now,
        isBackupName e.1 = true ∧ (held tree' dir e.1).isSome := by
    intro e he
    rw [hmade, List.append_nil] at he
    obtain ⟨hname, hold⟩ := htaken e he
    rw [hsame.held hname, htree, hold]
    exact ⟨hname, rfl⟩
  cases hheld : held tree dir configName with
  | none =>
    obtain ⟨hmade, htree⟩ := @made_of_missing tree dir fault h now hheld
    exact hunchanged hmade htree
  | some content =>
    rcases @made_cases tree dir fault content h now hheld with
      ⟨hmade, hnone, -⟩ | ⟨hmade, -, written, -, hself, hother⟩
    · exact hunchanged hmade hnone
    · intro e he
      have hnew : (held tree' dir (backupName now)).isSome := by
        rw [hsame.held (isBackupName_backupName now), hself]
        rfl
      rw [hmade, List.mem_append, List.mem_singleton] at he
      rcases he with he | rfl
      · obtain ⟨hname, hold⟩ := htaken e he
        refine ⟨hname, ?_⟩
        by_cases heq : e.1 = backupName now
        · rw [heq]
          exact hnew
        · rw [hsame.held hname, hother _ heq, hold]
          rfl
      · exact ⟨isBackupName_backupName now, hnew⟩

theorem ordinary_backupConfig : Ordinary (backupConfig tree dir fault now).1 dir := by
  cases hheld : held tree dir configName with
  | none => rw [backupConfig_missing h hheld]; exact h
  | some content => rw [backupConfig_eq h hheld]; exact h.writeAt (isName_backupName now)

theorem configNode_backupConfig :
    configNode (backupConfig tree dir fault now).1 dir = configNode tree dir := by
  rw [(ordinary_backupConfig h).configNode_eq, h.configNode_eq]
  cases hheld : held tree dir configName with
  | none => rw [backupConfig_missing h hheld]
  | some content =>
    rw [backupConfig_eq h hheld]
    exact lookup_writeAt_ne (place_ne (ne_configName (isBackupName_backupName now)).symm)

/-- A write to the configuration. -/
theorem write_config_cases (bytes : List UInt8) :
    Ordinary (write tree dir fault configName bytes).1 dir ∧
      SameBackups dir tree (write tree dir fault configName bytes).1 ∧
      ((write tree dir fault configName bytes).2 = .ok () ↔ fault = none) ∧
      (fault = none → configNode (write tree dir fault configName bytes).1 dir =
        some (.file bytes)) := by
  have hordinary : Ordinary (writeAt tree fault (dir ++ [configName]) bytes).1 dir :=
    h.writeAt isName_configName
  rw [write_config h]
  refine ⟨hordinary, sameBackups_config, ?_, ?_⟩
  · exact writeAt_result_iff.trans (and_iff_right h.canCreate_config)
  · rintro rfl
    rw [hordinary.configNode_eq]
    exact lookup_writeAt_self h.canCreate_config rfl

theorem configFile_write (bytes : List UInt8) :
    configFile (write tree dir fault configName bytes).1 dir =
      ((Fault.written fault bytes).map ofBytes).getD (configFile tree dir) := by
  rw [write_config h]
  cases hwritten : Fault.written fault bytes with
  | none =>
    rw [writeAt_refused hwritten]
    rfl
  | some written =>
    have hordinary : Ordinary (writeAt tree fault (dir ++ [configName]) bytes).1 dir :=
      h.writeAt isName_configName
    rw [configFile, hordinary.configNode_eq, lookup_writeAt_self h.canCreate_config hwritten]
    rfl

end Backups

/-! ## What each handler does -/

section Effects

variable {toml : TomlEdit} {server : Server} {effective : SystemConfig}
  {backupFault writeFault : Option Fault} {now : ℕ} {body : UpdateConfigBody}
  {backupFile : String} (h : Ordinary tree dir)

include h

theorem update_effect :
    Ordinary (updateAdminConfig toml server tree dir backupFault writeFault now body).1 dir ∧
      SameBackups dir (backupConfig tree dir backupFault now).1
        (updateAdminConfig toml server tree dir backupFault writeFault now body).1 ∧
      ((∃ response, (updateAdminConfig toml server tree dir backupFault writeFault now body).2 =
        .replied (.ok response)) ↔ Updates toml server dir tree writeFault body) := by
  have hbackup := @ordinary_backupConfig tree dir backupFault h now
  have hnode := @configNode_backupConfig tree dir backupFault h now
  have hfile : configFile (backupConfig tree dir backupFault now).1 dir = configFile tree dir := by
    rw [configFile, hnode]
    rfl
  unfold updateAdminConfig Updates
  dsimp only
  rw [hfile]
  set merged := mergedConfig server body
    ((readConfigToml toml (configFile tree dir)).toOption.getD {})
  cases hwrite : writeConfigToml toml none (configFile tree dir) merged with
  | panicked =>
    exact ⟨hbackup, fun _ _ => rfl, iff_of_false (by simp) (by simp)⟩
  | failed e =>
    exact ⟨hbackup, fun _ _ => rfl, iff_of_false (by simp) (by simp)⟩
  | saved text =>
    obtain ⟨hordinary, hsame, hok, hafter⟩ :=
      @write_config_cases _ dir writeFault hbackup (toBytes text)
    dsimp only
    cases hresult : write (backupConfig tree dir backupFault now).1 dir writeFault configName
        (toBytes text) with
    | mk tree' result =>
      rw [hresult] at hordinary hsame hok hafter
      cases result with
      | error message =>
        refine ⟨hordinary, hsame, iff_of_false (by simp) fun hboth => ?_⟩
        have hfalse := hok.mpr hboth.1
        cases hfalse
      | ok =>
        have hnone := hok.mp rfl
        have hread : configFile tree' dir = ofBytes (toBytes text) := by
          rw [configFile, hafter hnone]
        refine ⟨hordinary, hsame, ?_⟩
        dsimp only
        rw [hread, and_iff_right hnone]
        constructor
        · rintro ⟨response, hresponse⟩
          injection hresponse with hresponse
          exact ⟨text, response, rfl, hresponse⟩
        · rintro ⟨text', response, htext, hresponse⟩
          rw [Written.saved.injEq] at htext
          exact ⟨response, by rw [htext, hresponse]⟩

/-- On the configuration itself an update does what the handler without its backup does. -/
theorem updateAdminConfig_eq :
    (configFile (updateAdminConfig toml server tree dir backupFault writeFault now body).1 dir,
      (updateAdminConfig toml server tree dir backupFault writeFault now body).2) =
      AdminConfig.updateAdminConfig toml server writeFault (configFile tree dir) body := by
  have hbackup := @ordinary_backupConfig tree dir backupFault h now
  have hfile : configFile (backupConfig tree dir backupFault now).1 dir = configFile tree dir := by
    rw [configFile, @configNode_backupConfig tree dir backupFault h now]
    rfl
  unfold updateAdminConfig AdminConfig.updateAdminConfig
  dsimp only
  rw [hfile]
  cases writeConfigToml toml none (configFile tree dir)
    (mergedConfig server body ((readConfigToml toml (configFile tree dir)).toOption.getD {})) with
  | panicked => rw [hfile]
  | failed e => rw [hfile]
  | saved text =>
    have hresult : (write (backupConfig tree dir backupFault now).1 dir writeFault configName
        (toBytes text)).2 = Fault.result writeFault := by
      rw [write_config hbackup, writeAt, if_pos hbackup.canCreate_config]
      split <;> rfl
    have hafter := @configFile_write _ dir writeFault hbackup (toBytes text)
    rw [hfile] at hafter
    dsimp only
    rw [← hresult, ← hafter]
    cases write (backupConfig tree dir backupFault now).1 dir writeFault configName
        (toBytes text) with
    | mk tree' result => cases result <;> rfl

theorem materialize_effect :
    Ordinary (materialize toml effective tree dir writeFault).1 dir ∧
      SameBackups dir tree (materialize toml effective tree dir writeFault).1 ∧
      ((materialize toml effective tree dir writeFault).2 = .replied (.ok ()) →
        held (materialize toml effective tree dir writeFault).1 dir configName =
          toBackUp toml effective dir tree writeFault) ∧
      ((materialize toml effective tree dir writeFault).2 ≠ .replied (.ok ()) →
        toBackUp toml effective dir tree writeFault = none) := by
  cases hheld : held tree dir configName with
  | some content =>
    have hnode := configNode_of_held h hheld
    have hmaterialize : materialize toml effective tree dir writeFault =
        (tree, .replied (.ok ())) := by
      rw [materialize, hnode]
      rfl
    have hto : toBackUp toml effective dir tree writeFault = some content := by
      unfold toBackUp
      rw [hheld]
    rw [hmaterialize, hto]
    exact ⟨h, fun _ _ => rfl, fun _ => hheld, fun hne => absurd rfl hne⟩
  | none =>
    have hnode := configNode_of_held_none h hheld
    rw [materialize, hnode, Option.isNone_none, if_pos rfl]
    unfold toBackUp
    rw [hheld]
    cases hwrite : writeConfigToml toml none .missing effective with
    | panicked =>
      exact ⟨h, fun _ _ => rfl, fun hok => (by cases hok), fun _ => by cases writeFault <;> rfl⟩
    | failed e =>
      exact ⟨h, fun _ _ => rfl, fun hok => (by cases hok), fun _ => by cases writeFault <;> rfl⟩
    | saved text =>
      obtain ⟨hordinary, hsame, hok, hafter⟩ :=
        @write_config_cases tree dir writeFault h (toBytes text)
      dsimp only
      cases hresult : write tree dir writeFault configName (toBytes text) with
      | mk tree' result =>
        rw [hresult] at hordinary hsame hok hafter
        cases result with
        | error message =>
          refine ⟨hordinary, hsame, fun hfalse => (by cases hfalse), fun _ => ?_⟩
          cases writeFault with
          | none => exact absurd (hok.mpr rfl) (by simp)
          | some fault => rfl
        | ok =>
          have hnone := hok.mp rfl
          refine ⟨hordinary, hsame, fun _ => ?_, fun hne => absurd rfl hne⟩
          have hconfig := hafter hnone
          rw [hordinary.configNode_eq] at hconfig
          rw [held_eq_some_iff.mpr hconfig, hnone]

theorem restore_effect (fault : Option Fault) (backupFile : String) :
    Ordinary (restoreAdminConfig tree dir fault backupFile).1 dir ∧
      SameBackups dir tree (restoreAdminConfig tree dir fault backupFile).1 ∧
      ((∃ from', (restoreAdminConfig tree dir fault backupFile).2 = .ok from') ↔
        fault = none ∧ ∃ src dst content, Opened tree dir backupFile src dst content) := by
  by_cases hopen : ∃ src dst content, Opened tree dir backupFile src dst content
  · have hexists := hopen
    obtain ⟨src, dst, content, hopen⟩ := hopen
    have hdst : dst = dir ++ [configName] :=
      Option.some.inj (hopen.target.symm.trans (h.resolve isName_configName))
    subst hdst
    have hok : (writeAt tree fault (dir ++ [configName])
        (if src = dir ++ [configName] then [] else content)).2 = .ok () ↔ fault = none :=
      writeAt_result_iff.trans (and_iff_right h.canCreate_config)
    rw [restoreAdminConfig, restoreConfig_of_opened hopen, and_iff_left hexists, ← hok]
    refine ⟨h.writeAt isName_configName, sameBackups_config, ?_⟩
    dsimp only
    cases (writeAt tree fault (dir ++ [configName])
        (if src = dir ++ [configName] then [] else content)).2 with
    | error message =>
      exact iff_of_false (fun hok => hok.elim fun _ hok => by cases hok) fun hok => by cases hok
    | ok => exact iff_of_true ⟨backupFile, rfl⟩ rfl
  · obtain ⟨htree, e, herror⟩ := @restoreConfig_of_not_opened tree dir fault backupFile hopen
    rw [restoreAdminConfig]
    dsimp only
    rw [htree, herror]
    refine ⟨h, fun _ _ => rfl, iff_of_false (fun hok => ?_) fun hboth => hopen hboth.2⟩
    obtain ⟨from', hok⟩ := hok
    cases hok

end Effects

/-! ## Steps -/

/-- What holds before every action of a faithful run. -/
structure Sound (dir : Place) (s : State) : Prop where
  ordinary : Ordinary s.tree dir
  taken : ∀ e ∈ s.taken, isBackupName e.1 = true ∧ held s.tree dir e.1 = some e.2

theorem recoverable_iff {s s' : State} (h : Ordinary s'.tree dir) :
    Recoverable dir s s' ↔ ∀ content, held s.tree dir configName = some content →
      ∃ name, isBackupName name = true ∧ held s'.tree dir name = some content := by
  obtain ⟨list, hlist⟩ := listBackups_of_directory h.directory
  apply forall₂_congr
  intro content _
  constructor
  · rintro ⟨list', name, hlist', hname⟩
    exact ⟨name, (listed_iff hlist').mp hname⟩
  · rintro ⟨name, hname⟩
    exact ⟨list, name, hlist, (listed_iff hlist).mpr hname⟩

/-- The last two parts of what an action must do, said of files. -/
theorem kept_restores_iff {s s' : State} (h : Ordinary s.tree dir) (h' : Ordinary s'.tree dir)
    (hlisted : ∀ e ∈ s'.taken, isBackupName e.1 = true ∧ (held s'.tree dir e.1).isSome) :
    Kept dir s s' ∧ Restores dir s' ↔
      (∀ name content, isBackupName name = true → held s.tree dir name = some content →
        held s'.tree dir name = some content) ∧
      ∀ e ∈ s'.taken, held s'.tree dir e.1 = some e.2 := by
  refine and_congr ?_ (forall₂_congr fun e he => ?_)
  · obtain ⟨list, hlist⟩ := listBackups_of_directory h.directory
    constructor
    · intro hkept name content hname hheld
      exact hkept list name content hlist ((listed_iff hlist).mpr ⟨hname, hheld⟩)
    · intro hkept list name content hlist hname
      obtain ⟨hname, hheld⟩ := (listed_iff hlist).mp hname
      exact hkept name content hname hheld
  · obtain ⟨hname, hsome⟩ := hlisted e he
    obtain ⟨written, hheld⟩ := Option.isSome_iff_exists.mp hsome
    obtain ⟨list, hlist⟩ := listBackups_of_directory h'.directory
    rw [hheld, Option.some.injEq, ← restores_iff h' hname hheld]
    constructor
    · exact fun hrestores => hrestores list hlist ((listed_iff hlist).mpr ⟨hname, hheld⟩).1
    · exact fun hrestores _ _ _ => hrestores

variable {toml : TomlEdit} {server : Server} {effective : SystemConfig}

/-- An explicit backup is one of the materialized file, or none. -/
theorem backup_step_cases (s : State) (writeFault backupFault : Option Fault) (now : ℕ) :
    ((materialize toml effective s.tree dir writeFault).2 = .replied (.ok ()) ∧
      (step toml server effective dir s (.backup writeFault backupFault now)).tree =
        (backupConfig (materialize toml effective s.tree dir writeFault).1 dir backupFault now).1 ∧
      (step toml server effective dir s (.backup writeFault backupFault now)).taken =
        s.taken ++ made (materialize toml effective s.tree dir writeFault).1 dir backupFault now) ∨
    (materialize toml effective s.tree dir writeFault).2 ≠ .replied (.ok ()) ∧
      (step toml server effective dir s (.backup writeFault backupFault now)).tree =
        (materialize toml effective s.tree dir writeFault).1 ∧
      (step toml server effective dir s (.backup writeFault backupFault now)).taken = s.taken := by
  simp only [step, backupAdminConfig]
  cases hmaterialize : materialize toml effective s.tree dir writeFault with
  | mk tree outcome =>
    cases outcome with
    | panicked => exact .inr ⟨fun h => (by cases h), rfl, List.append_nil _⟩
    | replied result =>
      cases result with
      | error e =>
        refine .inr ⟨fun h => ?_, rfl, List.append_nil _⟩
        cases h
      | ok =>
        refine .inl ⟨rfl, ?_, rfl⟩
        dsimp only
        cases backupConfig tree dir backupFault now with
        | mk tree' result => cases result <;> rfl

theorem clear_congr {tree' : Tree} (h : Ordinary tree dir) (h' : Ordinary tree' dir)
    (hsame : SameBackups dir tree tree') {now : ℕ} :
    Clear dir tree' fault now content ↔ Clear dir tree fault now content := by
  have hname := isBackupName_backupName now
  rw [Clear, Clear, h.canCreate_iff, h'.canCreate_iff, hsame _ hname, hsame.held hname]

theorem step_listed {s : State} (h : Sound dir s) (a : Action) :
    Ordinary (step toml server effective dir s a).tree dir ∧
      ∀ e ∈ (step toml server effective dir s a).taken, isBackupName e.1 = true ∧
        (held (step toml server effective dir s a).tree dir e.1).isSome := by
  cases a with
  | update backupFault writeFault now body =>
    obtain ⟨hordinary, hsame, -⟩ := @update_effect s.tree dir toml server backupFault writeFault
      now body h.ordinary
    exact ⟨hordinary, taken_listed h.ordinary hsame h.taken⟩
  | backup writeFault backupFault now =>
    obtain ⟨hordinary, hsame, -⟩ := @materialize_effect s.tree dir toml effective writeFault
      h.ordinary
    rcases @backup_step_cases dir toml server effective s writeFault backupFault now with
      ⟨-, htree, htaken⟩ | ⟨-, htree, htaken⟩
    · rw [htree, htaken]
      refine ⟨ordinary_backupConfig hordinary,
        taken_listed hordinary (fun _ _ => rfl) fun e he => ?_⟩
      obtain ⟨hname, hheld⟩ := h.taken e he
      exact ⟨hname, (hsame.held hname).trans hheld⟩
    · rw [htree, htaken]
      refine ⟨hordinary, fun e he => ?_⟩
      obtain ⟨hname, hheld⟩ := h.taken e he
      rw [hsame.held hname, hheld]
      exact ⟨hname, rfl⟩
  | restore fault backupFile =>
    obtain ⟨hordinary, hsame, -⟩ := restore_effect h.ordinary fault backupFile
    refine ⟨hordinary, fun e he => ?_⟩
    obtain ⟨hname, hheld⟩ := h.taken e he
    refine ⟨hname, ?_⟩
    rw [step, hsame.held hname, hheld]
    rfl

/-- An action does what it must exactly when it is guarded. -/
theorem faithful_iff_guarded {s : State} (h : Sound dir s) (a : Action) :
    Faithful toml server effective dir s a ↔ Guarded toml server effective dir s a := by
  obtain ⟨hordinary, hlisted⟩ := @step_listed dir toml server effective s h a
  rw [Faithful, kept_restores_iff h.ordinary hordinary hlisted, recoverable_iff hordinary]
  cases a with
  | update backupFault writeFault now body =>
    obtain ⟨-, hsame, hsucceeds⟩ := @update_effect s.tree dir toml server backupFault writeFault
      now body h.ordinary
    have hsame' : SameBackups dir (backupConfig s.tree dir backupFault now).1
      (step toml server effective dir s (.update backupFault writeFault now body)).tree := hsame
    rw [Guarded, and_comm, ← backup_iff h.ordinary hsame' h.taken]
    apply and_congr_right
    intro hkept
    have hclear := (backup_iff h.ordinary hsame' h.taken).mp hkept
    rw [recovered_iff h.ordinary hsame' hclear]
    exact imp_congr_left hsucceeds
  | backup writeFault backupFault now =>
    obtain ⟨hmaterialized, hsame, hok, hfailed⟩ := @materialize_effect s.tree dir toml effective
      writeFault h.ordinary
    have htakenAt : ∀ e ∈ s.taken, isBackupName e.1 = true ∧
        held (materialize toml effective s.tree dir writeFault).1 dir e.1 = some e.2 := by
      intro e he
      obtain ⟨hname, hheld⟩ := h.taken e he
      exact ⟨hname, (hsame.held hname).trans hheld⟩
    have hkept : ∀ tree, (∀ name content, isBackupName name = true →
        held s.tree dir name = some content → held tree dir name = some content) ↔
        ∀ name content, isBackupName name = true →
          held (materialize toml effective s.tree dir writeFault).1 dir name = some content →
          held tree dir name = some content := by
      intro tree
      apply forall₃_congr
      intro name content hname
      rw [hsame.held hname]
    have hnot : ¬ Succeeds toml server dir s (.backup writeFault backupFault now) := id
    rw [and_iff_right fun hsucceeds => absurd hsucceeds hnot, hkept]
    rcases @backup_step_cases dir toml server effective s writeFault backupFault now with
      ⟨hdone, htree, htaken⟩ | ⟨hdone, htree, htaken⟩
    · rw [htree, htaken, backup_iff hmaterialized (fun _ _ => rfl) htakenAt, Guarded, hok hdone]
      exact forall₂_congr fun content _ => clear_congr h.ordinary hmaterialized hsame
    · rw [htree, htaken, Guarded, hfailed hdone]
      refine iff_of_true ⟨fun _ _ _ hheld => hheld, fun e he => (htakenAt e he).2⟩ fun _ hnone => ?_
      cases hnone
  | restore fault backupFile =>
    obtain ⟨-, hsame, hsucceeds⟩ := restore_effect h.ordinary fault backupFile
    have hsame' : SameBackups dir s.tree
      (step toml server effective dir s (.restore fault backupFile)).tree := hsame
    rw [Guarded, ← and_imp, and_iff_left]
    · refine imp_congr hsucceeds (forall₂_congr fun content _ => ?_)
      refine exists_congr fun name => and_congr_right fun hname => ?_
      rw [hsame'.held hname]
    · refine ⟨fun name content hname hheld => (hsame'.held hname).trans hheld, fun e he => ?_⟩
      exact (hsame'.held (h.taken e he).1).trans (h.taken e he).2

theorem step_sound {s : State} (h : Sound dir s) (a : Action)
    (hguard : Guarded toml server effective dir s a) :
    Sound dir (step toml server effective dir s a) := by
  obtain ⟨hordinary, hlisted⟩ := @step_listed dir toml server effective s h a
  have hfaithful := (faithful_iff_guarded h a).mpr hguard
  have hheld := ((kept_restores_iff h.ordinary hordinary hlisted).mp hfaithful.2).2
  exact ⟨hordinary, fun e he => ⟨(hlisted e he).1, hheld e he⟩⟩

/-! ## Whole runs -/

structure ConfigDir where
  dir : Place
  tree : Tree
  ordinary : Ordinary tree dir

/-- The backups that are there already are made of what they hold. -/
def start (d : ConfigDir) : State where
  tree := d.tree
  taken := ((names d.tree d.dir).filter isBackupName).filterMap fun name =>
    (held d.tree d.dir name).map fun content => (name, content)

theorem sound_start (d : ConfigDir) : Sound d.dir (start d) := by
  refine ⟨d.ordinary, fun e he => ?_⟩
  obtain ⟨name, hname, hentry⟩ := List.mem_filterMap.mp he
  obtain ⟨content, hheld, rfl⟩ := Option.map_eq_some_iff.mp hentry
  exact ⟨(List.mem_filter.mp hname).2, hheld⟩

/-- Every step of a run leaves what it replaces in a backup and every backup as it was made, exactly
when no backup is cut short or made under the name of another one, and nothing is replaced that no
backup holds. -/
theorem faithful_run_iff (toml : TomlEdit) (server : Server) (effective : SystemConfig)
    (d : ConfigDir) (as : List Action) :
    LabelledRun.AllSteps (step toml server effective d.dir)
        (Faithful toml server effective d.dir) (start d) as ↔
      LabelledRun.AllSteps (step toml server effective d.dir)
        (Guarded toml server effective d.dir) (start d) as :=
  LabelledRun.allSteps_congr_of_guarded (J := Sound d.dir) (fun _ a h => step_sound h a)
    (fun _ a h => faithful_iff_guarded h a) (sound_start d) as

/-! ## A configuration and one backup -/

def olderName : String := backupName Timestamps.minuteNanos

def smallTree : Tree :=
  [([], .directory), (["srv"], .directory), (["srv", configName], .file (toBytes "[server]")),
    (["srv", olderName], .file (toBytes "[redis]"))].foldl
    (fun tree entry => tree.insert entry.1 entry.2) ∅

theorem ordinary_smallTree : Ordinary smallTree ["srv"] := by
  have hnames : ∀ name ∈ names smallTree ["srv"],
      IsName name ∧ (held smallTree ["srv"] name).isSome := by decide +kernel
  refine ⟨by decide +kernel, fun name h => (hnames name (mem_names_iff.mpr h)).1,
    fun name target h => ?_, by decide +kernel⟩
  obtain ⟨-, hheld⟩ := hnames name (mem_names_iff.mpr (by rw [h]; rfl))
  rw [held, h] at hheld
  cases hheld

def smallDir : ConfigDir := ⟨["srv"], smallTree, ordinary_smallTree⟩

/-- A restore makes no backup of what it replaces, and the second of two backups within a second
takes the place of the first. -/
theorem backups_not_faithful :
    ¬ LabelledRun.AllSteps (step fullToml smallServer {} ["srv"])
        (Faithful fullToml smallServer {} ["srv"]) (start smallDir) [.restore none olderName] ∧
      ¬ LabelledRun.AllSteps (step fullToml smallServer {} ["srv"])
        (Faithful fullToml smallServer {} ["srv"]) (start smallDir)
        [.backup none none 0, .restore none olderName, .backup none none 500000000] := by
  constructor
  · rintro ⟨⟨hrecoverable, -⟩, -⟩
    have hsucceeds : (restoreAdminConfig smallTree ["srv"] none olderName).2 = .ok olderName := by
      decide +kernel
    obtain ⟨list, name, hlist, hname, hheld⟩ :=
      hrecoverable ⟨_, hsucceeds⟩ (toBytes "[server]") (by decide +kernel)
    set tree := (step fullToml smallServer {} ["srv"] (start smallDir)
      (.restore none olderName)).tree with htree
    have hone : listBackups tree ["srv"] = .ok [olderName] := by
      rw [htree]
      decide +kernel
    have hother : held tree ["srv"] olderName = some (toBytes "[redis]") := by
      rw [htree]
      decide +kernel
    rw [hone, Except.ok.injEq] at hlist
    rw [← hlist, List.mem_singleton] at hname
    rw [hname, hother] at hheld
    exact absurd hheld (by decide +kernel)
  · rintro ⟨-, -, ⟨-, hkept, -⟩, -⟩
    set tree := (step fullToml smallServer {} ["srv"]
      (step fullToml smallServer {} ["srv"] (start smallDir) (.backup none none 0))
      (.restore none olderName)).tree with htree
    have hdir : tree.lookup ["srv"] = some .directory := by
      rw [htree]
      decide +kernel
    have hfirst : held tree ["srv"] (backupName 0) = some (toBytes "[server]") := by
      rw [htree]
      decide +kernel
    obtain ⟨list, hlist⟩ := listBackups_of_directory hdir
    have hafter := hkept list (backupName 0) (toBytes "[server]") hlist
      ((listed_iff hlist).mpr ⟨isBackupName_backupName 0, hfirst⟩)
    exact absurd hafter (by decide +kernel)

end PicHost.BackupRuns
