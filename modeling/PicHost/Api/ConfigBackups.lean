import PicHost.Api.ConfigFile
import PicHost.Core.Timestamps
import PicHost.Lib.FileTree

/-!
# Backups of the configuration file

Backups lie beside `config.toml`, under names with the second they were made in. A restore takes
the name of its backup from the client.
-/

namespace PicHost.ConfigBackups

open FileTree Radix Timestamps
open ConfigFile (ConfigError)

def configName : String := "config.toml"

/-- `%Y-%m-%dT%H:%M:%SZ`. -/
def stamp (t : ℕ) : List Char :=
  minuteText (t / minuteNanos) ++ (decimal.encode 2 (t / secondNanos % 60) ++ ['Z'])

def backupName (t : ℕ) : String :=
  String.ofList ("config.toml.".toList ++ (stamp t ++ ".bak".toList))

example : backupName (1 * minuteNanos) = "config.toml.1970-01-01T00:01:00Z.bak" := by
  decide +kernel

def isBackupName (name : String) : Bool :=
  "config.toml.".toList.isPrefixOf name.toList && ".bak".toList.isSuffixOf name.toList

section Functions

variable (tree : Tree) (dir : Place)

/-- `dir` is the parent of the path of the configuration. -/
def backupConfig (fault : Option Fault) (now : ℕ) : Tree × Except ConfigError String :=
  if (nodeAt tree dir configName).isNone then (tree, .error (.io "config.toml not found"))
  else
    let copied := copy tree dir fault configName (backupName now)
    (copied.1, copied.2.mapError .io |>.map fun _ => backupName now)

/-- Newest first. -/
def listBackups : Except ConfigError (List String) :=
  match tree.lookup dir with
  | some .directory =>
    .ok (((names tree dir).filter isBackupName).mergeSort fun a b => !decide (a < b))
  | _ => .error (.io "No such file or directory (os error 2)")

def restoreConfig (fault : Option Fault) (backupFile : String) : Tree × Except ConfigError Unit :=
  if (nodeAt tree dir backupFile).isNone then
    (tree, .error (.io ("Backup not found: " ++ backupFile)))
  else
    -- whatever the path leads to is copied; no look at the list of backups
    let copied := copy tree dir fault backupFile configName
    (copied.1, copied.2.mapError .io)

/-- What `config.toml` is. -/
def configNode : Option Node := nodeAt tree dir configName

/-- Nothing has changed, or `config.toml` is now one of the listed backups, which are files of the
directory itself. -/
def Confined (fault : Option Fault) (backupFile : String) : Prop :=
  ((∃ e, (restoreConfig tree dir fault backupFile).2 = .error e) ∧
    configNode (restoreConfig tree dir fault backupFile).1 dir = configNode tree dir) ∨
  (restoreConfig tree dir fault backupFile).2 = .ok () ∧
    ∃ list name content, listBackups tree dir = .ok list ∧ name ∈ list ∧
      resolve tree dir backupFile = some (dir ++ [name]) ∧
      tree.lookup (dir ++ [name]) = some (.file content) ∧
      configNode (restoreConfig tree dir fault backupFile).1 dir = some (.file content)

/-- The path leads to a file, and `config.toml` can be opened. -/
structure Opened (backupFile : String) (src dst : Place) (content : List UInt8) : Prop where
  source : resolve tree dir backupFile = some src
  file : tree.lookup src = some (.file content)
  target : resolve tree dir configName = some dst
  create : canCreate tree dst = true

/-- Wherever the path leads to a file, it is that of a backup in the directory. It is `config.toml`
itself only if that is empty, and a write that stops early leaves what was there. -/
def Harmless (fault : Option Fault) (backupFile : String) : Prop :=
  ∀ src dst content, Opened tree dir backupFile src dst content →
    (fault = none → (∃ name, src = dir ++ [name] ∧ isBackupName name = true) ∧
      (src = dst → content = [])) ∧
    ∀ n message, fault = some (.cut n message) →
      configNode tree dir = some (.file ((if src = dst then [] else content).take n))

end Functions

variable {tree : Tree} {dir : Place} {fault : Option Fault} {name backupFile : String}
  {src dst : Place} {content : List UInt8}

theorem isName_configName : IsName configName := by decide +kernel

theorem mem_listBackups_iff {list : List String} (h : listBackups tree dir = .ok list) :
    name ∈ list ↔ isBackupName name = true ∧ (tree.lookup (dir ++ [name])).isSome := by
  unfold listBackups at h
  split at h
  · rw [← Except.ok.inj h, List.mem_mergeSort, List.mem_filter, mem_names_iff, and_comm]
  · cases h

theorem listBackups_of_directory (h : tree.lookup dir = some .directory) :
    ∃ list, listBackups tree dir = .ok list := by
  rw [listBackups, h]
  exact ⟨_, rfl⟩

theorem Opened.unique {src' dst' : Place} {content' : List UInt8}
    (h : Opened tree dir backupFile src dst content)
    (h' : Opened tree dir backupFile src' dst' content') :
    src' = src ∧ dst' = dst ∧ content' = content := by
  have hsrc : src' = src := Option.some.inj (h'.source.symm.trans h.source)
  have hfile := h'.file
  rw [hsrc, h.file] at hfile
  refine ⟨hsrc, Option.some.inj (h'.target.symm.trans h.target), ?_⟩
  injection hfile with hfile
  injection hfile with hcontent
  exact hcontent.symm

/-- The whole of a restore whose files can be opened. -/
theorem restoreConfig_of_opened (h : Opened tree dir backupFile src dst content) :
    restoreConfig tree dir fault backupFile =
      ((writeAt tree fault dst (if src = dst then [] else content)).1,
        (writeAt tree fault dst (if src = dst then [] else content)).2.mapError .io) := by
  have hnode : nodeAt tree dir backupFile = some (.file content) := by
    rw [nodeAt, h.source]
    exact h.file
  rw [restoreConfig, hnode, Option.isNone_some, if_neg (by decide)]
  simp only [copy, h.source, h.target, h.file]

/-- Otherwise nothing is written. -/
theorem restoreConfig_of_not_opened
    (h : ¬ ∃ src dst content, Opened tree dir backupFile src dst content) :
    (restoreConfig tree dir fault backupFile).1 = tree ∧
      ∃ e, (restoreConfig tree dir fault backupFile).2 = .error e := by
  unfold restoreConfig
  split
  · exact ⟨rfl, _, rfl⟩
  · dsimp only
    unfold copy
    split
    · rename_i src dst hsrc hdst
      split
      · rename_i content hfile
        have hcreate : canCreate tree dst = false := by
          rw [← Bool.not_eq_true]
          exact fun hcreate => h ⟨src, dst, content, hsrc, hfile, hdst, hcreate⟩
        rw [writeAt, hcreate]
        exact ⟨rfl, _, rfl⟩
      · exact ⟨rfl, _, rfl⟩
      · exact ⟨rfl, _, rfl⟩
    · exact ⟨rfl, _, rfl⟩

/-- What `config.toml` is after it has been written to. -/
theorem configNode_writeAt (htarget : resolve tree dir configName = some dst)
    (content : List UInt8) :
    configNode (writeAt tree fault dst content).1 dir =
      (writeAt tree fault dst content).1.lookup dst := by
  rw [configNode, nodeAt, sameShape_writeAt.resolve, htarget]
  rfl

theorem harmless_of_opened (h : Opened tree dir backupFile src dst content) :
    Harmless tree dir fault backupFile ↔
      (fault = none → (∃ name, src = dir ++ [name] ∧ isBackupName name = true) ∧
        (src = dst → content = [])) ∧
      ∀ n message, fault = some (.cut n message) →
        configNode tree dir = some (.file ((if src = dst then [] else content).take n)) := by
  refine ⟨fun hharmless => hharmless src dst content h, fun hhere src' dst' content' h' => ?_⟩
  obtain ⟨rfl, rfl, rfl⟩ := h.unique h'
  exact hhere

/-- A restore that succeeds has copied a backup exactly when the file is one and was not emptied
before it was read. -/
theorem copied_iff (hopen : Opened tree dir backupFile src dst content) {list : List String}
    (hlist : listBackups tree dir = .ok list) :
    (∃ name copied, name ∈ list ∧ src = dir ++ [name] ∧
      tree.lookup (dir ++ [name]) = some (.file copied) ∧
      (if src = dst then [] else content) = copied) ↔
      (∃ name, src = dir ++ [name] ∧ isBackupName name = true) ∧ (src = dst → content = []) := by
  constructor
  · rintro ⟨name, copied, hname, hsrc, hfile, hcopied⟩
    refine ⟨⟨name, hsrc, ((mem_listBackups_iff hlist).mp hname).1⟩, fun hself => ?_⟩
    rw [← hsrc, hopen.file, Option.some.injEq, Node.file.injEq] at hfile
    rw [hfile, ← hcopied, if_pos hself]
  · rintro ⟨⟨name, hsrc, hname⟩, hempty⟩
    have hfile := hopen.file
    rw [hsrc] at hfile
    refine ⟨name, content, (mem_listBackups_iff hlist).mpr ⟨hname, ?_⟩, hsrc, hfile, ?_⟩
    · rw [hfile]
      rfl
    · split
      · rename_i hself
        exact (hempty hself).symm
      · rfl

section Confined

variable (hopen : Opened tree dir backupFile src dst content)
include hopen

theorem confined_copied_iff : Confined tree dir none backupFile ↔
    (∃ name, src = dir ++ [name] ∧ isBackupName name = true) ∧ (src = dst → content = []) := by
  rw [Confined, restoreConfig_of_opened hopen, configNode_writeAt hopen.target]
  set copied := if src = dst then [] else content with hcopied
  have hok : (writeAt tree none dst copied).2 = .ok () :=
    writeAt_result_iff.mpr ⟨hopen.create, rfl⟩
  have hafter : (writeAt tree none dst copied).1.lookup dst = some (.file copied) :=
    lookup_writeAt_self hopen.create rfl
  rw [hok, hafter]
  constructor
  · rintro (⟨⟨e, he⟩, -⟩ | ⟨-, list, name, content', hlist, hname, hsrc, hfile, hnode⟩)
    · cases he
    · rw [hopen.source, Option.some.injEq] at hsrc
      rw [Option.some.injEq, Node.file.injEq] at hnode
      exact (copied_iff hopen hlist).mp ⟨name, content', hname, hsrc, hfile, hnode⟩
  · intro hbackup
    have hdir := ((resolve_name_iff isName_configName).mp hopen.target).1
    obtain ⟨list, hlist⟩ := listBackups_of_directory hdir
    obtain ⟨name, content', hname, hsrc, hfile, hcontent⟩ := (copied_iff hopen hlist).mpr hbackup
    refine .inr ⟨rfl, list, name, content', hlist, hname, ?_, hfile, ?_⟩
    · rw [hopen.source, hsrc]
    · rw [hcopied, hcontent]

/-- A copy that is refused leaves the file. -/
theorem confined_refused (message : String) :
    Confined tree dir (some (.refused message)) backupFile := by
  rw [Confined, restoreConfig_of_opened hopen]
  refine .inl ⟨?_, ?_⟩
  · rw [writeAt, if_pos hopen.create]
    exact ⟨_, rfl⟩
  · rw [writeAt_refused rfl]

/-- A copy that is cut has emptied the file first. -/
theorem confined_cut_iff (n : ℕ) (message : String) :
    Confined tree dir (some (.cut n message)) backupFile ↔
      configNode tree dir = some (.file ((if src = dst then [] else content).take n)) := by
  rw [Confined, restoreConfig_of_opened hopen, configNode_writeAt hopen.target]
  set copied := if src = dst then [] else content
  have hafter : (writeAt tree (some (.cut n message)) dst copied).1.lookup dst =
      some (.file (copied.take n)) := lookup_writeAt_self hopen.create rfl
  have herror : (writeAt tree (some (.cut n message)) dst copied).2.mapError ConfigError.io =
      .error (.io message) := by
    rw [writeAt, if_pos hopen.create]
    rfl
  rw [hafter, herror]
  constructor
  · rintro (⟨-, hsame⟩ | ⟨hok, -⟩)
    · exact hsame.symm
    · cases hok
  · exact fun hsame => .inl ⟨⟨_, rfl⟩, hsame.symm⟩

end Confined

/-- A string can do no harm exactly when every file it leads to is a backup beside `config.toml`. -/
theorem confined_iff (tree : Tree) (dir : Place) (fault : Option Fault) (backupFile : String) :
    Confined tree dir fault backupFile ↔ Harmless tree dir fault backupFile := by
  by_cases hopen : ∃ src dst content, Opened tree dir backupFile src dst content
  · obtain ⟨src, dst, content, hopen⟩ := hopen
    rw [harmless_of_opened hopen]
    cases fault with
    | none =>
      rw [confined_copied_iff hopen]
      exact ⟨fun h => ⟨fun _ => h, fun _ _ hcut => by cases hcut⟩, fun h => h.1 rfl⟩
    | some fault =>
      cases fault with
      | refused message =>
        exact iff_of_true (confined_refused hopen message)
          ⟨fun h => (by cases h), fun _ _ h => by cases h⟩
      | cut n message =>
        rw [confined_cut_iff hopen]
        refine ⟨fun hsame => ⟨fun h => (by cases h), ?_⟩, fun h => h.2 n message rfl⟩
        rintro n' message' ⟨⟩
        exact hsame
  · obtain ⟨htree, herror⟩ := @restoreConfig_of_not_opened tree dir fault backupFile hopen
    refine iff_of_true (.inl ⟨herror, by rw [htree]⟩) fun src dst content h => ?_
    exact absurd ⟨src, dst, content, h⟩ hopen

/-! ## A directory and two files -/

def hostTree : Tree :=
  [([], .directory), (["etc"], .directory), (["srv"], .directory),
    (["etc", "hostname"], .file "pics".toUTF8.toList),
    (["srv", "config.toml"], .file "[server]".toUTF8.toList)].foldl
    (fun tree entry => tree.insert entry.1 entry.2) ∅

/-- Without a listed backup no restore may succeed. -/
theorem not_confined_of_ok (hlist : listBackups tree dir = .ok [])
    (hok : (restoreConfig tree dir fault backupFile).2 = .ok ()) :
    ¬ Confined tree dir fault backupFile := by
  rintro (⟨⟨e, herror⟩, -⟩ | ⟨-, list, name, content, hlist', hname, -⟩)
  · rw [hok] at herror
    cases herror
  · rw [hlist, Except.ok.injEq] at hlist'
    rw [← hlist'] at hname
    exact absurd hname List.not_mem_nil

/-- Each of these succeeds: the first empties the file, the others copy another one into it. -/
theorem restore_not_confined :
    ¬ Confined hostTree ["srv"] none "config.toml" ∧
      ¬ Confined hostTree ["srv"] none "/etc/hostname" ∧
      ¬ Confined hostTree ["srv"] none "../etc/hostname" := by
  have hlist : listBackups hostTree ["srv"] = .ok [] := by decide +kernel
  exact ⟨not_confined_of_ok hlist (by decide +kernel), not_confined_of_ok hlist (by decide +kernel),
    not_confined_of_ok hlist (by decide +kernel)⟩

end PicHost.ConfigBackups
