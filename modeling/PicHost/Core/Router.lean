import PicHost.Core.Storage
import Mathlib.Data.List.AList

/-!
# The storage router

The backends of a process by name. Two are registered at startup; those of the users'
Git configurations are added when they are first used.
-/

namespace PicHost

open Serialised

/-- What building a Git backend calls. -/
structure GitDeps where
  /-- `decrypt_token` under the server's key, as in `PicHost.Core.Crypto`; the error is its
  text. -/
  decryptToken : String → Except String String
  /-- The text of a failed `serde_json::from_value`. -/
  parseError : Object → String

/-- `s.split_once('/')`. -/
def splitOnceSlash (s : String) : Option (String × String) :=
  match s.toList.span (· ≠ '/') with
  | (_, []) => none
  | (a, _ :: b) => some (String.ofList a, String.ofList b)

/-- The provider, repository and token of a Git configuration as a backend. -/
def gitBackend (deps : GitDeps) (config : UserStorageConfig) : Except StorageError Backend := do
  let detail ← match GitConfigDetail.fromValue config.config with
    | some detail => .ok detail
    | none => .error (.config ("config parse failed: " ++ deps.parseError config.config))
  let token ← match deps.decryptToken detail.tokenEncrypted with
    | .ok token => .ok token
    | .error e => .error (.config ("token decrypt failed: " ++ e))
  let provider ←
    if config.provider = "github" then .ok GitProvider.gitHub
    else if config.provider = "gitcode" then .ok GitProvider.gitCode
    -- after the token: a configuration with two mistakes reports the first of these
    else .error (.config ("unknown provider: " ++ config.provider))
  let (owner, repo) ← match splitOnceSlash detail.repo with
    | some parts => .ok parts
    | none => .error (.config "repo format error, expected owner/repo")
  return .git
    { provider, owner, repo, branch := detail.branch, pathPrefix := detail.pathPrefix, token }

/-- The map of a process is never empty. `order` is the order of its hash map: the position
of the first value, given the keys. -/
structure StorageRouter where
  backends : AList fun _ : String => Backend
  default : String
  order : List String → ℕ
  registered : backends.entries ≠ []

namespace StorageRouter

/-- `backends.values().next()`. -/
def firstBackend (r : StorageRouter) : Backend :=
  (r.backends.entries.get
    ⟨r.order r.backends.keys % r.backends.entries.length,
      Nat.mod_lt _ (List.length_pos_iff.mpr r.registered)⟩).2

/-- The backend of an exact name. -/
def get (r : StorageRouter) (name : String) : Option Backend := r.backends.lookup name

def defaultBackend (r : StorageRouter) : Backend := (r.get r.default).getD r.firstBackend

/-- Falls back to the default backend if the name is not registered. -/
def forBackend (r : StorageRouter) (backendName : String) : Backend :=
  (r.get backendName).getD r.defaultBackend

/-- Add or replace one entry. -/
def register (r : StorageRouter) (name : String) (b : Backend) : StorageRouter where
  backends := r.backends.insert name b
  default := r.default
  order := r.order
  registered := by
    rw [AList.entries_insert]
    exact List.cons_ne_nil _ _

/-- A Git backend made on demand is cached under the configuration's identifier. -/
def getOrCreateGit (deps : GitDeps) (r : StorageRouter) (config : UserStorageConfig) :
    Except StorageError Backend × StorageRouter :=
  match gitBackend deps config with
  | .error e => (.error e, r)
  | .ok b => (.ok b, r.register config.id.toText b)

/-- A `local` configuration takes the default backend, whatever it is. -/
def forConfig (deps : GitDeps) (r : StorageRouter) (config : UserStorageConfig) :
    Except StorageError Backend × StorageRouter :=
  if config.provider = "local" then (.ok r.defaultBackend, r)
  else
    -- whatever the row says by now: nothing takes an entry out again
    match r.get config.id.toText with
    | some b => (.ok b, r)
    | none => r.getOrCreateGit deps config

theorem getOrCreateGit_fst (deps : GitDeps) (r : StorageRouter) (config : UserStorageConfig) :
    (r.getOrCreateGit deps config).1 = gitBackend deps config := by
  unfold getOrCreateGit
  split <;> rename_i h <;> exact h.symm

@[simp] theorem get_register (r : StorageRouter) (name : String) (b : Backend) :
    (r.register name b).get name = some b := AList.lookup_insert _

theorem get_register_ne (r : StorageRouter) {name name' : String} (b : Backend)
    (h : name' ≠ name) : (r.register name b).get name' = r.get name' := AList.lookup_insert_ne h

theorem forBackend_of_get {r : StorageRouter} {name : String} {b : Backend}
    (h : r.get name = some b) : r.forBackend name = b := by
  simp only [forBackend, h, Option.getD_some]

/-- A name that is not registered is served by the default backend. -/
theorem forBackend_of_get_none {r : StorageRouter} {name : String} (h : r.get name = none) :
    r.forBackend name = r.defaultBackend := by
  simp only [forBackend, h, Option.getD_none]

theorem defaultBackend_of_get {r : StorageRouter} {b : Backend} (h : r.get r.default = some b) :
    r.defaultBackend = b := by
  simp only [defaultBackend, h, Option.getD_some]

end StorageRouter

end PicHost
