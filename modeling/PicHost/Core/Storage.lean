import PicHost.Core.Models
import PicHost.Lib.FileTree
import Mathlib.Logic.Function.Basic

/-!
# Storage backends

A backend maps a key to a location; the bytes of all backends live in one map from
locations. A `fault` is the driver's error text of a call that fails; a write that fails
can leave bytes behind.
-/

namespace PicHost

inductive StorageError
  | notFound (key : String)
  | writeFailed (text : String)
  | readFailed (text : String)
  | connectionFailed (text : String)
  | config (text : String)
  | payloadTooLarge (text : String)
deriving DecidableEq

/-- The text of the error. -/
def StorageError.toText : StorageError → String
  | .notFound key => "file not found: " ++ key
  | .writeFailed text => "write failed: " ++ text
  | .readFailed text => "read failed: " ++ text
  | .connectionFailed text => "connection failed: " ++ text
  | .config text => "config error: " ++ text
  | .payloadTooLarge text => "payload too large: " ++ text

inductive GitProvider
  | gitHub
  | gitCode
deriving DecidableEq

structure GitStorage where
  provider : GitProvider
  owner : String
  repo : String
  branch : String
  pathPrefix : Option String
  token : String
deriving DecidableEq

/-- The registered backends: a directory, an S3 bucket or a Git repository. -/
inductive Backend
  | localStorage (basePath baseUrl : String)
  | rustfs (endpoint bucket : String)
  | git (g : GitStorage)
deriving DecidableEq

/-- Where an object lives. The token and the URL of a backend do not take part. -/
inductive Location
  | file (basePath key : String)
  | bucketObject (endpoint bucket key : String)
  | content (provider : GitProvider) (owner repo branch path : String)
deriving DecidableEq

abbrev Objects := Location → Option Bytes

/-- `s.trim_end_matches('/')`. -/
def trimEndSlash (s : String) : String :=
  String.ofList (s.toList.reverse.dropWhile (· == '/')).reverse

namespace GitStorage

def gitCodeMaxContentsBytes : ℕ := 20 * 1024 * 1024

/-- `day` is the current date as `%Y/%m/%d`. -/
def buildPath (g : GitStorage) (day key ext : String) : String :=
  (g.pathPrefix.getD "pichost") ++ "/" ++ day ++ "/" ++ key ++ "." ++ ext

def rawBaseUrl (g : GitStorage) : String :=
  match g.provider with
  | .gitHub => "raw.githubusercontent.com"
  | .gitCode => "raw.gitcode.com"

def rawUrl (g : GitStorage) (path : String) : String :=
  "https://" ++ g.rawBaseUrl ++ "/" ++ g.owner ++ "/" ++ g.repo ++ "/" ++ g.branch ++ "/" ++ path

def mimeToExt (mimeType : String) : String :=
  if mimeType = "image/png" then "png"
  else if mimeType = "image/jpeg" then "jpg"
  else if mimeType = "image/gif" then "gif"
  else if mimeType = "image/webp" then "webp"
  else if mimeType = "image/svg+xml" then "svg"
  else if mimeType = "image/avif" then "avif"
  else if mimeType = "image/bmp" then "bmp"
  else "bin"

def checkGitcodeSizeLimit (g : GitStorage) (data : Bytes) : Except StorageError Unit :=
  if g.provider = .gitCode ∧ gitCodeMaxContentsBytes < data.length then
    .error (.payloadTooLarge "文件超过GitCode 20MB限制，请改用本地存储或GitHub")
  else .ok ()

end GitStorage

namespace Backend

def backendName : Backend → String
  | .localStorage _ _ => "local"
  | .rustfs _ _ => "rustfs"
  | .git g =>
    match g.provider with
    | .gitHub => "github"
    | .gitCode => "gitcode"

def locate : Backend → String → Location
  | .localStorage basePath _, key => .file basePath key
  | .rustfs endpoint bucket, key => .bucketObject endpoint bucket key
  | .git g, key => .content g.provider g.owner g.repo g.branch key

/-- The key an object is stored under: Git files it by date and extension. -/
def storedKey (b : Backend) (day key mimeType : String) : String :=
  match b with
  | .git g => g.buildPath day key (GitStorage.mimeToExt mimeType)
  | _ => key

def checkSize (b : Backend) (data : Bytes) : Except StorageError Unit :=
  match b with
  | .git g => g.checkGitcodeSizeLimit data
  | _ => .ok ()

/-- What a write that fails leaves in its place. `fs::write` empties the file before it writes;
the other backends keep an object whole or not at all, and may do so without their answer
coming through. -/
def left (b : Backend) (fault : FileTree.Fault) (data : Bytes) : Option Bytes :=
  match fault, b with
  | .refused _, _ => none
  | .cut n _, .localStorage _ _ => some (data.take n)
  | .cut _ _, _ => some data

/-- `put`: returns the stored key. -/
def put (b : Backend) (fault : Option FileTree.Fault) (day key : String) (data : Bytes)
    (contentType : String) (objs : Objects) : Except StorageError String × Objects :=
  let path := b.storedKey day key contentType
  match b.checkSize data, fault with
  -- the size is checked before anything is sent
  | .error e, _ => (.error e, objs)
  | .ok (), some fault =>
    (.error (.writeFailed fault.message),
      -- what was there before does not come back
      match b.left fault data with
      | some written => Function.update objs (b.locate path) (some written)
      | none => objs)
  | .ok (), none => (.ok path, Function.update objs (b.locate path) (some data))

/-- `get`: the error of a missing object depends on the backend. -/
def get (b : Backend) (fault : Option String) (key : String) (objs : Objects) :
    Except StorageError Bytes :=
  match fault, objs (b.locate key), b with
  | some text, _, _ => .error (.readFailed text)
  | none, some data, _ => .ok data
  | none, none, .localStorage _ _ => .error (.readFailed "No such file or directory")
  | none, none, _ => .error (.notFound key)

/-- `delete`: only the file system reports a missing object. -/
def delete (b : Backend) (fault : Option String) (key : String) (objs : Objects) :
    Except StorageError Unit × Objects :=
  match fault, objs (b.locate key), b with
  | some text, _, _ => (.error (.writeFailed text), objs)
  | none, none, .localStorage _ _ => (.error (.writeFailed "No such file or directory"), objs)
  | none, _, _ => (.ok (), Function.update objs (b.locate key) none)

def publicUrl : Backend → String → String
  | .localStorage _ baseUrl, key => trimEndSlash baseUrl ++ "/" ++ key
  | .rustfs endpoint bucket, key => endpoint ++ "/" ++ bucket ++ "/" ++ key
  | .git g, path => g.rawUrl path

def isGit : Backend → Bool
  | .git _ => true
  | _ => false

/-- A Git backend shares no location with the others. -/
theorem locate_ne_of_isGit {b b' : Backend} (hb : b.isGit = true) (hb' : b'.isGit = false) :
    b'.locate ≠ b.locate := by
  intro h
  have hl := congrFun h ""
  cases b with
  | git g => cases b' <;> simp [locate, isGit] at hl hb'
  | localStorage | rustfs => cases hb

theorem locate_injective (b : Backend) : Function.Injective b.locate := by
  intro key key' h
  cases b <;> simpa [locate] using h

/-- Only Git files an object under another key. -/
theorem storedKey_of_not_isGit {b : Backend} (hb : b.isGit = false) (day key mime : String) :
    b.storedKey day key mime = key := by
  cases b with
  | git g => cases hb
  | localStorage | rustfs => rfl

theorem storedKey_ne_of_isGit {b : Backend} (hb : b.isGit = true) (day key mime : String) :
    b.storedKey day key mime ≠ key := by
  cases b with
  | git g =>
    intro h
    have hlen := congrArg String.length h
    simp only [storedKey, GitStorage.buildPath, String.length_append] at hlen
    have hslash : ("/" : String).length = 1 := rfl
    omega
  | localStorage | rustfs => cases hb

theorem get_of_some {b : Backend} {key : String} {objs : Objects} {data : Bytes}
    (h : objs (b.locate key) = some data) : b.get none key objs = .ok data := by
  simp only [get, h]

/-- A put that fails leaves every place but its own. -/
theorem put_error {b : Backend} {fault : Option FileTree.Fault} {day key mime : String}
    {data : Bytes} {objs objs' : Objects} {e : StorageError}
    (h : b.put fault day key data mime objs = (.error e, objs')) :
    objs' = objs ∨ ∃ f written, fault = some f ∧ e = .writeFailed f.message ∧
      b.left f data = some written ∧
      objs' = Function.update objs (b.locate (b.storedKey day key mime)) (some written) := by
  unfold put at h
  split at h
  · exact .inl (Prod.mk.inj h).2.symm
  · obtain ⟨herror, hobjs⟩ := Prod.mk.inj h
    cases herror
    split at hobjs
    · rename_i hleft
      exact .inr ⟨_, _, rfl, rfl, hleft, hobjs.symm⟩
    · exact .inl hobjs.symm
  · exact absurd (Prod.mk.inj h).1 (by simp)

theorem put_ok {b : Backend} {fault : Option FileTree.Fault} {day key mime path : String}
    {data : Bytes} {objs objs' : Objects}
    (h : b.put fault day key data mime objs = (.ok path, objs')) :
    path = b.storedKey day key mime ∧
      objs' = Function.update objs (b.locate path) (some data) := by
  unfold put at h
  split at h
  · exact absurd (Prod.mk.inj h).1 (by simp)
  · exact absurd (Prod.mk.inj h).1 (by simp)
  · obtain ⟨hp, ho⟩ := Prod.mk.inj h
    cases hp
    exact ⟨rfl, ho.symm⟩

/-- A delete touches only the object it is about. -/
theorem delete_of_ne (b : Backend) (fault : Option String) (key : String) (objs : Objects)
    {l : Location} (hl : l ≠ b.locate key) : (b.delete fault key objs).2 l = objs l := by
  unfold delete
  split
  · rfl
  · rfl
  · exact Function.update_of_ne hl ..

/-- Deleting never brings an object back. -/
theorem delete_keeps_none (b : Backend) (fault : Option String) (key : String) {objs : Objects}
    {l : Location} (h : objs l = none) : (b.delete fault key objs).2 l = none := by
  by_cases hl : l = b.locate key
  · subst hl
    unfold delete
    split
    · exact h
    · exact h
    · exact Function.update_self ..
  · rw [delete_of_ne b fault key objs hl, h]

/-- An object that is there can be deleted. -/
theorem delete_ok {b : Backend} {key : String} {objs : Objects} {data : Bytes}
    (h : objs (b.locate key) = some data) : (b.delete none key objs).1 = .ok () := by
  unfold delete
  split
  · rename_i hnone
    cases hnone
  · rename_i hnone
    rw [h] at hnone
    cases hnone
  · rfl

theorem delete_self (b : Backend) (key : String) (objs : Objects) :
    (b.delete none key objs).2 (b.locate key) = none := by
  unfold delete
  split
  · rename_i h
    cases h
  · rename_i h
    exact h
  · exact Function.update_self ..

/-- What one deletion of a file does to a place. -/
theorem delete_at (b : Backend) (fault : Option String) (key : String) (objs : Objects)
    (l : Location) : (b.delete fault key objs).2 l =
      if fault = none ∧ l = b.locate key then none else objs l := by
  cases fault with
  | some text =>
    rw [if_neg fun h => Option.some_ne_none _ h.1]
    rfl
  | none =>
    by_cases hl : l = b.locate key
    · rw [if_pos ⟨rfl, hl⟩, hl, delete_self]
    · rw [if_neg fun h => hl h.2, delete_of_ne _ _ _ _ hl]

end Backend

end PicHost
