import PicHost.Core.Uuid
import PicHost.Lib.Codec
import Mathlib.Data.Int.Notation

/-! # Records shared by the API, the worker and the queues -/

namespace PicHost

/-- A point in time; only the order of instants and their differences are used. -/
abbrev Instant := ℤ

abbrev Bytes := List UInt8

/-- Payload for async image processing tasks. -/
structure TaskPayload where
  taskId : Uuid
  imageId : Uuid
  userId : Uuid
  storageBackend : String
  storageConfigId : Option Uuid
  storageBackendName : String
  sourceKey : String
  sourceMime : String
  retryCount : ℤ
  maxRetries : ℤ
deriving DecidableEq

/-- What a queue did with a task that failed. -/
inductive NackAction
  | retry
  | deadLetter
deriving DecidableEq

/-- `QueueError::Other`; its text is the driver's. -/
inductive QueueError
  | other
deriving DecidableEq

/-- A user's storage backend configuration; `config` is the row's JSON. -/
structure UserStorageConfig where
  id : Uuid
  userId : Uuid
  name : String
  provider : String
  isDefault : Bool
  config : Serialised.Object
  createdAt : Instant
  updatedAt : Instant
deriving DecidableEq

/-- The JSON of a Git backend configuration. -/
structure GitConfigDetail where
  tokenEncrypted : String
  repo : String
  branch : String
  pathPrefix : Option String
deriving DecidableEq

namespace GitConfigDetail

open Serialised

/-- `serde_json::from_value::<GitConfigDetail>`. -/
def fromValue (v : Object) : Option GitConfigDetail := do
  let tokenEncrypted ← v.str "token_encrypted"
  let repo ← v.str "repo"
  let branch ← v.str "branch"
  let pathPrefix ← v.optStr "path_prefix"
  return { tokenEncrypted, repo, branch, pathPrefix }

end GitConfigDetail

/-- A row of `images`. -/
structure Image where
  id : Uuid
  userId : Uuid
  publicKey : String
  originalName : String
  storageKey : String
  storageBackend : String
  mimeType : String
  fileSize : ℤ
  width : Option ℤ
  height : Option ℤ
  sha256 : String
  url : String
  thumbnailKey : Option String
  thumbnailUrl : Option String
  webpKey : Option String
  webpUrl : Option String
  status : String
  storageConfigId : Option Uuid
  categoryId : Option Uuid
  createdAt : Instant
deriving DecidableEq

end PicHost
