import PicHost.Core.Database
import PicHost.Core.Router
import PicHost.Core.Cache

/-! # What the request handlers share -/

namespace PicHost

open KeyedTable

/-- `error_json`: a status and the key of the localised message, with its arguments and the
extra members of the body. -/
structure ApiError where
  status : ℕ
  key : String
  args : List String := []
  extra : List (String × ℤ) := []
deriving DecidableEq

structure AuthUser where
  id : Uuid
  isAdmin : Bool
  storageQuota : Option ℤ
deriving DecidableEq

/-- The stores an image handler reads and writes. -/
structure ImageStore (J : Type) where
  images : ImageTable
  objects : Objects
  cache : Cache J

/-- `init_storage_backends`: `rustfs` is the endpoint and the bucket, when configured. -/
def initStorageBackends (localBasePath publicUrl : String) (rustfs : Option (String × String))
    (defaultBackend : String) (order : List String → ℕ) : StorageRouter :=
  let base : StorageRouter :=
    { backends := AList.singleton "local" (.localStorage localBasePath publicUrl)
      default := defaultBackend
      order
      registered := List.cons_ne_nil _ _ }
  match rustfs with
  | none => base
  | some (endpoint, bucket) => base.register "rustfs" (.rustfs (trimEndSlash endpoint) bucket)

end PicHost
