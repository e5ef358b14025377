import PicHost.Api.State

/-! # The image description sent to clients -/

namespace PicHost

open KeyedTable

structure StorageConfigInfo where
  id : Uuid
  name : String
  provider : String
deriving DecidableEq

structure UploadResult where
  id : Uuid
  publicKey : String
  originalName : String
  url : String
  markdown : String
  html : String
  bbcode : String
  sha256 : String
  fileSize : ℤ
  mimeType : String
  width : Option ℤ
  height : Option ℤ
  status : String
  thumbnailUrl : Option String
  webpUrl : Option String
  categoryId : Option Uuid
  createdAt : Instant
  storageConfig : Option StorageConfigInfo

/-- A row of `images` joined with its storage configuration, as the queries select it. -/
structure ImageRow where
  id : Uuid
  publicKey : String
  originalName : String
  url : String
  mimeType : String
  fileSize : ℤ
  sha256 : String
  width : Option ℤ
  height : Option ℤ
  status : String
  thumbnailUrl : Option String
  webpUrl : Option String
  createdAt : Instant
  categoryId : Option Uuid
  storageConfigId : Option Uuid
  name : Option String
  provider : Option String

def htmlEscape (s : String) : String :=
  String.join (s.toList.map fun c =>
    if c = '&' then "&amp;"
    else if c = '<' then "&lt;"
    else if c = '>' then "&gt;"
    else if c = '"' then "&quot;"
    else c.toString)

def markdownLink (originalName url : String) : String := "![" ++ originalName ++ "](" ++ url ++ ")"

def htmlLink (originalName url : String) : String :=
  "<img src=\"" ++ url ++ "\" alt=\"" ++ htmlEscape originalName ++ "\" />"

def bbcodeLink (url : String) : String := "[img]" ++ url ++ "[/img]"

namespace UploadResult

def fromRow (row : ImageRow) : UploadResult where
  id := row.id
  publicKey := row.publicKey
  originalName := row.originalName
  url := row.url
  markdown := markdownLink row.originalName row.url
  html := htmlLink row.originalName row.url
  bbcode := bbcodeLink row.url
  sha256 := row.sha256
  fileSize := row.fileSize
  mimeType := row.mimeType
  width := row.width
  height := row.height
  status := row.status
  thumbnailUrl := row.thumbnailUrl
  webpUrl := row.webpUrl
  categoryId := row.categoryId
  createdAt := row.createdAt
  storageConfig :=
    match row.storageConfigId, row.name, row.provider with
    | some id, some name, some provider => some { id, name, provider }
    | _, _, _ => none

end UploadResult

namespace Image

/-- `images i LEFT JOIN user_storage_configs c ON i.storage_config_id = c.id`. -/
def joinConfig (configs : ConfigTable) (r : Image) : ImageRow :=
  let c := r.storageConfigId.bind fun id => configs.rows.find? fun c => c.id == id
  { id := r.id
    publicKey := r.publicKey
    originalName := r.originalName
    url := r.url
    mimeType := r.mimeType
    fileSize := r.fileSize
    sha256 := r.sha256
    width := r.width
    height := r.height
    status := r.status
    thumbnailUrl := r.thumbnailUrl
    webpUrl := r.webpUrl
    createdAt := r.createdAt
    categoryId := r.categoryId
    storageConfigId := r.storageConfigId
    name := c.map (·.name)
    provider := c.map (·.provider) }

end Image

end PicHost
