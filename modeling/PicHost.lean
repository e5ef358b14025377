import PicHost.Lib.Run
import PicHost.Lib.Table
import PicHost.Lib.Placeholder
import PicHost.Lib.Weight
import PicHost.Lib.Radix
import PicHost.Lib.IpAddress
import PicHost.Lib.PartialUpdate
import PicHost.Lib.Freshness
import PicHost.Core.Models
import PicHost.Api.BatchDelete
import PicHost.Api.ImageCache
import PicHost.Api.Auth
import PicHost.Api.LiteWorker
import PicHost.Api.BackendHistory
import PicHost.Api.UploadQuota
import PicHost.Api.UploadDedup
import PicHost.Api.UploadFootprint
import PicHost.Api.LiteConsumers
import PicHost.Api.Invites
import PicHost.Api.Registration
import PicHost.Api.InviteUse
import PicHost.Api.FirstAdmin
import PicHost.Api.Admin
import PicHost.Api.DeletedUsers
import PicHost.Core.Timestamps
import PicHost.Core.Blacklist
import PicHost.Api.Sessions
import PicHost.Api.Revocation
import PicHost.Api.SessionEnd
import PicHost.Api.RevokedAccounts
import PicHost.Api.RefreshRotation
import PicHost.Api.InviteStores
import PicHost.Api.InviteParity
import PicHost.Api.UploadUrl
import PicHost.Api.OAuth
import PicHost.Api.OAuthIdentity
import PicHost.Api.OAuthBinding
import PicHost.Api.PartialUpdates
import PicHost.Api.FieldsKept
import PicHost.Api.MetaCache
import PicHost.Api.MetaCoherence
import PicHost.Api.Deletion
import PicHost.Api.DeletionAlone
import PicHost.Core.RedisQueue
import PicHost.Core.QueueParity
import PicHost.Core.RedisCommands
import PicHost.Worker.Pipeline
import PicHost.Worker.Serving
import PicHost.Worker.Servable
import PicHost.Api.Service
import PicHost.Api.ThumbCache
import PicHost.Api.StoredFiles
import PicHost.Api.Orphans
import PicHost.Api.StorageConfigs
import PicHost.Api.DefaultConfigs
import PicHost.Api.RouterMemo
import PicHost.Core.Crypto
import PicHost.Api.UsableConfigs
import PicHost.Lib.ColumnTypes
import PicHost.Api.SchemaFit
import PicHost.Lib.JpegSegments
import PicHost.Lib.LapsingCounter
import PicHost.Lib.Layers
import PicHost.Lib.TomlDocument
import PicHost.Api.RateLimit
import PicHost.Api.RateWindows
import PicHost.Worker.VariantKeys
import PicHost.Worker.DeadLetter
import PicHost.Worker.QueueLoss
import PicHost.Worker.QueueAlone
import PicHost.Worker.QueueHolders
import PicHost.Worker.RetryBudget
import PicHost.Web.UploadTask
import PicHost.Web.TokenRefresh
import PicHost.Web.ExifStrip
import PicHost.Api.UploadTargets
import PicHost.Api.DefaultAtomicity
import PicHost.Api.Categories
import PicHost.Api.CategoryForest
import PicHost.Api.DisplayNames
import PicHost.Api.ConfigFile
import PicHost.Api.AdminConfig
import PicHost.Core.LoadConfig
import PicHost.Api.EffectiveConfig
import PicHost.Lib.FloatCast
import PicHost.Lib.FloatQuotient
import PicHost.Lib.SignificantBits
import PicHost.Lib.CountedLoop
import PicHost.Worker.Watermark
import PicHost.Api.UploadParts
import PicHost.Api.UploadIdempotence
import PicHost.Api.DeleteAtomicity
import PicHost.Lib.Paging
import PicHost.Lib.LikePattern
import PicHost.Api.ImageList
import PicHost.Api.Pagination
import PicHost.Api.Search
import PicHost.Lib.HtmlTag
import PicHost.Lib.MarkdownLink
import PicHost.Api.ShareLinks
import PicHost.Lib.FileTree
import PicHost.Api.ConfigBackups
import PicHost.Api.BackupRuns
import PicHost.Api.UpdateAtomicity
import PicHost.Lib.TextLines
import PicHost.Lib.Dotenv
import PicHost.Api.EnvWriter
import PicHost.Api.MaskedUrls
import PicHost.Lib.IntText
import PicHost.Api.StatsCache
import PicHost.Api.EditUser
import PicHost.Api.EditStorageConfig
import PicHost.Api.ClientAddress
import PicHost.Api.SqliteRateLimiter
import PicHost.Web.RenderLag
import PicHost.Web.SharedWorker
import PicHost.Web.CanvasGeometry
import PicHost.Web.ImageZoom
import PicHost.Lib.TokenText
import PicHost.Core.I18n
import PicHost.Worker.WatermarkPlacement
import PicHost.Worker.WatermarkColour
