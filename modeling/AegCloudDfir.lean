import AegCloudDfir.Audit.Tamper
import AegCloudDfir.Search.CaseImport
import AegCloudDfir.Search.Typed
import AegCloudDfir.Production.Csv
import AegCloudDfir.Collection.Acquisition
import AegCloudDfir.Production.Placeholders
import AegCloudDfir.Production.Release
import AegCloudDfir.Production.Order
import AegCloudDfir.Production.Labels
import AegCloudDfir.Production.Cycles
import AegCloudDfir.Dispatch.Delivery
import AegCloudDfir.Collection.Exhaustion
import AegCloudDfir.Collection.Retrying
import AegCloudDfir.Collection.Resuming
import AegCloudDfir.Search.Selection
import AegCloudDfir.Export.Digests
import AegCloudDfir.Export.Unpacking
import AegCloudDfir.Export.FolderNames
import AegCloudDfir.Collection.Midnight
import AegCloudDfir.Collection.GivingUp
import AegCloudDfir.Collection.ChatWindows
import AegCloudDfir.Collection.UidWalks
import AegCloudDfir.Collection.Uploads
import AegCloudDfir.Processing.PstExtract
import AegCloudDfir.Processing.ImportScan
import AegCloudDfir.Processing.MissingObject
import AegCloudDfir.Processing.SafePreview
import AegCloudDfir.Collection.AuditGaps
import AegCloudDfir.Collection.Failures
import AegCloudDfir.Collection.Manifest
import AegCloudDfir.Collection.ManifestItems
import AegCloudDfir.Tenant.Quotas
import AegCloudDfir.Connectors.Revocation
import AegCloudDfir.Deletion.Manifest
import AegCloudDfir.Search.Migration
import AegCloudDfir.Search.Tagging
import AegCloudDfir.Search.Saved
import AegCloudDfir.Processing.Clamd
import AegCloudDfir.Search.WholeTexts
import AegCloudDfir.Search.BulkIndexing
import AegCloudDfir.Connectors.ProviderFetch
import AegCloudDfir.Evidence.MultipartCopy
import AegCloudDfir.Export.Parameters
