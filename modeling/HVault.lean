import HVault.Vault.PinnedDeltas
import HVault.Auth.SingleUse
import HVault.Account.Suspension
import HVault.Account.Classification
import HVault.Account.Detection
import HVault.Account.Rotation
import HVault.Account.Endings
import HVault.Account.Fence
import HVault.Erasure.Law
import HVault.Documents.Quota
import HVault.Client.Csrf
import HVault.Client.AutoLock
import HVault.Admission.Books
import HVault.Client.Refresh
import HVault.Client.HeldKey
import HVault.Client.SignedOut
import HVault.Client.EncryptedStorage
import HVault.Client.Spreading
import HVault.Backup.Calls
import HVault.Restore.Existing
import HVault.Client.DiffHunks
import HVault.Client.TablePreview
import HVault.Client.PasswordGenerator
import HVault.Export.DownloadProgress
import HVault.Totp.Batch
import HVault.Totp.ScanSession
import HVault.Client.ClipboardRuns
import HVault.Import.Resume
import HVault.Import.Requests
import HVault.Vault.BackupCodesIssues
import HVault.Restore.DocumentRuns
import HVault.Folders.DepthRuns
import HVault.Breach.RangeShared
import HVault.Breach.RangeCache
import HVault.Account.ConfirmationRuns
import HVault.Documents.OffsetRuns
import HVault.Import.CustomFieldsLimit
import HVault.Export.PortableNames
import HVault.Client.SecureRandom
import HVault.Export.FolderPath
import HVault.Export.Checksum
import HVault.Jobs.JobLock
import HVault.Vault.RowVerdict
import HVault.Requests.RequestFilter
import HVault.Client.UploadRecovery
