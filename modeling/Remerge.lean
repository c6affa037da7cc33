import Remerge.OutputIngest
import Remerge.SequentialUpload
import Remerge.OverlappingUploads
import Remerge.SaveOrder
import Remerge.WatcherRelease
import Remerge.FinishedResults
import Remerge.ResultPersistence
import Remerge.QueueDepth
import Remerge.SnapshotEncodings
import Remerge.ClientLockout
import Remerge.AccessControl
import Remerge.RegistryHistory
import Remerge.DownloadIntegrity
import Remerge.LineDetection
import Remerge.OrphanedData
import Remerge.MetadataUpdates
import Remerge.VariantSizes
import Remerge.MakeConfText
import Remerge.ServerLocks
import Remerge.SubmitRefusals
import Remerge.RepoRelocation
import Remerge.ProfileLink
import Remerge.NativeFlags
import Remerge.IdentityChost
import Remerge.BinpkgSync
import Remerge.BuildProvenance
import Remerge.UploadRetries
import Remerge.OldVersions
import Remerge.CleanupPrefix
import Remerge.RetentionClock
import Remerge.BuildVerdicts
import Remerge.ClientConfigFile
import Remerge.OptionWords
import Remerge.SafePaths
import Remerge.ClientChunks
import Remerge.ProfileCycles
import Remerge.ImagesInUse
