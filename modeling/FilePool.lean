import FilePool.VMDisk
import FilePool.CommonPoints
import FilePool.RewindRuns
import FilePool.PoolSafety
import FilePool.GroupAborts
import FilePool.ShareJobs
import FilePool.RestoreTargets
import FilePool.VolumeAnswers
import FilePool.BackupShares
import FilePool.ExportRecords
import FilePool.ExportHolds
import FilePool.BrowseHolds
import FilePool.SnapshotTries
import FilePool.ShareNumbers
import FilePool.FolderDuty
import FilePool.MountGates
import FilePool.VolumeEntries
import FilePool.RestoredFolders
import FilePool.FailoverObjects
import FilePool.HeldVolumes
import FilePool.SnapshotPages
import FilePool.GuestMoments
import FilePool.MomentPicks
import FilePool.Migrations
import FilePool.GoldenImages
import FilePool.CosBackups
