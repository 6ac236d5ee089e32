import OpenFS.Common.Types
import OpenFS.Common.Crc32
import OpenFS.Lib.RootedGraph
import OpenFS.Meta.InodeTable
import OpenFS.Meta.NamespaceManager
import OpenFS.Meta.NamespaceEffects
import OpenFS.Meta.RefusedCalls
import OpenFS.Meta.NamespaceInvariant
import OpenFS.Meta.NamespaceTree
import OpenFS.Meta.PathMap
import OpenFS.Meta.PathRefinement
import OpenFS.Meta.BlockMap
import OpenFS.Meta.BlockAllocator
import OpenFS.Meta.MetaService
import OpenFS.Meta.CommitSize
import OpenFS.Meta.Handlers
import OpenFS.Meta.LostUpdates
import OpenFS.Meta.TablesAgree
import OpenFS.Lib.ByteImage
import OpenFS.Lib.FileLog
import OpenFS.Data.BlockIOEngine
import OpenFS.Data.FailedReads
import OpenFS.Data.DirectIO
import OpenFS.Data.WalManager
import OpenFS.Data.WalInvariant
import OpenFS.Data.WalReplay
import OpenFS.Lib.FirstFit
import OpenFS.Data.BlockBitmap
import OpenFS.Data.DiskFormat
import OpenFS.Data.DiskManager
import OpenFS.Data.DiskSteps
import OpenFS.Data.Ledger
import OpenFS.Data.DiskStore
import OpenFS.Data.FreshDisk
import OpenFS.Data.CrashSafety
import OpenFS.Data.DiskPool
import OpenFS.Data.DataNode
import OpenFS.Lib.Requests
import OpenFS.Client.BlockSplitter
import OpenFS.Client.OpenFSClient
import OpenFS.Client.ReadCheck
import OpenFS.Client.System
import OpenFS.Client.FailedWrites
import OpenFS.Client.Overwrite
import OpenFS.Data.BlockStore
import OpenFS.Data.WriteAhead
import OpenFS.Data.Bookkeeping
import OpenFS.Data.SpaceAccounts
import OpenFS.Data.Restart
import OpenFS.Lib.Interleaving
import OpenFS.Data.NodeLedger
import OpenFS.Client.Slices
import OpenFS.Client.Cluster
import OpenFS.Meta.InodeRecords
import OpenFS.Client.LogFacts
import OpenFS.Client.ClusterInvariant
import OpenFS.Client.WritePrograms
import OpenFS.Client.ReadPrograms
import OpenFS.Meta.Bindings
import OpenFS.Client.Promises
import OpenFS.Client.SingleWrite
import OpenFS.Client.RoundTrip
import OpenFS.Client.WholeFiles
import OpenFS.Data.FormatLayout
import OpenFS.Data.BitmapAllocator
import OpenFS.Data.PoolChoice
import OpenFS.Lib.NodeList
import OpenFS.Data.L2Cache
import OpenFS.Data.L2CacheInvariant
import OpenFS.Data.CacheHits
import OpenFS.Lib.Lru
import OpenFS.Client.MetadataCache
import OpenFS.Client.CacheContents
import OpenFS.Client.CachedVersions
import OpenFS.Client.PathLookups
import OpenFS.Lib.OutFile
import OpenFS.Data.SegmentEngine
import OpenFS.Data.SegmentRecords
import OpenFS.Data.SegmentInvariant
import OpenFS.Data.SegmentRoundTrip
import OpenFS.Data.SegmentReopen
import OpenFS.Common.Crc32Steps
import OpenFS.Client.ShortCorruptions
import OpenFS.Client.Tiling
import OpenFS.Common.IdGenerator
import OpenFS.Common.UniqueIds
import OpenFS.Data.CacheCapacity
import OpenFS.Data.ReadRecords
import OpenFS.Data.UncheckedReads
import OpenFS.Data.LostSaves
import OpenFS.Meta.PathSpelling
import OpenFS.Meta.ListedNames
import OpenFS.Meta.SubtreeMoves
import OpenFS.Data.LiveBlocks
import OpenFS.Data.PhysicalBlocks
import OpenFS.Meta.BlockLists
import OpenFS.Meta.NodeIdentity
import OpenFS.Lib.Recency
import OpenFS.Client.LastUse
import OpenFS.Client.PathIndex
import OpenFS.Data.Scans
import OpenFS.Data.LogCapacity
import OpenFS.Data.HeaderLevels
import OpenFS.Data.RefusedWrites
import OpenFS.Client.BlockLevels
import OpenFS.Lib.Grafting
import OpenFS.Meta.NameTree
import OpenFS.Meta.TreeRefinement
import OpenFS.Meta.TreeRuns
import OpenFS.Lib.Simulation
import OpenFS.Client.FileStore
import OpenFS.Client.StoreRelation
import OpenFS.Client.StoreRefinement
import OpenFS.Lib.Fields
import OpenFS.Common.Config
import OpenFS.Common.ConfigText
import OpenFS.Common.ConfigErrors
import OpenFS.Lib.FrontEnds
import OpenFS.Client.UnmovedFiles
import OpenFS.Client.UnmovedPrograms
import OpenFS.S3.S3Server
import OpenFS.S3.ObjectStore
import OpenFS.Lib.LossyCalls
import OpenFS.Meta.Registration
import OpenFS.Meta.HeatTracker
import OpenFS.Data.NodeCrashes
import OpenFS.Lib.Failures
import OpenFS.Client.Crashes
import OpenFS.Client.ThreadPromises
