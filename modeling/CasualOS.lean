import CasualOS.Lib.OrderedMap
import CasualOS.Lib.Dll
import CasualOS.Lib.DllFrame
import CasualOS.Lib.PathOrder
import CasualOS.Lib.Supported
import CasualOS.Atom2
import CasualOS.HashText
import CasualOS.Weave2
import CasualOS.WeaveHeap
import CasualOS.WeaveRepr
import CasualOS.WeaveRead
import CasualOS.WeaveBuffer
import CasualOS.CheckedWeave
import CasualOS.CausalOrder
import CasualOS.TreeOrder
import CasualOS.WeaveInsert
import CasualOS.Convergence
import CasualOS.PlainWeave
import CasualOS.Redelivery
import CasualOS.RepoClient
import CasualOS.CausalRepo
import CasualOS.BranchIsolation
import CasualOS.RepoServer
import CasualOS.RepoContents
import CasualOS.WeaveNodes
import CasualOS.StageReplay
import CasualOS.Acknowledged
import CasualOS.BranchPasswords
import CasualOS.ConcurrentCommits
import CasualOS.WatchedBranch
import CasualOS.Json
import CasualOS.TagEdit
import CasualOS.BotsState
import CasualOS.MergedUpdates
import CasualOS.MemoryPartition
import CasualOS.CausalTree2
import CasualOS.SharedIds
import CasualOS.SiteClocks
import CasualOS.IndexDiff
import CasualOS.Lib.Deltas
import CasualOS.EarlyEvents
import CasualOS.UpdatesStore
import CasualOS.AddUpdates
import CasualOS.Lib.Base64
import CasualOS.Lib.Utf16
import CasualOS.RecordKeys
import CasualOS.KeyCreation
import CasualOS.PolicyPermissions
import CasualOS.PolicyController
import CasualOS.AuthorizationSound
import CasualOS.AuthorizationRole
import CasualOS.AuthorizationOrder
import CasualOS.RecordWrites
import CasualOS.Lib.Linear
import CasualOS.PolicyChanges
import CasualOS.Lib.Handlers
import CasualOS.AuthStore
import CasualOS.AuthController
import CasualOS.LoginCodes
import CasualOS.SessionLineage
import CasualOS.Sessions
import CasualOS.UserHeap
import CasualOS.DataPolicies
import CasualOS.BotActions
import CasualOS.ActionRouting
import CasualOS.LocalStoragePartition
import CasualOS.StorageEvents
import CasualOS.YjsPartition
import CasualOS.YjsBatch
import CasualOS.OtherPlayers
import CasualOS.Lib.SortedLists
import CasualOS.ConnectionStore
import CasualOS.RedisUpdates
import CasualOS.StateUpdates
import CasualOS.Directory
import CasualOS.RootCardinality
import CasualOS.SubtreeRemoval
import CasualOS.UserHandlers
import CasualOS.UniqueAddresses
import CasualOS.WeaveFrame
import CasualOS.WeaveOutcome
import CasualOS.BatchDiff
import CasualOS.BatchCalls
import CasualOS.BatchSummary
import CasualOS.RoleGrants
import CasualOS.KeptMarkers
import CasualOS.SessionListing
import CasualOS.KeyFormats
import CasualOS.CanonicalRequests
import CasualOS.DataListing
import CasualOS.YjsText
import CasualOS.TextEdits
import CasualOS.TagValues
import CasualOS.CompiledBots
import CasualOS.TagReads
import CasualOS.RuntimeState
import CasualOS.ListenerIndex
import CasualOS.BotReplacement
import CasualOS.ActionRejections
import CasualOS.NumberTexts
import CasualOS.BotValues
import CasualOS.BotLookup
import CasualOS.TagIndex
import CasualOS.PartitionStates
import CasualOS.VersionPositions
import CasualOS.DimensionsKept
import CasualOS.TranspilerCache
import CasualOS.EnergyChecks
import CasualOS.CodeLocations
import CasualOS.IdTexts
import CasualOS.BotTimers
import CasualOS.ClockSamples
import CasualOS.BotDestruction
