import KubeSync.Lts
import KubeSync.Resumption
import KubeSync.Pool
import KubeSync.WorkQueue
import KubeSync.CriticalSections
import KubeSync.VersionedStore
import KubeSync.Edits
import KubeSync.Latest
import KubeSync.Float64
import KubeSync.Types
import KubeSync.Recognizer
import KubeSync.RecognizerNames
import KubeSync.Schedule
import KubeSync.SyncRun
import KubeSync.RunProtocol
import KubeSync.Worker
import KubeSync.WorkerSteps
import KubeSync.WorkerInvariant
import KubeSync.WorkerRuns
import KubeSync.WorkerBookings
import KubeSync.WorkerLimits
import KubeSync.WorkerMessages
import KubeSync.WorkerStop
import KubeSync.WorkerWakeup
import KubeSync.RunLoop
import KubeSync.RunLifeCycle
import KubeSync.RunKilled
import KubeSync.WorkerRunLoop
import KubeSync.HookOrder
import KubeSync.ProviderProcess
import KubeSync.ProviderSteps
import KubeSync.ProviderExclusion
import KubeSync.ProviderStart
import KubeSync.ProviderTerminate
import KubeSync.ProviderIdle
import KubeSync.Manager
import KubeSync.ManagerDecisions
import KubeSync.ManagerHistory
import KubeSync.ManagerLookups
import KubeSync.ManagerFiles
import KubeSync.Announcements
import KubeSync.ManagerBodies
import KubeSync.ManagerFailures
import KubeSync.ManagerSerial
import KubeSync.JobMerge
import KubeSync.ConfigCopy
import KubeSync.MirrorZ
import KubeSync.MirrorZRequests
import KubeSync.MirrorZStatus
import KubeSync.FileListings
import KubeSync.AnnouncementBoard
import KubeSync.FileHistory
import KubeSync.Reporter
import KubeSync.ExternalListing
import KubeSync.CommandWords
import KubeSync.WorkerRequests
import KubeSync.WorkerReports
import KubeSync.WorkerRestart
import KubeSync.WorkerRefresh
import KubeSync.WorkerAgreement
import KubeSync.Objects
import KubeSync.Controller
import KubeSync.ControllerBuilds
import KubeSync.ControllerNames
import KubeSync.ControllerIsolation
import KubeSync.ControllerHistory
import KubeSync.ControllerFilter
import KubeSync.ControllerRetries
import KubeSync.ControllerReferences
import KubeSync.ControllerOverrides
import KubeSync.ImageReferences
import KubeSync.ControllerConfig
import KubeSync.WorkerConfig
import KubeSync.WorkerSettings
import KubeSync.WorkerTimes
import KubeSync.Context
import KubeSync.ContextRuns
import KubeSync.ChildProcess
import KubeSync.ChildRuns
import KubeSync.CommandLog
import KubeSync.LogRotation
import KubeSync.LogHooks
import KubeSync.Sizes
import KubeSync.ManagerController
import KubeSync.ManagerReconcile
import KubeSync.ManagerExclusion
import KubeSync.ManagerWorkloads
import KubeSync.ControllerPanics
import KubeSync.Downloads
import KubeSync.CondaIndex
import KubeSync.CondaRuns
import KubeSync.ReleaseListing
import KubeSync.ReleaseRun
import KubeSync.EntwareSync
import KubeSync.ReleaseThreads
import KubeSync.ReleaseEnds
import KubeSync.ReleaseRefinement
import KubeSync.Dict
import KubeSync.SortSlice
