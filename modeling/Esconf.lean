import Esconf.BackendMaps
import Esconf.ChannelFrames
import Esconf.Locks
import Esconf.FlushReload
import Esconf.CacheAgreement
import Esconf.ChannelPolicy
import Esconf.GetAll
import Esconf.Notices
import Esconf.LoadLayers
import Esconf.SaveRuns
import Esconf.Persistence
import Esconf.UntouchedSettings
import Esconf.LockedSettings
import Esconf.AddedNames
import Esconf.DanglingNodes
import Esconf.ChannelObjects
import Esconf.ReadPaths
import Esconf.FailedResets
import Esconf.StructValues
import Esconf.SettingsBackend
import Esconf.RejectedSets
import Esconf.FinalizedCache
import Esconf.LastWrites
import Esconf.ValueEquality
import Esconf.BusEncoding
import Esconf.EsconfTypes
import Esconf.RejectedElements
import Esconf.MalformedFiles
import Esconf.PathDiscipline
import Esconf.ArrayGrammar
import Esconf.ResetEviction
import Esconf.StructLayout
import Esconf.Indentation
import Esconf.BindingTeardown
import Esconf.OriginTags
import Esconf.BindingNotifies
import Esconf.BoundProperties
import Esconf.BoundCascades
import Esconf.BoundEvents
import Esconf.OverlaidBackends
import Esconf.Library.Journal
import Esconf.StoredChannels
import Esconf.FlushFrames
import Esconf.DaemonLives
import Esconf.Library.Announcements
import Esconf.QueuedNotices
import Esconf.ServedCalls
import Esconf.SignalReplicas
import Esconf.QueryTool
import Esconf.QueryEffects
import Esconf.QueryScripts
