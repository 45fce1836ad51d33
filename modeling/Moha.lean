import Moha.Runs
import Moha.KeyValueStore
import Moha.DecimalText
import Moha.GtidText
import Moha.LeaderRecord
import Moha.LeaderView
import Moha.Election
import Moha.LatestLog
import Moha.LeaderLoop
import Moha.Cluster
import Moha.ClusterSteps
import Moha.RecordCoherence
import Moha.StoredTerm
import Moha.TermGrowth
import Moha.LateRemoval
import Moha.SinglePointFlag
import Moha.VersionLifetime
import Moha.SplitBrain
import Moha.ReadOnlyLoop
import Moha.LeaderWatch
import Moha.PathText
import Moha.Registry
import Moha.Recovery
import Moha.StoreRenaming
import Moha.RecordText
import Moha.EntryMap
import Moha.ElectionKeys
import Moha.PromotionRecord
import Moha.Supervise
import Moha.ServiceDeath
import Moha.SingleAgent
import Moha.TearDown
import Moha.PlannedSwitch
import Moha.Admission
import Moha.AdmissionTerm
import Moha.ElectionAgreement
import Moha.CampaignLog
import Moha.PreviousMaster
import Moha.TransactionLog
import Moha.Replication
import Moha.LatestData
import Moha.LeaseClock
import Moha.LeaseTenure
import Moha.LeaseSafety
import Moha.StopChannel
import Moha.LeaseMonitor
import Moha.GracefulClose
import Moha.FallibleCalls
import Moha.MysqlService
import Moha.ReadOnlyFlag
import Moha.Redirect
import Moha.PromotionOrder
import Moha.WalPosition
import Moha.GtidPosition
import Moha.SwitchCheck
import Moha.BinlogList
import Moha.Flashback
import Moha.ServerID
import Moha.ServicePid
import Moha.ClientKeys
import Moha.HeapTree
import Moha.DirTree
import Moha.NodeIdentity
import Moha.DistributedLock
import Moha.HealthCheck
import Moha.RegistrationClock
import Moha.ProcessLife
import Moha.Isolation
import Moha.ClusterIsolation
import Moha.GtidPrint
import Moha.OnlyFollow
import Moha.FailoverProgress
import Moha.RegisterGate
import Moha.PgRedirect
import Moha.SwitchHandover
import Moha.Deployment
import Moha.Rejoin
import Moha.ChangeOfMaster
import Moha.CheckerVerdict
import Moha.RecoveryRun
import Moha.LeaderAddress
