import Moha.LeaderRecord
import Moha.GtidText

/-! Comparing data before and after an election: the logs of
`agent/campaign.go` that candidates upload and compare, and the check of
`server.go::preWatch` that a node passes before it follows a new leader. What
the service manager would report is an argument, since it changes under the
agent's feet. -/
namespace Moha.Election
open LeaderRecord GtidText

/-- The results of `LoadReplicationInfoOfMaster` and
`LoadReplicationInfoOfSlave`. -/
structure ReplicationInfo where
  masterUUID : String
  executedGTID : String
  endTxnID : UInt64
  deriving DecidableEq, Repr

/-- What a node's service manager would report now; `none` stands for an error
of the load. -/
structure Reports where
  master : Option ReplicationInfo := none
  slave : Option ReplicationInfo := none
  slaveStatus : Option Position := none
  deriving DecidableEq, Repr

/-- `campaign.go::loadSlaveLogFromMySQL` and `loadMasterLogFromMySQL`, and the
same assignments in the uploads. -/
def loadLog (s : Server) (info : ReplicationInfo) : Server :=
  { s with lastUUID := info.masterUUID, lastGTID := info.executedGTID, lastTxnID := info.endTxnID }

/-- The log both uploads build from a load. -/
def electionLogOf (s : Server) (info : ReplicationInfo) : LogForElection where
  term := s.term + 1
  lastUUID := info.masterUUID
  lastGTID := info.executedGTID
  endTxnID := info.endTxnID
  version := globalSchemaVersion.toNat

/-- `campaign.go::uploadLogForElectionAsSlave` up to the put: a failed load is
uploaded as well, with the zero values the service managers return with it. -/
def uploadLogForElectionAsSlave (s : Server) (reports : Reports) :
    Server × LogForElection :=
  let info := reports.slave.getD ⟨"", "", 0⟩
  (loadLog s info, electionLogOf s info)

/-- `campaign.go::uploadLogForElectionAsFormerMaster` up to the put: a failed
load uploads nothing and leaves the server as it was. -/
def uploadLogForElectionAsFormerMaster (s : Server) (reports : Reports) :
    Option (Server × LogForElection) :=
  reports.master.map fun info => (loadLog s info, electionLogOf s info)

/-! ### Comparing the uploaded logs -/

/-- The relative key under which `PrefixGet` returns the log of a node. -/
def electionKey (id : NodeID) : List Char := "election/nodes/".toList ++ id.toList

/-- `strings.TrimLeft` cuts every leading character that occurs in the cut set,
not the prefix. -/
def trimmedKey (id : NodeID) : String :=
  String.ofList ((electionKey id).dropWhile fun c => "election/nodes".toList.contains c)

/-- The logs of one round, by server ID; each ID occurs once. -/
abbrev Logs := List (String × LogForElection)

def insertLog (logs : Logs) (serverID : String) (log : LogForElection) : Logs :=
  (serverID, log) :: logs.filter fun held => held.1 != serverID

/-- `campaign.go::getAllLogsForElection`, with the keys visited in the given
order. -/
def getAllLogsForElection (etcd : Etcd) (order : List NodeID) : Logs :=
  order.foldl (fun logs id =>
    match etcd.value (.nodesPath id) with
    | some (.electionLog log) => insertLog logs (trimmedKey id) log
    | _ => logs) []

/-- The transaction ID a log stands for: the stored counter from version 2 on,
and before that the one parsed from the GTID text. -/
def logTxnID (log : LogForElection) : Option UInt64 :=
  if 2 ≤ log.version then some log.endTxnID
  else match getTxnIDFromGTIDStr log.lastGTID log.lastUUID with
    | .error _ => none
    | .ok txnID => some txnID.toUInt64

/-- The loop of `isLatestLog` over the other logs, with the running flag. -/
def compareLogs (id : NodeID) (term endTxnID : UInt64) (isSinglePoint : Bool) :
    Logs → Bool × Bool
  | [] => (true, isSinglePoint)
  | (serverID, log) :: rest =>
    if id = serverID then compareLogs id term endTxnID isSinglePoint rest
    else if term < log.term then (false, false)
    else if log.term < term then compareLogs id term endTxnID isSinglePoint rest
    else match logTxnID log with
      | none => compareLogs id term endTxnID false rest
      | some another =>
        if endTxnID < another then (false, false) else compareLogs id term endTxnID false rest

/-- `campaign.go::isLatestLog`: whether the node has the latest log, and whether
it is the only one of its term. -/
def isLatestLog (s : Server) (logs : Logs) : Bool × Bool :=
  match logs.lookup s.id with
  | none => (false, false)
  | some myLog =>
    match logTxnID myLog with
    | none => (false, false)
    | some endTxnID => compareLogs s.id myLog.term endTxnID true logs

/-! ### Admission by a new leader -/

/-- `server.go::isPreviousMaster`, with the unsigned subtraction of the source. -/
def isPreviousMaster (s : Server) (leader : Leader) : Bool :=
  (s.term == leader.leaderMeta.term && s.id == leader.leaderMeta.name) ||
    (s.term == leader.leaderMeta.term - 1 && s.uuid == leader.leaderMeta.lastUUID)

/-- The load that `preWatch` and `preCampaign` choose: the master's position for
the former master, the slave's for everybody else. -/
def Reports.choose (reports : Reports) (isFormerMaster : Bool) : Option ReplicationInfo :=
  if isFormerMaster then reports.master else reports.slave

inductive PreWatchError where
  | behindMoreThanOneTerm
  | loadLog
  | laterTxnID
  | differentLeaderUUID
  | extractTxnID
  | laterGTID
  deriving DecidableEq, Repr

/-- The comparison of `preWatch`: by transaction ID with a leader of version 2,
by UUID and GTID text with an older one. -/
def checkLogIndex (s : Server) (leader : LeaderMeta) : Option PreWatchError :=
  if 2 ≤ leader.version then
    if leader.lastTxnID < s.lastTxnID then some .laterTxnID else none
  else if s.lastUUID ≠ leader.lastUUID then some .differentLeaderUUID
  else match getTxnIDFromGTIDStr s.lastGTID s.lastUUID,
      getTxnIDFromGTIDStr leader.lastGTID leader.lastUUID with
    | .ok myTxnID, .ok latestTxnID => if latestTxnID < myTxnID then some .laterGTID else none
    | _, _ => some .extractTxnID

/-- `preWatch` loads the log only when the server remembers no UUID. -/
def loadLogIfUnknown (s : Server) (reports : Reports) (leader : Leader) : Option Server :=
  if s.lastUUID = "" then
    (reports.choose (isPreviousMaster s leader)).map (loadLog s)
  else some s

/-- `server.go::preWatch` up to the deferred `persistMyTerm`, which runs exactly
when the error is `none`. -/
def preWatch (s : Server) (reports : Reports) (leader : Leader) :
    Server × Option PreWatchError :=
  if s.term = 0 then ({ s with term := leader.leaderMeta.term }, none)
  else if s.term < leader.leaderMeta.term - 1 then (s, some .behindMoreThanOneTerm)
  else if s.term = leader.leaderMeta.term then (s, none)
  else match loadLogIfUnknown s reports leader with
    | none => (s, some .loadLog)
    | some s =>
      match checkLogIndex s leader.leaderMeta with
      | some error => (s, some error)
      | none =>
        if s.term = leader.leaderMeta.term - 1 then
          ({ s with term := leader.leaderMeta.term }, none)
        else (s, none)

/-- The log that `preWatch` loads is all it changes, the term apart. -/
theorem loadLogIfUnknown_some {s loaded : Server} {reports : Reports} {leader : Leader}
    (known : loadLogIfUnknown s reports leader = some loaded) :
    loaded = s ∨ ∃ info, loaded = loadLog s info := by
  unfold loadLogIfUnknown at known
  split at known
  · obtain ⟨info, _, rfl⟩ := Option.map_eq_some_iff.mp known
    exact .inr ⟨info, rfl⟩
  · cases known
    exact .inl rfl

theorem preWatch_fst (s : Server) (reports : Reports) (leader : Leader) :
    ∃ loaded, (loaded = s ∨ ∃ info, loaded = loadLog s info) ∧
      ((preWatch s reports leader).1 = loaded ∨
        (preWatch s reports leader).1 = { loaded with term := leader.leaderMeta.term }) := by
  unfold preWatch
  split
  · exact ⟨s, .inl rfl, .inr rfl⟩
  · split
    · exact ⟨s, .inl rfl, .inl rfl⟩
    · split
      · exact ⟨s, .inl rfl, .inl rfl⟩
      · split
        · exact ⟨s, .inl rfl, .inl rfl⟩
        · rename_i loaded known
          refine ⟨loaded, loadLogIfUnknown_some known, ?_⟩
          split
          · exact .inl rfl
          · split
            · exact .inr rfl
            · exact .inl rfl

end Moha.Election
