import Moha.KeyValueStore
import Moha.DecimalText

/-! The leader record in etcd: the keys of `agent/leader.go`,
`agent/single_point.go` and `agent/campaign.go` below the cluster root, the
server fields they are printed from, the transactions that write them, and
`getLeaderAndMyTerm`, which reads them back. Numbers are stored as the text
`fmt.Sprint` prints. Election logs and promotion positions are stored as the
records that `encoding/json` is taken to round-trip. -/
namespace Moha.LeaderRecord
open KeyValueStore DecimalText

abbrev NodeID := String

/-- `server.go::globalSchemaVersion`. -/
def globalSchemaVersion : UInt64 := 2

/-- `campaign.go::LogForElection`. -/
structure LogForElection where
  term : UInt64
  lastUUID : String
  lastGTID : String
  endTxnID : UInt64
  version : Int
  deriving DecidableEq, Repr

/-- `node.go::Position`. -/
structure Position where
  file : String
  pos : String
  gtid : String
  uuid : String
  endTxnID : UInt64
  slaveIORunning : Bool
  slaveSQLRunning : Bool
  secondsBehindMaster : Int
  deriving DecidableEq, Repr

/-- The keys, relative to the root path of the cluster. -/
inductive Key where
  | leaderPath
  | termPath
  | idPath
  | lastUUIDPath
  | lastGTIDPath
  | lastTxnIDPath
  | metaVersionPath
  | spmPath
  | myTermPath (id : NodeID)
  | nodesPath (id : NodeID)
  | switchPath (term : UInt64) (id : NodeID)
  deriving DecidableEq, Repr

inductive Value where
  | text (text : String)
  | electionLog (log : LogForElection)
  | position (position : Position)
  deriving DecidableEq, Repr

abbrev Etcd := Store Key Value

def number (n : UInt64) : Value := .text (sprint n)

def asText : Option (Entry Value) → Option String
  | some { value := .text stored, .. } => some stored
  | _ => none

/-- The text stored under a key. -/
def text (etcd : Etcd) (key : Key) : Option String := asText (etcd.entries key)

/-- The part of `Config` that `leaderLoop` reads. The durations are in seconds. -/
structure Config where
  onlyFollow : Bool
  leaderLeaseTTL : Nat
  shutdownThreshold : Nat
  deriving DecidableEq, Repr

/-- The memory of one agent process, `server.go::Server`, without the handles
and the stop channels. `id` is also the process-wide `leaderValue`. -/
structure Server where
  id : NodeID
  cfg : Config
  uuid : String := ""
  term : UInt64 := 0
  lastUUID : String := ""
  lastGTID : String := ""
  lastTxnID : UInt64 := 0
  isLeader : Bool := false
  isSinglePointMaster : Bool := false
  onlyFollow : Bool := false
  isClosed : Bool := false
  deriving DecidableEq, Repr

/-- `server.go::isOnlyFollow`. -/
def Server.isOnlyFollow (s : Server) : Bool := s.onlyFollow || s.cfg.onlyFollow

/-- `leader.go::LeaderMeta`. -/
structure LeaderMeta where
  name : String := ""
  term : UInt64 := 0
  lastUUID : String := ""
  lastGTID : String := ""
  lastTxnID : UInt64 := 0
  version : Int := 0
  deriving DecidableEq, Repr

/-- `leader.go::Leader`. -/
structure Leader where
  name : String := ""
  kv : Option (Entry Value) := none
  leaderMeta : LeaderMeta := {}
  spm : String := ""
  deriving DecidableEq, Repr

/-- `leader.go::isSameLeader`. -/
def Server.isSameLeader (s : Server) (leaderID : String) : Bool := leaderID == s.id

/-! ### Transactions -/

/-- `leader.go::leaderCmp`. -/
def Server.leaderCmp (s : Server) : Cmp Key Value := .value .leaderPath (.text s.id)

/-- The campaign guard: nobody holds the leader key. -/
def noLeaderCmp : Cmp Key Value := .createRevision .leaderPath 0

/-- `leader.go::leaderPutOps`: a negative lease ID puts the leader key and the
meta version without a lease. -/
def Server.leaderPutOps (s : Server) (leaseID : LeaseID) (term : UInt64) : List (Op Key Value) :=
  let lease := if leaseID < 0 then none else some leaseID
  [.put .leaderPath (.text s.id) lease,
    .put .termPath (number term) none,
    .put .idPath (.text s.id) none,
    .put .metaVersionPath (number globalSchemaVersion) lease,
    .put .lastTxnIDPath (number s.lastTxnID) none,
    .put .lastUUIDPath (.text s.lastUUID) none,
    .put .lastGTIDPath (.text s.lastGTID) none]

/-- `leader.go::myTermPutOps`: without `increment` the term put is zero. -/
def Server.myTermPutOps (s : Server) (increment : Bool) : List (Op Key Value) :=
  let term := if increment then s.term + 1 else 0
  [.put (.myTermPath s.id) (number term) none]

/-- `single_point.go::spmPutOps`. -/
def Server.spmPutOps (s : Server) : List (Op Key Value) := [.put .spmPath (.text s.id) none]

/-- The requests an agent, or the cleaner of its node, makes to etcd. The
removals carry the revision of etcd at which they were issued, which no code
reads. -/
inductive Request where
  | campaignLeader (s : Server) (lease : LeaseID)
  | resumeLeader (s : Server) (lease : LeaseID)
  | campaignLeaderAsSinglePoint (s : Server)
  | resumeLeaderAsSinglePoint (s : Server)
  | deleteLeaderKey (id : NodeID) (issued : Nat)
  | startClean (id : NodeID) (issued : Nat)
  | persistMyTerm (s : Server)
  | removeSPM (id : NodeID)
  | uploadLogForElection (id : NodeID) (log : LogForElection)
  | uploadPromotionBinlog (s : Server) (position : Position)
  deriving DecidableEq, Repr

/-- The server that runs for leader with the request. -/
def Request.campaigner : Request → Option Server
  | .campaignLeader s _ | .campaignLeaderAsSinglePoint s => some s
  | _ => none

/-- The server that resumes its leadership with the request. -/
def Request.resumer : Request → Option Server
  | .resumeLeader s _ | .resumeLeaderAsSinglePoint s => some s
  | _ => none

/-- The node whose leader key the request removes. -/
def Request.remover : Request → Option NodeID
  | .deleteLeaderKey id _ | .startClean id _ => some id
  | _ => none

/-- The request sets the single-point flag. -/
def Request.asSinglePoint : Request → Bool
  | .campaignLeaderAsSinglePoint _ | .resumeLeaderAsSinglePoint _ => true
  | _ => false

/-- The transaction each request commits: `leader.go`, `single_point.go`,
`cleaner.go` and `campaign.go`, with `Put` and `Delete` as unguarded ones. -/
def Request.txn : Request → Txn Key Value
  | .campaignLeader s lease =>
    ⟨[noLeaderCmp], s.leaderPutOps lease (s.term + 1) ++ s.myTermPutOps true⟩
  | .resumeLeader s lease => ⟨[s.leaderCmp], s.leaderPutOps lease s.term⟩
  | .campaignLeaderAsSinglePoint s =>
    ⟨[noLeaderCmp], s.leaderPutOps (-1) (s.term + 1) ++ s.myTermPutOps true ++ s.spmPutOps⟩
  | .resumeLeaderAsSinglePoint s =>
    ⟨[s.leaderCmp], s.leaderPutOps (-1) s.term ++ s.myTermPutOps false ++ s.spmPutOps⟩
  | .deleteLeaderKey id _ =>
    ⟨[.value .leaderPath (.text id)], [.delete .leaderPath, .delete .metaVersionPath]⟩
  | .startClean id _ => ⟨[.value .leaderPath (.text id)], [.delete .leaderPath]⟩
  | .persistMyTerm s => ⟨[], [.put (.myTermPath s.id) (number s.term) none]⟩
  | .removeSPM _ => ⟨[], [.delete .spmPath]⟩
  | .uploadLogForElection id log => ⟨[], [.put (.nodesPath id) (.electionLog log) none]⟩
  | .uploadPromotionBinlog s position =>
    ⟨[], [.put (.switchPath (s.term - 1) s.id) (.position position) none]⟩

/-! ### Reading the record -/

inductive ReadError where
  | termNotInteger
  | myTermNotValid
  deriving DecidableEq, Repr

def readTerm (etcd : Etcd) : Except ReadError UInt64 :=
  match text etcd .termPath with
  | none => .ok 0
  | some stored =>
    match atoi stored with
    | none => .error .termNotInteger
    | some term => .ok (UInt64.ofInt term)

def readMyTerm (id : NodeID) (etcd : Etcd) : Except ReadError UInt64 :=
  match text etcd (.myTermPath id) with
  | none => .ok 0
  | some stored =>
    match parseUint stored with
    | none => .error .myTermNotValid
    | some myTerm => .ok myTerm

/-- A meta version or transaction ID that does not parse is only logged and
stays zero. -/
def readLeader (etcd : Etcd) (term : UInt64) : Leader where
  name := (text etcd .leaderPath).getD ""
  kv := etcd.entries .leaderPath
  leaderMeta :=
    { name := (text etcd .idPath).getD ""
      term := term
      lastUUID := (text etcd .lastUUIDPath).getD ""
      lastGTID := (text etcd .lastGTIDPath).getD ""
      lastTxnID := ((text etcd .lastTxnIDPath).bind parseUint).getD 0
      version := ((text etcd .metaVersionPath).bind atoi).getD 0 }
  spm := (text etcd .spmPath).getD ""

/-- `leader.go::getLeaderAndMyTerm` on the answer of its transaction: a term
that does not parse ends it with an error. -/
def Server.getLeaderAndMyTerm (s : Server) (etcd : Etcd) :
    Except ReadError (Leader × UInt64) := do
  let term ← readTerm etcd
  let myTerm ← readMyTerm s.id etcd
  .ok (readLeader etcd term, myTerm)

theorem Server.getLeaderAndMyTerm_eq_ok {s : Server} {etcd : Etcd} {leader : Leader}
    {myTerm : UInt64} (read : s.getLeaderAndMyTerm etcd = .ok (leader, myTerm)) :
    ∃ term, readTerm etcd = .ok term ∧ readMyTerm s.id etcd = .ok myTerm ∧
      leader = readLeader etcd term := by
  simp only [Server.getLeaderAndMyTerm, bind, Except.bind] at read
  split at read
  · contradiction
  · rename_i term termRead
    split at read
    · contradiction
    · rename_i mine mineRead
      cases read
      exact ⟨term, termRead, mineRead, rfl⟩

end Moha.LeaderRecord
