import Moha.Election

/-! One node: the agent process with its `leaderLoop`, its keep-alive goroutines
and its HTTP handlers, and the database service it manages. The loop and the
handlers are cut at their calls to etcd and to the service manager: a position
names the call that is waited for, and the functions below say where its
outcome leads. -/
namespace Moha.LeaderLoop
open KeyValueStore LeaderRecord Election

/-- How a leadership is held. -/
inductive Tenure where
  | lease (id : LeaseID)
  | singlePoint
  deriving DecidableEq, Repr

/-- The call an agent's `leaderLoop` is waiting for, with the local variables
that outlive it. -/
inductive Loop where
  | getLeader
  | resumeGrant
  | resumeTxn (lease : LeaseID)
  | resumeReadWrite (lease : LeaseID)
  | resumeReadOnly
  | preWatch (leader : Leader)
  | persistMyTerm (leader : Leader)
  | nodeStatus (leader : Leader)
  | redirectMaster (leader : Leader) (retry : Nat)
  | watchLeader (leader : Leader) (fallback : Bool)
  | upload (isFormerMaster : Bool)
  | uploadPut (log : LogForElection)
  | download
  | campaignGrant
  | campaignTxn (lease : LeaseID)
  | campaignCleanup (issued : Nat)
  | singlePointTxn (resume : Bool)
  | promoteToMaster (tenure : Tenure)
  | uploadPromotion (tenure : Tenure)
  | uploadPromotionPut (tenure : Tenure) (position : Position)
  | promoteReadWrite (tenure : Tenure)
  | promoteFailed
  | barrier (lease : LeaseID)
  | singlePointFailed
  | waitUntilSlaveAppears
  | singlePointReadOnly
  | removeSPM
  | closing
  | returned
  deriving DecidableEq, Repr

/-- The call an HTTP handler of `agent/http.go` is waiting for, after its
`amILeader` check has passed. -/
inductive Handler where
  | changeMasterReadOnly
  | changeMasterDelete (issued : Nat)
  | changeMasterStop
  | setReadOnlyManually
  | rollbackReadOnly
  | setReadWrite
  deriving DecidableEq, Repr

/-- A `keepLeaderAliveLoop` goroutine: the lease it renews, and the stop channel
its `select` waits on, or `none` inside `KeepAliveOnce`. -/
structure KeepAlive where
  lease : LeaseID
  waiting : Option Nat
  deriving DecidableEq, Repr

/-- One node: the agent process, its goroutines, and the database service. `running` is from
the start of `leaderLoop` to the end of the process. The stop channels are numbered in the
order they are made. -/
structure Agent where
  server : Server
  running : Bool := false
  writable : Bool := false
  reports : Reports := {}
  loop : Loop := .returned
  handlers : List Handler := []
  keepAlives : List KeepAlive := []
  leaderStopCh : Option Nat := none
  closedChs : List Nat := []
  madeChs : Nat := 0
  deriving DecidableEq, Repr

/-- What became of a service-manager call: a failed call may have taken effect
all the same. -/
inductive Outcome where
  | ok
  | failed
  | failedAfterEffect
  deriving DecidableEq, Repr

/-- What `SetReadOnlyManually` did before it returned or rolled back. -/
inductive ManualOutcome where
  | refused
  | readOnly
  | rollback (setReadOnly : Outcome)
  deriving DecidableEq, Repr

inductive HttpRequest where
  | changeMaster
  | setReadOnly
  | setReadWrite
  deriving DecidableEq, Repr

/-! ### One agent -/

/-- The request an agent's loop has at etcd. -/
def Agent.pending (agent : Agent) : Option Request :=
  match agent.loop with
  | .resumeTxn lease => some (.resumeLeader agent.server lease)
  | .campaignTxn lease => some (.campaignLeader agent.server lease)
  | .campaignCleanup issued => some (.deleteLeaderKey agent.server.id issued)
  | .singlePointTxn true => some (.resumeLeaderAsSinglePoint agent.server)
  | .singlePointTxn false => some (.campaignLeaderAsSinglePoint agent.server)
  | .persistMyTerm _ => some (.persistMyTerm agent.server)
  | .uploadPut log => some (.uploadLogForElection agent.server.id log)
  | .uploadPromotionPut _ position => some (.uploadPromotionBinlog agent.server position)
  | .removeSPM => some (.removeSPM agent.server.id)
  | _ => none

def Handler.request (id : NodeID) : Handler → Option Request
  | .changeMasterDelete issued => some (.deleteLeaderKey id issued)
  | _ => none

/-- Every request the process has at etcd. -/
def Agent.outstanding (agent : Agent) : List Request :=
  agent.pending.toList ++ agent.handlers.filterMap (Handler.request agent.server.id)

def Agent.setReadWrite (agent : Agent) (outcome : Outcome) : Agent :=
  if outcome = .failed then agent else { agent with writable := true }

def Agent.setReadOnly (agent : Agent) (outcome : Outcome) : Agent :=
  if outcome = .failed then agent else { agent with writable := false }

theorem Agent.writable_of_setReadOnly {agent : Agent} {outcome : Outcome}
    (writable : (agent.setReadOnly outcome).writable = true) : agent.writable = true := by
  unfold Agent.setReadOnly at writable
  split at writable
  · exact writable
  · cases writable

/-- `close(s.leaderStopCh)`; `none` is the panic on a nil or closed channel. -/
def Agent.closeStopCh (agent : Agent) : Option Agent :=
  match agent.leaderStopCh with
  | none => none
  | some ch =>
    if ch ∈ agent.closedChs then none
    else some { agent with closedChs := ch :: agent.closedChs }

/-- The loop closes the stop channel and starts over; a panic there is caught by
the deferred function of `leaderLoop`, which closes the server. -/
def Agent.closeStopChAndLoop (agent : Agent) : Agent :=
  match agent.closeStopCh with
  | none => { agent with loop := .closing }
  | some agent => { agent with loop := .getLeader }

/-- A `select` on the stop channel goes on to return: the channel is closed, or
the context of the server is done. -/
def Agent.released (agent : Agent) (waiting : Option Nat) : Bool :=
  waiting.any fun ch => agent.server.isClosed || agent.closedChs.contains ch

/-- A fresh stop channel and a keep-alive goroutine for the lease. -/
def Agent.keepLeaderAlive (agent : Agent) (lease : LeaseID) : Agent :=
  { agent with
    leaderStopCh := some agent.madeChs
    madeChs := agent.madeChs + 1
    keepAlives := ⟨lease, some agent.madeChs⟩ :: agent.keepAlives }

/-- `server.go::promoteToMaster` up to its first call: a node that is still
flagged as leader goes straight to `SetReadWrite`. -/
def Agent.promote (agent : Agent) (tenure : Tenure) : Agent :=
  if agent.server.isLeader then { agent with loop := .promoteReadWrite tenure }
  else { agent with
    server := { agent.server with isLeader := true }, loop := .promoteToMaster tenure }

/-- `leaderLoop` from the answer of `getLeaderAndMyTerm` to its next call. -/
def Agent.afterRead (agent : Agent) (leader : Leader) (myTerm : UInt64) : Agent :=
  let s := { agent.server with term := myTerm }
  if leader.name ≠ "" then
    if s.isSameLeader leader.name then
      let s := { s with
        term := leader.leaderMeta.term
        lastGTID := leader.leaderMeta.lastGTID
        lastUUID := leader.leaderMeta.lastUUID
        lastTxnID := leader.leaderMeta.lastTxnID }
      if leader.spm = s.id then
        { agent with server := { s with isLeader := true }, loop := .singlePointTxn true }
      else { agent with server := s, loop := .resumeGrant }
    else { agent with server := s, loop := .preWatch leader }
  else if s.isOnlyFollow then { agent with server := s, loop := .getLeader }
  else if leader.leaderMeta.term ≠ 0 then
    { agent with server := s, loop := .upload (isPreviousMaster s leader) }
  else { agent with server := s, loop := .campaignGrant }

/-- `leaderLoop` after a failed read: a stored term that is not valid closes the
server, any other error is retried. -/
def Agent.afterReadError (agent : Agent) (notValid : Bool) : Agent :=
  if agent.server.isClosed then { agent with loop := .returned }
  else if notValid then { agent with loop := .closing }
  else { agent with loop := .getLeader }

/-- The loop after the answer, or the error, of the request it has at etcd.
`revision` is the revision at which a following removal is issued. -/
def Agent.afterRequest (agent : Agent) (revision : Nat) (reply : Reply) : Agent :=
  match agent.loop, reply with
  | .resumeTxn lease, .done true =>
    { agent.keepLeaderAlive lease with
      server := { agent.server with isLeader := true }, loop := .resumeReadWrite lease }
  | .resumeTxn _, _ => { agent with loop := .getLeader }
  | .campaignTxn lease, .done true =>
    { agent.keepLeaderAlive lease with
      server := { agent.server with term := agent.server.term + 1 } }.promote (.lease lease)
  | .campaignTxn _, .done false => { agent with loop := .getLeader }
  | .campaignTxn _, .error => { agent with loop := .campaignCleanup revision }
  | .campaignCleanup _, _ => { agent with loop := .getLeader }
  | .singlePointTxn _, .done true => agent.promote .singlePoint
  | .singlePointTxn _, .done false => { agent with loop := .getLeader }
  | .singlePointTxn resume, .error => { agent with loop := .singlePointTxn resume }
  | .persistMyTerm leader, _ => { agent with loop := .nodeStatus leader }
  | .uploadPut _, _ => { agent with loop := .download }
  | .uploadPromotionPut tenure _, _ => { agent with loop := .promoteReadWrite tenure }
  | .removeSPM, _ => { agent with loop := .getLeader }
  | _, _ => agent

/-- `<-keepLeaderAliveBarrier`: a keep-alive goroutine that has ended by now is not waited for. -/
def Agent.awaitKeepAlive (agent : Agent) (lease : LeaseID) : Loop :=
  if agent.keepAlives.any (·.lease == lease) then .barrier lease else .getLeader

theorem Agent.awaitKeepAlive_kept {agent : Agent} {lease : LeaseID}
    (kept : ∃ held ∈ agent.keepAlives, held.lease = lease) :
    agent.awaitKeepAlive lease = .barrier lease := by
  obtain ⟨held, member, same⟩ := kept
  exact if_pos (List.any_eq_true.mpr ⟨held, member, by simpa using same⟩)

theorem Agent.awaitKeepAlive_eq (agent : Agent) (lease : LeaseID) :
    agent.awaitKeepAlive lease = .barrier lease ∨ agent.awaitKeepAlive lease = .getLeader := by
  unfold Agent.awaitKeepAlive
  split
  · exact .inl rfl
  · exact .inr rfl

/-- An agent that goes on, or whose process exits. -/
inductive Next where
  | continues (agent : Agent)
  | exits (agent : Agent)

/-- `server.go::setServiceReadonlyOrShutdown`, followed by `continuation`. -/
def Agent.readOnlyOrShutdown (agent : Agent) (outcome : Outcome)
    (continuation : Agent → Agent) : Next :=
  if outcome = .ok then .continues (continuation (agent.setReadOnly outcome))
  else .exits (agent.setReadOnly outcome)

/-- The loop after the service-manager call it is waiting for. -/
def Agent.afterService (agent : Agent) (outcome : Outcome) : Option Next :=
  match agent.loop with
  | .resumeReadWrite lease =>
    some <| .continues { agent.setReadWrite outcome with
      loop := if outcome = .ok then agent.awaitKeepAlive lease else .resumeReadOnly }
  | .resumeReadOnly => some <| .continues (agent.setReadOnly outcome).closeStopChAndLoop
  | .promoteToMaster tenure => some <| .continues { agent with loop := .uploadPromotion tenure }
  | .promoteReadWrite (.lease lease) =>
    some <| .continues { agent.setReadWrite outcome with
      loop := if outcome = .ok then agent.awaitKeepAlive lease else .promoteFailed }
  | .promoteReadWrite .singlePoint =>
    if outcome = .ok then
      some <| .continues { agent.setReadWrite outcome with
        server := { agent.server with isSinglePointMaster := true }
        loop := .waitUntilSlaveAppears }
    else some <| .continues { agent.setReadWrite outcome with loop := .singlePointFailed }
  | .promoteFailed => some <| agent.readOnlyOrShutdown outcome Agent.closeStopChAndLoop
  | .singlePointFailed =>
    some <| .continues { agent.setReadOnly outcome with loop := .removeSPM }
  | .singlePointReadOnly =>
    if outcome = .ok then
      some <| .continues { agent.setReadOnly outcome with
        server := { agent.server with isSinglePointMaster := false }, loop := .removeSPM }
    else some <| .continues (agent.setReadOnly outcome)
  | _ => none

def Agent.dropHandler (agent : Agent) (index : Nat) : Agent :=
  { agent with handlers := agent.handlers.eraseIdx index }

def Agent.setHandler (agent : Agent) (index : Nat) (handler : Handler) : Agent :=
  { agent with handlers := agent.handlers.set index handler }

/-- A handler after the service-manager call it is waiting for. -/
def Agent.afterHandlerService (agent : Agent) (revision index : Nat) (outcome : Outcome) :
    Option Next :=
  match agent.handlers[index]? with
  | some .changeMasterReadOnly =>
    some <| agent.readOnlyOrShutdown outcome fun agent =>
      agent.setHandler index (.changeMasterDelete revision)
  | some .rollbackReadOnly | some .setReadWrite =>
    some <| .continues ((agent.setReadWrite outcome).dropHandler index)
  | _ => none

/-- `service_manager.go::SetReadOnlyManually` called by the handler. -/
def Agent.afterManual (agent : Agent) (index : Nat) (outcome : ManualOutcome) : Option Agent :=
  match agent.handlers[index]?, outcome with
  | some .setReadOnlyManually, .refused => some (agent.dropHandler index)
  | some .setReadOnlyManually, .readOnly => some ((agent.setReadOnly .ok).dropHandler index)
  | some .setReadOnlyManually, .rollback setReadOnly =>
    some ((agent.setReadOnly setReadOnly).setHandler index .rollbackReadOnly)
  | _, _ => none

/-- The handler that `agent/http.go` enters for a request; a node that is not
flagged as leader refuses it. -/
def Agent.accept (agent : Agent) (request : HttpRequest) : Agent :=
  if agent.server.isLeader then
    let handler := match request with
      | .changeMaster => .changeMasterReadOnly
      | .setReadOnly => .setReadOnlyManually
      | .setReadWrite => .setReadWrite
    { agent with handlers := agent.handlers ++ [handler] }
  else agent

/-- The deferred read-only of a keep-alive goroutine is skipped on a closed
server; its end releases the loop that waits for it. -/
def Agent.afterKeepAlive (agent : Agent) (lease : LeaseID) (outcome : Outcome) : Next :=
  let release (agent : Agent) : Agent :=
    { agent with
      keepAlives := agent.keepAlives.filter fun held => held.lease != lease
      loop := if agent.loop = .barrier lease then .getLeader else agent.loop }
  if agent.server.isClosed then .continues (release agent)
  else agent.readOnlyOrShutdown outcome release

/-- What a process leaves behind. -/
def Agent.stopped (agent : Agent) : Agent :=
  { agent with running := false, loop := .returned, handlers := [], keepAlives := [] }

/-- `server.go::Start` of a new process at its call of `leaderLoop`: the memory is fresh, the
configuration is read again, and the service has been set read-only. Until then, while the
process only serves HTTP, the service is in the mode in which it was left or forked. -/
def Agent.started (agent : Agent) (uuid : String) : Agent where
  server := { id := agent.server.id, cfg := agent.server.cfg, uuid := uuid }
  running := true
  reports := agent.reports
  loop := .getLeader

def Next.after : Next → Agent
  | .continues agent => agent
  | .exits agent => agent.stopped

/-- The requests that an exit leaves at etcd. -/
def Next.abandoned : Next → List Request
  | .continues _ => []
  | .exits agent => agent.outstanding

/-- `leaderLoop` after a granted lease. -/
def Agent.afterGrant (agent : Agent) (lease : LeaseID) : Option Agent :=
  match agent.loop with
  | .resumeGrant => some { agent with loop := .resumeTxn lease }
  | .campaignGrant => some { agent with loop := .campaignTxn lease }
  | _ => none

/-! ### Calls

The calls of one process that leave etcd as it is, each with what it came back
with, and the moves of its environment: HTTP requests, signals and crashes. -/

inductive Call where
  | read
  | readLost
  | grantLost
  | service (outcome : Outcome)
  | preWatch
  | nodeStatus (found : Bool)
  | redirectMaster (redirected : Bool)
  | watchEnds (failed : Bool)
  | upload
  | download (order : List NodeID)
  | loadPromotion
  | slaveAppears
  | http (request : HttpRequest)
  | handlerService (index : Nat) (outcome : Outcome)
  | handlerManual (index : Nat) (outcome : ManualOutcome)
  | handlerStop (index : Nat)
  | keepAliveTick (lease : LeaseID)
  | keepAliveRenewed (lease : LeaseID)
  | keepAliveExit (lease : LeaseID) (outcome : Outcome)
  | close (outcome : Outcome)
  | shutdown
  | crash
  | setOnlyFollow (onlyFollow : Bool)
  deriving DecidableEq, Repr

/-- The calls of the HTTP handlers. -/
def isHttp : Call → Bool
  | .http _ | .handlerService _ _ | .handlerManual _ _ | .handlerStop _ | .setOnlyFollow _ => true
  | _ => false

/-- The loop after a call that can only move it on, with its new server fields. -/
def Agent.advance (agent : Agent) (etcd : Etcd) (nodes : List NodeID) : Call → Option Agent
  | .read =>
    if agent.loop = .getLeader then
      match agent.server.getLeaderAndMyTerm etcd with
      | .error error => some (agent.afterReadError (error = .myTermNotValid))
      | .ok (leader, myTerm) => some (agent.afterRead leader myTerm)
    else none
  | .readLost => if agent.loop = .getLeader then some (agent.afterReadError false) else none
  | .grantLost =>
    match agent.loop with
    | .resumeGrant => some { agent with loop := .getLeader }
    | .campaignGrant => some { agent with loop := .campaignCleanup etcd.revision }
    | _ => none
  | .preWatch =>
    match agent.loop with
    | .preWatch leader =>
      let (server, error) := Election.preWatch agent.server agent.reports leader
      some { agent with
        server := server, loop := if error = none then .persistMyTerm leader else .closing }
    | _ => none
  | .nodeStatus found =>
    match agent.loop with
    | .nodeStatus leader =>
      if found then
        some { agent with
          server := { agent.server with isLeader := false }, loop := .redirectMaster leader 0 }
      else some { agent with loop := .getLeader }
    | _ => none
  | .redirectMaster redirected =>
    match agent.loop with
    | .redirectMaster leader retry =>
      if redirected then some { agent with loop := .watchLeader leader false }
      else if retry < 10 then some { agent with loop := .redirectMaster leader (retry + 1) }
      else some { agent with loop := .getLeader }
    | _ => none
  | .watchEnds failed =>
    match agent.loop with
    | .watchLeader leader fallback =>
      if failed ∧ fallback = false then some { agent with loop := .watchLeader leader true }
      else some { agent with loop := .getLeader }
    | _ => none
  | .upload =>
    match agent.loop with
    | .upload false =>
      let (server, log) := uploadLogForElectionAsSlave agent.server agent.reports
      some { agent with server := server, loop := .uploadPut log }
    | .upload true =>
      match uploadLogForElectionAsFormerMaster agent.server agent.reports with
      | none => some { agent with loop := .download }
      | some (server, log) => some { agent with server := server, loop := .uploadPut log }
    | _ => none
  | .download order =>
    -- a log that is not the latest only delays the campaign
    if agent.loop = .download ∧ order.isPerm nodes then
      let (_, isSinglePoint) := isLatestLog agent.server (getAllLogsForElection etcd order)
      some { agent with
        loop := if isSinglePoint then .singlePointTxn false else .campaignGrant }
    else none
  | .loadPromotion =>
    match agent.loop with
    | .uploadPromotion tenure =>
      match agent.reports.slaveStatus with
      | none => some { agent with loop := .promoteReadWrite tenure }
      | some position => some { agent with loop := .uploadPromotionPut tenure position }
    | _ => none
  | .slaveAppears =>
    if agent.loop = .waitUntilSlaveAppears then some { agent with loop := .singlePointReadOnly }
    else none
  | _ => none

/-- One call of the process. -/
def Agent.move (agent : Agent) (etcd : Etcd) (nodes : List NodeID) : Call → Option Next
  | .service outcome => agent.afterService outcome
  | .http request => some (.continues (agent.accept request))
  | .handlerService index outcome => agent.afterHandlerService etcd.revision index outcome
  | .handlerManual index outcome => (agent.afterManual index outcome).map .continues
  | .handlerStop index =>
    if agent.handlers[index]? = some .changeMasterStop then
      some (.continues ((agent.closeStopCh.getD agent).dropHandler index))
    else none
  | .keepAliveTick lease =>
    if agent.keepAlives.any fun held => held.lease == lease && held.waiting.isSome then
      some (.continues { agent with keepAlives := agent.keepAlives.map fun held =>
        if held.lease = lease then { held with waiting := none } else held })
    else none
  | .keepAliveRenewed lease =>
    if agent.keepAlives.any fun held => held.lease == lease && held.waiting.isNone then
      some (.continues { agent with keepAlives := agent.keepAlives.map fun held =>
        if held.lease = lease then { held with waiting := agent.leaderStopCh } else held })
    else none
  | .keepAliveExit lease outcome =>
    if agent.keepAlives.any (fun held => held.lease == lease && agent.released held.waiting) then
      some (agent.afterKeepAlive lease outcome)
    else none
  | .close outcome =>
    if agent.server.isClosed then none
    else some <| agent.readOnlyOrShutdown outcome fun agent =>
      { agent with server := { agent.server with isClosed := true } }
  | .shutdown => if agent.server.isClosed then some (.exits agent) else none
  | .crash => some (.exits agent)
  | .setOnlyFollow onlyFollow =>
    some (.continues { agent with server := { agent.server with onlyFollow := onlyFollow } })
  | call => (agent.advance etcd nodes call).map .continues

/-- What each call can do: the moves of the service manager, of the handlers, of the
keep-alives, of the process, and of the loop. -/
inductive Agent.Moves (agent : Agent) (etcd : Etcd) (nodes : List NodeID) : Call → Next → Prop where
  | service {outcome : Outcome} {next : Next} (served : agent.afterService outcome = some next) :
      agent.Moves etcd nodes (.service outcome) next
  | http (request : HttpRequest) :
      agent.Moves etcd nodes (.http request) (.continues (agent.accept request))
  | handlerService {index : Nat} {outcome : Outcome} {next : Next}
      (served : agent.afterHandlerService etcd.revision index outcome = some next) :
      agent.Moves etcd nodes (.handlerService index outcome) next
  | handlerManual {index : Nat} {outcome : ManualOutcome} {after : Agent}
      (manual : agent.afterManual index outcome = some after) :
      agent.Moves etcd nodes (.handlerManual index outcome) (.continues after)
  | handlerStop {index : Nat} (held : agent.handlers[index]? = some .changeMasterStop) :
      agent.Moves etcd nodes (.handlerStop index)
        (.continues ((agent.closeStopCh.getD agent).dropHandler index))
  | turn {call : Call} (lease : LeaseID) (waiting : Option Nat)
      (turns : call = .keepAliveTick lease ∧ waiting = none ∨
        call = .keepAliveRenewed lease ∧ waiting = agent.leaderStopCh) :
      agent.Moves etcd nodes call (.continues { agent with
        keepAlives := agent.keepAlives.map fun held =>
          if held.lease = lease then { held with waiting } else held })
  | keepAliveExit {lease : LeaseID} {outcome : Outcome}
      (exits : agent.keepAlives.any
        (fun held => held.lease == lease && agent.released held.waiting) = true) :
      agent.Moves etcd nodes (.keepAliveExit lease outcome) (agent.afterKeepAlive lease outcome)
  | close {outcome : Outcome} (isOpen : agent.server.isClosed = false) :
      agent.Moves etcd nodes (.close outcome) (agent.readOnlyOrShutdown outcome fun agent =>
        { agent with server := { agent.server with isClosed := true } })
  | exits {call : Call} (ends : call = .shutdown ∨ call = .crash) :
      agent.Moves etcd nodes call (.exits agent)
  | setOnlyFollow (onlyFollow : Bool) :
      agent.Moves etcd nodes (.setOnlyFollow onlyFollow)
        (.continues { agent with server := { agent.server with onlyFollow := onlyFollow } })
  | advance {call : Call} {after : Agent} (advanced : agent.advance etcd nodes call = some after) :
      agent.Moves etcd nodes call (.continues after)

theorem Agent.moves_of_move {agent : Agent} {etcd : Etcd} {nodes : List NodeID} {call : Call}
    {next : Next} (moved : agent.move etcd nodes call = some next) :
    agent.Moves etcd nodes call next := by
  cases call
  case service outcome => exact .service moved
  case http request =>
    cases moved
    exact .http request
  case handlerService index outcome => exact .handlerService moved
  case handlerManual index outcome =>
    obtain ⟨after, manual, rfl⟩ := Option.map_eq_some_iff.mp moved
    exact .handlerManual manual
  case handlerStop index =>
    simp only [Agent.move] at moved
    split at moved <;> cases moved
    rename_i held
    exact .handlerStop held
  case keepAliveTick lease =>
    simp only [Agent.move] at moved
    split at moved <;> cases moved
    exact .turn lease none (.inl ⟨rfl, rfl⟩)
  case keepAliveRenewed lease =>
    simp only [Agent.move] at moved
    split at moved <;> cases moved
    exact .turn lease agent.leaderStopCh (.inr ⟨rfl, rfl⟩)
  case keepAliveExit lease outcome =>
    simp only [Agent.move] at moved
    split at moved <;> cases moved
    rename_i exits
    exact .keepAliveExit exits
  case close outcome =>
    simp only [Agent.move] at moved
    split at moved <;> cases moved
    rename_i isOpen
    exact .close (by simpa using isOpen)
  case shutdown =>
    simp only [Agent.move] at moved
    split at moved <;> cases moved
    exact .exits (.inl rfl)
  case crash =>
    cases moved
    exact .exits (.inr rfl)
  case setOnlyFollow onlyFollow =>
    cases moved
    exact .setOnlyFollow onlyFollow
  all_goals
    obtain ⟨after, advanced, rfl⟩ := Option.map_eq_some_iff.mp moved
    exact .advance advanced

end Moha.LeaderLoop
