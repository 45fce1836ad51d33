import Moha.LeaderLoop
import Moha.Runs

/-! One agent and its leader leases on a clock: `agent/leader.go` from
`campaignLeader` and `resumeLeader` to `keepLeaderAliveLoop`,
`updateLeaseExpireTS` and `leaseExpireMonitorLoop`. The agent moves by the
functions of the leader loop. What etcd and the other nodes do is left open, but
for the leases: etcd processes a grant, a transaction or a renewal at one time
and its answer arrives at another. Timers fire on time, so the clock waits for
every goroutine that is ready. -/
namespace Moha.LeaseClock
open KeyValueStore LeaderRecord Election LeaderLoop Runs

/-- Seconds on the clock, which counts nanoseconds since the Unix epoch. -/
def seconds (n : Nat) : Nat := n * 1000000000

/-- The timeout of `KeepAliveOnce`. -/
def keepAliveTimeout : Nat := 100000000

/-- A lease in etcd: when its grant was processed, and when it expires. -/
structure Lease where
  granted : Nat
  deadline : Nat
  deriving DecidableEq, Repr

/-- A `leaseExpireMonitorLoop` goroutine in its `select`. -/
structure Monitor where
  wake : Nat
  waiting : Option Nat
  deriving DecidableEq, Repr

/-- A `KeepAliveOnce` call: when it was made, and when etcd renewed the lease. -/
structure Attempt where
  since : Nat
  processed : Option Nat
  deriving DecidableEq, Repr

/-- What etcd has processed for the leader loop, with the answer on its way. -/
inductive Flight where
  | grant (lease : LeaseID)
  | txn (succeeded : Bool)
  deriving DecidableEq, Repr

structure State where
  agent : Agent
  now : Nat
  leases : LeaseID → Option Lease := fun _ => none
  flight : Option Flight := none
  leaseExpireTS : Int := 0
  /-- The most recent leader lease the agent obtained. -/
  obtained : Option LeaseID := none
  monitors : List Monitor := []
  attempts : LeaseID → Option Attempt := fun _ => none
  /-- When the service of a process that has exited is stopped at the latest. -/
  stopBy : Option Nat := none

/-- Nothing runs and no lease is granted. -/
def init (id : NodeID) (cfg : Config) (now : Nat) : State where
  agent := { server := { id := id, cfg := cfg } }
  now := now

/-- `leader.go::updateLeaseExpireTS`: Unix seconds, rounded down. -/
def updateLeaseExpireTS (cfg : Config) (now : Nat) : Int :=
  ((now : Int) + seconds cfg.leaderLeaseTTL - seconds cfg.shutdownThreshold) / 1000000000

/-- The lease whose leader transaction the loop has at etcd. -/
def txnLease : Loop → Option LeaseID
  | .resumeTxn lease | .campaignTxn lease => some lease
  | _ => none

/-- The process exits, by `forceClose` or otherwise: its service is stopped within
the threshold less two seconds. -/
def State.exit (cfg : Config) (t : State) (agent : Agent) : State :=
  { t with
    agent := agent.stopped
    flight := none
    monitors := []
    stopBy := some (t.now + seconds (cfg.shutdownThreshold - 2)) }

def State.proceed (cfg : Config) (t : State) : Next → State
  | .continues agent => { t with agent := agent }
  | .exits agent => t.exit cfg agent

/-- The clock may go on: no timer of the process is due before, none of its
goroutines is ready, and no service is to be stopped. -/
def State.calm (t : State) (duration : Nat) : Bool :=
  if t.agent.running then
    t.monitors.all (fun monitor =>
      !t.agent.released monitor.waiting && decide (t.now + duration ≤ monitor.wake)) &&
    t.agent.keepAlives.all fun held => !t.agent.released held.waiting
  else !t.agent.writable || t.stopBy.all fun stop => decide (t.now + duration ≤ stop)

inductive Event where
  | elapse (duration : Nat)
  | start (uuid : String)
  | serviceStop
  | report (reports : Reports)
  | call (etcd : Etcd) (nodes : List NodeID) (call : Call)
  | reply (revision : Nat) (reply : Reply)
  | grantProcessed (lease : LeaseID)
  | grantReceived
  | txnProcessed (succeeded : Bool)
  | txnReceived (revision : Nat)
  | txnLost (revision : Nat)
  | keepAliveTick (lease : LeaseID)
  | keepAliveRetry (lease : LeaseID)
  | renewProcessed (lease : LeaseID)
  | keepAliveRenewed (lease : LeaseID)
  | monitorFires (monitor : Monitor)
  | monitorExits (monitor : Monitor)

/-- The calls of the process whose time and answer the clock does not look at. -/
def untimed : Call → Bool
  | .keepAliveTick _ | .keepAliveRenewed _ => false
  | _ => true

/-- One call of the agent. -/
def State.move (cfg : Config) (t : State) (etcd : Etcd) (nodes : List NodeID) (call : Call) :
    Option State :=
  if t.agent.running then (t.agent.move etcd nodes call).map (t.proceed cfg) else none

/-- The answer of a leader transaction. With a success the loop has the lease:
the local deadline is set, and the keep-alive goroutine starts the monitor, whose
timer fires at once. -/
def State.receive (cfg : Config) (t : State) (lease : LeaseID) (revision : Nat)
    (succeeded : Bool) : State :=
  let agent := t.agent.afterRequest revision (.done succeeded)
  if succeeded then
    { t with
      agent := agent
      flight := none
      leaseExpireTS := updateLeaseExpireTS cfg t.now
      obtained := some lease
      monitors := ⟨t.now, agent.leaderStopCh⟩ :: t.monitors }
  else { t with agent := agent, flight := none }

/-- `leader.go::leaseExpireMonitorLoop` when its timer fires. -/
def State.fire (cfg : Config) (t : State) (monitor : Monitor) : State :=
  let delta := t.leaseExpireTS - (t.now : Int) / 1000000000
  if delta ≤ 0 then t.exit cfg t.agent
  else { t with
    monitors := ⟨t.now + seconds delta.toNat, t.agent.leaderStopCh⟩ :: t.monitors.erase monitor }

/-- A step on the clock; `none` when the event is not enabled. -/
def step (cfg : Config) (t : State) : Event → Option State
  | .elapse duration => if t.calm duration then some { t with now := t.now + duration } else none
  | .start uuid =>
    if t.agent.running then none
    else some { t with
      agent := t.agent.started uuid, flight := none, leaseExpireTS := 0, monitors := [] }
  | .serviceStop =>
    if t.agent.running then none
    else some { t with agent := { t.agent with writable := false } }
  | .report reports => some { t with agent := { t.agent with reports := reports } }
  | .call etcd nodes call =>
    if untimed call then
      (t.move cfg etcd nodes call).map fun after =>
        { after with flight := if call = .grantLost then none else after.flight }
    else none
  | .reply revision reply =>
    if t.agent.running ∧ t.agent.pending.isSome ∧ txnLease t.agent.loop = none then
      some { t with agent := t.agent.afterRequest revision reply }
    else none
  | .grantProcessed lease =>
    if t.agent.running ∧ (t.agent.loop = .resumeGrant ∨ t.agent.loop = .campaignGrant) ∧
        t.flight = none ∧ t.leases lease = none then
      some { t with
        leases := Function.update t.leases lease
          (some ⟨t.now, t.now + seconds cfg.leaderLeaseTTL⟩)
        flight := some (.grant lease) }
    else none
  | .grantReceived =>
    match t.flight with
    | some (.grant lease) =>
      if t.agent.running then
        (t.agent.afterGrant lease).map fun agent => { t with agent := agent, flight := none }
      else none
    | _ => none
  | .txnProcessed succeeded =>
    match txnLease t.agent.loop, t.flight with
    | some lease, none =>
      -- a transaction with an expired lease fails
      if t.agent.running ∧ (succeeded → (t.leases lease).any fun held => t.now < held.deadline) then
        some { t with flight := some (.txn succeeded) }
      else none
    | _, _ => none
  | .txnReceived revision =>
    match txnLease t.agent.loop, t.flight with
    | some lease, some (.txn succeeded) =>
      if t.agent.running then some (t.receive cfg lease revision succeeded) else none
    | _, _ => none
  | .txnLost revision =>
    if t.agent.running ∧ (txnLease t.agent.loop).isSome then
      some { t with agent := t.agent.afterRequest revision .error, flight := none }
    else none
  | .keepAliveTick lease =>
    (t.move cfg .empty [] (.keepAliveTick lease)).map fun after =>
      { after with attempts := Function.update t.attempts lease (some ⟨t.now, none⟩) }
  | .keepAliveRetry lease =>
    if t.agent.running ∧
        t.agent.keepAlives.any (fun held => held.lease == lease && held.waiting.isNone) then
      some { t with attempts := Function.update t.attempts lease (some ⟨t.now, none⟩) }
    else none
  | .renewProcessed lease =>
    match t.leases lease, t.attempts lease with
    | some held, some attempt =>
      if t.now < held.deadline then
        some { t with
          leases := Function.update t.leases lease
            (some { held with deadline := t.now + seconds cfg.leaderLeaseTTL })
          attempts := Function.update t.attempts lease
            (some { attempt with processed := some t.now }) }
      else none
    | _, _ => none
  | .keepAliveRenewed lease =>
    match t.attempts lease with
    | some ⟨since, some _⟩ =>
      if t.now ≤ since + keepAliveTimeout then
        (t.move cfg .empty [] (.keepAliveRenewed lease)).map fun after =>
          { after with leaseExpireTS := updateLeaseExpireTS cfg t.now }
      else none
    | _ => none
  | .monitorFires monitor =>
    if t.agent.running ∧ monitor ∈ t.monitors ∧ monitor.wake ≤ t.now then
      some (t.fire cfg monitor)
    else none
  | .monitorExits monitor =>
    if t.agent.running ∧ monitor ∈ t.monitors ∧ t.agent.released monitor.waiting then
      some { t with monitors := t.monitors.erase monitor }
    else none

/-! ### What a step does -/

/-- The steps on the clock, event by event, with what was seen when they were taken. -/
inductive Taken (cfg : Config) (t : State) : Event → State → Prop where
  | elapse {duration : Nat} (calm : t.calm duration = true) :
      Taken cfg t (.elapse duration) { t with now := t.now + duration }
  | start {uuid : String} (stopped : t.agent.running = false) :
      Taken cfg t (.start uuid) { t with
        agent := t.agent.started uuid, flight := none, leaseExpireTS := 0, monitors := [] }
  | serviceStop (stopped : t.agent.running = false) :
      Taken cfg t .serviceStop { t with agent := { t.agent with writable := false } }
  | report {reports : Reports} :
      Taken cfg t (.report reports) { t with agent := { t.agent with reports := reports } }
  | call {etcd : Etcd} {nodes : List NodeID} {call : Call} {next : Next}
      (running : t.agent.running = true) (free : untimed call = true)
      (called : t.agent.move etcd nodes call = some next) :
      Taken cfg t (.call etcd nodes call) { t.proceed cfg next with
        flight := if call = .grantLost then none else (t.proceed cfg next).flight }
  | reply {revision : Nat} {reply : Reply} (other : txnLease t.agent.loop = none) :
      Taken cfg t (.reply revision reply) { t with agent := t.agent.afterRequest revision reply }
  | grantProcessed {lease : LeaseID}
      (granting : t.agent.loop = .resumeGrant ∨ t.agent.loop = .campaignGrant)
      (fresh : t.leases lease = none) :
      Taken cfg t (.grantProcessed lease) { t with
        leases := Function.update t.leases lease
          (some ⟨t.now, t.now + seconds cfg.leaderLeaseTTL⟩)
        flight := some (.grant lease) }
  | grantReceived {lease : LeaseID} {agent : Agent} (flight : t.flight = some (.grant lease))
      (granted : t.agent.afterGrant lease = some agent) :
      Taken cfg t .grantReceived { t with agent := agent, flight := none }
  | txnProcessed {succeeded : Bool} :
      Taken cfg t (.txnProcessed succeeded) { t with flight := some (.txn succeeded) }
  | txnReceived {revision : Nat} {lease : LeaseID} {succeeded : Bool}
      (running : t.agent.running = true) (waits : txnLease t.agent.loop = some lease)
      (flight : t.flight = some (.txn succeeded)) :
      Taken cfg t (.txnReceived revision) (t.receive cfg lease revision succeeded)
  | txnLost {revision : Nat} {lease : LeaseID} (waits : txnLease t.agent.loop = some lease) :
      Taken cfg t (.txnLost revision)
        { t with agent := t.agent.afterRequest revision .error, flight := none }
  | keepAliveTick {lease : LeaseID} {next : Next} (running : t.agent.running = true)
      (called : t.agent.move .empty [] (.keepAliveTick lease) = some next) :
      Taken cfg t (.keepAliveTick lease) { t.proceed cfg next with
        attempts := Function.update t.attempts lease (some ⟨t.now, none⟩) }
  | keepAliveRetry {lease : LeaseID} :
      Taken cfg t (.keepAliveRetry lease)
        { t with attempts := Function.update t.attempts lease (some ⟨t.now, none⟩) }
  | renewProcessed {lease : LeaseID} {held : Lease} {attempt : Attempt}
      (leased : t.leases lease = some held) (attempts : t.attempts lease = some attempt) :
      Taken cfg t (.renewProcessed lease) { t with
        leases := Function.update t.leases lease
          (some { held with deadline := t.now + seconds cfg.leaderLeaseTTL })
        attempts := Function.update t.attempts lease
          (some { attempt with processed := some t.now }) }
  | keepAliveRenewed {lease : LeaseID} {since processed : Nat} {next : Next}
      (attempt : t.attempts lease = some ⟨since, some processed⟩)
      (answered : t.now ≤ since + keepAliveTimeout) (running : t.agent.running = true)
      (called : t.agent.move .empty [] (.keepAliveRenewed lease) = some next) :
      Taken cfg t (.keepAliveRenewed lease)
        { t.proceed cfg next with leaseExpireTS := updateLeaseExpireTS cfg t.now }
  | monitorFires {monitor : Monitor} (running : t.agent.running = true)
      (due : monitor.wake ≤ t.now) : Taken cfg t (.monitorFires monitor) (t.fire cfg monitor)
  | monitorExits {monitor : Monitor} (released : t.agent.released monitor.waiting = true) :
      Taken cfg t (.monitorExits monitor) { t with monitors := t.monitors.erase monitor }

theorem called_of_move {cfg : Config} {t t' : State} {etcd : Etcd} {nodes : List NodeID}
    {call : Call} (moved : t.move cfg etcd nodes call = some t') :
    t.agent.running = true ∧
      ∃ next, t.agent.move etcd nodes call = some next ∧ t' = t.proceed cfg next := by
  obtain ⟨running, moved⟩ := Option.ite_none_right_eq_some.mp moved
  obtain ⟨next, called, rfl⟩ := Option.map_eq_some_iff.mp moved
  exact ⟨running, next, called, rfl⟩

theorem taken_of_step {cfg : Config} {t t' : State} {event : Event}
    (taken : step cfg t event = some t') : Taken cfg t event t' := by
  cases event <;> simp only [step] at taken
  case report =>
    cases taken
    exact .report
  case start =>
    obtain ⟨enabled, equal⟩ := Option.ite_none_left_eq_some.mp taken
    cases equal
    exact .start (by simpa using enabled)
  case serviceStop =>
    obtain ⟨enabled, equal⟩ := Option.ite_none_left_eq_some.mp taken
    cases equal
    exact .serviceStop (by simpa using enabled)
  case elapse =>
    obtain ⟨enabled, equal⟩ := Option.ite_none_right_eq_some.mp taken
    cases equal
    exact .elapse enabled
  case reply =>
    obtain ⟨enabled, equal⟩ := Option.ite_none_right_eq_some.mp taken
    cases equal
    exact .reply enabled.2.2
  case grantProcessed =>
    obtain ⟨enabled, equal⟩ := Option.ite_none_right_eq_some.mp taken
    cases equal
    exact .grantProcessed enabled.2.1 enabled.2.2.2
  case txnLost =>
    obtain ⟨enabled, equal⟩ := Option.ite_none_right_eq_some.mp taken
    cases equal
    obtain ⟨lease, waits⟩ := Option.isSome_iff_exists.mp enabled.2
    exact .txnLost waits
  case keepAliveRetry =>
    obtain ⟨-, equal⟩ := Option.ite_none_right_eq_some.mp taken
    cases equal
    exact .keepAliveRetry
  case monitorFires =>
    obtain ⟨enabled, equal⟩ := Option.ite_none_right_eq_some.mp taken
    cases equal
    exact .monitorFires enabled.1 enabled.2.2
  case monitorExits =>
    obtain ⟨enabled, equal⟩ := Option.ite_none_right_eq_some.mp taken
    cases equal
    exact .monitorExits enabled.2.2
  case call =>
    obtain ⟨free, mapped⟩ := Option.ite_none_right_eq_some.mp taken
    obtain ⟨after, moved, rfl⟩ := Option.map_eq_some_iff.mp mapped
    obtain ⟨running, next, called, rfl⟩ := called_of_move moved
    exact .call running free called
  case grantReceived =>
    split at taken <;> try contradiction
    rename_i flight
    obtain ⟨-, mapped⟩ := Option.ite_none_right_eq_some.mp taken
    obtain ⟨agent, granted, rfl⟩ := Option.map_eq_some_iff.mp mapped
    exact .grantReceived flight granted
  case txnProcessed =>
    split at taken <;> try contradiction
    obtain ⟨-, equal⟩ := Option.ite_none_right_eq_some.mp taken
    cases equal
    exact .txnProcessed
  case txnReceived =>
    split at taken <;> try contradiction
    rename_i waits flight
    obtain ⟨running, equal⟩ := Option.ite_none_right_eq_some.mp taken
    cases equal
    exact .txnReceived running waits flight
  case keepAliveTick =>
    obtain ⟨after, moved, rfl⟩ := Option.map_eq_some_iff.mp taken
    obtain ⟨running, next, called, rfl⟩ := called_of_move moved
    exact .keepAliveTick running called
  case renewProcessed =>
    split at taken <;> try contradiction
    rename_i leased attempts
    obtain ⟨-, equal⟩ := Option.ite_none_right_eq_some.mp taken
    cases equal
    exact .renewProcessed leased attempts
  case keepAliveRenewed =>
    split at taken <;> try contradiction
    rename_i attempt
    obtain ⟨answered, mapped⟩ := Option.ite_none_right_eq_some.mp taken
    obtain ⟨after, moved, rfl⟩ := Option.map_eq_some_iff.mp mapped
    obtain ⟨running, next, called, rfl⟩ := called_of_move moved
    exact .keepAliveRenewed attempt answered running called

end Moha.LeaseClock
