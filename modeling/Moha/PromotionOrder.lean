import Moha.MysqlService
import Mathlib.Data.List.Chain

/-! `promoteToMaster` of `agent/server.go` with the MySQL service manager, as the worlds
it goes through: the memory of the agent, the service and etcd after each of its calls.
The errors of `STOP SLAVE` and of the upload are logged and dropped, and a node that is
still flagged as leader goes straight to `SetReadWrite`. -/
namespace Moha.PromotionOrder
open FallibleCalls KeyValueStore LeaderRecord MysqlService
open LeaderLoop (Outcome)

/-- `puts` are the revisions of the positions that promotions in the term that was won have put.
A single point master goes on with the term of its last promotion and with the same key, so
that the key alone does not tell them from older ones. -/
structure World where
  server : Server
  manager : Manager
  etcd : Etcd
  puts : List Nat

inductive PromotionError where
  | service (error : MysqlService.Error)
  | loadSlaveStatus
  | put
  deriving DecidableEq, Repr

/-- What comes from outside in one promotion: how `STOP SLAVE`, the loading and the
putting of the position and the two statements of `SetReadWrite` come back. -/
structure PromotionOutcomes where
  stop : Bool
  load : Option Position
  put : Outcome
  readWrite : ModeChange

/-- A call of the service manager. -/
def onManager (call : Call Manager MysqlService.Error) : Call World PromotionError := fun w =>
  let (manager, error) := call w.manager
  ({ w with manager := manager }, error.map .service)

/-- `server.go::setIsLeaderToTrue`. -/
def setIsLeaderToTrue : Call World PromotionError := fun w =>
  ({ w with server := { w.server with isLeader := true } }, none)

/-- `server.go::uploadPromotionBinlog`. -/
def uploadPromotionBinlog (load : Option Position) (put : Outcome) :
    Call World PromotionError := fun w =>
  match load with
  | none => (w, some .loadSlaveStatus)
  | some position =>
    let request := Request.uploadPromotionBinlog w.server position
    let etcd := (w.etcd.commit request.txn).1
    let stored := { w with etcd := etcd, puts := etcd.revision :: w.puts }
    match put with
    | .ok => (stored, none)
    | .failed => (w, some .put)
    | .failedAfterEffect => (stored, some .put)

/-- `server.go::promoteToMaster`. -/
def promoteToMaster (o : PromotionOutcomes) : Call (History World) PromotionError := fun history =>
  if history.now.server.isLeader then
    (onManager (Manager.setReadWrite o.readWrite)).recorded history
  else
    setIsLeaderToTrue.recorded.regardless
      ((onManager (Manager.promoteToMaster o.stop)).recorded.regardless
        ((uploadPromotionBinlog o.load o.put).recorded.regardless
          (onManager (Manager.setReadWrite o.readWrite)).recorded)) history

/-- The service accepts writes in the second world and not in the first. -/
def Opens (before after : World) : Prop :=
  before.manager.db.readOnly = true ∧ after.manager.db.readOnly = false

/-- A promotion position of the term that was won is under `switch/`. -/
def Stored (w : World) : Prop :=
  ∃ term entry position, w.etcd.entries (.switchPath term w.server.id) = some entry ∧
    entry.value = .position position ∧ entry.modRevision ∈ w.puts

/-- Replication is stopped and the position is stored. -/
def Promoted (w : World) : Prop := w.manager.db.running = false ∧ Stored w

/-- A promotion opens the service only in a world in which all that comes before is done. -/
def OpensPromoted (o : PromotionOutcomes) (w : World) : Prop :=
  let history := (promoteToMaster o ⟨w, []⟩).1
  (history.now :: history.past).IsChain fun after before => Opens before after → Promoted before

/-! ### The calls -/

section Calls
variable (w : World)

theorem opens_setReadWrite_iff (o : ModeChange) :
    Opens w (onManager (Manager.setReadWrite o) w).1 ↔
      w.manager.db.readOnly = true ∧ o.first = true := by
  simp only [Opens, onManager, setReadWrite_manager]
  refine and_congr_right fun readOnly => ?_
  simp [readOnly]

theorem running_promoteToMaster (stop : Bool) :
    (onManager (Manager.promoteToMaster stop) w).1.manager.db.running = false ↔
      stop = true ∨ w.manager.db.running = false := by
  simp only [onManager, promoteToMaster_manager]
  cases stop <;> simp

theorem readOnly_promoteToMaster (stop : Bool) :
    (onManager (Manager.promoteToMaster stop) w).1.manager.db.readOnly =
      w.manager.db.readOnly := by
  simp only [onManager, promoteToMaster_manager]

/-- The upload touches etcd only. -/
theorem uploadPromotionBinlog_kept (load : Option Position) (put : Outcome) :
    (uploadPromotionBinlog load put w).1.manager = w.manager ∧
      (uploadPromotionBinlog load put w).1.server = w.server := by
  cases load <;> cases put <;> exact ⟨rfl, rfl⟩

private theorem stored_of_put (position : Position) {etcd : Etcd}
    (put : etcd = (w.etcd.commit (Request.uploadPromotionBinlog w.server position).txn).1) :
    Stored { w with etcd := etcd, puts := etcd.revision :: w.puts } := by
  have written : etcd = w.etcd.write
      [.put (.switchPath (w.server.term - 1) w.server.id) (.position position) none] := by
    rw [put]
    simp [Request.txn, Store.commit, Op.leaseLive, Op.changes]
  subst written
  exact ⟨w.server.term - 1, _, position, Function.update_self .., rfl, List.mem_cons_self⟩

theorem stored_uploadPromotionBinlog (load : Option Position) (put : Outcome) :
    Stored (uploadPromotionBinlog load put w).1 ↔
      load.isSome = true ∧ put ≠ .failed ∨ Stored w := by
  cases load with
  | none => simp [uploadPromotionBinlog]
  | some position =>
    cases put <;> simp [uploadPromotionBinlog, stored_of_put w position rfl]

end Calls

/-! ### The promotion -/

/-- Only a change of `read_only` opens the service. -/
private theorem not_opens_of_kept {before after : World}
    (kept : after.manager.db.readOnly = before.manager.db.readOnly) : ¬ Opens before after := by
  rintro ⟨closed, opened⟩
  rw [kept, closed] at opened
  cases opened

/-- The world in which a node that was not flagged as leader calls `PromoteToMaster`. -/
def flagged (w : World) : World := (setIsLeaderToTrue w).1

/-- The world in which it uploads the position. -/
def stopped (o : PromotionOutcomes) (w : World) : World :=
  (onManager (Manager.promoteToMaster o.stop) (flagged w)).1

/-- The world in which it calls `SetReadWrite`. -/
def uploaded (o : PromotionOutcomes) (w : World) : World :=
  (uploadPromotionBinlog o.load o.put (stopped o w)).1

theorem readOnly_stopped (o : PromotionOutcomes) (w : World) :
    (stopped o w).manager.db.readOnly = w.manager.db.readOnly :=
  readOnly_promoteToMaster (flagged w) o.stop

theorem readOnly_uploaded (o : PromotionOutcomes) (w : World) :
    (uploaded o w).manager.db.readOnly = w.manager.db.readOnly := by
  unfold uploaded
  rw [(uploadPromotionBinlog_kept (stopped o w) o.load o.put).1, readOnly_stopped]

theorem promoted_uploaded_iff (o : PromotionOutcomes) (w : World) :
    Promoted (uploaded o w) ↔ (o.stop = true ∨ w.manager.db.running = false) ∧
      (o.load.isSome = true ∧ o.put ≠ .failed ∨ Stored w) := by
  unfold Promoted uploaded
  rw [(uploadPromotionBinlog_kept (stopped o w) o.load o.put).1, stored_uploadPromotionBinlog]
  exact and_congr (running_promoteToMaster (flagged w) o.stop) Iff.rfl

/-- A promotion opens the service only when it is complete, exactly if, whenever
`read_only` is turned off: a node that is still flagged as leader had stopped replication
and stored a position of this term before; any other node stops replication, or had, and loads
and puts the position, or had put one in this term. -/
theorem promoteToMaster_opens_iff (o : PromotionOutcomes) (w : World) :
    OpensPromoted o w ↔
      (w.manager.db.readOnly = true → o.readWrite.first = true →
        if w.server.isLeader then Promoted w
        else (o.stop = true ∨ w.manager.db.running = false) ∧
          (o.load.isSome = true ∧ o.put ≠ .failed ∨ Stored w)) := by
  unfold OpensPromoted promoteToMaster
  cases leads : w.server.isLeader with
  | true => simp [opens_setReadWrite_iff]
  | false =>
    have first : ¬ Opens w (flagged w) := not_opens_of_kept rfl
    have second : ¬ Opens (flagged w) (stopped o w) := not_opens_of_kept (readOnly_stopped o w)
    have third : ¬ Opens (stopped o w) (uploaded o w) :=
      not_opens_of_kept ((readOnly_uploaded o w).trans (readOnly_stopped o w).symm)
    have last : Opens (uploaded o w)
        (onManager (Manager.setReadWrite o.readWrite) (uploaded o w)).1 ↔
          w.manager.db.readOnly = true ∧ o.readWrite.first = true := by
      rw [opens_setReadWrite_iff, readOnly_uploaded]
    -- of the four calls only the last one can open the service
    show List.IsChain _ [(onManager (Manager.setReadWrite o.readWrite) (uploaded o w)).1,
      uploaded o w, stopped o w, flagged w, w] ↔ _
    simp [first, second, third, last, promoted_uploaded_iff]

/-- `STOP SLAVE` fails, the position cannot be loaded, and the service is opened all the
same, with replication running and nothing under `switch/`. -/
theorem promoteToMaster_opens_unpromoted :
    let w : World :=
      { server := { id := "n1", cfg := ⟨false, 10, 3⟩, term := 2 }
        manager := ⟨⟨true, true, ⟨"10.0.0.1", "3306"⟩, true⟩, true⟩
        etcd := Store.empty
        puts := [] }
    let history := (promoteToMaster ⟨false, none, .ok, ⟨true, true⟩⟩ ⟨w, []⟩).1
    history.now.manager.db.readOnly = false ∧
      ∀ before ∈ history.past, before.manager.db.readOnly = true ∧
        before.manager.db.running = true ∧ before.etcd.value (.switchPath 1 "n1") = none := by
  decide

/-! ### The promotion in the loop

`LeaderLoop` makes the calls of `promoteToMaster` one by one; the worlds above are those
that it goes through. -/

open LeaderLoop (Agent Tenure)

/-- The agent has the memory of the world and sees its service. -/
structure InWorld (agent : Agent) (w : World) : Prop where
  server : agent.server = w.server
  mirrors : Mirrors agent w.manager

section Loop
variable {agent : Agent} {w : World} {tenure : Tenure}

/-- A node that is still flagged goes straight to `SetReadWrite`. -/
theorem promote_flagged (inWorld : InWorld agent w) (flag : w.server.isLeader = true) :
    (agent.promote tenure).loop = .promoteReadWrite tenure ∧
      InWorld (agent.promote tenure) w := by
  have leads : agent.server.isLeader = true := by rw [inWorld.server, flag]
  simp only [Agent.promote, leads, if_true, true_and]
  exact ⟨inWorld.server, inWorld.mirrors⟩

/-- Any other node asks to stop replication, loads the position, puts it if it was loaded,
and then comes to `SetReadWrite` in the world that `promoteToMaster` does. -/
theorem promote_unflagged (inWorld : InWorld agent w) (flag : w.server.isLeader = false)
    {o : PromotionOutcomes} (loads : agent.reports.slaveStatus = o.load) (stop : Outcome)
    (etcd : Etcd) (nodes : List NodeID) (revision : Nat) (reply : Reply) :
    ∃ asked loaded ready, (agent.promote tenure).afterService stop = some (.continues asked) ∧
      asked.advance etcd nodes .loadPromotion = some loaded ∧
      (match o.load with
        | none => ready = loaded
        | some position =>
          loaded.pending = some (.uploadPromotionBinlog (stopped o w).server position) ∧
            ready = loaded.afterRequest revision reply) ∧
      ready.loop = .promoteReadWrite tenure ∧ InWorld ready (uploaded o w) := by
  have follows : agent.server.isLeader = false := by rw [inWorld.server, flag]
  have server : (uploaded o w).server = (flagged w).server :=
    (uploadPromotionBinlog_kept (stopped o w) o.load o.put).2
  have inUploaded : ∀ ready : Agent, ready.server = { agent.server with isLeader := true } →
      ready.writable = agent.writable → InWorld ready (uploaded o w) := by
    intro ready memory service
    constructor
    · rw [memory, server, inWorld.server]
      rfl
    · unfold Mirrors
      rw [service, readOnly_uploaded]
      exact inWorld.mirrors
  have asked : (agent.promote tenure).afterService stop = some (.continues { agent with
      server := { agent.server with isLeader := true }, loop := .uploadPromotion tenure }) := by
    simp [Agent.promote, follows, Agent.afterService]
  cases load : o.load with
  | none =>
    refine ⟨_, { agent with
      server := { agent.server with isLeader := true }, loop := .promoteReadWrite tenure }, _,
      asked, ?_, rfl, rfl, inUploaded _ rfl rfl⟩
    simp only [Agent.advance, loads, load]
  | some position =>
    refine ⟨_, { agent with
      server := { agent.server with isLeader := true }
      loop := .uploadPromotionPut tenure position }, _,
      asked, ?_, ⟨?_, rfl⟩, rfl, inUploaded _ rfl rfl⟩
    · simp only [Agent.advance, loads, load]
    · simp only [Agent.pending, inWorld.server]
      rfl

/-- `SetReadWrite` leaves the agent in step with the last world. -/
theorem openService_mirrors (inWorld : InWorld agent w)
    (ready : agent.loop = .promoteReadWrite tenure) (o : ModeChange) :
    ∃ next, agent.afterService o.outcome = some (.continues next) ∧
      Mirrors next (onManager (Manager.setReadWrite o) w).1.manager := by
  have changed := setReadWrite_mirrors inWorld.mirrors o
  unfold Agent.afterService
  simp only [ready]
  cases tenure with
  | lease lease => exact ⟨_, rfl, changed⟩
  | singlePoint =>
    by_cases ok : o.outcome = .ok
    · rw [if_pos ok]
      exact ⟨_, rfl, changed⟩
    · rw [if_neg ok]
      exact ⟨_, rfl, changed⟩

end Loop

end Moha.PromotionOrder
