import Moha.Cluster
import Moha.LeaderView

/-! What one step of the cluster can do, said once. A step moves at most one
node, and what it does to a node's memory, to the requests in limbo and to etcd
is listed here by kind; the invariants of the other modules are proved from
these lists and never look at `step` again. -/
namespace Moha.ClusterSteps
open KeyValueStore LeaderRecord LeaderView Election LeaderLoop Cluster Runs

/-- Where a loop stands with respect to the leader record: `checking` and
`following` come after a read that found another leader, `campaigning` after a
read that found none, and `resuming` after a read that found the node itself. -/
inductive Phase where
  | idle
  | resuming (singlePoint : Bool)
  | checking (leader : Leader)
  | following
  | campaigning
  | promoting
  deriving DecidableEq, Repr

def phase : Loop → Phase
  | .resumeGrant | .resumeTxn _ => .resuming false
  | .singlePointTxn true => .resuming true
  | .preWatch leader => .checking leader
  | .persistMyTerm _ | .nodeStatus _ | .redirectMaster _ _ | .watchLeader _ _ => .following
  | .upload _ | .uploadPut _ | .download | .campaignGrant | .campaignTxn _ | .campaignCleanup _
  | .singlePointTxn false => .campaigning
  | .resumeReadWrite _ | .promoteToMaster _ | .uploadPromotion _ | .uploadPromotionPut _ _
  | .promoteReadWrite _ => .promoting
  | _ => .idle

/-- The server fields that the requests print. -/
structure SameMemory (before after : Server) : Prop where
  id : after.id = before.id
  uuid : after.uuid = before.uuid
  term : after.term = before.term
  lastUUID : after.lastUUID = before.lastUUID
  lastGTID : after.lastGTID = before.lastGTID
  lastTxnID : after.lastTxnID = before.lastTxnID

theorem SameMemory.refl (s : Server) : SameMemory s s := ⟨rfl, rfl, rfl, rfl, rfl, rfl⟩

theorem SameMemory.trans {first second third : Server} (left : SameMemory first second)
    (right : SameMemory second third) : SameMemory first third where
  id := right.id.trans left.id
  uuid := right.uuid.trans left.uuid
  term := right.term.trans left.term
  lastUUID := right.lastUUID.trans left.lastUUID
  lastGTID := right.lastGTID.trans left.lastGTID
  lastTxnID := right.lastTxnID.trans left.lastTxnID

theorem SameMemory.publishedBy {before after : Server} (memory : SameMemory before after) :
    publishedBy after after.term = publishedBy before before.term := by
  simp [LeaderView.publishedBy, memory.id, memory.term, memory.lastUUID, memory.lastGTID,
    memory.lastTxnID]

/-- What a step does to the memory and the loop of the node `n`. -/
inductive Move (c : State) (a : Action) (n : NodeID) (after : Agent) : Prop where
  | kept (running : after.running = (c.agents n).running)
      (memory : SameMemory (c.agents n).server after.server)
      (loop : phase after.loop = phase (c.agents n).loop ∨ phase after.loop = .idle)
  | stopped (was : (c.agents n).running = true) (running : after.running = false)
      (memory : SameMemory (c.agents n).server after.server)
  | started {uuid : String} (member : n ∈ c.nodes) (was : (c.agents n).running = false)
      (action : a = .start n uuid) (result : after = (c.agents n).started uuid)
  | read {leader : Leader} {myTerm : UInt64} (running : (c.agents n).running = true)
      (action : a = .call n .read) (loop : (c.agents n).loop = .getLeader)
      (found : (c.agents n).server.getLeaderAndMyTerm c.etcd = .ok (leader, myTerm))
      (result : after = (c.agents n).afterRead leader myTerm)
  | preWatched {leader : Leader} (running : (c.agents n).running = true)
      (action : a = .call n .preWatch) (loop : (c.agents n).loop = .preWatch leader)
      (result : after = { c.agents n with
        server := (preWatch (c.agents n).server (c.agents n).reports leader).1
        loop := if (preWatch (c.agents n).server (c.agents n).reports leader).2 = none
          then .persistMyTerm leader else .closing })
  | uploaded {info : ReplicationInfo} {former : Bool} (running : (c.agents n).running = true)
      (action : a = .call n .upload) (loop : (c.agents n).loop = .upload former)
      (result : after = { c.agents n with
        server := loadLog (c.agents n).server info
        loop := .uploadPut (electionLogOf (c.agents n).server info) })
  | won {request : Request} (running : (c.agents n).running = true)
      (action : a = .etcd n .answered) (pending : (c.agents n).pending = some request)
      (effect : TakesEffect c a request)
      (kind : request.campaigner = some (c.agents n).server ∨
        request.resumer = some (c.agents n).server)
      (still : after.running = true) (loop : phase after.loop = .promoting)
      (memory : SameMemory { (c.agents n).server with term := after.server.term } after.server)
      (term : after.server.term = (c.agents n).server.term ∨
        request.campaigner = some (c.agents n).server ∧
          after.server.term = (c.agents n).server.term + 1)

theorem Move.same {c : State} {a : Action} {n : NodeID} {after : Agent}
    (same : after = c.agents n) : Move c a n after :=
  .kept (by rw [same]) (by rw [same]; exact .refl _) (.inl (by rw [same]))

/-! ### Calls of one process -/

/-- A process waits for a removal of its leader key that it issued at the
revision. -/
def Waits (agent : Agent) (issued : Nat) : Prop :=
  agent.loop = .campaignCleanup issued ∨ .changeMasterDelete issued ∈ agent.handlers

/-- An agent that differs only in what the leader record does not see, with no
removals but those issued now. -/
structure Kept (revision : Nat) (before after : Agent) : Prop where
  running : after.running = before.running
  memory : SameMemory before.server after.server
  loop : phase after.loop = phase before.loop ∨ phase after.loop = .idle
  waits : ∀ issued, Waits after issued → Waits before issued ∨ issued = revision

/-- A process that goes on as it was, or exits as it was but for its service. -/
def Steady (revision : Nat) (agent : Agent) : Next → Prop
  | .continues after => Kept revision agent after
  | .exits after => after.server = agent.server ∧ after.loop = agent.loop ∧
      after.handlers = agent.handlers

private theorem Kept.of_loop {revision : Nat} {before after : Agent}
    (running : after.running = before.running) (memory : SameMemory before.server after.server)
    (loop : after.loop = before.loop ∨ phase after.loop = .idle ∨
      phase after.loop = .promoting ∧ phase before.loop = .promoting)
    (deletes : ∀ issued, .changeMasterDelete issued ∈ after.handlers →
      .changeMasterDelete issued ∈ before.handlers ∨ issued = revision) :
    Kept revision before after where
  running := running
  memory := memory
  loop := by
    rcases loop with same | idle | ⟨promoting, was⟩
    · exact .inl (by rw [same])
    · exact .inr idle
    · exact .inl (promoting.trans was.symm)
  waits := by
    rintro issued (cleanup | delete)
    · rcases loop with same | idle | ⟨promoting, _⟩
      · exact .inl (.inl (same ▸ cleanup))
      · rw [cleanup] at idle
        cases idle
      · rw [cleanup] at promoting
        cases promoting
    · rcases deletes issued delete with held | now
      · exact .inl (.inr held)
      · exact .inr now

/-- The common case: neither the server nor the handlers change. -/
private theorem Kept.of_fields {revision : Nat} {before after : Agent}
    (running : after.running = before.running) (server : after.server = before.server)
    (handlers : after.handlers = before.handlers)
    (loop : after.loop = before.loop ∨ phase after.loop = .idle ∨
      phase after.loop = .promoting ∧ phase before.loop = .promoting) :
    Kept revision before after :=
  .of_loop running (by rw [server]; exact .refl _) loop fun issued delete =>
    .inl (handlers ▸ delete)

@[simp] theorem setReadWrite_fields (agent : Agent) (outcome : Outcome) :
    (agent.setReadWrite outcome).running = agent.running ∧
      (agent.setReadWrite outcome).server = agent.server ∧
      (agent.setReadWrite outcome).loop = agent.loop ∧
      (agent.setReadWrite outcome).handlers = agent.handlers := by
  unfold Agent.setReadWrite
  split <;> exact ⟨rfl, rfl, rfl, rfl⟩

@[simp] theorem setReadOnly_fields (agent : Agent) (outcome : Outcome) :
    (agent.setReadOnly outcome).running = agent.running ∧
      (agent.setReadOnly outcome).server = agent.server ∧
      (agent.setReadOnly outcome).loop = agent.loop ∧
      (agent.setReadOnly outcome).handlers = agent.handlers := by
  unfold Agent.setReadOnly
  split <;> exact ⟨rfl, rfl, rfl, rfl⟩

theorem closeStopCh_fields {agent after : Agent} (closed : agent.closeStopCh = some after) :
    after.running = agent.running ∧ after.server = agent.server ∧ after.loop = agent.loop ∧
      after.handlers = agent.handlers ∧ after.writable = agent.writable := by
  unfold Agent.closeStopCh at closed
  split at closed
  · contradiction
  · split at closed
    · contradiction
    · cases closed
      exact ⟨rfl, rfl, rfl, rfl, rfl⟩

theorem closeStopChAndLoop_fields (agent : Agent) :
    agent.closeStopChAndLoop.running = agent.running ∧
      agent.closeStopChAndLoop.server = agent.server ∧
      phase agent.closeStopChAndLoop.loop = .idle ∧
      agent.closeStopChAndLoop.handlers = agent.handlers ∧
      agent.closeStopChAndLoop.writable = agent.writable := by
  unfold Agent.closeStopChAndLoop
  split
  · exact ⟨rfl, rfl, rfl, rfl, rfl⟩
  · rename_i closed
    obtain ⟨running, server, _, handlers, writable⟩ := closeStopCh_fields closed
    exact ⟨running, server, rfl, handlers, writable⟩

private theorem readOnlyOrShutdown_loop {agent : Agent} {outcome : Outcome}
    {continuation : Agent → Agent}
    (running : (agent.readOnlyOrShutdown outcome continuation).after.running = true) :
    (agent.readOnlyOrShutdown outcome continuation).after =
      continuation (agent.setReadOnly outcome) := by
  unfold Agent.readOnlyOrShutdown at running ⊢
  split at running
  · rename_i ok
    rw [if_pos ok]
    rfl
  · cases running

/-- A call that neither the loop nor the service manager makes leaves the loop where
it is, unless it ends the keep-alive that a barrier waits for. -/
theorem move_loop_kept {agent : Agent} {etcd : Etcd} {nodes : List NodeID} {call : Call}
    {next : Next} (moved : agent.move etcd nodes call = some next)
    (running : next.after.running = true) :
    next.after.loop = agent.loop ∨ (∃ lease, agent.loop = .barrier lease) ∨
      (∃ outcome, call = .service outcome ∧ agent.afterService outcome = some next) ∨
      ∃ after, agent.advance etcd nodes call = some after ∧ next = .continues after := by
  cases Agent.moves_of_move moved with
  | service served => exact .inr (.inr (.inl ⟨_, rfl, served⟩))
  | http request =>
    left
    simp only [Next.after, Agent.accept]
    split <;> rfl
  | @handlerService _ outcome _ served =>
    left
    unfold Agent.afterHandlerService at served
    split at served
    · cases served
      rw [readOnlyOrShutdown_loop running]
      exact (setReadOnly_fields agent outcome).2.2.1
    · cases served
      exact (setReadWrite_fields agent outcome).2.2.1
    · cases served
      exact (setReadWrite_fields agent outcome).2.2.1
    · contradiction
  | handlerManual manual =>
    left
    unfold Agent.afterManual at manual
    split at manual <;> cases manual
    · rfl
    · rfl
    · exact (setReadOnly_fields agent _).2.2.1
  | handlerStop =>
    left
    cases closed : agent.closeStopCh with
    | none => rfl
    | some after => exact (closeStopCh_fields closed).2.2.1
  | turn => exact .inl rfl
  | @keepAliveExit lease outcome =>
    by_cases barrier : agent.loop = .barrier lease
    · exact .inr (.inl ⟨lease, barrier⟩)
    · left
      unfold Agent.afterKeepAlive at running ⊢
      split at running
      · rename_i closed
        rw [if_pos closed]
        exact if_neg barrier
      · rename_i opened
        rw [if_neg opened, readOnlyOrShutdown_loop running]
        have loop := (setReadOnly_fields agent outcome).2.2.1
        rw [if_neg (by rwa [loop])]
        exact loop
  | @close outcome =>
    left
    rw [readOnlyOrShutdown_loop running]
    exact (setReadOnly_fields agent outcome).2.2.1
  | exits => cases running
  | setOnlyFollow => exact .inl rfl
  | @advance _ after advanced => exact .inr (.inr (.inr ⟨after, advanced, rfl⟩))

private theorem advance_of_pending {agent : Agent} {etcd : Etcd} {nodes : List NodeID}
    {call : Call} {request : Request} (pending : agent.pending = some request) :
    agent.advance etcd nodes call = none := by
  cases loop : agent.loop
  case singlePointTxn resume => cases call <;> simp [Agent.advance, loop]
  case resumeTxn | campaignTxn | campaignCleanup | persistMyTerm | uploadPut | uploadPromotionPut
      | removeSPM =>
    cases call <;> simp [Agent.advance, loop]
  all_goals simp [Agent.pending, loop] at pending

/-- While the loop has a request at etcd, no other call moves it. -/
theorem move_loop_of_pending {agent : Agent} {etcd : Etcd} {nodes : List NodeID} {call : Call}
    {next : Next} {request : Request} (pending : agent.pending = some request)
    (moved : agent.move etcd nodes call = some next) (running : next.after.running = true) :
    next.after.loop = agent.loop := by
  rcases move_loop_kept moved running with same | ⟨lease, barrier⟩ | ⟨outcome, _, serviced⟩ |
    ⟨after, advanced, _⟩
  · exact same
  · simp [Agent.pending, barrier] at pending
  · unfold Agent.afterService at serviced
    split at serviced <;> simp_all [Agent.pending]
  · rw [advance_of_pending pending] at advanced
    cases advanced

private theorem steady_readOnlyOrShutdown {revision : Nat} {agent : Agent} {outcome : Outcome}
    {continuation : Agent → Agent}
    (goesOn : Kept revision agent (continuation (agent.setReadOnly outcome))) :
    Steady revision agent (agent.readOnlyOrShutdown outcome continuation) := by
  unfold Agent.readOnlyOrShutdown
  split
  · exact goesOn
  · exact (setReadOnly_fields agent outcome).2

private theorem kept_closeStopChAndLoop {revision : Nat} {agent : Agent} (outcome : Outcome) :
    Kept revision agent (agent.setReadOnly outcome).closeStopChAndLoop := by
  obtain ⟨running, server, _, handlers⟩ := setReadOnly_fields agent outcome
  obtain ⟨running', server', loop', handlers', _⟩ :=
    closeStopChAndLoop_fields (agent.setReadOnly outcome)
  exact .of_fields (running'.trans running) (server'.trans server) (handlers'.trans handlers)
    (.inr (.inl loop'))

/-- After `SetReadWrite` the loop waits, starts over or sets the service read-only. -/
private theorem phase_afterReadWrite {agent : Agent} {lease : LeaseID} {outcome : Outcome}
    {failed : Loop} (idle : phase failed = .idle) :
    phase (if outcome = .ok then agent.awaitKeepAlive lease else failed) = .idle := by
  split
  · rcases agent.awaitKeepAlive_eq lease with loop | loop <;> rw [loop] <;> rfl
  · exact idle

private theorem steady_afterService {revision : Nat} {agent : Agent} {outcome : Outcome}
    {next : Next} (moved : agent.afterService outcome = some next) :
    Steady revision agent next := by
  obtain ⟨roRunning, roServer, roLoop, roHandlers⟩ := setReadOnly_fields agent outcome
  obtain ⟨rwRunning, rwServer, _, rwHandlers⟩ := setReadWrite_fields agent outcome
  have handled : ∀ {after : Agent}, after.handlers = agent.handlers → ∀ issued,
      .changeMasterDelete issued ∈ after.handlers →
        .changeMasterDelete issued ∈ agent.handlers ∨ issued = revision :=
    fun same issued delete => .inl (same ▸ delete)
  unfold Agent.afterService at moved
  split at moved
  case h_1 lease loop =>
    cases moved
    exact .of_fields rwRunning rwServer rwHandlers
      (.inr (.inl (phase_afterReadWrite rfl)))
  case h_2 loop =>
    cases moved
    exact kept_closeStopChAndLoop outcome
  case h_3 tenure loop =>
    cases moved
    exact .of_fields rfl rfl rfl (.inr (.inr ⟨rfl, by rw [loop]; rfl⟩))
  case h_4 lease loop =>
    cases moved
    exact .of_fields rwRunning rwServer rwHandlers
      (.inr (.inl (phase_afterReadWrite rfl)))
  case h_5 loop =>
    split at moved
    · cases moved
      exact .of_loop rwRunning ⟨rfl, rfl, rfl, rfl, rfl, rfl⟩ (.inr (.inl rfl))
        (handled rwHandlers)
    · cases moved
      exact .of_fields rwRunning rwServer rwHandlers (.inr (.inl rfl))
  case h_6 loop =>
    cases moved
    exact steady_readOnlyOrShutdown (kept_closeStopChAndLoop outcome)
  case h_7 loop =>
    cases moved
    exact .of_fields roRunning roServer roHandlers (.inr (.inl rfl))
  case h_8 loop =>
    split at moved
    · cases moved
      exact .of_loop roRunning ⟨rfl, rfl, rfl, rfl, rfl, rfl⟩ (.inr (.inl rfl))
        (handled roHandlers)
    · cases moved
      exact .of_fields roRunning roServer roHandlers (.inl roLoop)
  case h_9 => contradiction

private theorem mem_dropHandler {agent : Agent} {index : Nat} {handler : Handler}
    (member : handler ∈ (agent.dropHandler index).handlers) : handler ∈ agent.handlers :=
  List.mem_of_mem_eraseIdx member

private theorem steady_afterHandlerService {agent : Agent} {revision index : Nat}
    {outcome : Outcome} {next : Next}
    (moved : agent.afterHandlerService revision index outcome = some next) :
    Steady revision agent next := by
  obtain ⟨roRunning, roServer, roLoop, roHandlers⟩ := setReadOnly_fields agent outcome
  obtain ⟨rwRunning, rwServer, rwLoop, rwHandlers⟩ := setReadWrite_fields agent outcome
  have opened : Kept revision agent ((agent.setReadWrite outcome).dropHandler index) := by
    have rwMemory : SameMemory agent.server (agent.setReadWrite outcome).server := by
      rw [rwServer]
      exact .refl _
    refine .of_loop rwRunning rwMemory (.inl rwLoop) ?_
    intro issued delete
    exact .inl (rwHandlers ▸ mem_dropHandler delete)
  unfold Agent.afterHandlerService at moved
  split at moved
  · cases moved
    refine steady_readOnlyOrShutdown (.of_loop roRunning ?_ (.inl roLoop) ?_)
    · change SameMemory _ (agent.setReadOnly outcome).server
      rw [roServer]
      exact .refl _
    · intro issued delete
      rcases List.mem_or_eq_of_mem_set delete with held | now
      · exact .inl (roHandlers ▸ held)
      · cases now
        exact .inr rfl
  · cases moved
    exact opened
  · cases moved
    exact opened
  · contradiction

private theorem kept_afterManual {revision : Nat} {agent after : Agent} {index : Nat}
    {outcome : ManualOutcome} (moved : agent.afterManual index outcome = some after) :
    Kept revision agent after := by
  unfold Agent.afterManual at moved
  split at moved
  · cases moved
    exact .of_loop rfl (.refl _) (.inl rfl) fun issued delete => .inl (mem_dropHandler delete)
  · cases moved
    obtain ⟨running, server, loop, handlers⟩ := setReadOnly_fields agent .ok
    refine .of_loop running ?_ (.inl loop) fun issued delete =>
      .inl (handlers ▸ mem_dropHandler delete)
    change SameMemory _ (agent.setReadOnly .ok).server
    rw [server]
    exact .refl _
  · rename_i setReadOnly _
    cases moved
    obtain ⟨running, server, loop, handlers⟩ := setReadOnly_fields agent setReadOnly
    refine .of_loop running ?_ (.inl loop) ?_
    · change SameMemory _ (agent.setReadOnly setReadOnly).server
      rw [server]
      exact .refl _
    · intro issued delete
      rcases List.mem_or_eq_of_mem_set delete with held | rollback
      · exact .inl (handlers ▸ held)
      · cases rollback
  · contradiction

private theorem kept_release {revision : Nat} {agent after : Agent} {lease : LeaseID}
    (running : after.running = agent.running) (server : after.server = agent.server)
    (loop : after.loop = agent.loop) (handlers : after.handlers = agent.handlers) :
    Kept revision agent { after with
      keepAlives := after.keepAlives.filter fun held => held.lease != lease
      loop := if after.loop = .barrier lease then .getLeader else after.loop } := by
  refine .of_fields running server handlers ?_
  dsimp only
  split
  · exact .inr (.inl rfl)
  · exact .inl loop

private theorem steady_afterKeepAlive {revision : Nat} (agent : Agent) (lease : LeaseID)
    (outcome : Outcome) : Steady revision agent (agent.afterKeepAlive lease outcome) := by
  unfold Agent.afterKeepAlive
  split
  · exact kept_release rfl rfl rfl rfl
  · obtain ⟨running, server, loop, handlers⟩ := setReadOnly_fields agent outcome
    exact steady_readOnlyOrShutdown (kept_release running server loop handlers)

private theorem kept_accept {revision : Nat} (agent : Agent) (request : HttpRequest) :
    Kept revision agent (agent.accept request) := by
  unfold Agent.accept
  split
  · refine .of_loop rfl (.refl _) (.inl rfl) fun issued delete => .inl ?_
    rcases List.mem_append.mp delete with held | entered
    · exact held
    · cases request <;> cases List.mem_singleton.mp entered
  · exact .of_fields rfl rfl rfl (.inl rfl)

private theorem kept_stop {revision : Nat} (agent : Agent) (index : Nat) :
    Kept revision agent ((agent.closeStopCh.getD agent).dropHandler index) := by
  cases closed : agent.closeStopCh with
  | none =>
    exact .of_loop rfl (.refl _) (.inl rfl) fun issued delete => .inl (mem_dropHandler delete)
  | some after =>
    obtain ⟨running, server, loop, handlers, _⟩ := closeStopCh_fields closed
    refine .of_loop running ?_ (.inl loop) fun issued delete =>
      .inl (handlers ▸ mem_dropHandler delete)
    change SameMemory _ after.server
    rw [server]
    exact .refl _

private theorem Steady.move {revision : Nat} {c : State} {a : Action} {n : NodeID} {next : Next}
    (running : (c.agents n).running = true) (steady : Steady revision (c.agents n) next) :
    Move c a n next.after := by
  cases next with
  | continues after =>
    obtain ⟨same, memory, loop, _⟩ := steady
    exact .kept same memory loop
  | exits after =>
    refine .stopped running rfl ?_
    change SameMemory _ after.server
    rw [steady.1]
    exact .refl _

theorem afterRead_fields (agent : Agent) (leader : Leader) (myTerm : UInt64) :
    (agent.afterRead leader myTerm).running = agent.running ∧
      (agent.afterRead leader myTerm).server.id = agent.server.id ∧
      (agent.afterRead leader myTerm).handlers = agent.handlers ∧
      (agent.afterRead leader myTerm).writable = agent.writable := by
  unfold Agent.afterRead
  dsimp only
  split
  · split
    · split <;> exact ⟨rfl, rfl, rfl, rfl⟩
    · exact ⟨rfl, rfl, rfl, rfl⟩
  · split
    · exact ⟨rfl, rfl, rfl, rfl⟩
    · split <;> exact ⟨rfl, rfl, rfl, rfl⟩

private theorem move_loop {c : State} {a : Action} {n : NodeID} {loop : Loop}
    (kept : phase loop = phase (c.agents n).loop ∨ phase loop = .idle) :
    Move c a n { c.agents n with loop := loop } :=
  .kept rfl (.refl _) kept

private theorem move_afterReadError {c : State} {a : Action} {n : NodeID} {notValid : Bool} :
    Move c a n ((c.agents n).afterReadError notValid) := by
  unfold Agent.afterReadError
  split
  · exact move_loop (.inr rfl)
  · split <;> exact move_loop (.inr rfl)

private theorem move_advance {c : State} {n : NodeID} {call : Call} {after : Agent}
    (running : (c.agents n).running = true)
    (moved : (c.agents n).advance c.etcd c.nodes call = some after) :
    Move c (.call n call) n after := by
  cases call
  case read =>
    simp only [Agent.advance] at moved
    split at moved
    · rename_i loop
      split at moved
      · cases moved
        exact move_afterReadError
      · rename_i leader myTerm found
        cases moved
        exact .read running rfl loop found rfl
    · contradiction
  case readLost =>
    simp only [Agent.advance] at moved
    split at moved
    · rename_i loop
      cases moved
      exact move_afterReadError
    · contradiction
  case grantLost =>
    simp only [Agent.advance] at moved
    split at moved
    · cases moved
      exact move_loop (.inr rfl)
    · rename_i loop
      cases moved
      exact move_loop (.inl (by rw [loop]; rfl))
    · contradiction
  case preWatch =>
    simp only [Agent.advance] at moved
    split at moved
    · rename_i leader loop
      cases moved
      exact .preWatched running rfl loop rfl
    · contradiction
  case nodeStatus found =>
    simp only [Agent.advance] at moved
    split at moved
    · rename_i leader loop
      split at moved
      · cases moved
        exact .kept rfl ⟨rfl, rfl, rfl, rfl, rfl, rfl⟩ (.inl (by rw [loop]; rfl))
      · cases moved
        exact move_loop (.inr rfl)
    · contradiction
  case redirectMaster redirected =>
    simp only [Agent.advance] at moved
    split at moved
    · rename_i leader retry loop
      split at moved
      · cases moved
        exact move_loop (.inl (by rw [loop]; rfl))
      · split at moved
        · cases moved
          exact move_loop (.inl (by rw [loop]; rfl))
        · cases moved
          exact move_loop (.inr rfl)
    · contradiction
  case watchEnds failed =>
    simp only [Agent.advance] at moved
    split at moved
    · rename_i leader fallback loop
      split at moved
      · cases moved
        exact move_loop (.inl (by rw [loop]; rfl))
      · cases moved
        exact move_loop (.inr rfl)
    · contradiction
  case upload =>
    simp only [Agent.advance] at moved
    split at moved
    · rename_i loop
      cases moved
      exact .uploaded running rfl loop rfl
    · rename_i loop
      split at moved
      · cases moved
        exact move_loop (.inl (by rw [loop]; rfl))
      · rename_i server log uploaded
        obtain ⟨info, _, built⟩ := Option.map_eq_some_iff.mp uploaded
        cases built
        cases moved
        exact .uploaded running rfl loop rfl
    · contradiction
  case download order =>
    simp only [Agent.advance] at moved
    split at moved
    · rename_i enabled
      cases moved
      refine move_loop (.inl ?_)
      rw [enabled.1]
      split <;> rfl
    · contradiction
  case loadPromotion =>
    simp only [Agent.advance] at moved
    split at moved
    · rename_i tenure loop
      split at moved
      · cases moved
        exact move_loop (.inl (by rw [loop]; rfl))
      · cases moved
        exact move_loop (.inl (by rw [loop]; rfl))
    · contradiction
  case slaveAppears =>
    simp only [Agent.advance] at moved
    split at moved
    · cases moved
      exact move_loop (.inr rfl)
    · contradiction
  all_goals contradiction

/-- Every call leaves the memory of the process as it was, or advances its loop. -/
theorem steady_or_advance {agent : Agent} {etcd : Etcd} {nodes : List NodeID} {call : Call}
    {next : Next} (moved : agent.move etcd nodes call = some next) :
    Steady etcd.revision agent next ∨
      ∃ after, agent.advance etcd nodes call = some after ∧ next = .continues after := by
  cases Agent.moves_of_move moved with
  | service served => exact .inl (steady_afterService served)
  | http request => exact .inl (kept_accept agent request)
  | handlerService served => exact .inl (steady_afterHandlerService served)
  | handlerManual manual => exact .inl (kept_afterManual manual)
  | @handlerStop index => exact .inl (kept_stop agent index)
  | turn => exact .inl (.of_fields rfl rfl rfl (.inl rfl))
  | @keepAliveExit lease outcome => exact .inl (steady_afterKeepAlive _ lease outcome)
  | @close outcome =>
    obtain ⟨still, server, loop, handlers⟩ := setReadOnly_fields agent outcome
    refine .inl (steady_readOnlyOrShutdown (.of_loop still ?_ (.inl loop) fun issued delete =>
      .inl (handlers ▸ delete)))
    dsimp only
    rw [server]
    exact ⟨rfl, rfl, rfl, rfl, rfl, rfl⟩
  | exits => exact .inl ⟨rfl, rfl, rfl⟩
  | setOnlyFollow =>
    exact .inl (.of_loop rfl ⟨rfl, rfl, rfl, rfl, rfl, rfl⟩ (.inl rfl) fun _ delete => .inl delete)
  | @advance _ after advanced => exact .inr ⟨after, advanced, rfl⟩

theorem advance_handlers {agent after : Agent} {etcd : Etcd} {nodes : List NodeID}
    {call : Call} (moved : agent.advance etcd nodes call = some after) :
    after.handlers = agent.handlers ∧ after.writable = agent.writable := by
  have readError : ∀ notValid, (agent.afterReadError notValid).handlers = agent.handlers ∧
      (agent.afterReadError notValid).writable = agent.writable := by
    intro notValid
    unfold Agent.afterReadError
    split
    · exact ⟨rfl, rfl⟩
    · split <;> exact ⟨rfl, rfl⟩
  cases call <;> simp only [Agent.advance] at moved
  all_goals (repeat' split at moved)
  all_goals first
    | contradiction
    | (cases moved; exact ⟨rfl, rfl⟩)
    | (cases moved; exact readError _)
    | (cases moved; exact (afterRead_fields _ _ _).2.2)

private theorem advance_cleanup {agent after : Agent} {etcd : Etcd} {nodes : List NodeID}
    {call : Call} {issued : Nat} (moved : agent.advance etcd nodes call = some after)
    (cleanup : after.loop = .campaignCleanup issued) : issued = etcd.revision := by
  have readError : ∀ notValid, (agent.afterReadError notValid).loop ≠ .campaignCleanup issued := by
    intro notValid
    unfold Agent.afterReadError
    split
    · simp
    · split <;> simp
  have read : ∀ leader myTerm,
      (agent.afterRead leader myTerm).loop ≠ .campaignCleanup issued := by
    intro leader myTerm
    unfold Agent.afterRead
    dsimp only
    (repeat' split) <;> simp
  cases call <;> simp only [Agent.advance] at moved
  all_goals (repeat' split at moved)
  all_goals first
    | contradiction
    | (cases moved; cases cleanup; done)
    | (cases moved; exact absurd cleanup (readError _))
    | (cases moved; exact absurd cleanup (read _ _))
    | (cases moved; cases cleanup; rfl)

private theorem move_call {c : State} {n : NodeID} {call : Call} {next : Next}
    (running : (c.agents n).running = true)
    (moved : (c.agents n).move c.etcd c.nodes call = some next) :
    Move c (.call n call) n next.after := by
  rcases steady_or_advance moved with steady | ⟨after, advanced, rfl⟩
  · exact steady.move running
  · exact move_advance running advanced

private theorem abandoned_outstanding {agent : Agent} {etcd : Etcd} {nodes : List NodeID}
    {call : Call} {next : Next} {request : Request}
    (moved : agent.move etcd nodes call = some next) (left : request ∈ next.abandoned) :
    request ∈ agent.outstanding := by
  rcases steady_or_advance moved with steady | ⟨after, _, rfl⟩
  · cases next with
    | continues after => cases left
    | exits after =>
      obtain ⟨server, loop, handlers⟩ := steady
      simpa only [Next.abandoned, Agent.outstanding, Agent.pending, server, loop, handlers]
        using left
  · cases left

/-! ### Requests -/

theorem pending_campaigner {agent : Agent} {request : Request} {s : Server}
    (pending : agent.pending = some request) (campaigns : request.campaigner = some s) :
    s = agent.server ∧ phase agent.loop = .campaigning := by
  unfold Agent.pending at pending
  split at pending <;> cases pending <;> simp_all [Request.campaigner, phase]

theorem pending_resumer {agent : Agent} {request : Request} {s : Server}
    (pending : agent.pending = some request) (resumes : request.resumer = some s) :
    s = agent.server ∧ phase agent.loop = .resuming request.asSinglePoint := by
  unfold Agent.pending at pending
  split at pending <;> cases pending <;>
    simp_all [Request.resumer, Request.asSinglePoint, phase]

theorem pending_remover {agent : Agent} {request : Request} {id : NodeID}
    (pending : agent.pending = some request) (removes : request.remover = some id) :
    id = agent.server.id ∧ phase agent.loop = .campaigning := by
  unfold Agent.pending at pending
  split at pending <;> cases pending <;> simp_all [Request.remover, phase]

theorem pending_persistMyTerm {agent : Agent} {s : Server}
    (pending : agent.pending = some (.persistMyTerm s)) :
    s = agent.server ∧ phase agent.loop = .following := by
  unfold Agent.pending at pending
  split at pending <;> cases pending
  simp_all [phase]

/-- A campaign that a process has at etcd is its loop's. -/
theorem outstanding_campaigner {agent : Agent} {request : Request} {s : Server}
    (member : request ∈ agent.outstanding) (campaigns : request.campaigner = some s) :
    s = agent.server ∧ phase agent.loop = .campaigning := by
  rcases List.mem_append.mp member with pending | handled
  · exact pending_campaigner (by simpa using pending) campaigns
  · obtain ⟨handler, _, asked⟩ := List.mem_filterMap.mp handled
    cases handler <;> cases asked
    cases campaigns

theorem outstanding_persistMyTerm {agent : Agent} {s : Server}
    (member : .persistMyTerm s ∈ agent.outstanding) :
    s = agent.server ∧ phase agent.loop = .following := by
  rcases List.mem_append.mp member with pending | handled
  · exact pending_persistMyTerm (by simpa using pending)
  · obtain ⟨handler, _, asked⟩ := List.mem_filterMap.mp handled
    cases handler <;> cases asked

private theorem reply_done_true {c : State} {request : Request} {resolution : Resolution}
    (replied : c.reply request resolution = .done true) :
    resolution = .answered ∧ (c.etcd.commit request.txn).2 = .done true := by
  unfold State.reply at replied
  split at replied
  · exact ⟨rfl, replied⟩
  · contradiction

private theorem promote_fields (agent : Agent) (tenure : Tenure) :
    (agent.promote tenure).running = agent.running ∧
      SameMemory agent.server (agent.promote tenure).server ∧
      phase (agent.promote tenure).loop = .promoting ∧
      (agent.promote tenure).handlers = agent.handlers ∧
      (agent.promote tenure).writable = agent.writable := by
  unfold Agent.promote
  split
  · exact ⟨rfl, .refl _, rfl, rfl, rfl⟩
  · exact ⟨rfl, ⟨rfl, rfl, rfl, rfl, rfl, rfl⟩, rfl, rfl, rfl⟩

theorem afterRequest_fields (agent : Agent) (revision : Nat) (reply : Reply) :
    (agent.afterRequest revision reply).handlers = agent.handlers ∧
      (agent.afterRequest revision reply).writable = agent.writable := by
  unfold Agent.afterRequest
  split
  case h_3 => exact (promote_fields _ _).2.2.2
  case h_7 => exact (promote_fields _ _).2.2.2
  all_goals exact ⟨rfl, rfl⟩

private theorem afterRequest_cleanup {agent : Agent} {revision issued : Nat} {reply : Reply}
    (cleanup : (agent.afterRequest revision reply).loop = .campaignCleanup issued) :
    agent.loop = .campaignCleanup issued ∨ issued = revision := by
  have promoted : ∀ (agent : Agent) tenure,
      (agent.promote tenure).loop ≠ .campaignCleanup issued := by
    intro agent tenure cleanup
    have promoting := (promote_fields agent tenure).2.2.1
    rw [cleanup] at promoting
    cases promoting
  unfold Agent.afterRequest at cleanup
  split at cleanup
  case h_3 => exact absurd cleanup (promoted _ _)
  case h_5 =>
    cases cleanup
    exact .inr rfl
  case h_7 => exact absurd cleanup (promoted _ _)
  case h_14 => exact .inl cleanup
  all_goals cases cleanup

private theorem move_afterRequest {c : State} {n : NodeID} {request : Request}
    {resolution : Resolution} {revision : Nat} (running : (c.agents n).running = true)
    (pending : (c.agents n).pending = some request) :
    Move c (.etcd n resolution) n
      ((c.agents n).afterRequest revision (c.reply request resolution)) := by
  have won : ∀ {after : Agent}, c.reply request resolution = .done true →
      request.campaigner = some (c.agents n).server ∨
        request.resumer = some (c.agents n).server →
      after.running = true → phase after.loop = .promoting →
      SameMemory { (c.agents n).server with term := after.server.term } after.server →
      (after.server.term = (c.agents n).server.term ∨
        request.campaigner = some (c.agents n).server ∧
          after.server.term = (c.agents n).server.term + 1) →
      Move c (.etcd n resolution) n after := by
    intro after replied kind still loop memory term
    obtain ⟨rfl, succeeded⟩ := reply_done_true replied
    exact .won running rfl pending ⟨by simp [applied, pending], succeeded⟩ kind still loop
      memory term
  unfold Agent.afterRequest
  split
  case h_1 lease loop replied =>
    have request : request = .resumeLeader (c.agents n).server lease := by
      simpa [Agent.pending, loop] using pending.symm
    subst request
    exact won replied (.inr rfl) running rfl ⟨rfl, rfl, rfl, rfl, rfl, rfl⟩ (.inl rfl)
  case h_2 => exact move_loop (.inr rfl)
  case h_3 lease loop replied =>
    have request : request = .campaignLeader (c.agents n).server lease := by
      simpa [Agent.pending, loop] using pending.symm
    subst request
    obtain ⟨still, memory, promoting, _⟩ := promote_fields
      { (c.agents n).keepLeaderAlive lease with
        server := { (c.agents n).server with term := (c.agents n).server.term + 1 } }
      (.lease lease)
    refine won replied (.inl rfl) (still.trans running) promoting ?_ (.inr ⟨rfl, memory.term⟩)
    exact ⟨memory.id, memory.uuid, rfl, memory.lastUUID, memory.lastGTID, memory.lastTxnID⟩
  case h_4 => exact move_loop (.inr rfl)
  case h_5 lease loop replied => exact move_loop (.inl (by rw [loop]; rfl))
  case h_6 => exact move_loop (.inr rfl)
  case h_7 resume loop replied =>
    obtain ⟨still, memory, promoting, _⟩ := promote_fields (c.agents n) .singlePoint
    refine won replied ?_ (still.trans running) promoting ?_ (.inl memory.term)
    · cases resume <;> simp only [Agent.pending, loop, Option.some.injEq] at pending <;>
        subst pending
      · exact .inl rfl
      · exact .inr rfl
    · exact ⟨memory.id, memory.uuid, rfl, memory.lastUUID, memory.lastGTID, memory.lastTxnID⟩
  case h_8 => exact move_loop (.inr rfl)
  case h_9 resume loop replied => exact move_loop (.inl (by rw [loop]))
  case h_10 leader loop => exact move_loop (.inl (by rw [loop]; rfl))
  case h_11 log loop => exact move_loop (.inl (by rw [loop]; rfl))
  case h_12 tenure position loop => exact move_loop (.inl (by rw [loop]; rfl))
  case h_13 => exact move_loop (.inr rfl)
  case h_14 => exact .same rfl

theorem resolve_agents (c : State) (request : Request) (resolution : Resolution) :
    (c.resolve request resolution).agents = c.agents := by
  cases resolution <;> rfl

/-- What a step does to one node: nothing, or one move of the node itself. -/
inductive AgentStep (c c' : State) (a : Action) (n : NodeID) : Prop where
  | same (agent : c'.agents n = c.agents n)
  | called {call : Call} {next : Next} (action : a = .call n call)
      (running : (c.agents n).running = true)
      (moved : (c.agents n).move c.etcd c.nodes call = some next)
      (agent : c'.agents n = next.after) (etcd : c'.etcd = c.etcd)
  | granted {lease : LeaseID} {after : Agent} (action : a = .grant n lease)
      (running : (c.agents n).running = true) (granted : (c.agents n).afterGrant lease = some after)
      (agent : c'.agents n = after)
  | replied {resolution : Resolution} {request : Request} (action : a = .etcd n resolution)
      (running : (c.agents n).running = true) (pending : (c.agents n).pending = some request)
      (agent : c'.agents n =
        (c.agents n).afterRequest c'.etcd.revision (c.reply request resolution))
  | handled {index : Nat} {resolution : Resolution} (action : a = .handlerEtcd n index resolution)
      (running : (c.agents n).running = true)
      (agent : c'.agents n = (c.agents n).setHandler index .changeMasterStop)
  | started {uuid : String} (action : a = .start n uuid) (member : n ∈ c.nodes)
      (stopped : (c.agents n).running = false) (agent : c'.agents n = (c.agents n).started uuid)
  | serviceStopped (action : a = .serviceStop n)
      (agent : c'.agents n = { c.agents n with writable := false })
  | reported {reports : Reports} (action : a = .report n reports)
      (agent : c'.agents n = { c.agents n with reports := reports })

theorem step_agent {c c' : State} {a : Action} (taken : step c a = some c') (n : NodeID) :
    AgentStep c c' a n := by
  have moved : ∀ {m : NodeID} {after : Agent}, c'.agents = Function.update c.agents m after →
      (m = n → c'.agents n = after → AgentStep c c' a n) → AgentStep c c' a n := by
    intro m after agents move
    by_cases same : n = m
    · subst same
      exact move rfl (by rw [agents, Function.update_self])
    · exact .same (by rw [agents, Function.update_of_ne same])
  cases a with
  | call m call =>
    obtain ⟨running, next, called, rfl⟩ := step_call taken
    refine moved rfl ?_
    rintro rfl agent
    exact .called rfl running called agent rfl
  | grant m lease =>
    obtain ⟨running, _, _, after, granted, rfl⟩ := step_grant taken
    refine moved rfl ?_
    rintro rfl agent
    exact .granted rfl running granted agent
  | etcd m resolution =>
    obtain ⟨running, request, pending, rfl⟩ := step_etcd taken
    refine moved (congrArg (Function.update · m _) (resolve_agents c request resolution)) ?_
    rintro rfl agent
    exact .replied rfl running pending agent
  | handlerEtcd m index resolution =>
    obtain ⟨running, _, _, rfl⟩ := step_handlerEtcd taken
    refine moved (congrArg (Function.update · m _) (resolve_agents c _ resolution)) ?_
    rintro rfl agent
    exact .handled rfl running agent
  | clean m resolution =>
    obtain ⟨_, rfl⟩ := step_clean taken
    exact .same (congrFun (resolve_agents c _ resolution) n)
  | late index =>
    obtain ⟨_, _, rfl⟩ := step_late taken
    exact .same rfl
  | expire lease =>
    obtain ⟨_, rfl⟩ := step_expire taken
    exact .same rfl
  | start m uuid =>
    obtain ⟨member, stopped, rfl⟩ := step_start taken
    refine moved rfl ?_
    rintro rfl agent
    exact .started rfl member stopped agent
  | serviceStop m =>
    cases step_serviceStop taken
    refine moved rfl ?_
    rintro rfl agent
    exact .serviceStopped rfl agent
  | report m reports =>
    cases step_report taken
    refine moved rfl ?_
    rintro rfl agent
    exact .reported rfl agent

/-- A loop that has a request at etcd waits for its reply. -/
theorem loop_of_pending {c c' : State} {a : Action} {n : NodeID} {request : Request}
    (taken : step c a = some c') (was : (c.agents n).running = true)
    (pending : (c.agents n).pending = some request) (running : (c'.agents n).running = true)
    (notEtcd : ∀ resolution, a ≠ .etcd n resolution) : (c'.agents n).loop = (c.agents n).loop := by
  cases step_agent taken n with
  | same agent => rw [agent]
  | called _ _ moved agent =>
    rw [agent] at running ⊢
    exact move_loop_of_pending pending moved running
  | granted _ _ granted agent =>
    unfold Agent.afterGrant at granted
    split at granted <;> simp_all [Agent.pending]
  | replied action => exact absurd action (notEtcd _)
  | handled _ _ agent =>
    rw [agent]
    rfl
  | started _ _ stopped => cases stopped.symm.trans was
  | serviceStopped _ agent => rw [agent]
  | reported _ agent => rw [agent]

/-- What a step does to the memory of each node. -/
theorem step_move {c c' : State} {a : Action} (taken : step c a = some c') (n : NodeID) :
    Move c a n (c'.agents n) := by
  cases step_agent taken n with
  | same agent => exact .same agent
  | called action running moved agent =>
    subst action
    rw [agent]
    exact move_call running moved
  | granted _ _ granted agent =>
    rw [agent]
    unfold Agent.afterGrant at granted
    split at granted
    · rename_i loop
      cases granted
      exact move_loop (.inl (by rw [loop]; rfl))
    · rename_i loop
      cases granted
      exact move_loop (.inl (by rw [loop]; rfl))
    · contradiction
  | replied action running pending agent =>
    subst action
    rw [agent]
    exact move_afterRequest running pending
  | handled _ _ agent =>
    rw [agent]
    exact .kept rfl (.refl _) (.inl rfl)
  | started action member stopped agent => exact .started member stopped action agent
  | serviceStopped _ agent =>
    rw [agent]
    exact .kept rfl (.refl _) (.inl rfl)
  | reported _ agent =>
    rw [agent]
    exact .kept rfl (.refl _) (.inl rfl)

/-- A removal that a process waits for was waited for before, or was issued in
this step. -/
theorem step_waits {c c' : State} {a : Action} (taken : step c a = some c') {n : NodeID}
    {issued : Nat} (running : (c'.agents n).running = true) (waits : Waits (c'.agents n) issued) :
    (c.agents n).running = true ∧ Waits (c.agents n) issued ∨ issued = c'.etcd.revision := by
  cases step_agent taken n with
  | same agent =>
    rw [agent] at running waits
    exact .inl ⟨running, waits⟩
  | @called _ next _ was moved agent etcd =>
    rw [agent] at running waits
    rcases steady_or_advance moved with steady | ⟨after, advanced, rfl⟩
    · cases next with
      | continues after =>
        exact (steady.waits issued waits).imp (⟨was, ·⟩) (·.trans (by rw [etcd]))
      | exits after => cases running
    · rcases waits with cleanup | delete
      · exact .inr ((advance_cleanup advanced cleanup).trans (by rw [etcd]))
      · exact .inl ⟨was, .inr ((advance_handlers advanced).1 ▸ delete)⟩
  | granted _ was granted agent =>
    rw [agent] at waits
    unfold Agent.afterGrant at granted
    split at granted <;> cases granted
    all_goals
      rcases waits with cleanup | delete
      · cases cleanup
      · exact .inl ⟨was, .inr delete⟩
  | replied _ was _ agent =>
    rw [agent] at waits
    rcases waits with cleanup | delete
    · exact (afterRequest_cleanup cleanup).imp_left (⟨was, .inl ·⟩)
    · exact .inl ⟨was, .inr ((afterRequest_fields _ _ _).1 ▸ delete)⟩
  | handled _ was agent =>
    rw [agent] at waits
    refine .inl ⟨was, ?_⟩
    rcases waits with cleanup | delete
    · exact .inl cleanup
    · rcases List.mem_or_eq_of_mem_set delete with held | stop
      · exact .inr held
      · cases stop
  | started _ _ _ agent =>
    rw [agent] at waits
    simp [Agent.started, Waits] at waits
  | serviceStopped _ agent =>
    rw [agent] at running waits
    exact .inl ⟨running, waits⟩
  | reported _ agent =>
    rw [agent] at running waits
    exact .inl ⟨running, waits⟩

/-- Only a start makes a process run. -/
theorem running_before {c c' : State} {a : Action} {n : NodeID}
    (taken : step c a = some c') (running : (c'.agents n).running = true)
    (notStart : ∀ uuid, a ≠ .start n uuid) : (c.agents n).running = true := by
  cases step_move taken n with
  | kept same => exact same ▸ running
  | stopped was => exact was
  | started _ _ action => exact absurd action (notStart _)
  | read was => exact was
  | preWatched was => exact was
  | uploaded was => exact was
  | won was => exact was

/-! ### The service -/

/-- The handlers that call `SetReadWrite`. -/
def Opens : Handler → Prop
  | .setReadWrite | .rollbackReadOnly => True
  | _ => False

/-- The calls that may make the service of a node writable. -/
inductive Opening (agent : Agent) : Call → Prop where
  | promotes {outcome : Outcome} (loop : phase agent.loop = .promoting) :
      Opening agent (.service outcome)
  | handles {index : Nat} {outcome : Outcome} {handler : Handler} (effective : outcome ≠ .failed)
      (held : agent.handlers[index]? = some handler) (opens : Opens handler) :
      Opening agent (.handlerService index outcome)

private theorem readOnlyOrShutdown_writable {agent : Agent} {outcome : Outcome}
    {continuation : Agent → Agent}
    (kept : ∀ agent : Agent, (continuation agent).writable = agent.writable)
    (writable : (agent.readOnlyOrShutdown outcome continuation).after.writable = true) :
    agent.writable = true := by
  unfold Agent.readOnlyOrShutdown at writable
  split at writable
  · exact Agent.writable_of_setReadOnly ((kept _).symm.trans writable)
  · exact Agent.writable_of_setReadOnly writable

private theorem afterService_writable {agent : Agent} {outcome : Outcome} {next : Next}
    (moved : agent.afterService outcome = some next) (writable : next.after.writable = true) :
    agent.writable = true ∨ phase agent.loop = .promoting := by
  unfold Agent.afterService at moved
  split at moved
  case h_1 lease loop => exact .inr (by rw [loop]; rfl)
  case h_2 loop =>
    cases moved
    have before := (closeStopChAndLoop_fields _).2.2.2.2.symm.trans writable
    exact .inl (Agent.writable_of_setReadOnly before)
  case h_3 tenure loop => exact .inr (by rw [loop]; rfl)
  case h_4 lease loop => exact .inr (by rw [loop]; rfl)
  case h_5 loop => exact .inr (by rw [loop]; rfl)
  case h_6 loop =>
    cases moved
    exact .inl (readOnlyOrShutdown_writable
      (fun agent => (closeStopChAndLoop_fields agent).2.2.2.2) writable)
  case h_7 loop =>
    cases moved
    exact .inl (Agent.writable_of_setReadOnly writable)
  case h_8 loop =>
    split at moved <;> cases moved <;> exact .inl (Agent.writable_of_setReadOnly writable)
  case h_9 => contradiction

private theorem afterHandlerService_writable {agent : Agent} {revision index : Nat}
    {outcome : Outcome} {next : Next}
    (moved : agent.afterHandlerService revision index outcome = some next)
    (writable : next.after.writable = true) :
    agent.writable = true ∨ Opening agent (.handlerService index outcome) := by
  have opened : ∀ {handler : Handler}, agent.handlers[index]? = some handler → Opens handler →
      (agent.setReadWrite outcome).writable = true →
      agent.writable = true ∨ Opening agent (.handlerService index outcome) := by
    intro handler held opens writable
    by_cases failed : outcome = .failed
    · rw [Agent.setReadWrite, if_pos failed] at writable
      exact .inl writable
    · exact .inr (.handles failed held opens)
  unfold Agent.afterHandlerService at moved
  split at moved
  · cases moved
    exact .inl (readOnlyOrShutdown_writable (by intro _; rfl) writable)
  · rename_i held
    cases moved
    exact opened held trivial writable
  · rename_i held
    cases moved
    exact opened held trivial writable
  · contradiction

private theorem afterManual_writable {agent after : Agent} {index : Nat} {outcome : ManualOutcome}
    (moved : agent.afterManual index outcome = some after) (writable : after.writable = true) :
    agent.writable = true := by
  unfold Agent.afterManual at moved
  split at moved
  · cases moved
    exact writable
  · cases moved
    cases writable
  · cases moved
    exact Agent.writable_of_setReadOnly writable
  · contradiction

private theorem move_writable {agent : Agent} {etcd : Etcd} {nodes : List NodeID} {call : Call}
    {next : Next} (moved : agent.move etcd nodes call = some next)
    (writable : next.after.writable = true) :
    agent.writable = true ∨ Opening agent call := by
  cases Agent.moves_of_move moved with
  | service served => exact (afterService_writable served writable).imp_right .promotes
  | http request =>
    refine .inl ?_
    change (agent.accept request).writable = true at writable
    unfold Agent.accept at writable
    split at writable <;> exact writable
  | handlerService served => exact afterHandlerService_writable served writable
  | handlerManual manual => exact .inl (afterManual_writable manual writable)
  | handlerStop =>
    cases closed : agent.closeStopCh with
    | none =>
      rw [closed] at writable
      exact .inl writable
    | some after =>
      rw [closed] at writable
      exact .inl ((closeStopCh_fields closed).2.2.2.2 ▸ writable)
  | turn => exact .inl writable
  | keepAliveExit =>
    unfold Agent.afterKeepAlive at writable
    split at writable
    · exact .inl writable
    · exact .inl (readOnlyOrShutdown_writable (by intro _; rfl) writable)
  | close => exact .inl (readOnlyOrShutdown_writable (by intro _; rfl) writable)
  | exits => exact .inl writable
  | setOnlyFollow => exact .inl writable
  | advance advanced => exact .inl ((advance_handlers advanced).2 ▸ writable)

/-- A service that is writable after a step was writable before, or its own
process opened it. -/
theorem step_writable {c c' : State} {a : Action} (taken : step c a = some c') {n : NodeID}
    (writable : (c'.agents n).writable = true) :
    (c.agents n).writable = true ∨
      ∃ call, a = .call n call ∧ (c.agents n).running = true ∧ Opening (c.agents n) call := by
  cases step_agent taken n with
  | same agent =>
    rw [agent] at writable
    exact .inl writable
  | called action running moved agent =>
    rw [agent] at writable
    exact (move_writable moved writable).imp_right fun opening => ⟨_, action, running, opening⟩
  | granted _ _ granted agent =>
    rw [agent] at writable
    unfold Agent.afterGrant at granted
    split at granted <;> cases granted <;> exact .inl writable
  | replied _ _ _ agent =>
    rw [agent] at writable
    exact .inl ((afterRequest_fields _ _ _).2 ▸ writable)
  | handled _ _ agent =>
    rw [agent] at writable
    exact .inl writable
  | started _ _ _ agent =>
    rw [agent] at writable
    cases writable
  | serviceStopped _ agent =>
    rw [agent] at writable
    cases writable
  | reported _ agent =>
    rw [agent] at writable
    exact .inl writable

/-! ### The reports of the service manager -/

section Reports
variable (agent : Agent) (outcome : Outcome)

@[simp] private theorem setReadWrite_reports :
    (agent.setReadWrite outcome).reports = agent.reports := by
  unfold Agent.setReadWrite
  split <;> rfl

@[simp] private theorem setReadOnly_reports :
    (agent.setReadOnly outcome).reports = agent.reports := by
  unfold Agent.setReadOnly
  split <;> rfl

@[simp] private theorem closeStopChAndLoop_reports :
    agent.closeStopChAndLoop.reports = agent.reports := by
  unfold Agent.closeStopChAndLoop Agent.closeStopCh
  split
  · rfl
  · rename_i closed
    split at closed
    · contradiction
    · split at closed <;> cases closed
      rfl

private theorem readOnlyOrShutdown_reports {continuation : Agent → Agent}
    (kept : ∀ agent : Agent, (continuation agent).reports = agent.reports) :
    (agent.readOnlyOrShutdown outcome continuation).after.reports = agent.reports := by
  unfold Agent.readOnlyOrShutdown
  split
  · exact (kept _).trans (setReadOnly_reports agent outcome)
  · exact setReadOnly_reports agent outcome

private theorem afterService_reports {next : Next}
    (moved : agent.afterService outcome = some next) : next.after.reports = agent.reports := by
  unfold Agent.afterService at moved
  split at moved
  case h_6 =>
    cases moved
    exact readOnlyOrShutdown_reports agent outcome closeStopChAndLoop_reports
  all_goals (repeat' split at moved)
  all_goals cases moved
  all_goals simp [Next.after]

private theorem afterHandlerService_reports {revision index : Nat} {next : Next}
    (moved : agent.afterHandlerService revision index outcome = some next) :
    next.after.reports = agent.reports := by
  unfold Agent.afterHandlerService at moved
  split at moved
  · cases moved
    exact readOnlyOrShutdown_reports agent outcome fun _ => rfl
  · cases moved
    exact setReadWrite_reports agent outcome
  · cases moved
    exact setReadWrite_reports agent outcome
  · contradiction

private theorem afterManual_reports {after : Agent} {index : Nat} {outcome : ManualOutcome}
    (moved : agent.afterManual index outcome = some after) : after.reports = agent.reports := by
  unfold Agent.afterManual at moved
  split at moved
  all_goals cases moved
  · rfl
  · exact setReadOnly_reports agent .ok
  · exact setReadOnly_reports agent _

private theorem advance_reports {after : Agent} {etcd : Etcd} {nodes : List NodeID} {call : Call}
    (moved : agent.advance etcd nodes call = some after) : after.reports = agent.reports := by
  have readError : ∀ notValid, (agent.afterReadError notValid).reports = agent.reports := by
    intro notValid
    unfold Agent.afterReadError
    (repeat' split) <;> rfl
  have read : ∀ leader myTerm, (agent.afterRead leader myTerm).reports = agent.reports := by
    intro leader myTerm
    unfold Agent.afterRead
    dsimp only
    (repeat' split) <;> rfl
  cases call <;> simp only [Agent.advance] at moved
  all_goals (repeat' split at moved)
  all_goals first
    | contradiction
    | (cases moved; rfl)
    | (cases moved; exact readError _)
    | (cases moved; exact read _ _)

private theorem afterRequest_reports (revision : Nat) (reply : Reply) :
    (agent.afterRequest revision reply).reports = agent.reports := by
  have promoted : ∀ (agent : Agent) tenure, (agent.promote tenure).reports = agent.reports := by
    intro agent tenure
    unfold Agent.promote
    split <;> rfl
  unfold Agent.afterRequest
  split
  case h_3 => exact promoted _ _
  case h_7 => exact promoted _ _
  all_goals rfl

private theorem move_reports {etcd : Etcd} {nodes : List NodeID} {call : Call} {next : Next}
    (moved : agent.move etcd nodes call = some next) : next.after.reports = agent.reports := by
  cases Agent.moves_of_move moved with
  | service served => exact afterService_reports agent _ served
  | http =>
    simp only [Next.after, Agent.accept]
    split <;> rfl
  | handlerService served => exact afterHandlerService_reports agent _ served
  | handlerManual manual => exact afterManual_reports agent manual
  | handlerStop =>
    unfold Agent.closeStopCh
    (repeat' split) <;> rfl
  | turn => rfl
  | @keepAliveExit _ outcome =>
    unfold Agent.afterKeepAlive
    split
    · rfl
    · exact readOnlyOrShutdown_reports agent outcome (by intro _; rfl)
  | @close outcome => exact readOnlyOrShutdown_reports agent outcome fun _ => rfl
  | exits => rfl
  | setOnlyFollow => rfl
  | advance advanced => exact advance_reports agent advanced

end Reports

/-- What a service manager reports changes in its database only. -/
theorem step_reports {c c' : State} {a : Action} (taken : step c a = some c') (n : NodeID) :
    (c'.agents n).reports = (c.agents n).reports ∨ a = .report n (c'.agents n).reports := by
  cases step_agent taken n with
  | same agent => exact .inl (by rw [agent])
  | called _ _ moved agent =>
    rw [agent]
    exact .inl (move_reports _ moved)
  | granted _ _ granted agent =>
    rw [agent]
    unfold Agent.afterGrant at granted
    split at granted <;> cases granted <;> exact .inl rfl
  | replied _ _ _ agent =>
    rw [agent]
    exact .inl (afterRequest_reports _ _ _)
  | handled _ _ agent => exact .inl (by rw [agent]; rfl)
  | started _ _ _ agent => exact .inl (by rw [agent]; rfl)
  | serviceStopped _ agent => exact .inl (by rw [agent])
  | reported action agent => exact .inr (by rw [action, agent])

private theorem mem_resolve_limbo {c : State} {issued request : Request} {resolution : Resolution}
    (member : request ∈ (c.resolve issued resolution).limbo) :
    request ∈ c.limbo ∨ request = issued ∧ (c.resolve issued resolution).etcd = c.etcd := by
  cases resolution with
  | lost =>
    rcases List.mem_append.mp member with before | left
    · exact .inl before
    · exact .inr ⟨List.mem_singleton.mp left, rfl⟩
  | answered | unanswered => exact .inl member

/-- What is in limbo was there before, was at etcd for a running process, or is
a removal by the cleaner. -/
theorem step_limbo {c c' : State} {a : Action} (taken : step c a = some c') :
    ∀ request ∈ c'.limbo, request ∈ c.limbo ∨
      (∃ n, (c.agents n).running = true ∧ request ∈ (c.agents n).outstanding) ∨
      ∃ n, c'.etcd = c.etcd ∧ request = .startClean n c.etcd.revision := by
  intro request member
  cases a with
  | call m call =>
    obtain ⟨running, next, called, rfl⟩ := step_call taken
    rcases List.mem_append.mp member with before | left
    · exact .inl before
    · exact .inr (.inl ⟨m, running, abandoned_outstanding called left⟩)
  | etcd m resolution =>
    obtain ⟨running, issued, pending, rfl⟩ := step_etcd taken
    rcases mem_resolve_limbo member with before | ⟨rfl, _⟩
    · exact .inl before
    · exact .inr (.inl ⟨m, running, by simp [Agent.outstanding, pending]⟩)
  | handlerEtcd m index resolution =>
    obtain ⟨running, issued, held, rfl⟩ := step_handlerEtcd taken
    rcases mem_resolve_limbo member with before | ⟨rfl, _⟩
    · exact .inl before
    · refine .inr (.inl ⟨m, running, List.mem_append_right _ ?_⟩)
      exact List.mem_filterMap.mpr ⟨_, List.mem_of_getElem? held, rfl⟩
  | clean m resolution =>
    obtain ⟨_, rfl⟩ := step_clean taken
    rcases mem_resolve_limbo member with before | ⟨rfl, unchanged⟩
    · exact .inl before
    · exact .inr (.inr ⟨m, unchanged, rfl⟩)
  | late index =>
    obtain ⟨issued, _, rfl⟩ := step_late taken
    exact .inl (List.mem_of_mem_eraseIdx member)
  | grant m lease =>
    obtain ⟨_, _, _, after, _, rfl⟩ := step_grant taken
    exact .inl member
  | expire lease =>
    obtain ⟨_, rfl⟩ := step_expire taken
    exact .inl member
  | start m uuid =>
    obtain ⟨_, _, rfl⟩ := step_start taken
    exact .inl member
  | serviceStop m =>
    cases step_serviceStop taken
    exact .inl member
  | report m reports =>
    cases step_report taken
    exact .inl member

/-! ### What a step does to etcd -/

/-- Who applies a request. -/
inductive Applier (c : State) (a : Action) (request : Request) : Prop where
  | loop {n : NodeID} {resolution : Resolution} (action : a = .etcd n resolution)
      (running : (c.agents n).running = true) (pending : (c.agents n).pending = some request)
  | handler {n : NodeID} {index issued : Nat} {resolution : Resolution}
      (action : a = .handlerEtcd n index resolution) (running : (c.agents n).running = true)
      (held : (c.agents n).handlers[index]? = some (.changeMasterDelete issued))
      (removal : request = .deleteLeaderKey (c.agents n).server.id issued)
  | cleaner {n : NodeID} {resolution : Resolution} (action : a = .clean n resolution)
      (removal : request = .startClean n c.etcd.revision)
  | late {index : Nat} (action : a = .late index) (held : c.limbo[index]? = some request)

/-- What the loop of a node applies is what it has at etcd. -/
theorem pending_of_applied {c : State} {n : NodeID} {resolution : Resolution} {request : Request}
    (applies : applied c (.etcd n resolution) = some request) :
    resolution ≠ .lost ∧ (c.agents n).pending = some request := by
  simp only [applied] at applies
  split at applies
  · contradiction
  · exact ⟨by assumption, applies⟩

theorem applier {c c' : State} {a : Action} {request : Request} (taken : step c a = some c')
    (applies : applied c a = some request) : Applier c a request := by
  cases a with
  | etcd n resolution =>
    obtain ⟨running, _, _, _⟩ := step_etcd taken
    exact .loop rfl running (pending_of_applied applies).2
  | handlerEtcd n index resolution =>
    obtain ⟨running, issued, held, _⟩ := step_handlerEtcd taken
    simp only [applied] at applies
    split at applies
    · contradiction
    · rw [held] at applies
      cases applies
      exact .handler rfl running held rfl
  | clean n resolution =>
    simp only [applied] at applies
    split at applies
    · contradiction
    · cases applies
      exact .cleaner rfl rfl
  | late index => exact .late rfl applies
  | call | grant | expire | start | serviceStop | report => contradiction

/-- An applied request is committed. -/
theorem etcd_of_applied {c c' : State} {a : Action} {request : Request}
    (taken : step c a = some c') (applies : applied c a = some request) :
    c'.etcd = (c.etcd.commit request.txn).1 := by
  cases a with
  | etcd n resolution =>
    obtain ⟨_, issued, pending, rfl⟩ := step_etcd taken
    cases resolution <;> simp only [applied, pending, reduceCtorEq, ↓reduceIte] at applies <;>
      cases applies <;> rfl
  | handlerEtcd n index resolution =>
    obtain ⟨_, issued, held, rfl⟩ := step_handlerEtcd taken
    cases resolution <;> simp only [applied, held, reduceCtorEq, ↓reduceIte] at applies <;>
      cases applies <;> rfl
  | clean n resolution =>
    obtain ⟨_, rfl⟩ := step_clean taken
    cases resolution <;> simp only [applied, reduceCtorEq, ↓reduceIte] at applies <;>
      cases applies <;> rfl
  | late index =>
    obtain ⟨issued, held, rfl⟩ := step_late taken
    cases held.symm.trans applies
    rfl
  | call | grant | expire | start | serviceStop | report => contradiction

/-- What a step does to etcd. -/
inductive StoreMove (c : State) (a : Action) (etcd : Etcd) : Prop where
  | same (unchanged : etcd = c.etcd)
  | grant {lease : LeaseID} (granted : etcd = c.etcd.grant lease)
  | expire {lease : LeaseID} (action : a = .expire lease) (expired : etcd = c.etcd.expire lease)
  | commit {request : Request} (effect : TakesEffect c a request)
      (result : etcd = (c.etcd.commit request.txn).1)

private theorem storeMove_commit {c : State} {a : Action} {request : Request}
    (applies : applied c a = some request) : StoreMove c a (c.etcd.commit request.txn).1 := by
  by_cases succeeded : (c.etcd.commit request.txn).2 = .done true
  · exact .commit ⟨applies, succeeded⟩ rfl
  · exact .same (Store.commit_failed succeeded)

private theorem storeMove_resolve {c : State} {a : Action} {request : Request}
    {resolution : Resolution} (applies : resolution ≠ .lost → applied c a = some request) :
    StoreMove c a (c.resolve request resolution).etcd := by
  cases resolution with
  | lost => exact .same rfl
  | answered | unanswered => exact storeMove_commit (applies (by simp))

theorem step_store {c c' : State} {a : Action} (taken : step c a = some c') :
    StoreMove c a c'.etcd := by
  cases a with
  | call m call =>
    obtain ⟨_, next, _, rfl⟩ := step_call taken
    exact .same rfl
  | grant m lease =>
    obtain ⟨_, _, _, after, _, rfl⟩ := step_grant taken
    exact .grant rfl
  | etcd m resolution =>
    obtain ⟨_, issued, pending, rfl⟩ := step_etcd taken
    exact storeMove_resolve fun kept => by simp [applied, kept, pending]
  | handlerEtcd m index resolution =>
    obtain ⟨_, issued, held, rfl⟩ := step_handlerEtcd taken
    exact storeMove_resolve fun kept => by simp [applied, kept, held, Handler.request]
  | clean m resolution =>
    obtain ⟨_, rfl⟩ := step_clean taken
    exact storeMove_resolve fun kept => by simp [applied, kept]
  | late index =>
    obtain ⟨issued, held, rfl⟩ := step_late taken
    exact storeMove_commit held
  | expire lease =>
    obtain ⟨_, rfl⟩ := step_expire taken
    exact .expire rfl rfl
  | start m uuid =>
    obtain ⟨_, _, rfl⟩ := step_start taken
    exact .same rfl
  | serviceStop m =>
    cases step_serviceStop taken
    exact .same rfl
  | report m reports =>
    cases step_report taken
    exact .same rfl

theorem step_nodes {c c' : State} {a : Action} (taken : step c a = some c') :
    c'.nodes = c.nodes := by
  cases a with
  | call m call =>
    obtain ⟨_, next, _, rfl⟩ := step_call taken
    rfl
  | grant m lease =>
    obtain ⟨_, _, _, after, _, rfl⟩ := step_grant taken
    rfl
  | etcd m resolution =>
    obtain ⟨_, issued, _, rfl⟩ := step_etcd taken
    cases resolution <;> rfl
  | handlerEtcd m index resolution =>
    obtain ⟨_, issued, _, rfl⟩ := step_handlerEtcd taken
    cases resolution <;> rfl
  | clean m resolution =>
    obtain ⟨_, rfl⟩ := step_clean taken
    cases resolution <;> rfl
  | late index =>
    obtain ⟨issued, _, rfl⟩ := step_late taken
    rfl
  | expire lease =>
    obtain ⟨_, rfl⟩ := step_expire taken
    rfl
  | start m uuid =>
    obtain ⟨_, _, rfl⟩ := step_start taken
    rfl
  | serviceStop m =>
    cases step_serviceStop taken
    rfl
  | report m reports =>
    cases step_report taken
    rfl

/-! ### Well-formed states -/

/-- What holds in every state, whatever the steps. -/
structure WellFormed (c : State) : Prop where
  permanent : Permanent c.etcd
  id : ∀ n, (c.agents n).server.id = n
  member : ∀ n, (c.agents n).running = true → n ∈ c.nodes

/-- What a read leads to. -/
inductive ReadMove (before : Agent) (leader : Leader) (myTerm : UInt64) (after : Agent) : Prop where
  | itself (present : leader.name ≠ "") (name : leader.name = before.server.id)
      (loop : phase after.loop = .resuming (leader.spm == before.server.id))
      (term : after.server.term = leader.leaderMeta.term)
      (lastUUID : after.server.lastUUID = leader.leaderMeta.lastUUID)
      (lastGTID : after.server.lastGTID = leader.leaderMeta.lastGTID)
      (lastTxnID : after.server.lastTxnID = leader.leaderMeta.lastTxnID)
  | another (present : leader.name ≠ "") (name : leader.name ≠ before.server.id)
      (loop : after.loop = .preWatch leader)
      (memory : SameMemory { before.server with term := myTerm } after.server)
  | vacant (absent : leader.name = "")
      (loop : phase after.loop = .idle ∨ phase after.loop = .campaigning)
      (memory : SameMemory { before.server with term := myTerm } after.server)

theorem afterRead_move (agent : Agent) (leader : Leader) (myTerm : UInt64) :
    ReadMove agent leader myTerm (agent.afterRead leader myTerm) := by
  unfold Agent.afterRead
  dsimp only
  split
  · rename_i present
    split
    · rename_i same
      have name : leader.name = agent.server.id := by
        simpa [Server.isSameLeader] using same
      split
      · rename_i spm
        exact .itself present name (by simp [phase, spm]) rfl rfl rfl rfl
      · rename_i spm
        have flag : (leader.spm == agent.server.id) = false := by simpa using spm
        exact .itself present name (by rw [flag]; rfl) rfl rfl rfl rfl
    · rename_i different
      have name : leader.name ≠ agent.server.id := by
        simpa [Server.isSameLeader] using different
      exact .another present name rfl (.refl _)
  · rename_i absent
    have absent : leader.name = "" := by simpa using absent
    split
    · exact .vacant absent (.inl rfl) (.refl _)
    · split
      · exact .vacant absent (.inr rfl) (.refl _)
      · exact .vacant absent (.inr rfl) (.refl _)

theorem preWatch_id (s : Server) (reports : Reports) (leader : Leader) :
    (preWatch s reports leader).1.id = s.id := by
  obtain ⟨loaded, rfl | ⟨info, rfl⟩, after | after⟩ := preWatch_fst s reports leader <;>
    rw [after] <;> rfl

theorem wellFormed_init (nodes : List NodeID) (named : "" ∉ nodes) (cfg : NodeID → Config) :
    WellFormed (init nodes named cfg) where
  permanent := by
    intro key entry _ _ found
    cases found
  id := fun n => rfl
  member := by
    intro n running
    cases running

theorem wellFormed_step {c c' : State} {a : Action} (formed : WellFormed c)
    (taken : step c a = some c') : WellFormed c' where
  permanent := by
    cases step_store taken with
    | same unchanged => rw [unchanged]; exact formed.permanent
    | grant granted => rw [granted]; exact formed.permanent
    | expire _ expired => rw [expired]; exact permanent_expire formed.permanent _
    | commit _ result => rw [result]; exact permanent_commit formed.permanent _
  id := by
    intro n
    have before := formed.id n
    cases step_move taken n with
    | kept _ memory => exact memory.id.trans before
    | stopped _ _ memory => exact memory.id.trans before
    | started _ _ _ result => rw [result]; exact before
    | read _ _ _ _ result => rw [result, (afterRead_fields _ _ _).2.1]; exact before
    | preWatched _ _ _ result => rw [result]; exact (preWatch_id _ _ _).trans before
    | uploaded _ _ _ result => rw [result]; exact before
    | won _ _ _ _ _ _ _ memory => exact memory.id.trans before
  member := by
    intro n running
    rw [step_nodes taken]
    cases step_move taken n with
    | kept same => exact formed.member n (same ▸ running)
    | stopped _ stopped => rw [stopped] at running; contradiction
    | started member => exact member
    | read was => exact formed.member n was
    | preWatched was => exact formed.member n was
    | uploaded was => exact formed.member n was
    | won was => exact formed.member n was

theorem wellFormed_of_run {Allowed : State → Action → Prop} {nodes : List NodeID}
    {named : "" ∉ nodes} {cfg : NodeID → Config} {c : State}
    (run : Run step Allowed (init nodes named cfg) c) : WellFormed c :=
  run.invariant (wellFormed_init nodes named cfg) fun formed _ taken =>
    wellFormed_step formed taken

/-- What a step does to the view of etcd. -/
inductive ViewMove (c : State) (a : Action) (v : View) : Prop where
  | same (unchanged : v = view c.etcd)
  | expire {lease : LeaseID} (action : a = .expire lease)
      (expired : v = (view c.etcd).expire lease)
  | effect {request : Request} (effect : TakesEffect c a request)
      (guard : Guard (view c.etcd) request)
      (acted : v = act (c.etcd.revision + 1) (view c.etcd) request)

theorem step_view {c c' : State} {a : Action} (formed : WellFormed c)
    (taken : step c a = some c') : ViewMove c a (view c'.etcd) := by
  cases step_store taken with
  | same unchanged => exact .same (by rw [unchanged])
  | grant granted => exact .same (by rw [granted]; rfl)
  | expire action expired =>
    exact .expire action (by rw [expired, view_expire formed.permanent])
  | commit effect result =>
    obtain ⟨guard, acted⟩ := view_commit effect.2
    exact .effect effect guard (by rw [result, acted])

/-- Only a campaign of the node makes it the leader. -/
theorem ledBy_before {c c' : State} {a : Action} {n : NodeID} (formed : WellFormed c)
    (taken : step c a = some c') (led : (view c'.etcd).LedBy n) :
    (view c.etcd).LedBy n ∨
      ∃ request s, TakesEffect c a request ∧ request.campaigner = some s ∧ s.id = n := by
  cases step_view formed taken with
  | same unchanged => exact .inl (unchanged ▸ led)
  | expire _ expired =>
    rw [expired] at led
    exact .inl led.of_expire
  | @effect request effect guard acted =>
    rw [acted] at led
    rcases request_kinds request with ⟨s, campaigns⟩ | ⟨s, resumes⟩ | ⟨id, removes⟩ | other
    · exact .inr ⟨request, s, effect, campaigns, led_act (.inl campaigns) led⟩
    · exact .inl (led_act (.inr resumes) led ▸ guard_resumer resumes guard)
    · exact absurd led (led_act_remover removes)
    · exact .inl ((led_act_other other).mp led)

/-- Unless the node itself calls or starts, a loop that is neither idle nor
promoting after the step stood there before, with the same memory. -/
theorem Move.steady {c : State} {a : Action} {n : NodeID} {after : Agent}
    (move : Move c a n after) (notCall : ∀ call, a ≠ .call n call)
    (notStart : ∀ uuid, a ≠ .start n uuid) (running : after.running = true)
    (busy : phase after.loop ≠ .idle) (settled : phase after.loop ≠ .promoting) :
    (c.agents n).running = true ∧ SameMemory (c.agents n).server after.server ∧
      phase after.loop = phase (c.agents n).loop := by
  cases move with
  | kept same memory loop =>
    rcases loop with loop | idle
    · exact ⟨same ▸ running, memory, loop⟩
    · exact absurd idle busy
  | stopped _ stopped => rw [stopped] at running; contradiction
  | started _ _ action => exact absurd action (notStart _)
  | read _ action => exact absurd action (notCall _)
  | preWatched _ action => exact absurd action (notCall _)
  | uploaded _ action => exact absurd action (notCall _)
  | won _ _ _ _ _ _ promoting => exact absurd promoting settled

theorem notCall_of_applied {c : State} {a : Action} {request : Request} {n : NodeID}
    (applies : applied c a = some request) :
    (∀ call, a ≠ .call n call) ∧ ∀ uuid, a ≠ .start n uuid := by
  constructor
  · rintro call rfl
    cases applies
  · rintro uuid rfl
    cases applies

end Moha.ClusterSteps
