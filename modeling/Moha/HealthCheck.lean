import Moha.ReadOnlyLoop

/-! What the health checks of `agent/http.go` tell a load balancer. They read two
atomic flags, which the loop sets and clears on its way; the invariants below
tie the flags to the position of the loop. A node that serves alone passes both
checks, one that holds a leadership by a lease passes the master's only, and one
that follows a leader the slave's only. -/
namespace Moha.HealthCheck
open LeaderRecord Election LeaderLoop Cluster ClusterSteps Runs

structure Response where
  status : Nat
  body : String
  deriving DecidableEq, Repr

/-- The first `Write` of a handler sends the status with it. -/
def statusOK : Response := ⟨200, "ok"⟩

/-- `http.Error` with the text of the status. -/
def statusTeapot : Response := ⟨418, "I'm a teapot\n"⟩

def masterCheck (s : Server) : Response := if s.isLeader then statusOK else statusTeapot

def slaveCheck (s : Server) : Response :=
  if !s.isLeader || s.isSinglePointMaster then statusOK else statusTeapot

/-- What the position of a loop says about its node. -/
inductive Role where
  | leads
  | servesAlone
  | follows
  | undecided
  deriving DecidableEq, Repr

def role : Loop → Role
  | .resumeReadWrite _ | .resumeReadOnly | .promoteToMaster _ | .uploadPromotion _
  | .uploadPromotionPut .. | .promoteReadWrite _ | .promoteFailed | .barrier _
  | .singlePointFailed | .removeSPM => .leads
  | .waitUntilSlaveAppears | .singlePointReadOnly => .servesAlone
  | .redirectMaster .. | .watchLeader .. => .follows
  | _ => .undecided

/-- The flags agree with the role. -/
structure Agrees (agent : Agent) : Prop where
  leads : role agent.loop = .leads ∨ role agent.loop = .servesAlone →
    agent.server.isLeader = true
  follows : role agent.loop = .follows → agent.server.isLeader = false
  alone : agent.server.isSinglePointMaster = true ↔ role agent.loop = .servesAlone

/-- A process that runs has flags that agree with its role. -/
def Flagged (agent : Agent) : Prop := agent.running = true → Agrees agent

theorem flagged_stopped (agent : Agent) : Flagged agent.stopped :=
  fun running => nomatch running

/-! ### Calls -/

section Calls
variable {agent after : Agent}

/-- The flags and the loop are all that matters. -/
theorem Agrees.of_fields (agrees : Agrees agent)
    (leader : after.server.isLeader = agent.server.isLeader)
    (single : after.server.isSinglePointMaster = agent.server.isSinglePointMaster)
    (loop : after.loop = agent.loop) : Agrees after := by
  obtain ⟨leads, follows, alone⟩ := agrees
  refine ⟨?_, ?_, ?_⟩ <;> rw [loop]
  · rwa [leader]
  · rwa [leader]
  · rwa [single]

theorem Agrees.of_server (agrees : Agrees agent) (server : after.server = agent.server)
    (loop : after.loop = agent.loop) : Agrees after :=
  agrees.of_fields (by rw [server]) (by rw [server]) loop

/-- A loop whose position does not decide the role, after one that did not serve
alone. -/
theorem Agrees.undecided (agrees : Agrees agent) (was : role agent.loop ≠ .servesAlone)
    (single : after.server.isSinglePointMaster = agent.server.isSinglePointMaster)
    (loop : role after.loop = .undecided) : Agrees after where
  leads held := by simp [loop] at held
  follows held := by simp [loop] at held
  alone := by
    rw [single, agrees.alone, loop]
    simp [was]

theorem Agrees.leading (agrees : Agrees agent) (was : role agent.loop ≠ .servesAlone)
    (leader : after.server.isLeader = true)
    (single : after.server.isSinglePointMaster = agent.server.isSinglePointMaster)
    (loop : role after.loop = .leads) : Agrees after where
  leads _ := leader
  follows held := by simp [loop] at held
  alone := by
    rw [single, agrees.alone, loop]
    simp [was]

/-- A leading node that goes on leading. -/
theorem Agrees.stays (agrees : Agrees agent) (was : role agent.loop = .leads)
    (server : after.server = agent.server) (loop : role after.loop = .leads) : Agrees after := by
  apply agrees.leading _ _ (by rw [server]) loop
  · simp [was]
  · rw [server]
    exact agrees.leads (.inl was)

theorem agrees_closeStopChAndLoop (agrees : Agrees agent)
    (was : role agent.loop ≠ .servesAlone) : Agrees agent.closeStopChAndLoop := by
  unfold Agent.closeStopChAndLoop
  split
  · exact agrees.undecided was rfl rfl
  · rename_i closed
    have server := (closeStopCh_fields closed).2.1
    exact agrees.undecided was (by rw [server]) rfl

theorem agrees_setReadOnly (agrees : Agrees agent) (outcome : Outcome) :
    Agrees (agent.setReadOnly outcome) :=
  have fields := setReadOnly_fields agent outcome
  agrees.of_server fields.2.1 fields.2.2.1

theorem flagged_readOnlyOrShutdown {outcome : Outcome} {continuation : Agent → Agent}
    (goesOn : Agrees (continuation (agent.setReadOnly outcome))) :
    Flagged (agent.readOnlyOrShutdown outcome continuation).after := by
  unfold Agent.readOnlyOrShutdown
  split
  · exact fun _ => goesOn
  · exact flagged_stopped _

/-- After `SetReadWrite` under a lease a node leads on, or starts over where its keep-alive
goroutine has ended. -/
theorem Agrees.afterReadWrite {outcome : Outcome} {lease : KeyValueStore.LeaseID}
    {failed : Loop} (agrees : Agrees agent) (was : role agent.loop = .leads)
    (fails : role failed = .leads) :
    Agrees { agent.setReadWrite outcome with
      loop := if outcome = .ok then agent.awaitKeepAlive lease else failed } := by
  have write := (setReadWrite_fields agent outcome).2.1
  split
  · rcases agent.awaitKeepAlive_eq lease with next | next
    · exact agrees.stays was write (by rw [next]; rfl)
    · exact agrees.undecided (by simp [was]) (by rw [write]) (by rw [next]; rfl)
  · exact agrees.stays was write fails

theorem flagged_service {outcome : Outcome} {next : Next} (agrees : Agrees agent)
    (served : agent.afterService outcome = some next) : Flagged next.after := by
  have write := (setReadWrite_fields agent outcome).2.1
  have read := setReadOnly_fields agent outcome
  unfold Agent.afterService at served
  split at served
  case h_1 lease loop =>
    cases served
    intro _
    exact agrees.afterReadWrite (by rw [loop]; rfl) (by rfl)
  case h_2 loop =>
    cases served
    intro _
    apply agrees_closeStopChAndLoop (agrees_setReadOnly agrees outcome)
    rw [read.2.2.1, loop]
    simp [role]
  case h_3 tenure loop =>
    cases served
    exact fun _ => agrees.stays (by rw [loop]; rfl) rfl rfl
  case h_4 lease loop =>
    cases served
    intro _
    exact agrees.afterReadWrite (by rw [loop]; rfl) (by rfl)
  case h_5 loop =>
    have leader := agrees.leads (.inl (by rw [loop]; rfl))
    split at served <;> cases served
    · intro _
      exact ⟨fun _ => leader, fun held => by simp [Next.after, role] at held,
        by simp [Next.after, role]⟩
    · exact fun _ => agrees.stays (by rw [loop]; rfl) write rfl
  case h_6 loop =>
    cases served
    apply flagged_readOnlyOrShutdown
    apply agrees_closeStopChAndLoop (agrees_setReadOnly agrees outcome)
    rw [read.2.2.1, loop]
    simp [role]
  case h_7 loop =>
    cases served
    exact fun _ => agrees.stays (by rw [loop]; rfl) read.2.1 rfl
  case h_8 loop =>
    have leader := agrees.leads (.inr (by rw [loop]; rfl))
    split at served <;> cases served
    · intro _
      exact ⟨fun _ => leader, fun held => by simp [Next.after, role] at held,
        by simp [Next.after, role]⟩
    · exact fun _ => agrees_setReadOnly agrees outcome
  case h_9 => contradiction

theorem agrees_afterReadError (agrees : Agrees agent) (loop : agent.loop = .getLeader)
    (notValid : Bool) : Agrees (agent.afterReadError notValid) := by
  have was : role agent.loop ≠ .servesAlone := by simp [loop, role]
  unfold Agent.afterReadError
  split
  · exact agrees.undecided was rfl rfl
  · split
    · exact agrees.undecided was rfl rfl
    · exact agrees.undecided was rfl rfl

theorem agrees_afterRead (agrees : Agrees agent) (loop : agent.loop = .getLeader)
    (leader : Leader) (myTerm : UInt64) : Agrees (agent.afterRead leader myTerm) := by
  have was : role agent.loop ≠ .servesAlone := by simp [loop, role]
  unfold Agent.afterRead
  dsimp only
  repeat' split
  all_goals exact agrees.undecided was rfl rfl

theorem preWatch_isSinglePointMaster (s : Server) (reports : Reports) (leader : Leader) :
    (Election.preWatch s reports leader).1.isSinglePointMaster = s.isSinglePointMaster := by
  obtain ⟨loaded, from_s, same | termed⟩ := preWatch_fst s reports leader
  · rw [same]
    rcases from_s with rfl | ⟨info, rfl⟩ <;> rfl
  · rw [termed]
    rcases from_s with rfl | ⟨info, rfl⟩ <;> rfl

/-- A node that turns to a leader gives up its flag, and keeps it given up while
it follows. -/
theorem Agrees.following (agrees : Agrees agent) (was : role agent.loop ≠ .servesAlone)
    (leader : after.server.isLeader = false)
    (single : after.server.isSinglePointMaster = agent.server.isSinglePointMaster)
    (loop : role after.loop = .follows) : Agrees after where
  leads held := by simp [loop] at held
  follows _ := leader
  alone := by
    rw [single, agrees.alone, loop]
    simp [was]

theorem agrees_advance {etcd : Etcd} {nodes : List NodeID} {call : Call} (agrees : Agrees agent)
    (advanced : agent.advance etcd nodes call = some after) : Agrees after := by
  cases call <;> simp only [Agent.advance] at advanced
  case read =>
    split at advanced <;> try contradiction
    rename_i loop
    split at advanced <;> cases advanced
    · exact agrees_afterReadError agrees loop _
    · exact agrees_afterRead agrees loop _ _
  case readLost =>
    split at advanced <;> cases advanced
    rename_i loop
    exact agrees_afterReadError agrees loop false
  case grantLost =>
    split at advanced <;> cases advanced <;> rename_i loop
    · exact agrees.undecided (by simp [loop, role]) rfl rfl
    · exact agrees.undecided (by simp [loop, role]) rfl rfl
  case preWatch =>
    split at advanced <;> cases advanced
    rename_i loop
    refine agrees.undecided (by simp [loop, role]) (preWatch_isSinglePointMaster _ _ _) ?_
    dsimp only
    split <;> rfl
  case nodeStatus =>
    split at advanced <;> try contradiction
    rename_i loop
    split at advanced <;> cases advanced
    · exact agrees.following (by simp [loop, role]) rfl rfl rfl
    · exact agrees.undecided (by simp [loop, role]) rfl rfl
  case redirectMaster =>
    split at advanced <;> try contradiction
    rename_i loop
    have leader := agrees.follows (by rw [loop]; rfl)
    split at advanced
    · cases advanced
      exact agrees.following (by simp [loop, role]) leader rfl rfl
    · split at advanced <;> cases advanced
      · exact agrees.following (by simp [loop, role]) leader rfl rfl
      · exact agrees.undecided (by simp [loop, role]) rfl rfl
  case watchEnds =>
    split at advanced <;> try contradiction
    rename_i loop
    split at advanced <;> cases advanced
    · exact agrees.following (by simp [loop, role]) (agrees.follows (by rw [loop]; rfl)) rfl rfl
    · exact agrees.undecided (by simp [loop, role]) rfl rfl
  case upload =>
    split at advanced
    · rename_i loop
      cases advanced
      exact agrees.undecided (by simp [loop, role]) rfl rfl
    · rename_i loop
      split at advanced <;> cases advanced
      · exact agrees.undecided (by simp [loop, role]) rfl rfl
      · rename_i uploaded
        obtain ⟨info, -, equal⟩ := Option.map_eq_some_iff.mp uploaded
        cases equal
        exact agrees.undecided (by simp [loop, role]) rfl rfl
    · contradiction
  case download =>
    split at advanced <;> cases advanced
    rename_i loop
    refine agrees.undecided (by simp [loop.1, role]) rfl ?_
    dsimp only
    split <;> rfl
  case loadPromotion =>
    split at advanced <;> try contradiction
    rename_i loop
    split at advanced <;> cases advanced
    · exact agrees.stays (by rw [loop]; rfl) rfl rfl
    · exact agrees.stays (by rw [loop]; rfl) rfl rfl
  case slaveAppears =>
    split at advanced <;> cases advanced
    rename_i loop
    have alone : role agent.loop = .servesAlone := by rw [loop]; rfl
    exact ⟨fun _ => agrees.leads (.inr alone), fun held => by simp [role] at held,
      ⟨fun _ => rfl, fun _ => agrees.alone.mpr alone⟩⟩
  all_goals contradiction

theorem flagged_call {etcd : Etcd} {nodes : List NodeID} {call : Call} {next : Next}
    (agrees : Agrees agent) (moved : agent.move etcd nodes call = some next) :
    Flagged next.after := by
  cases Agent.moves_of_move moved with
  | service served => exact flagged_service agrees served
  | http request =>
    intro _
    dsimp only [Next.after]
    unfold Agent.accept
    split
    · exact agrees.of_server rfl rfl
    · exact agrees
  | @handlerService index outcome _ served =>
    unfold Agent.afterHandlerService at served
    have write := setReadWrite_fields agent outcome
    split at served
    · cases served
      exact flagged_readOnlyOrShutdown ((agrees_setReadOnly agrees outcome).of_server rfl rfl)
    · cases served
      exact fun _ => agrees.of_server write.2.1 write.2.2.1
    · cases served
      exact fun _ => agrees.of_server write.2.1 write.2.2.1
    · contradiction
  | handlerManual manual =>
    intro _
    unfold Agent.afterManual at manual
    split at manual <;> cases manual
    · exact agrees.of_server rfl rfl
    · exact agrees.of_server rfl rfl
    · exact (agrees_setReadOnly agrees _).of_server rfl rfl
  | handlerStop =>
    intro _
    cases closed : agent.closeStopCh with
    | none => exact agrees.of_server rfl rfl
    | some after =>
      have fields := closeStopCh_fields closed
      exact agrees.of_server fields.2.1 fields.2.2.1
  | turn => exact fun _ => agrees.of_server rfl rfl
  | @keepAliveExit lease outcome =>
    have release : ∀ agent : Agent, Agrees agent → Agrees { agent with
        keepAlives := agent.keepAlives.filter fun held => held.lease != lease
        loop := if agent.loop = .barrier lease then .getLeader else agent.loop } := by
      intro agent agrees
      by_cases barrier : agent.loop = .barrier lease
      · exact agrees.undecided (by simp [barrier, role]) rfl (by simp [barrier, role])
      · exact agrees.of_server rfl (if_neg barrier)
    unfold Agent.afterKeepAlive
    split
    · exact fun _ => release agent agrees
    · exact flagged_readOnlyOrShutdown (release _ (agrees_setReadOnly agrees outcome))
  | @close outcome =>
    exact flagged_readOnlyOrShutdown ((agrees_setReadOnly agrees outcome).of_fields rfl rfl rfl)
  | exits => exact flagged_stopped agent
  | setOnlyFollow => exact fun _ => agrees.of_fields rfl rfl rfl
  | advance advanced => exact fun _ => agrees_advance agrees advanced

theorem agrees_promote (agrees : Agrees agent) (was : role agent.loop ≠ .servesAlone)
    (tenure : Tenure) : Agrees (agent.promote tenure) := by
  unfold Agent.promote
  split
  · rename_i leader
    exact agrees.leading was leader rfl rfl
  · exact agrees.leading was rfl rfl rfl

theorem agrees_afterRequest (agrees : Agrees agent) (revision : Nat) (reply : KeyValueStore.Reply) :
    Agrees (agent.afterRequest revision reply) := by
  unfold Agent.afterRequest
  split
  case h_1 => exact agrees.leading (by simp [*, role]) rfl rfl rfl
  case h_3 lease loop =>
    have campaigns : Agrees { agent.keepLeaderAlive lease with
        server := { agent.server with term := agent.server.term + 1 } } :=
      agrees.of_fields rfl rfl rfl
    exact agrees_promote campaigns (by simp [Agent.keepLeaderAlive, loop, role]) _
  case h_7 => exact agrees_promote agrees (by simp [*, role]) _
  case h_12 loop => exact agrees.stays (by rw [loop]; rfl) rfl rfl
  case h_14 => exact agrees
  all_goals exact agrees.undecided (by simp [*, role]) rfl rfl

end Calls

/-! ### Every step, every run -/

theorem flagged_step {c c' : State} {a : Action} (flagged : ∀ n, Flagged (c.agents n))
    (taken : step c a = some c') (n : NodeID) : Flagged (c'.agents n) := by
  cases step_agent taken n with
  | same agent =>
    rw [agent]
    exact flagged n
  | called _ running moved agent =>
    rw [agent]
    exact flagged_call (flagged n running) moved
  | granted _ running granted agent =>
    rw [agent]
    have agrees := flagged n running
    unfold Agent.afterGrant at granted
    split at granted <;> cases granted <;> rename_i loop
    · exact fun _ => agrees.undecided (by simp [loop, role]) rfl rfl
    · exact fun _ => agrees.undecided (by simp [loop, role]) rfl rfl
  | replied _ running _ agent =>
    rw [agent]
    exact fun _ => agrees_afterRequest (flagged n running) _ _
  | handled _ running agent =>
    rw [agent]
    exact fun _ => (flagged n running).of_server rfl rfl
  | started _ _ _ agent =>
    rw [agent]
    intro _
    exact ⟨fun held => by simp [Agent.started, role] at held, fun _ => rfl,
      by simp [Agent.started, role]⟩
  | serviceStopped _ agent =>
    rw [agent]
    exact fun running => (flagged n running).of_server rfl rfl
  | reported _ agent =>
    rw [agent]
    exact fun running => (flagged n running).of_server rfl rfl

theorem run_agrees {nodes : List NodeID} {named : "" ∉ nodes} {cfg : NodeID → Config} {c : State}
    {Allowed : State → Action → Prop} (run : Run step Allowed (init nodes named cfg) c)
    {n : NodeID} (running : (c.agents n).running = true) : Agrees (c.agents n) := by
  have flagged : ∀ n, Flagged (c.agents n) :=
    @Run.invariant _ _ _ _ _ _ (fun c => ∀ n, Flagged (c.agents n)) run
      (fun _ running => nomatch running) fun flagged _ taken => flagged_step flagged taken
  exact flagged n running

/-- In every run a process that holds a leadership passes the master's check, one
that follows a leader fails it and passes the slave's, and exactly a node that
serves alone passes both. -/
theorem checks_tell_role {nodes : List NodeID} {named : "" ∉ nodes} {cfg : NodeID → Config}
    {c : State} (run : Run step (fun _ _ => True) (init nodes named cfg) c) {n : NodeID}
    (running : (c.agents n).running = true) :
    (role (c.agents n).loop = .leads →
      masterCheck (c.agents n).server = statusOK ∧
        slaveCheck (c.agents n).server = statusTeapot) ∧
    (role (c.agents n).loop = .follows →
      masterCheck (c.agents n).server = statusTeapot ∧
        slaveCheck (c.agents n).server = statusOK) ∧
    (masterCheck (c.agents n).server = statusOK ∧ slaveCheck (c.agents n).server = statusOK ↔
      role (c.agents n).loop = .servesAlone) := by
  have agrees := run_agrees run running
  refine ⟨fun leads => ?_, fun follows => ?_, ?_⟩
  · have single : (c.agents n).server.isSinglePointMaster = false := by
      rw [Bool.eq_false_iff]
      intro alone
      rw [agrees.alone.mp alone] at leads
      contradiction
    simp [masterCheck, slaveCheck, agrees.leads (.inl leads), single]
  · simp [masterCheck, slaveCheck, agrees.follows follows]
  · constructor
    · rintro ⟨master, slave⟩
      have leader : (c.agents n).server.isLeader = true := by
        by_contra notLeader
        simp [masterCheck, notLeader, statusOK, statusTeapot] at master
      apply agrees.alone.mp
      by_contra notAlone
      simp [slaveCheck, leader, notAlone, statusOK, statusTeapot] at slave
    · intro alone
      simp [masterCheck, slaveCheck, agrees.leads (.inr alone), agrees.alone.mpr alone]

/-- A node that serves alone, reached after a crash of the only node. -/
theorem checks_tell_role_alone :
    ∃ c, Run step (fun _ _ => True) (init ["a"] (by decide) sampleCfg) c ∧
      (c.agents "a").running = true ∧ masterCheck (c.agents "a").server = statusOK ∧
      slaveCheck (c.agents "a").server = statusOK := by
  have ran : (exec (restrict step fun _ _ => true) (init ["a"] (by decide) sampleCfg)
      (becomesSinglePoint ++ [.call "a" (.service .ok), .call "a" .loadPromotion,
        .call "a" (.service .ok)])).any
      (fun c => (c.agents "a").running && role (c.agents "a").loop == .servesAlone) = true := by
    decide +kernel
  obtain ⟨c, run, found⟩ := exists_run_of_exec (fun _ _ _ => trivial) ran
  simp only [Bool.and_eq_true, beq_iff_eq] at found
  exact ⟨c, run, found.1, (checks_tell_role run found.1).2.2.mpr found.2⟩

open ReadOnlyLoop in
/-- A load balancer that trusts the master's check finds every writable service:
in the runs in which the loop starts read-only, a process whose `leaderLoop` runs
and whose service is writable passes it. -/
theorem writable_service_passes_masterCheck {nodes : List NodeID} {named : "" ∉ nodes}
    {cfg : NodeID → Config} {c : State} (run : Run step Enforced (init nodes named cfg) c)
    {n : NodeID} (running : (c.agents n).running = true)
    (writable : (c.agents n).writable = true) : masterCheck (c.agents n).server = statusOK := by
  have position := (guarded_of_run run n running writable).1
  have leader : (c.agents n).server.isLeader = true := by
    apply (run_agrees run running).leads
    revert position
    cases (c.agents n).loop <;> simp [MayBeWritable, role]
  simp [masterCheck, leader]

/-- A decidable condition that is enough for an enforced step. -/
private def undisturbed (c : State) : Action → Bool
  | .call n (.service outcome) => outcome == .ok && !(c.agents n).server.isClosed
  | .call _ call => !isHttp call
  | _ => true

private theorem enforced_of_undisturbed {c : State} {a : Action}
    (check : undisturbed c a = true) : ReadOnlyLoop.Enforced c a := by
  constructor
  · rintro n call rfl
    cases call <;> simp_all [undisturbed, isHttp]
  · rintro n outcome rfl
    simp only [undisturbed, Bool.and_eq_true, beq_iff_eq, Bool.not_eq_true'] at check
    obtain ⟨rfl, isOpen⟩ := check
    refine ⟨fun _ _ => by simp, fun closed => ?_⟩
    rw [isOpen] at closed
    contradiction

/-- The first node that comes up wins the leadership and serves. -/
theorem writable_service_passes_masterCheck_first_leader :
    ∃ c, Run step ReadOnlyLoop.Enforced (init ["a"] (by decide) sampleCfg) c ∧
      (c.agents "a").writable = true ∧ masterCheck (c.agents "a").server = statusOK := by
  have ran : (exec (restrict step undisturbed) (init ["a"] (by decide) sampleCfg)
      [.start "a" "u", .call "a" .read, .grant "a" 1, .etcd "a" .answered,
        .call "a" (.service .ok), .call "a" .loadPromotion, .call "a" (.service .ok)]).any
      (fun c => (c.agents "a").running && (c.agents "a").writable) = true := by
    decide +kernel
  obtain ⟨c, run, found⟩ := exists_run_of_exec (fun _ _ => enforced_of_undisturbed) ran
  obtain ⟨running, writable⟩ := Bool.and_eq_true_iff.mp found
  exact ⟨c, run, writable, writable_service_passes_masterCheck run running writable⟩

end Moha.HealthCheck
