import Moha.StopChannel

/-! The invariant that the first line of `leaderLoop` leaves as a TODO: the
service is read-only whenever the loop starts over. A service that is writable
belongs to a loop between `SetReadWrite` and the `SetReadOnly` that ends it, so
every way back to the start has to see that `SetReadOnly` take effect. Two of
them drop its error. The loop also goes back without a `SetReadOnly` of its own where it
finds its keep-alive goroutine ended; without HTTP requests it never does, since nobody
else closes the stop channel. -/
namespace Moha.ReadOnlyLoop
open KeyValueStore LeaderRecord Election LeaderLoop Cluster ClusterSteps Runs
open StopChannel (Disciplined heldLease Orderly OneChange changes disciplined_idle
  disciplined_step)

/-- The positions of the loop from a `SetReadWrite` to the `SetReadOnly` after it. -/
def MayBeWritable : Loop → Bool
  | .resumeReadOnly | .barrier _ | .promoteFailed | .singlePointFailed | .waitUntilSlaveAppears
  | .singlePointReadOnly => true
  | _ => false

/-- No HTTP request. -/
def NoHttp (_ : State) (a : Action) : Prop := ∀ n call, a = .call n call → isHttp call = false

/-- The `SetReadOnly` whose error `leaderLoop` and `becomeSinglePointMaster` drop
takes effect on a writable service, and no service call of a closed server does. -/
def Enforced (c : State) (a : Action) : Prop :=
  NoHttp c a ∧ ∀ n outcome, a = .call n (.service outcome) →
    ((c.agents n).loop = .resumeReadOnly ∨ (c.agents n).loop = .singlePointFailed →
      (c.agents n).writable = true → outcome ≠ .failed) ∧
    ((c.agents n).server.isClosed = true → outcome = .failed)

/-- A writable service has a loop that will set it read-only, and an open server. -/
def Guarded (agent : Agent) : Prop :=
  agent.running = true → agent.writable = true →
    MayBeWritable agent.loop = true ∧ agent.server.isClosed = false

theorem Guarded.readOnly {agent : Agent} (guarded : Guarded agent) (running : agent.running = true)
    (loop : MayBeWritable agent.loop = false) : agent.writable = false := by
  rw [Bool.eq_false_iff]
  intro writable
  cases loop.symm.trans (guarded running writable).1

private theorem guarded_of_readOnly {agent : Agent} (readOnly : agent.writable = false) :
    Guarded agent :=
  fun _ writable => nomatch readOnly.symm.trans writable

private theorem guarded_stopped (agent : Agent) : Guarded agent.stopped :=
  fun running _ => nomatch running

/-! ### Without HTTP requests no handler runs -/

private theorem handlers_service {agent : Agent} {outcome : Outcome} {next : Next}
    (none : agent.handlers = []) (moved : agent.afterService outcome = some next) :
    next.after.handlers = [] := by
  have readOnly := (setReadOnly_fields agent outcome).2.2.2.trans none
  have readWrite := (setReadWrite_fields agent outcome).2.2.2.trans none
  have closed := (closeStopChAndLoop_fields (agent.setReadOnly outcome)).2.2.2.1.trans readOnly
  unfold Agent.afterService Agent.readOnlyOrShutdown at moved
  split at moved
  case h_2 =>
    cases moved
    exact closed
  case h_6 =>
    cases moved
    split
    · exact closed
    · rfl
  case h_9 => contradiction
  all_goals (repeat' split at moved)
  all_goals
    cases moved
    first | exact none | exact readOnly | exact readWrite

private theorem handlers_call {agent : Agent} {etcd : Etcd} {nodes : List NodeID} {call : Call}
    {next : Next} (none : agent.handlers = []) (noHttp : isHttp call = false)
    (moved : agent.move etcd nodes call = some next) : next.after.handlers = [] := by
  have shutdown : ∀ {outcome : Outcome} {continuation : Agent → Agent},
      (∀ agent : Agent, (continuation agent).handlers = agent.handlers) →
      (agent.readOnlyOrShutdown outcome continuation).after.handlers = [] := by
    intro outcome continuation kept
    unfold Agent.readOnlyOrShutdown
    split
    · exact (kept _).trans ((setReadOnly_fields agent outcome).2.2.2.trans none)
    · rfl
  cases Agent.moves_of_move moved with
  | service served => exact handlers_service none served
  | turn => exact none
  | keepAliveExit =>
    unfold Agent.afterKeepAlive
    split
    · exact none
    · exact shutdown fun _ => rfl
  | close => exact shutdown fun _ => rfl
  | exits => rfl
  | advance advanced => exact (advance_handlers advanced).1.trans none
  | http | handlerService | handlerManual | handlerStop | setOnlyFollow => cases noHttp

/-! ### Calls -/

/-- On the way back to the start the service is read-only. -/
private theorem guarded_setReadOnly {agent after : Agent} {outcome : Outcome}
    (effect : agent.writable = true → outcome ≠ .failed)
    (kept : after.writable = (agent.setReadOnly outcome).writable) : Guarded after := by
  refine guarded_of_readOnly (kept.trans ?_)
  unfold Agent.setReadOnly
  split
  · rename_i failed
    rw [Bool.eq_false_iff]
    exact fun writable => effect writable failed
  · rfl

private theorem guarded_readOnlyOrShutdown {agent : Agent} {outcome : Outcome}
    {continuation : Agent → Agent}
    (kept : ∀ agent : Agent, (continuation agent).writable = agent.writable) :
    Guarded (agent.readOnlyOrShutdown outcome continuation).after := by
  unfold Agent.readOnlyOrShutdown
  split
  · rename_i ok
    subst ok
    exact guarded_of_readOnly (kept _)
  · exact guarded_stopped _

/-- After `SetReadWrite` under a lease the loop waits for its keep-alive goroutine, or sets the
service read-only. -/
private theorem mayBeWritable_afterReadWrite {etcd : Etcd} {agent : Agent} {outcome : Outcome}
    {lease : LeaseID} {failed : Loop} (disciplined : Disciplined etcd agent)
    (held : heldLease agent.loop = some lease)
    (closed : agent.server.isClosed = true → outcome = .failed)
    (readOnly : MayBeWritable failed = true) :
    MayBeWritable (if outcome = .ok then agent.awaitKeepAlive lease else failed) = true := by
  split
  · rename_i ok
    have serving : agent.server.isClosed = false := by
      rw [Bool.eq_false_iff]
      exact fun done => nomatch ok.symm.trans (closed done)
    rw [Agent.awaitKeepAlive_kept (disciplined.attended serving lease held)]
    rfl
  · exact readOnly

/-- After `SetReadWrite` the loop is where it will set the service read-only; on a
closed server the call has failed. -/
private theorem guarded_setReadWrite {agent after : Agent} {outcome : Outcome}
    (readOnly : agent.writable = false)
    (closed : agent.server.isClosed = true → outcome = .failed)
    (writable : after.writable = (agent.setReadWrite outcome).writable)
    (isClosed : after.server.isClosed = agent.server.isClosed)
    (loop : MayBeWritable after.loop = true) : Guarded after := by
  intro _ opened
  refine ⟨loop, ?_⟩
  rw [isClosed, Bool.eq_false_iff]
  intro done
  rw [writable, closed done] at opened
  cases readOnly.symm.trans opened

private theorem setReadWrite_isClosed (agent : Agent) (outcome : Outcome) :
    (agent.setReadWrite outcome).server.isClosed = agent.server.isClosed := by
  unfold Agent.setReadWrite
  split <;> rfl

private theorem guarded_service {etcd : Etcd} {agent : Agent} {outcome : Outcome} {next : Next}
    (guarded : Guarded agent) (disciplined : Disciplined etcd agent)
    (running : agent.running = true)
    (dropped : agent.loop = .resumeReadOnly ∨ agent.loop = .singlePointFailed →
      agent.writable = true → outcome ≠ .failed)
    (closed : agent.server.isClosed = true → outcome = .failed)
    (moved : agent.afterService outcome = some next) : Guarded next.after := by
  unfold Agent.afterService at moved
  split at moved
  case h_1 lease loop =>
    cases moved
    have readOnly := guarded.readOnly running (by rw [loop]; rfl)
    exact guarded_setReadWrite readOnly closed rfl (setReadWrite_isClosed agent outcome)
      (mayBeWritable_afterReadWrite disciplined (by rw [loop]; rfl) closed rfl)
  case h_2 loop =>
    cases moved
    exact guarded_setReadOnly (dropped (.inl loop)) (closeStopChAndLoop_fields _).2.2.2.2
  case h_3 tenure loop =>
    cases moved
    exact guarded_of_readOnly (guarded.readOnly running (by rw [loop]; rfl))
  case h_4 lease loop =>
    cases moved
    have readOnly := guarded.readOnly running (by rw [loop]; rfl)
    exact guarded_setReadWrite readOnly closed rfl (setReadWrite_isClosed agent outcome)
      (mayBeWritable_afterReadWrite disciplined (by rw [loop]; rfl) closed rfl)
  case h_5 loop =>
    have readOnly := guarded.readOnly running (by rw [loop]; rfl)
    split at moved <;> cases moved
    · exact guarded_setReadWrite readOnly closed rfl rfl rfl
    · exact guarded_setReadWrite readOnly closed rfl (setReadWrite_isClosed agent outcome) rfl
  case h_6 loop =>
    cases moved
    exact guarded_readOnlyOrShutdown fun agent => (closeStopChAndLoop_fields agent).2.2.2.2
  case h_7 loop =>
    cases moved
    exact guarded_setReadOnly (dropped (.inr loop)) rfl
  case h_8 loop =>
    split at moved <;> cases moved
    · rename_i ok
      exact guarded_of_readOnly (by rw [ok]; rfl)
    · intro _ writable
      have before := guarded running (Agent.writable_of_setReadOnly writable)
      unfold Agent.setReadOnly
      split <;> exact before
  case h_9 => contradiction

/-- The only call that moves a loop whose service may be writable, and leaves the
service alone, is the one that sees a slave appear. -/
private theorem advance_mayBeWritable {agent after : Agent} {etcd : Etcd} {nodes : List NodeID}
    {call : Call} (moved : agent.advance etcd nodes call = some after)
    (loop : MayBeWritable agent.loop = true) :
    after = { agent with loop := .singlePointReadOnly } := by
  cases call <;> simp only [Agent.advance] at moved
  case slaveAppears =>
    split at moved <;> cases moved
    rfl
  all_goals (repeat' split at moved)
  all_goals simp_all [MayBeWritable]

private theorem guarded_advance {agent after : Agent} {etcd : Etcd} {nodes : List NodeID}
    {call : Call} (guarded : Guarded agent) (running : agent.running = true)
    (moved : agent.advance etcd nodes call = some after) : Guarded after := by
  intro _ writable
  obtain ⟨loop, isClosed⟩ := guarded running ((advance_handlers moved).2 ▸ writable)
  rw [advance_mayBeWritable moved loop]
  exact ⟨rfl, isClosed⟩

private theorem guarded_call {agent : Agent} {etcd : Etcd} {nodes : List NodeID} {call : Call}
    {next : Next} (guarded : Guarded agent) (disciplined : Disciplined etcd agent)
    (running : agent.running = true) (noHttp : isHttp call = false)
    (service : ∀ outcome, call = .service outcome →
      (agent.loop = .resumeReadOnly ∨ agent.loop = .singlePointFailed →
        agent.writable = true → outcome ≠ .failed) ∧
      (agent.server.isClosed = true → outcome = .failed))
    (moved : agent.move etcd nodes call = some next) : Guarded next.after := by
  cases Agent.moves_of_move moved with
  | service served =>
    obtain ⟨dropped, closed⟩ := service _ rfl
    exact guarded_service guarded disciplined running dropped closed served
  | turn => exact guarded
  | keepAliveExit =>
    unfold Agent.afterKeepAlive
    split
    · rename_i done
      intro running writable
      cases (guarded running writable).2.symm.trans done
    · exact guarded_readOnlyOrShutdown (by intro _; rfl)
  | close => exact guarded_readOnlyOrShutdown (by intro _; rfl)
  | exits => exact guarded_stopped _
  | advance advanced => exact guarded_advance guarded running advanced
  | http | handlerService | handlerManual | handlerStop | setOnlyFollow => cases noHttp

/-! ### Every step -/

private theorem mayBeWritable_of_pending {agent : Agent} {request : Request}
    (pending : agent.pending = some request) : MayBeWritable agent.loop = false := by
  unfold Agent.pending at pending
  split at pending
  case h_10 => cases pending
  all_goals
    rename_i loop
    rw [loop]
    rfl

private theorem guarded_step {c c' : State} {a : Action} (guarded : ∀ n, Guarded (c.agents n))
    (disciplined : ∀ n, Disciplined c.etcd (c.agents n)) (enforced : Enforced c a)
    (taken : step c a = some c') (n : NodeID) : Guarded (c'.agents n) := by
  cases step_agent taken n with
  | same agent =>
    rw [agent]
    exact guarded n
  | called action running moved agent =>
    rw [agent]
    refine guarded_call (guarded n) (disciplined n) running (enforced.1 n _ action) ?_ moved
    rintro outcome rfl
    exact enforced.2 n outcome action
  | granted _ running granted agent =>
    rw [agent]
    unfold Agent.afterGrant at granted
    split at granted
    · rename_i loop
      cases granted
      exact guarded_of_readOnly ((guarded n).readOnly running (by rw [loop]; rfl))
    · rename_i loop
      cases granted
      exact guarded_of_readOnly ((guarded n).readOnly running (by rw [loop]; rfl))
    · contradiction
  | replied _ running pending agent =>
    have readOnly := (guarded n).readOnly running (mayBeWritable_of_pending pending)
    rw [agent]
    exact guarded_of_readOnly ((afterRequest_fields _ _ _).2.trans readOnly)
  | handled _ _ agent =>
    rw [agent]
    exact guarded n
  | started _ _ _ agent =>
    rw [agent]
    exact guarded_of_readOnly rfl
  | serviceStopped _ agent =>
    rw [agent]
    exact guarded_of_readOnly rfl
  | reported _ agent =>
    rw [agent]
    exact guarded n

private theorem handlers_step {c c' : State} {a : Action} (none : ∀ n, (c.agents n).handlers = [])
    (noHttp : NoHttp c a) (taken : step c a = some c') (n : NodeID) :
    (c'.agents n).handlers = [] := by
  cases step_agent taken n with
  | same agent | serviceStopped _ agent | reported _ agent =>
    rw [agent]
    exact none n
  | called action _ moved agent =>
    rw [agent]
    exact handlers_call (none n) (noHttp n _ action) moved
  | granted _ _ granted agent =>
    rw [agent]
    unfold Agent.afterGrant at granted
    split at granted <;> cases granted <;> exact none n
  | replied _ _ _ agent =>
    rw [agent]
    exact (afterRequest_fields _ _ _).1.trans (none n)
  | handled _ _ agent =>
    rw [agent]
    simp [Agent.setHandler, none n]
  | started _ _ _ agent => rw [agent]; rfl

/-- Where nobody asks for another master, the requests for one are orderly. -/
private theorem orderly_of_noHttp {c : State} {a : Action}
    (none : ∀ n, (c.agents n).handlers = []) (noHttp : NoHttp c a) : Orderly c a := by
  intro n call action
  have other := noHttp n call action
  cases call with
  | http => cases other
  | close => simp [OneChange, changes, none n]
  | _ => trivial

theorem guarded_of_run {nodes : List NodeID} {named : "" ∉ nodes} {cfg : NodeID → Config}
    {c : State} (run : Run step Enforced (init nodes named cfg) c) (n : NodeID) :
    Guarded (c.agents n) := by
  have invariant : ∀ n, Guarded (c.agents n) ∧ Disciplined c.etcd (c.agents n) ∧
      (c.agents n).handlers = [] := by
    refine @Run.invariant _ _ _ _ _ _ (fun c => ∀ n, Guarded (c.agents n) ∧
      Disciplined c.etcd (c.agents n) ∧ (c.agents n).handlers = []) run ?_ ?_
    · intro m
      exact ⟨guarded_of_readOnly rfl,
        disciplined_idle (by rintro _ ⟨⟩) (by rintro _ ⟨⟩) rfl rfl (.inl rfl), rfl⟩
    · intro before after a invariant enforced taken m
      have disciplined := fun n => (invariant n).2.1
      have none := fun n => (invariant n).2.2
      exact ⟨guarded_step (fun n => (invariant n).1) disciplined enforced taken m,
        disciplined_step disciplined (orderly_of_noHttp none enforced.1) taken m,
        handlers_step none enforced.1 taken m⟩
  exact (invariant n).1

/-- In every run without HTTP requests in which the dropped `SetReadOnly` errors
leave no service writable, the service of a running process is read-only whenever
its `leaderLoop` starts over. -/
theorem loop_starts_read_only {nodes : List NodeID} {named : "" ∉ nodes} {cfg : NodeID → Config}
    {c : State} (run : Run step Enforced (init nodes named cfg) c) {n : NodeID}
    (running : (c.agents n).running = true) (loop : (c.agents n).loop = .getLeader) :
    (c.agents n).writable = false :=
  (guarded_of_run run n).readOnly running (by rw [loop]; rfl)

private def noHttp : Action → Bool
  | .call _ call => !isHttp call
  | _ => true

private theorem noHttp_of_check {c : State} {a : Action} (check : noHttp a = true) :
    NoHttp c a := by
  rintro n call rfl
  simpa [noHttp] using check

/-- A decidable condition that is enough for an enforced step. -/
private def enforced (c : State) (a : Action) : Bool :=
  noHttp a &&
  match a with
  | .call n (.service outcome) =>
    ((c.agents n).loop != .resumeReadOnly && (c.agents n).loop != .singlePointFailed ||
      outcome != .failed) && !(c.agents n).server.isClosed
  | _ => true

private theorem enforced_of_check {c : State} {a : Action} (check : enforced c a = true) :
    Enforced c a := by
  unfold enforced at check
  obtain ⟨http, check⟩ := (Bool.and_eq_true _ _).mp check
  refine ⟨noHttp_of_check http, ?_⟩
  rintro n outcome rfl
  simp only [Bool.and_eq_true, Bool.or_eq_true, bne_iff_ne, Bool.not_eq_true'] at check
  refine ⟨fun loop _ => ?_, fun closed => nomatch check.2.symm.trans closed⟩
  rcases check.1 with ⟨notResume, notFailed⟩ | effect
  · rcases loop with resume | failed
    · exact absurd resume notResume
    · exact absurd failed notFailed
  · exact effect

/-- `SetReadWrite` of a promotion fails after its effect, and the loop starts over
after it has set the service read-only. -/
theorem loop_starts_read_only_after_failed_promotion :
    ∃ c, Run step Enforced (init ["a"] (by decide) sampleCfg) c ∧
      (c.agents "a").loop = .getLeader ∧ (c.agents "a").closedChs = [0] ∧
      (c.agents "a").writable = false := by
  have ran : (exec (restrict step enforced) (init ["a"] (by decide) sampleCfg)
      [.start "a" "u", .call "a" .read, .grant "a" 1, .etcd "a" .answered,
        .call "a" (.service .ok), .call "a" .loadPromotion,
        .call "a" (.service .failedAfterEffect), .call "a" (.service .ok)]).any
      (fun c => (c.agents "a").running && (c.agents "a").loop == .getLeader &&
        (c.agents "a").closedChs == [0]) = true := by
    decide +kernel
  obtain ⟨c, run, found⟩ := exists_run_of_exec (fun _ _ => enforced_of_check) ran
  simp only [Bool.and_eq_true, beq_iff_eq] at found
  obtain ⟨⟨running, loop⟩, closed⟩ := found
  exact ⟨c, run, loop, closed, loop_starts_read_only run running loop⟩

/-- A leader that resumes after a restart: `SetReadWrite` fails after its effect,
the `SetReadOnly` that follows fails, and the loop starts over all the same. -/
theorem loop_starts_writable :
    ∃ c, Run step NoHttp (init ["a"] (by decide) sampleCfg) c ∧
      (c.agents "a").running = true ∧ (c.agents "a").loop = .getLeader ∧
      (c.agents "a").writable = true := by
  have ran : (exec (restrict step fun _ a => noHttp a) (init ["a"] (by decide) sampleCfg)
      [.start "a" "u", .call "a" .read, .grant "a" 1, .etcd "a" .answered, .call "a" .crash,
        .start "a" "u", .call "a" .read, .grant "a" 2, .etcd "a" .answered,
        .call "a" (.service .failedAfterEffect), .call "a" (.service .failed)]).any
      (fun c => (c.agents "a").running && (c.agents "a").loop == .getLeader &&
        (c.agents "a").writable) = true := by
    decide +kernel
  obtain ⟨c, run, found⟩ := exists_run_of_exec (fun _ _ => noHttp_of_check) ran
  simp only [Bool.and_eq_true, beq_iff_eq] at found
  exact ⟨c, run, found.1.1, found.1.2, found.2⟩

end Moha.ReadOnlyLoop
