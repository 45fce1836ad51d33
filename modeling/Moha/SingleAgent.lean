import Moha.Supervise

/-! One agent at a time: `handle_child_exit` forks an agent, and both
`sig_handler_child` and the loop of `run_server` call it. The handler does so for
the process `_agentpid` only. The loop does so for every child but the service, so
that the agent has to be reaped before the others. -/
namespace Moha.SingleAgent
open Supervise Runs

/-- The loop of `run_server` reaps a child other than the agent and the service only
after the agent has been reaped. -/
def ReapsAgentFirst (s : State) : Action → Prop
  | .waitpid (.child pid _) =>
    s.handler = none →
      pid = s.agentpid ∨ pid = s.servicepid ∨ s.table.life s.agentpid = .reaped
  | _ => True

instance (s : State) : (a : Action) → Decidable (ReapsAgentFirst s a)
  | .waitpid (.child _ _) => inferInstanceAs (Decidable (_ → _))
  | .waitpid .alive | .waitpid .error | .spawn _ | .exit _ _ | .terminate | .deliver
  | .heartbeat _ | .interrupted | .timeout | .epollError | .fork _ | .advance => isTrue trivial

/-- Inside `handle_child_exit`. -/
def Handling (point : Point) : Prop :=
  (∃ status, point = .childExit status) ∨ ∃ ret, point = .assign ret

/-- `main` or the handler executes `handle_child_exit`. -/
def HandlesChildExit (s : State) : Prop := ∃ point, Handling point ∧ s.At point

/-- `main` handles a child's exit, or it will: it has the pid of a child for which
`run_server` does not destroy. -/
def MainRestarts (s : State) : Prop :=
  match s.main with
  | .reaping (.compare (.child pid _)) => pid = s.agentpid ∨ pid ≠ s.servicepid
  | .reaping (.childExit _) | .reaping (.assign _) => True
  | _ => False

def HandlerRestarts (s : State) : Prop :=
  match s.handler with
  | some (.compare (.child pid _)) => pid = s.agentpid
  | some (.childExit _) | some (.assign _) => True
  | _ => False

/-- The first agent is not yet `_agentpid`. -/
def Begins (s : State) : Prop := s.main = .fork ∨ ∃ ret, s.main = .assign ret

/-- At most one thread restarts the agent, and only an agent that has been reaped. -/
structure Settled (s : State) : Prop where
  main : MainRestarts s → s.table.life s.agentpid = .reaped
  handler : HandlerRestarts s → s.table.life s.agentpid = .reaped
  apart : MainRestarts s → ¬ HandlerRestarts s

/-- The pid of a new agent that a thread has not yet assigned. -/
def Forked (s : State) (pid : Int) : Prop := s.main = .assign pid ∨ s.At (.assign pid)

structure Single (s : State) : Prop where
  sound : Sound s
  settled : Settled s
  begins : Begins s → s.agentpid = 0
  first : s.main = .fork → s.agents = []
  current : s.destroyed = false → ∀ pid ∈ s.agents, s.table.life pid = .alive →
    pid = s.agentpid ∨ Forked s pid
  unique : ∀ pid ∈ s.agents, ∀ other ∈ s.agents,
    s.table.life pid = .alive → s.table.life other = .alive → pid = other

theorem single_init : Single init where
  sound := sound_init
  settled :=
    { main := fun restarts => restarts.elim
      handler := fun restarts => restarts.elim
      apart := fun restarts => restarts.elim }
  begins _ := rfl
  first _ := rfl
  current _ _ member := by cases member
  unique _ member := by cases member

/-- Before the first agent is assigned, no process is `_agentpid`. -/
theorem not_begins_of_born {s : State} (single : Single s)
    (born : s.table.life s.agentpid ≠ .unborn) : ¬ Begins s := by
  intro begins
  have positive := single.sound.positive _ born
  have zero := single.begins begins
  omega

theorem not_begins_of_restarts {s : State} {point : Point} (single : Single s)
    (stands : s.point = some point) (handling : Handling point) : ¬ Begins s := by
  refine not_begins_of_born single ?_
  rcases s.point_cases stands with handler | ⟨_, main⟩
  · have restarts : HandlerRestarts s := by
      rcases handling with ⟨_, rfl⟩ | ⟨_, rfl⟩ <;> simp [HandlerRestarts, handler]
    simp [single.settled.handler restarts]
  · have restarts : MainRestarts s := by
      rcases handling with ⟨_, rfl⟩ | ⟨_, rfl⟩ <;> simp [MainRestarts, main]
    simp [single.settled.main restarts]

/-- While the running thread restarts the agent, the only living agent is the one
that it has forked. -/
theorem point_of_alive {s : State} {point : Point} {pid : Int} (single : Single s)
    (runs : s.destroyed = false) (stands : s.point = some point) (restarts : Handling point)
    (member : pid ∈ s.agents) (alive : s.table.life pid = .alive) : point = .assign pid := by
  rcases s.point_cases stands with handler | ⟨idle, main⟩
  · have takes : HandlerRestarts s := by
      rcases restarts with ⟨_, rfl⟩ | ⟨_, rfl⟩ <;> simp [HandlerRestarts, handler]
    have reaped := single.settled.handler takes
    rcases single.current runs pid member alive with rfl | first | same | other
    · cases alive.symm.trans reaped
    · exact absurd (.inr ⟨pid, first⟩) (not_begins_of_restarts single stands restarts)
    · exact Option.some.inj (handler.symm.trans same)
    · exact absurd takes (single.settled.apart (by simp [MainRestarts, other]))
  · have takes : MainRestarts s := by
      rcases restarts with ⟨_, rfl⟩ | ⟨_, rfl⟩ <;> simp [MainRestarts, main]
    have reaped := single.settled.main takes
    rcases single.current runs pid member alive with rfl | first | other | same
    · cases alive.symm.trans reaped
    · cases first.symm.trans main
    · cases idle.symm.trans other
    · exact Main.reaping.inj (main.symm.trans same)

/-- A living agent was alive before a step that forks none. -/
theorem alive_of_takes {s s' : State} {a : Action} {pid : Int} (sound : Sound s)
    (takes : Takes s a s') (member : pid ∈ s.agents) (alive : s'.table.life pid = .alive) :
    s.table.life pid = .alive := by
  cases lives_of_takes takes pid with
  | stays same => rw [← same, alive]
  | begins _ unborn => exact absurd unborn (sound.agents pid member)
  | ends _ _ zombie => cases zombie.symm.trans alive
  | reaped _ _ reaped => cases reaped.symm.trans alive

/-- A step that neither forks nor assigns. -/
theorem single_of_frame {s s' : State} {a : Action} (single : Single s) (takes : Takes s a s')
    (settled : Settled s') (agentpid : s'.agentpid = s.agentpid) (agents : s'.agents = s.agents)
    (begins : Begins s' → Begins s) (first : s'.main = .fork → s.main = .fork)
    (forked : s'.destroyed = false → s.destroyed = false ∧ ∀ pid, Forked s pid → Forked s' pid) :
    Single s' where
  sound := sound_step single.sound takes
  settled := settled
  begins begun := by rw [agentpid, single.begins (begins begun)]
  first fork := by rw [agents, single.first (first fork)]
  current runs pid member alive := by
    rw [agents] at member
    obtain ⟨ran, keeps⟩ := forked runs
    rw [agentpid]
    exact (single.current ran pid member (alive_of_takes single.sound takes member alive)).imp_right
      (keeps pid)
  unique pid member other others alive lives := by
    rw [agents] at member others
    exact single.unique pid member other others
      (alive_of_takes single.sound takes member alive)
      (alive_of_takes single.sound takes others lives)

theorem settled_of_keeps {s s' : State} {a : Action} (settled : Settled s) (takes : Takes s a s')
    (agentpid : s'.agentpid = s.agentpid) (main : MainRestarts s' → MainRestarts s)
    (handler : HandlerRestarts s' → HandlerRestarts s) : Settled s' where
  main restarts := by
    rw [agentpid]
    exact reaped_of_takes takes (settled.main (main restarts))
  handler restarts := by
    rw [agentpid]
    exact reaped_of_takes takes (settled.handler (handler restarts))
  apart restarts others := settled.apart (main restarts) (handler others)

theorem begins_of_moveTo {s : State} {point : Point} (begins : Begins (s.moveTo point)) :
    Begins s := by
  unfold Begins State.moveTo at begins
  split at begins
  · exact begins
  · rcases begins with main | ⟨_, main⟩ <;> cases main

theorem fork_of_moveTo {s : State} {point : Point} (fork : (s.moveTo point).main = .fork) :
    s.main = .fork := by
  unfold State.moveTo at fork
  split at fork
  · exact fork
  · cases fork

/-- Only a thread at the assignment has a new agent's pid. -/
theorem forked_moveTo {s : State} {point next : Point} (stands : s.point = some point)
    (elsewhere : ∀ ret, point ≠ .assign ret) {pid : Int} (forked : Forked s pid) :
    Forked (s.moveTo next) pid := by
  rcases forked with main | other
  · rcases s.point_cases stands with handler | ⟨_, reaping⟩
    · exact .inl (by simp [State.moveTo, handler, main])
    · cases reaping.symm.trans main
  · exact .inr (s.at_moveTo next other stands (elsewhere pid).symm)

/-- `main` waits for heartbeats, so it restarts nothing and goes on to `waitpid` at
most. -/
theorem single_detect {s s' : State} {a : Action} (single : Single s) (takes : Takes s a s')
    (detecting : s.detecting)
    (next : s'.main = .detectInit ∨ s'.main = .detect ∨ s'.main = .reaping .waitpid)
    (agentpid : s'.agentpid = s.agentpid) (agents : s'.agents = s.agents)
    (handler : s'.handler = s.handler) (destroyed : s'.destroyed = s.destroyed) : Single s' := by
  have restarts : ¬ MainRestarts s' := by
    rcases next with main | main | main <;> simp [MainRestarts, main]
  have begun : ¬ Begins s' := by
    rcases next with main | main | main <;> simp [Begins, main]
  have settled : Settled s' := by
    refine settled_of_keeps single.settled takes agentpid (fun again => absurd again restarts) ?_
    simp [HandlerRestarts, handler, detecting.1]
  refine single_of_frame single takes settled agentpid agents (fun begins => absurd begins begun)
    (fun fork => absurd (.inl fork) begun) fun runs => ⟨destroyed ▸ runs, ?_⟩
  rintro pid (main | assigning | main)
  · rcases detecting.2 with other | other <;> cases other.symm.trans main
  · cases detecting.1.symm.trans assigning
  · rcases detecting.2 with other | other <;> cases other.symm.trans main

/-- A thread that has reaped the agent is the only one to restart it: had the other
one begun to, the agent would not have been there to reap. -/
theorem settled_waitpid {s : State} {result : Waited} (single : Single s)
    (reaps : ReapsAgentFirst s (.waitpid result)) (stands : s.point = some .waitpid)
    (answers : s.table.Answers result) :
    Settled ((s.reap result).moveTo (.compare result)) := by
  have takes : Takes s (.waitpid result) _ := .waitpid stands answers
  have reapedAfter : ∀ status, result = .child s.agentpid status →
      ((s.reap result).moveTo (.compare result)).table.life s.agentpid = .reaped := by
    rintro status rfl
    simp [State.reap]
  rcases s.point_cases stands with handler | ⟨idle, main⟩
  · have mainKeeps : MainRestarts ((s.reap result).moveTo (.compare result)) → MainRestarts s := by
      simp [MainRestarts, State.moveTo, handler]
    have handlerRestarts : HandlerRestarts ((s.reap result).moveTo (.compare result)) →
        ∃ status, result = .child s.agentpid status := by
      cases result <;> simp [HandlerRestarts, State.moveTo, handler]
    refine ⟨fun restarts => ?_, fun restarts => ?_, fun restarts others => ?_⟩
    · simpa using reaped_of_takes takes (single.settled.main (mainKeeps restarts))
    · obtain ⟨status, found⟩ := handlerRestarts restarts
      simpa using reapedAfter status found
    · obtain ⟨status, rfl⟩ := handlerRestarts others
      cases answers.symm.trans (single.settled.main (mainKeeps restarts))
  · have handlerNot : ¬ HandlerRestarts ((s.reap result).moveTo (.compare result)) := by
      simp [HandlerRestarts, State.moveTo, idle]
    refine ⟨fun restarts => ?_, fun restarts => absurd restarts handlerNot,
      fun _ others => handlerNot others⟩
    cases result with
    | alive | error => simp [MainRestarts, State.moveTo, idle] at restarts
    | child pid status =>
      simp [MainRestarts, State.moveTo, idle] at restarts
      rcases reaps idle with rfl | service | gone
      · simpa using reapedAfter status rfl
      · obtain rfl := restarts.resolve_right (not_not_intro service)
        simpa using reapedAfter status rfl
      · simpa using reaped_of_takes takes gone

theorem single_forkFirst {s : State} {ret : Int} (single : Single s) (idle : s.handler = none)
    (stands : s.main = .fork)
    (takes : Takes s (.fork ret) { s.forked ret with main := .assign ret }) :
    Single { s.forked ret with main := .assign ret } where
  sound := sound_step single.sound takes
  settled :=
    { main := fun restarts => restarts.elim
      handler := fun restarts => by simp [HandlerRestarts, idle] at restarts
      apart := fun restarts => restarts.elim }
  begins _ := by simpa using single.begins (.inl stands)
  first main := by cases main
  current _ pid member _ := by
    have none := single.first stands
    by_cases failed : ret = -1 <;> simp_all [State.forked, Forked]
  unique pid member other others _ _ := by
    have none := single.first stands
    by_cases failed : ret = -1 <;> simp_all [State.forked]

theorem mem_forked {s : State} {ret pid : Int} (member : pid ∈ (s.forked ret).agents) :
    pid = ret ∨ pid ∈ s.agents := by
  by_cases failed : ret = -1
  · exact .inr (by simpa [State.forked, failed] using member)
  · simpa [State.forked, failed] using member

theorem single_fork {s : State} {ret : Int} {status : Status} (single : Single s)
    (runs : s.destroyed = false) (stands : s.point = some (.childExit status))
    (takes : Takes s (.fork ret) ((s.forked ret).moveTo (.assign ret))) :
    Single ((s.forked ret).moveTo (.assign ret)) := by
  have only : ∀ pid ∈ ((s.forked ret).moveTo (.assign ret)).agents,
      ((s.forked ret).moveTo (.assign ret)).table.life pid = .alive → pid = ret := by
    intro pid member alive
    refine (mem_forked (by simpa using member)).resolve_right fun old => ?_
    have before := alive_of_takes single.sound takes old alive
    cases point_of_alive single runs stands (.inl ⟨status, rfl⟩) old before
  have settled : Settled ((s.forked ret).moveTo (.assign ret)) := by
    refine settled_of_keeps single.settled takes (by simp) ?_ ?_
    all_goals rcases s.point_cases stands with handler | ⟨idle, main⟩
    · simp [MainRestarts, State.moveTo, handler]
    · simp [MainRestarts, main]
    · simp [HandlerRestarts, handler]
    · simp [HandlerRestarts, State.moveTo, idle]
  have begun : ¬ Begins ((s.forked ret).moveTo (.assign ret)) := by
    intro begins
    have before : Begins s := by simpa [Begins] using begins_of_moveTo begins
    exact not_begins_of_restarts single stands (.inl ⟨status, rfl⟩) before
  refine ⟨sound_step single.sound takes, settled, fun begins => absurd begins begun,
    fun fork => absurd (.inl fork) begun, ?_, ?_⟩
  · intro _ pid member alive
    obtain rfl := only pid member alive
    refine .inr (.inr ?_)
    unfold State.At State.moveTo
    split <;> simp
  · intro pid member other others alive lives
    rw [only pid member alive, only other others lives]

/-- A `main` that the handler returns to was not restarting the agent itself. -/
theorem settled_assign {s : State} {ret : Int} (single : Single s)
    (stands : s.point = some (.assign ret)) : Settled { s with agentpid := ret }.goOn := by
  rcases s.point_cases stands with handler | ⟨idle, main⟩
  · have others : ¬ MainRestarts s := fun restarts =>
      single.settled.apart restarts (by simp [HandlerRestarts, handler])
    have handlerNot : ¬ HandlerRestarts { s with agentpid := ret }.goOn := by
      simp [HandlerRestarts, State.goOn, handler]
    refine ⟨fun restarts => ?_, fun restarts => absurd restarts handlerNot, fun _ => handlerNot⟩
    unfold MainRestarts at restarts others
    simp only [State.goOn, handler, Option.isSome_some, if_true] at restarts ⊢
    split at restarts
    · rename_i pid status main
      simp only [main, not_or, not_not] at others
      obtain rfl := restarts.resolve_right (not_not_intro others.2)
      exact single.sound.compared _ status (.inr main)
    · rename_i main
      simp [main] at others
    · rename_i main
      simp [main] at others
    · exact restarts.elim
  · refine ⟨fun restarts => ?_, fun restarts => ?_, fun restarts => ?_⟩
    · simp [MainRestarts, State.goOn, idle] at restarts
    · simp [HandlerRestarts, State.goOn, idle] at restarts
    · simp [MainRestarts, State.goOn, idle] at restarts

theorem single_assign {s : State} {ret : Int} (single : Single s)
    (stands : s.point = some (.assign ret))
    (takes : Takes s .advance { s with agentpid := ret }.goOn) :
    Single { s with agentpid := ret }.goOn := by
  have same : ({ s with agentpid := ret }.goOn).agents = s.agents := by simp
  have before : ∀ pid ∈ s.agents, ({ s with agentpid := ret }.goOn).table.life pid = .alive →
      s.table.life pid = .alive := fun pid member alive =>
    alive_of_takes single.sound takes member alive
  have begun : ¬ Begins { s with agentpid := ret }.goOn := by
    have started := not_begins_of_restarts single stands (.inr ⟨ret, rfl⟩)
    unfold Begins State.goOn at *
    split <;> simp_all
  refine ⟨sound_step single.sound takes, settled_assign single stands,
    fun begins => absurd begins begun, fun fork => absurd (.inl fork) begun, ?_, ?_⟩
  · intro runs pid member alive
    rw [same] at member
    have points := point_of_alive single (by simpa using runs) stands (.inr ⟨ret, rfl⟩) member
      (before pid member alive)
    exact .inl (by simpa using (Point.assign.inj points).symm)
  · intro pid member other others alive lives
    rw [same] at member others
    exact single.unique pid member other others (before pid member alive)
      (before other others lives)

theorem single_assignFirst {s : State} {ret : Int} (single : Single s) (idle : s.handler = none)
    (stands : s.main = .assign ret)
    (takes : Takes s .advance { s with agentpid := ret, main := .detectInit }) :
    Single { s with agentpid := ret, main := .detectInit } where
  sound := sound_step single.sound takes
  settled :=
    { main := fun restarts => restarts.elim
      handler := fun restarts => by simp [HandlerRestarts, idle] at restarts
      apart := fun restarts => restarts.elim }
  begins begins := by rcases begins with main | ⟨_, main⟩ <;> cases main
  first main := by cases main
  current runs pid member alive := by
    rcases single.current runs pid member alive with rfl | first | handler | main
    · exact absurd (.inr ⟨ret, stands⟩) (not_begins_of_born single (by simp [show
        s.table.life s.agentpid = .alive from alive]))
    · exact .inl (Main.assign.inj (first.symm.trans stands))
    · cases idle.symm.trans handler
    · cases stands.symm.trans main
  unique := single.unique

theorem single_step {s s' : State} {a : Action} (single : Single s) (reaps : ReapsAgentFirst s a)
    (takes : Takes s a s') : Single s' := by
  have takes' := takes
  cases takes with
  | destroy =>
    refine single_of_frame single takes' ?_ rfl rfl id id fun runs => by cases runs
    exact settled_of_keeps single.settled takes' rfl id (fun restarts => restarts.elim)
  | spawn | exit =>
    refine single_of_frame single takes' ?_ rfl rfl id id fun runs => ⟨runs, fun _ => id⟩
    exact settled_of_keeps single.settled takes' rfl id id
  | deliver idle =>
    refine single_of_frame single takes' ?_ rfl rfl id id fun runs =>
      ⟨runs, fun pid => Or.imp_right (Or.imp_left fun handler => by cases idle.symm.trans handler)⟩
    exact settled_of_keeps single.settled takes' rfl id (fun restarts => restarts.elim)
  | heartbeat detecting =>
    exact single_detect single takes' detecting (.inr (.inl rfl)) rfl rfl rfl rfl
  | detect detecting next => exact single_detect single takes' detecting next rfl rfl rfl rfl
  | forkFirst _ idle stands => exact single_forkFirst single idle stands takes'
  | assignFirst idle stands => exact single_assignFirst single idle stands takes'
  | @waitpid result stands answers =>
    refine single_of_frame single takes' (settled_waitpid single reaps stands answers) (by simp)
      (by simp) ?_ ?_ ?_
    · intro begins
      simpa [Begins] using begins_of_moveTo begins
    · intro fork
      simpa using fork_of_moveTo fork
    · intro runs
      refine ⟨by simpa using runs, fun pid forked => ?_⟩
      refine forked_moveTo (?_ : _ = some .waitpid) (by simp) ?_
      · simpa [State.point] using stands
      · simpa [Forked, State.At] using forked
  | ignore stands =>
    refine single_of_frame single takes' ?_ rfl rfl id id fun runs => ⟨runs, fun pid => ?_⟩
    · exact settled_of_keeps single.settled takes' rfl id (fun restarts => restarts.elim)
    · exact Or.imp_right (Or.imp_left fun handler => by cases stands.symm.trans handler)
  | @handle pid status stands handled =>
    have settled : Settled (s.moveTo (.childExit status)) := by
      refine settled_of_keeps single.settled takes' (by simp) ?_ ?_
      all_goals rcases s.point_cases stands with handler | ⟨idle, main⟩
      · simp [MainRestarts, State.moveTo, handler]
      · intro _
        simpa [MainRestarts, main] using handled.imp_right And.right
      · intro _
        simpa [HandlerRestarts, handler] using handled
      · simp [HandlerRestarts, State.moveTo, idle]
    exact single_of_frame single takes' settled (by simp) (by simp) begins_of_moveTo fork_of_moveTo
      fun runs => ⟨by simpa using runs, fun _ => forked_moveTo stands (by simp)⟩
  | fork runs stands => exact single_fork single runs stands takes'
  | assign stands => exact single_assign single stands takes'

/-- In every run in which the loop of `run_server` reaps another child than the agent
and the service only after the agent: `handle_child_exit` is executed only after the
process `_agentpid` has been reaped, and no two agents are alive. -/
theorem one_agent_at_a_time {t : State} (run : Run step ReapsAgentFirst init t) :
    (HandlesChildExit t → t.table.life t.agentpid = .reaped) ∧
      ∀ pid ∈ t.agents, ∀ other ∈ t.agents,
        t.table.life pid = .alive → t.table.life other = .alive → pid = other := by
  have single : Single t := run.invariant single_init fun single reaps taken =>
    single_step single reaps (step_takes taken)
  refine ⟨?_, single.unique⟩
  rintro ⟨point, handling, handler | main⟩
  · refine single.settled.handler ?_
    rcases handling with ⟨_, rfl⟩ | ⟨_, rfl⟩ <;> simp [HandlerRestarts, handler]
  · refine single.settled.main ?_
    rcases handling with ⟨_, rfl⟩ | ⟨_, rfl⟩ <;> simp [MainRestarts, main]

/-- The agent 10 crashes while another child ends: the loop reaps the agent, the
handler the other one, and the agent 11 is the only one alive. -/
theorem one_agent_at_a_time_after_crash :
    ∃ t, Run step ReapsAgentFirst init t ∧ t.table.life t.agentpid = .reaped ∧
      t.agents = [11, 10] ∧ t.table.life 11 = .alive ∧
      ∀ pid ∈ t.agents, t.table.life pid = .alive → pid = 11 := by
  have ran : (exec (restrict step fun s a => decide (ReapsAgentFirst s a)) init
      [.fork 10, .advance, .heartbeat 1, .spawn 20, .timeout, .exit 10 (.exited 2),
        .exit 20 (.exited 0), .waitpid (.child 10 (.exited 2)), .deliver,
        .waitpid (.child 20 (.exited 0)), .advance, .advance, .fork 11]).any
      (fun t => t.main == .reaping (.assign 11) && t.agents == [11, 10] &&
        t.table.life 11 == .alive) = true := by
    decide +kernel
  obtain ⟨t, run, found⟩ := exists_run_of_exec (fun _ _ => of_decide_eq_true) ran
  simp only [Bool.and_eq_true, beq_iff_eq] at found
  obtain ⟨⟨main, agents⟩, alive⟩ := found
  obtain ⟨handles, unique⟩ := one_agent_at_a_time run
  refine ⟨t, run, handles ⟨_, .inr ⟨11, rfl⟩, .inr main⟩, agents, alive, fun pid member lives => ?_⟩
  exact unique pid member 11 (by simp [agents]) lives alive

/-- The agent is silent while two other children end under one SIGCHLD: the handler
reaps the first, the loop takes the second for the agent and forks another one. -/
theorem two_agents_alive :
    ∃ t, Run step (fun _ _ => True) init t ∧ HandlesChildExit t ∧
      t.table.life t.agentpid = .alive ∧ t.agents = [11, 10] ∧
      t.table.life 10 = .alive ∧ t.table.life 11 = .alive := by
  have ran : (exec (restrict step fun _ _ => true) init
      [.fork 10, .advance, .heartbeat 1, .spawn 20, .spawn 21, .exit 20 (.exited 1),
        .exit 21 (.exited 1), .deliver, .waitpid (.child 20 (.exited 1)), .advance, .timeout,
        .waitpid (.child 21 (.exited 1)), .advance, .fork 11]).any
      (fun t => t.main == .reaping (.assign 11) && t.table.life t.agentpid == .alive &&
        t.agents == [11, 10] && t.table.life 10 == .alive && t.table.life 11 == .alive) = true := by
    decide +kernel
  obtain ⟨t, run, found⟩ := exists_run_of_exec (fun _ _ _ => trivial) ran
  simp only [Bool.and_eq_true, beq_iff_eq] at found
  obtain ⟨⟨⟨⟨main, agent⟩, agents⟩, first⟩, second⟩ := found
  exact ⟨t, run, ⟨_, .inr ⟨11, rfl⟩, .inr main⟩, agent, agents, first, second⟩

end Moha.SingleAgent
