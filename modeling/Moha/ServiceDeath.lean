import Moha.Supervise

/-! The supervisor and the end of the database service: whoever reaps the process
`_servicepid` destroys, but one SIGCHLD may stand for two children that ended, and
`sig_handler_child` reaps one of them. The conditions here say that this does not
cost the service's signal. -/
namespace Moha.ServiceDeath
open Supervise Runs

/-- The service has ended and nobody has reaped it. -/
def Unreaped (s : State) : Prop := (s.table.life s.servicepid).isZombie = true

instance (s : State) : Decidable (Unreaped s) := inferInstanceAs (Decidable (_ = _))

/-- The handler reaps another child only while the service has not ended or one more
SIGCHLD is pending. The loop of `run_server` does not reap the service itself. A new
service pid is the one of a running process that is no agent. -/
def Noticeable (s : State) : Action → Prop
  | .waitpid (.child pid _) =>
    if s.handler.isSome then pid = s.servicepid ∨ ¬ Unreaped s ∨ s.pending = true
    else pid ≠ s.servicepid
  | .heartbeat val =>
    heartbeat s.servicepid val = s.servicepid ∨
      (s.table.life (heartbeat s.servicepid val) = .alive ∧
        heartbeat s.servicepid val ∉ s.agents)
  | _ => True

instance (s : State) (a : Action) : Decidable (Noticeable s a) := by
  unfold Noticeable
  split <;> infer_instance

/-- A pid that is or becomes `_agentpid`. -/
def Agentpid (s : State) (pid : Int) : Prop :=
  pid = s.agentpid ∨ s.main = .assign pid ∨ s.At (.assign pid)

/-- The service is a process of its own. -/
structure Apart (s : State) : Prop where
  sound : Sound s
  known : s.servicepid = 0 ∨ s.table.life s.servicepid ≠ .unborn
  service : s.servicepid ∉ s.agents
  current : ∀ pid, Agentpid s pid → pid ∈ s.agents ∨ pid ≤ 0

theorem apart_init : Apart init where
  sound := sound_init
  known := .inl rfl
  service := List.not_mem_nil
  current pid current := by
    rcases current with rfl | main | handler | main
    · exact .inr (Int.le_refl 0)
    · cases main
    · cases handler
    · cases main

theorem servicepid_of_takes {s s' : State} {a : Action} (takes : Takes s a s') :
    s'.servicepid = s.servicepid ∨
      ∃ val, a = .heartbeat val ∧ s'.servicepid = heartbeat s.servicepid val ∧
        s'.table = s.table ∧ s'.agents = s.agents := by
  cases takes with
  | @heartbeat val => exact .inr ⟨val, rfl, rfl, rfl, rfl⟩
  | _ => exact .inl (by simp [State.destroy])

/-- A pid that becomes `_agentpid` comes from a `fork`. -/
theorem agentpid_of_takes {s s' : State} {a : Action} {pid : Int} (takes : Takes s a s')
    (current : Agentpid s' pid) :
    Agentpid s pid ∨ (pid = -1 ∨ pid ∈ s'.agents) := by
  have forked : ∀ {ret : Int}, s'.agents = (s.forked ret).agents → ret = -1 ∨ ret ∈ s'.agents := by
    intro ret agents
    by_cases failed : ret = -1
    · exact .inl failed
    · exact .inr (by simp [agents, State.forked, failed])
  rcases current with rfl | main | stands
  · cases takes with
    | assignFirst _ stands => exact .inl (.inr (.inl stands))
    | @assign ret stands =>
      refine .inl (.inr (.inr ?_))
      rcases s.point_cases stands with handler | ⟨_, main⟩
      · exact .inl (by simpa using handler)
      · exact .inr (by simpa using main)
    | _ => exact .inl (.inl (by simp [State.destroy]))
  · cases takes with
    | forkFirst =>
      cases main
      exact .inr (forked rfl)
    | destroy | spawn | exit | deliver | ignore => exact .inl (.inr (.inl main))
    | heartbeat | assignFirst => cases main
    | detect _ next => rcases next with next | next | next <;> cases main.symm.trans next
    | waitpid | handle | assign | fork =>
      refine .inl (.inr (.inl ?_))
      simp only [State.moveTo, State.goOn] at main
      split at main <;> simp_all
  · rcases at_of_takes takes stands with before | ⟨_, agents⟩
    · exact .inl (.inr (.inr before))
    · exact .inr (forked agents)

theorem apart_step {s s' : State} {a : Action} (apart : Apart s) (noticeable : Noticeable s a)
    (takes : Takes s a s') : Apart s' where
  sound := sound_step apart.sound takes
  known := by
    rcases servicepid_of_takes takes with same | ⟨val, rfl, reported, table, _⟩
    · rw [same]
      exact apart.known.imp_right (born_of_takes takes)
    · rw [reported, table]
      rcases noticeable with same | ⟨alive, _⟩
      · rw [same]
        exact apart.known
      · exact .inr (by simp [alive])
  service := by
    rcases servicepid_of_takes takes with same | ⟨val, rfl, reported, _, agents⟩
    · rw [same]
      rcases agents_of_takes takes with old | ⟨ret, added, _, positive, unborn, _⟩
      · rw [old]
        exact apart.service
      · -- the new agent is a new process
        rw [added]
        refine List.not_mem_cons_of_ne_of_not_mem ?_ apart.service
        rintro rfl
        rcases apart.known with zero | born
        · omega
        · exact born unborn
    · rw [reported, agents]
      rcases noticeable with same | ⟨_, service⟩
      · rw [same]
        exact apart.service
      · exact service
  current pid current := by
    rcases agentpid_of_takes takes current with before | rfl | member
    · refine (apart.current pid before).imp_left fun member => ?_
      rcases agents_of_takes takes with old | ⟨ret, added, _⟩
      · exact old ▸ member
      · exact added ▸ List.mem_cons_of_mem ret member
    · exact .inr (by decide)
    · exact .inl member

/-- The end of the service is on its way: a SIGCHLD is pending or the handler is
about to reap it, and who has reaped it is about to destroy. -/
structure Noticed (s : State) : Prop where
  zombie : Unreaped s → s.destroyed = true ∨ s.pending = true ∨ s.handler = some .waitpid
  reaped : s.table.life s.servicepid = .reaped →
    s.destroyed = true ∨ ∃ status, s.At (.compare (.child s.servicepid status))

theorem noticed_init : Noticed init where
  zombie unreaped := by cases unreaped
  reaped reaped := by cases reaped

theorem destroyed_of_takes {s s' : State} {a : Action} (takes : Takes s a s')
    (destroyed : s.destroyed = true) : s'.destroyed = true := by
  cases takes <;> simp [State.destroy, destroyed]

/-- A pending SIGCHLD stays until the handler runs, and the handler until it has
called `waitpid`. -/
theorem watched_of_takes {s s' : State} {a : Action} (takes : Takes s a s')
    (watched : s.pending = true ∨ s.handler = some .waitpid) :
    (s'.destroyed = true ∨ s'.pending = true ∨ s'.handler = some .waitpid) ∨
      ∃ result, a = .waitpid result ∧ s.handler = some .waitpid ∧ s.pending = false ∧
        s.table.Answers result ∧ s'.table = (s.reap result).table := by
  cases pending : s.pending with
  | true =>
    refine .inl (.inr ?_)
    cases takes with
    | deliver => exact .inr rfl
    | exit => exact .inl rfl
    | _ => exact .inl (by simp [State.destroy, pending])
  | false =>
    have handler : s.handler = some .waitpid := by simpa [pending] using watched
    have point : s.point = some .waitpid := by simp [State.point, handler]
    cases takes with
    | @waitpid result _ answers => exact .inr ⟨result, rfl, handler, rfl, answers, by simp⟩
    | destroy => exact .inl (.inl rfl)
    | spawn | exit | heartbeat | detect => exact .inl (.inr (.inr handler))
    | deliver idle | forkFirst _ idle | assignFirst idle => cases idle.symm.trans handler
    | ignore stands => cases stands.symm.trans handler
    | handle stands | fork _ stands | assign stands => cases stands.symm.trans point

/-- A thread with the pid of a reaped child keeps it until it acts on it. -/
theorem compared_of_takes {s s' : State} {a : Action} {pid : Int} {status : Status}
    (takes : Takes s a s') (stands : s.At (.compare (.child pid status))) :
    s'.At (.compare (.child pid status)) ∨ s'.destroyed = true ∨
      pid = s.agentpid ∨ pid ≠ s.servicepid := by
  cases takes with
  | destroy => exact .inr (.inl rfl)
  | spawn | exit => exact .inl stands
  | deliver idle => exact .inl (stands.imp_left fun handler => by cases idle.symm.trans handler)
  | heartbeat detecting | detect detecting =>
    rcases stands with handler | main
    · cases detecting.1.symm.trans handler
    · rcases detecting.2 with other | other <;> cases other.symm.trans main
  | forkFirst _ idle other | assignFirst idle other =>
    rcases stands with handler | main
    · cases idle.symm.trans handler
    · cases other.symm.trans main
  | waitpid running =>
    refine .inl (State.at_moveTo _ ?_ (?_ : _ = some .waitpid) (by simp))
    · simpa [State.At] using stands
    · simpa [State.point] using running
  | @ignore result handled ignored =>
    rcases stands with handler | main
    · cases handler.symm.trans handled
      exact .inr (.inr (.inr (ignored pid status rfl).2))
    · exact .inl (.inr main)
  | @handle other found running handled =>
    by_cases same : (Waited.child pid status) = .child other found
    · cases same
      exact .inr (.inr (handled.imp_right And.right))
    · exact .inl (State.at_moveTo _ stands running (by simpa using same))
  | @fork ret code _ running =>
    refine .inl (State.at_moveTo _ ?_ (?_ : _ = some (.childExit code)) (by simp))
    · simpa [State.At] using stands
    · simpa [State.point] using running
  | @assign ret running =>
    exact .inl (@State.at_goOn { s with agentpid := ret } _ _ stands running (by simp))

/-- Before a step that leaves the service ended, the same process was the service. -/
theorem service_of_takes {s s' : State} {a : Action} (noticeable : Noticeable s a)
    (takes : Takes s a s') (ended : s'.table.life s'.servicepid ≠ .alive) :
    s'.servicepid = s.servicepid := by
  rcases servicepid_of_takes takes with same | ⟨val, rfl, reported, table, _⟩
  · exact same
  · rcases noticeable with same | ⟨alive, _⟩
    · rw [reported, same]
    · exact absurd (by rw [reported, table, alive]) ended

theorem noticed_step {s s' : State} {a : Action} (apart : Apart s) (noticed : Noticed s)
    (noticeable : Noticeable s a) (takes : Takes s a s') : Noticed s' where
  zombie unreaped := by
    have same : s'.servicepid = s.servicepid := by
      refine service_of_takes noticeable takes fun alive => ?_
      simp [Unreaped, alive, Life.isZombie] at unreaped
    rw [Unreaped, same] at unreaped
    cases lives_of_takes takes s.servicepid with
    | ends _ _ _ pending => exact .inr (.inl pending)
    | begins _ _ alive => simp [alive, Life.isZombie] at unreaped
    | reaped _ _ reaped => simp [reaped, Life.isZombie] at unreaped
    | stays stays =>
      have before : Unreaped s := by rwa [Unreaped, ← stays]
      rcases noticed.zombie before with destroyed | watched
      · exact .inl (destroyed_of_takes takes destroyed)
      rcases watched_of_takes takes watched with
        still | ⟨result, rfl, handler, quiet, answers, table⟩
      · exact still
      · -- the handler's only `waitpid` would have to miss the service
        cases result with
        | child pid status =>
          simp only [Noticeable, handler, Option.isSome_some, if_true] at noticeable
          rcases noticeable with rfl | running | pending
          · simp [table, State.reap, Life.isZombie] at unreaped
          · exact absurd before running
          · cases quiet.symm.trans pending
        | alive | error =>
          have zombies := answers.no_zombie (by simp) s.servicepid
          cases (Life.not_isZombie.mpr zombies).symm.trans before
  reaped reaped := by
    have same : s'.servicepid = s.servicepid :=
      service_of_takes noticeable takes (by simp [reaped])
    rw [same] at reaped ⊢
    have keeps : ∀ status, s.At (.compare (.child s.servicepid status)) →
        s'.destroyed = true ∨ ∃ status, s'.At (.compare (.child s.servicepid status)) := by
      intro status stands
      rcases compared_of_takes takes stands with still | destroyed | agent | differs
      · exact .inr ⟨status, still⟩
      · exact .inl destroyed
      · -- the service is no agent
        have positive := apart.sound.positive s.servicepid (by
          simp [apart.sound.compared _ _ stands])
        rcases apart.current s.servicepid (.inl agent) with member | low
        · exact absurd member apart.service
        · omega
      · exact absurd rfl differs
    cases lives_of_takes takes s.servicepid with
    | begins _ _ alive => cases alive.symm.trans reaped
    | ends _ _ zombie => cases zombie.symm.trans reaped
    | stays stays =>
      rcases noticed.reaped (stays ▸ reaped) with destroyed | ⟨status, stands⟩
      · exact .inl (destroyed_of_takes takes destroyed)
      · exact keeps status stands
    | reaped status zombie _ waited =>
      cases takes with
      | destroy => exact .inl rfl
      | detect => cases zombie.symm.trans reaped
      | @waitpid result running _ =>
        cases waited
        refine .inr ⟨status, ?_⟩
        rcases s.point_cases running with handler | ⟨idle, main⟩
        · exact .inl (by simp [State.moveTo, handler])
        · exact .inr (by simp [State.moveTo, idle])
      | _ => cases waited

/-- The loop of `run_server` has not reaped the service. -/
def LeftToHandler (s : State) : Prop :=
  ∀ status, s.main ≠ .reaping (.compare (.child s.servicepid status))

theorem leftToHandler_step {s s' : State} {a : Action} (left : LeftToHandler s)
    (noticeable : Noticeable s a) (takes : Takes s a s') : LeftToHandler s' := by
  intro status main
  cases takes with
  | destroy | spawn | exit | deliver | ignore => exact left status main
  | heartbeat | forkFirst | assignFirst => cases main
  | detect _ next => rcases next with next | next | next <;> cases main.symm.trans next
  | @waitpid result running _ =>
    rcases s.point_cases running with handler | ⟨idle, _⟩
    · exact left status (by simpa [State.moveTo, handler] using main)
    · simp [State.moveTo, idle] at main
      simp [Noticeable, main, idle] at noticeable
  | handle | fork | assign =>
    simp only [State.moveTo, State.goOn] at main
    split at main
    · exact left status (by simpa using main)
    · simp at main

/-- In every run in which the handler passes over an ended service only with one
more SIGCHLD pending, the loop does not reap the service and the reported services
are running processes of their own: once no SIGCHLD is pending and no handler runs,
a service that has ended has led to `destroy`. -/
theorem service_end_destroys {t : State} (run : Run step Noticeable init t)
    (quiet : t.pending = false) (idle : t.handler = none)
    (ended : (t.table.life t.servicepid).ended = true) : t.destroyed = true := by
  have invariant : (Apart t ∧ Noticed t) ∧ LeftToHandler t := by
    refine @Run.invariant _ _ _ _ _ _ (fun t => (Apart t ∧ Noticed t) ∧ LeftToHandler t) run
      ⟨⟨apart_init, noticed_init⟩, fun _ main => by cases main⟩ ?_
    rintro s s' a ⟨⟨apart, noticed⟩, left⟩ noticeable taken
    have takes := step_takes taken
    exact ⟨⟨apart_step apart noticeable takes, noticed_step apart noticed noticeable takes⟩,
      leftToHandler_step left noticeable takes⟩
  obtain ⟨⟨_, noticed⟩, left⟩ := invariant
  cases life : t.table.life t.servicepid with
  | unborn | alive => simp [life, Life.ended] at ended
  | zombie status =>
    rcases noticed.zombie (by simp [Unreaped, life, Life.isZombie]) with
      destroyed | pending | handler
    · exact destroyed
    · cases quiet.symm.trans pending
    · cases idle.symm.trans handler
  | reaped =>
    rcases noticed.reaped life with destroyed | ⟨status, handler | main⟩
    · exact destroyed
    · cases idle.symm.trans handler
    · exact absurd main (left status)

/-- The agent 10 reports the service 30, which a boot process 20 has started. -/
def sampleStart : List Action :=
  [.fork 10, .advance, .spawn 20, .spawn 30, .heartbeat (30 <<< 32)]

/-- The boot process ends and is reaped by the handler, then the service. -/
theorem service_end_destroys_after_boot :
    ∃ t, Run step Noticeable init t ∧ t.servicepid = 30 ∧ t.table.life 20 = .reaped ∧
      t.table.life 30 = .reaped ∧ t.destroyed = true := by
  have ran : (exec (restrict step fun s a => decide (Noticeable s a)) init
      (sampleStart ++ [.exit 20 (.exited 0), .deliver, .waitpid (.child 20 (.exited 0)), .advance,
        .exit 30 (.signaled 9), .deliver, .waitpid (.child 30 (.signaled 9)), .advance])).any
      (fun t => t.pending == false && t.handler == none && t.servicepid == 30 &&
        t.table.life 20 == .reaped && t.table.life 30 == .reaped) = true := by
    decide +kernel
  obtain ⟨t, run, found⟩ := exists_run_of_exec (fun _ _ => of_decide_eq_true) ran
  simp only [Bool.and_eq_true, beq_iff_eq] at found
  obtain ⟨⟨⟨⟨quiet, idle⟩, service⟩, boot⟩, reaped⟩ := found
  refine ⟨t, run, service, boot, reaped, service_end_destroys run quiet idle ?_⟩
  simp [service, reaped, Life.ended]

/-- The boot process and the service end before the handler runs: it reaps the boot
process, and nobody looks for the service. -/
theorem service_end_missed :
    ∃ t, Run step (fun _ _ => True) init t ∧ t.pending = false ∧ t.handler = none ∧
      (t.table.life t.servicepid).ended = true ∧ t.destroyed = false := by
  have ran : (exec (restrict step fun _ _ => true) init
      (sampleStart ++ [.exit 20 (.exited 0), .exit 30 (.signaled 9), .deliver,
        .waitpid (.child 20 (.exited 0)), .advance])).any
      (fun t => t.pending == false && t.handler == none &&
        (t.table.life t.servicepid).ended == true && t.destroyed == false) = true := by
    decide +kernel
  obtain ⟨t, run, found⟩ := exists_run_of_exec (fun _ _ _ => trivial) ran
  simp only [Bool.and_eq_true, beq_iff_eq] at found
  exact ⟨t, run, found.1.1.1, found.1.1.2, found.1.2, found.2⟩

end Moha.ServiceDeath
