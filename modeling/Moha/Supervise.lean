import Moha.Runs

/-! The supervisor of a node, `supervise/supervise.c`. It forks the agent, watches
its heartbeats in `run_server`, and has a handler for SIGCHLD that may interrupt
`main` between any two of its steps. Both reap children with `wait_child_pid` and
restart the agent with `handle_child_exit`, but they read the result codes apart.
SIGCHLDs that are pending together are one signal, and the handler runs with
SIGCHLD blocked. The programs that `run_child` and `destroy` execute are there, so
`destroy` is the supervisor's last step. Pids are not used twice. -/
namespace Moha.Supervise
open Runs

/-- What `waitpid` stores about a child that has ended. -/
inductive Status where
  | exited (code : Nat)
  | signaled (signal : Nat)
  deriving DecidableEq, Repr

inductive Life where
  | unborn
  | alive
  | zombie (status : Status)
  | reaped
  deriving DecidableEq, Repr

/-- The children of the supervisor, forked or adopted. The first entry of a pid
counts. -/
abbrev Table := List (Int × Life)

def Table.life (table : Table) (pid : Int) : Life := (table.lookup pid).getD .unborn

def Table.set (table : Table) (pid : Int) (life : Life) : Table := (pid, life) :: table

/-- Has ended, whether or not `waitpid` has returned it. -/
def Life.ended : Life → Bool
  | .zombie _ | .reaped => true
  | .unborn | .alive => false

/-- The result of `waitpid(-1, status, WNOHANG)`: 0, -1 or the pid of a child. -/
inductive Waited where
  | alive
  | error
  | child (pid : Int) (status : Status)
  deriving DecidableEq, Repr

/-- A child that has ended is returned once; 0 and -1 say that there is none. -/
def Table.Answers (table : Table) : Waited → Prop
  | .child pid status => table.life pid = .zombie status
  | .alive | .error => ∀ entry ∈ table, ∀ status, table.life entry.1 ≠ .zombie status

def Life.isZombie : Life → Bool
  | .zombie _ => true
  | _ => false

theorem Life.not_isZombie {life : Life} :
    life.isZombie = false ↔ ∀ status, life ≠ .zombie status := by
  cases life <;> simp [isZombie]

instance (table : Table) (result : Waited) : Decidable (table.Answers result) :=
  match result with
  | .child _ _ => inferInstanceAs (Decidable (_ = _))
  | .alive | .error =>
    decidable_of_iff (∀ entry ∈ table, (table.life entry.1).isZombie = false)
      (forall₂_congr fun _ _ => Life.not_isZombie)

/-- Inside `wait_child_pid`, before and after `waitpid`, and inside
`handle_child_exit`, before and after `fork`. -/
inductive Point where
  | waitpid
  | compare (result : Waited)
  | childExit (status : Status)
  | assign (ret : Int)
  deriving DecidableEq, Repr

/-- Where `main` stands: at its `fork` and the assignment after it, in the first
`detect_child_alive`, and in the loop of `run_server`. -/
inductive Main where
  | fork
  | assign (ret : Int)
  | detectInit
  | detect
  | reaping (point : Point)
  deriving DecidableEq, Repr

/-- The globals of the program, where `main` and the handler stand, and the
children. `agents` are the pids that supervise forked as agents. -/
structure State where
  table : Table := []
  agents : List Int := []
  agentpid : Int := 0
  servicepid : Int := 0
  pending : Bool := false
  main : Main := .fork
  handler : Option Point := none
  destroyed : Bool := false
  deriving Repr

/-- `register_signal_handler` has returned. -/
def init : State := {}

/-- `destroy` executes another program in the process, without the handlers. -/
def State.destroy (s : State) : State := { s with handler := none, destroyed := true }

/-- `wait_child_pid` after `waitpid`. -/
def waitChildPid (s : State) : Waited → Int
  | .alive => 0
  | .error => -1
  | .child pid _ => if pid = s.agentpid then 1 else if pid = s.servicepid then 2 else 3

/-- What becomes of the result of `wait_child_pid`. -/
inductive Reaction where
  | destroys
  | handlesChildExit
  | goesOn
  deriving DecidableEq, Repr

/-- `sig_handler_child` on the result of `wait_child_pid`. -/
def sigHandlerChild (r : Int) : Reaction :=
  if r = 2 then .destroys else if r = 1 then .handlesChildExit else .goesOn

/-- `run_server` on the result of `wait_child_pid`; after its return `main` destroys. -/
def runServer (r : Int) : Reaction :=
  if r = 0 then .destroys
  else if r = 2 then .destroys
  else if r > 0 then .handlesChildExit
  else .destroys

/-- The test of `handle_child_exit` that makes it return -1. -/
def Status.expected : Status → Bool
  | .exited code => code == 0 || code == 3
  | .signaled _ => false

/-- `detect_child_alive` with a value of the eventfd: the upper half, as an `int`, is
the pid of the service when it is positive. -/
def heartbeat (servicepid : Int) (val : BitVec 64) : Int :=
  if 1 < val.toNat then
    let spid := ((val >>> 32).setWidth 32).toInt
    if 0 < spid then spid else servicepid
  else servicepid

/-- The point of the handler when it runs, else the one of `main`. -/
def State.point (s : State) : Option Point :=
  match s.handler, s.main with
  | some point, _ => some point
  | none, .reaping point => some point
  | none, _ => none

def State.moveTo (s : State) (point : Point) : State :=
  if s.handler.isSome then { s with handler := some point }
  else { s with main := .reaping point }

/-- The handler returns to `main`, or `main` begins the next round of its loop. -/
def State.goOn (s : State) : State :=
  if s.handler.isSome then { s with handler := none } else { s with main := .detect }

def State.reaction (s : State) (result : Waited) : Reaction :=
  if s.handler.isSome then sigHandlerChild (waitChildPid s result)
  else runServer (waitChildPid s result)

def State.reap (s : State) : Waited → State
  | .child pid _ => { s with table := s.table.set pid .reaped }
  | _ => s

/-- `fork` returns -1 or a new process that runs the agent. -/
def State.forked (s : State) (ret : Int) : State :=
  if ret = -1 then s
  else { s with table := s.table.set ret .alive, agents := ret :: s.agents }

def State.detecting (s : State) : Prop :=
  s.handler = none ∧ (s.main = .detectInit ∨ s.main = .detect)

instance (s : State) : Decidable s.detecting := inferInstanceAs (Decidable (_ ∧ _))

inductive Action where
  | spawn (pid : Int)
  | exit (pid : Int) (status : Status)
  | terminate
  | deliver
  | heartbeat (val : BitVec 64)
  | interrupted
  | timeout
  | epollError
  | waitpid (result : Waited)
  | fork (ret : Int)
  | advance
  deriving DecidableEq, Repr

/-- The step from `wait_child_pid` or `handle_child_exit` that calls nothing. -/
def State.advance (s : State) : Option State :=
  match s.point with
  | some (.compare result) =>
    match s.reaction result, result with
    | .destroys, _ => some s.destroy
    | .handlesChildExit, .child _ status => some (s.moveTo (.childExit status))
    | _, _ => some s.goOn
  | some (.childExit status) => if status.expected then some s.destroy else none
  | some (.assign ret) => some { s with agentpid := ret }.goOn
  | some .waitpid => none
  | none =>
    match s.main with
    | .assign ret => some { s with agentpid := ret, main := .detectInit }
    | _ => none

/-- A step of the supervisor or of its environment; `none` when it is not enabled. -/
def step (s : State) : Action → Option State
  | .spawn pid =>
    if 0 < pid ∧ s.table.life pid = .unborn then
      some { s with table := s.table.set pid .alive }
    else none
  | .exit pid status =>
    if s.table.life pid = .alive then
      some { s with table := s.table.set pid (.zombie status), pending := true }
    else none
  | .terminate => if s.destroyed then none else some s.destroy
  | .deliver =>
    if s.destroyed = false ∧ s.pending = true ∧ s.handler = none then
      some { s with pending := false, handler := some .waitpid }
    else none
  | .heartbeat val =>
    if s.destroyed = false ∧ s.detecting then
      some { s with servicepid := heartbeat s.servicepid val, main := .detect }
    else none
  | .interrupted => if s.destroyed = false ∧ s.detecting then some s else none
  | .timeout =>
    if s.destroyed = false ∧ s.detecting then
      some { s with main := if s.main = .detectInit then .detect else .reaping .waitpid }
    else none
  | .epollError =>
    if s.destroyed = false ∧ s.detecting then
      if s.main = .detectInit then some s.destroy else some { s with main := .reaping .waitpid }
    else none
  | .waitpid result =>
    if s.destroyed = false ∧ s.point = some .waitpid ∧ s.table.Answers result then
      some ((s.reap result).moveTo (.compare result))
    else none
  | .fork ret =>
    if s.destroyed = false ∧ (ret = -1 ∨ (0 < ret ∧ s.table.life ret = .unborn)) then
      match s.point with
      | some (.childExit status) =>
        if status.expected then none else some ((s.forked ret).moveTo (.assign ret))
      | some _ => none
      | none => if s.main = .fork then some { s.forked ret with main := .assign ret } else none
    else none
  | .advance => if s.destroyed then none else s.advance

@[simp] theorem Table.life_nil (pid : Int) : Table.life [] pid = .unborn := rfl

@[simp] theorem Table.life_set (table : Table) (pid other : Int) (life : Life) :
    (table.set pid life).life other = if other = pid then life else table.life other := by
  by_cases same : other = pid
  · subst same
    simp [Table.life, Table.set]
  · have differ : (other == pid) = false := beq_eq_false_iff_ne.mpr same
    simp [Table.life, Table.set, List.lookup_cons, differ, same]

/-- When `waitpid` returns no child, no child has ended unreaped. -/
theorem Table.Answers.no_zombie {table : Table} {result : Waited} (answers : table.Answers result)
    (none : ∀ pid status, result ≠ .child pid status) (pid : Int) (status : Status) :
    table.life pid ≠ .zombie status := by
  have quiet : ∀ entry ∈ table, ∀ status, table.life entry.1 ≠ .zombie status := by
    cases result with
    | child found _ => exact absurd rfl (none found _)
    | alive => exact answers
    | error => exact answers
  intro zombie
  cases found : table.lookup pid with
  | none => simp [Table.life, found] at zombie
  | some life =>
    have member : (pid, life) ∈ table := by
      obtain ⟨before, after, split, _⟩ := List.lookup_eq_some_iff.mp found
      simp [split]
    exact quiet _ member status zombie

/-- One of the two threads stands at the point. -/
def State.At (s : State) (point : Point) : Prop := s.handler = some point ∨ s.main = .reaping point

/-- The running thread is the handler, or `main` while no handler runs. -/
theorem State.point_cases {s : State} {point : Point} (stands : s.point = some point) :
    s.handler = some point ∨ (s.handler = none ∧ s.main = .reaping point) := by
  unfold State.point at stands
  split at stands <;> simp_all

theorem State.handler_of_point_none {s : State} (stands : s.point = none) : s.handler = none := by
  unfold State.point at stands
  split at stands <;> simp_all

/-- What a step can do. The last five are steps of the running thread in
`wait_child_pid` or `handle_child_exit`. -/
inductive Takes (s : State) : Action → State → Prop where
  | destroy {a : Action} : Takes s a s.destroy
  | spawn {pid : Int} (positive : 0 < pid) (fresh : s.table.life pid = .unborn) :
      Takes s (.spawn pid) { s with table := s.table.set pid .alive }
  | exit {pid : Int} {status : Status} (alive : s.table.life pid = .alive) :
      Takes s (.exit pid status)
        { s with table := s.table.set pid (.zombie status), pending := true }
  | deliver (idle : s.handler = none) :
      Takes s .deliver { s with pending := false, handler := some .waitpid }
  | heartbeat {val : BitVec 64} (detecting : s.detecting) :
      Takes s (.heartbeat val)
        { s with servicepid := Supervise.heartbeat s.servicepid val, main := .detect }
  | detect {a : Action} {main : Main} (detecting : s.detecting)
      (next : main = .detectInit ∨ main = .detect ∨ main = .reaping .waitpid) :
      Takes s a { s with main := main }
  | forkFirst {ret : Int} (runs : s.destroyed = false) (idle : s.handler = none)
      (stands : s.main = .fork)
      (fresh : ret = -1 ∨ (0 < ret ∧ s.table.life ret = .unborn)) :
      Takes s (.fork ret) { s.forked ret with main := .assign ret }
  | assignFirst {ret : Int} (idle : s.handler = none) (stands : s.main = .assign ret) :
      Takes s .advance { s with agentpid := ret, main := .detectInit }
  | waitpid {result : Waited} (stands : s.point = some .waitpid)
      (answers : s.table.Answers result) :
      Takes s (.waitpid result) ((s.reap result).moveTo (.compare result))
  | ignore {result : Waited} (stands : s.handler = some (.compare result))
      (ignored : ∀ pid status, result = .child pid status → pid ≠ s.agentpid ∧ pid ≠ s.servicepid) :
      Takes s .advance { s with handler := none }
  | handle {pid : Int} {status : Status} (stands : s.point = some (.compare (.child pid status)))
      (handled : pid = s.agentpid ∨ (s.handler = none ∧ pid ≠ s.servicepid)) :
      Takes s .advance (s.moveTo (.childExit status))
  | fork {ret : Int} {status : Status} (runs : s.destroyed = false)
      (stands : s.point = some (.childExit status))
      (fresh : ret = -1 ∨ (0 < ret ∧ s.table.life ret = .unborn)) :
      Takes s (.fork ret) ((s.forked ret).moveTo (.assign ret))
  | assign {ret : Int} (stands : s.point = some (.assign ret)) :
      Takes s .advance { s with agentpid := ret }.goOn

private theorem compare_takes {s s' : State} {result : Waited}
    (stands : s.point = some (.compare result)) (taken : s.advance = some s') :
    Takes s .advance s' := by
  simp only [State.advance, stands] at taken
  rcases s.point_cases stands with handler | ⟨idle, main⟩
  · -- the handler: only the code 1 leads to `handle_child_exit`
    cases result with
    | child pid status =>
      by_cases agent : pid = s.agentpid
      · simp [State.reaction, handler, waitChildPid, sigHandlerChild, agent] at taken
        exact taken ▸ .handle stands (.inl agent)
      · by_cases service : pid = s.servicepid
        · simp [State.reaction, handler, waitChildPid, sigHandlerChild, agent, ← service] at taken
          exact taken ▸ .destroy
        · simp [State.reaction, handler, waitChildPid, sigHandlerChild, agent, service,
            State.goOn] at taken
          exact taken ▸ .ignore handler fun _ _ same => by
            cases same
            exact ⟨agent, service⟩
    | alive =>
      simp [State.reaction, handler, waitChildPid, sigHandlerChild, State.goOn] at taken
      exact taken ▸ .ignore handler fun _ _ same => by cases same
    | error =>
      simp [State.reaction, handler, waitChildPid, sigHandlerChild, State.goOn] at taken
      exact taken ▸ .ignore handler fun _ _ same => by cases same
  · -- the loop: so does the code 3
    cases result with
    | child pid status =>
      by_cases agent : pid = s.agentpid
      · simp [State.reaction, idle, waitChildPid, runServer, agent] at taken
        exact taken ▸ .handle stands (.inl agent)
      · by_cases service : pid = s.servicepid
        · simp [State.reaction, idle, waitChildPid, runServer, agent, ← service] at taken
          exact taken ▸ .destroy
        · simp [State.reaction, idle, waitChildPid, runServer, agent, service] at taken
          exact taken ▸ .handle stands (.inr ⟨idle, service⟩)
    | alive =>
      simp [State.reaction, idle, waitChildPid, runServer] at taken
      exact taken ▸ .destroy
    | error =>
      simp [State.reaction, idle, waitChildPid, runServer] at taken
      exact taken ▸ .destroy

private theorem advance_takes {s s' : State} (taken : s.advance = some s') :
    Takes s .advance s' := by
  cases stands : s.point with
  | none =>
    have idle : s.handler = none := s.handler_of_point_none stands
    simp only [State.advance, stands] at taken
    split at taken
    · rename_i ret main
      cases taken
      exact .assignFirst idle main
    · contradiction
  | some point =>
    cases point with
    | waitpid => simp [State.advance, stands] at taken
    | compare result => exact compare_takes stands taken
    | childExit status =>
      simp only [State.advance, stands] at taken
      split at taken <;> cases taken
      exact .destroy
    | assign ret =>
      simp only [State.advance, stands] at taken
      cases taken
      exact .assign stands

theorem step_takes {s s' : State} {a : Action} (taken : step s a = some s') : Takes s a s' := by
  cases a with
  | spawn pid =>
    simp only [step] at taken
    split at taken <;> cases taken
    rename_i fresh
    exact .spawn fresh.1 fresh.2
  | exit pid status =>
    simp only [step] at taken
    split at taken <;> cases taken
    rename_i alive
    exact .exit alive
  | terminate =>
    simp only [step] at taken
    split at taken <;> cases taken
    exact .destroy
  | deliver =>
    simp only [step] at taken
    split at taken <;> cases taken
    rename_i enabled
    exact .deliver enabled.2.2
  | heartbeat val =>
    simp only [step] at taken
    split at taken <;> cases taken
    rename_i enabled
    exact .heartbeat enabled.2
  | interrupted =>
    simp only [step] at taken
    split at taken <;> cases taken
    rename_i enabled
    exact .detect enabled.2 (enabled.2.2.imp_right .inl)
  | timeout =>
    simp only [step] at taken
    split at taken <;> cases taken
    rename_i enabled
    refine .detect enabled.2 ?_
    split
    · exact .inr (.inl rfl)
    · exact .inr (.inr rfl)
  | epollError =>
    simp only [step] at taken
    split at taken
    · rename_i enabled
      split at taken <;> cases taken
      · exact .destroy
      · exact .detect enabled.2 (.inr (.inr rfl))
    · contradiction
  | waitpid result =>
    simp only [step] at taken
    split at taken <;> cases taken
    rename_i enabled
    exact .waitpid enabled.2.1 enabled.2.2
  | fork ret =>
    simp only [step] at taken
    split at taken
    · rename_i enabled
      split at taken
      · rename_i status stands
        split at taken <;> cases taken
        exact .fork enabled.1 stands enabled.2
      · contradiction
      · rename_i stands
        split at taken <;> cases taken
        rename_i main
        exact .forkFirst enabled.1 (s.handler_of_point_none stands) main enabled.2
    · contradiction
  | advance =>
    simp only [step] at taken
    split at taken
    · contradiction
    · exact advance_takes taken

section Frames

variable (s : State) (point : Point) (ret : Int) (result : Waited)

@[simp] theorem moveTo_frame :
    (s.moveTo point).table = s.table ∧ (s.moveTo point).agents = s.agents ∧
      (s.moveTo point).agentpid = s.agentpid ∧ (s.moveTo point).servicepid = s.servicepid ∧
      (s.moveTo point).pending = s.pending ∧ (s.moveTo point).destroyed = s.destroyed := by
  unfold State.moveTo
  split <;> simp

@[simp] theorem goOn_frame :
    s.goOn.table = s.table ∧ s.goOn.agents = s.agents ∧ s.goOn.agentpid = s.agentpid ∧
      s.goOn.servicepid = s.servicepid ∧ s.goOn.pending = s.pending ∧
      s.goOn.destroyed = s.destroyed := by
  unfold State.goOn
  split <;> simp

@[simp] theorem forked_frame :
    (s.forked ret).agentpid = s.agentpid ∧ (s.forked ret).servicepid = s.servicepid ∧
      (s.forked ret).pending = s.pending ∧ (s.forked ret).destroyed = s.destroyed ∧
      (s.forked ret).main = s.main ∧ (s.forked ret).handler = s.handler := by
  unfold State.forked
  split <;> simp

@[simp] theorem reap_frame :
    (s.reap result).agents = s.agents ∧ (s.reap result).agentpid = s.agentpid ∧
      (s.reap result).servicepid = s.servicepid ∧ (s.reap result).pending = s.pending ∧
      (s.reap result).destroyed = s.destroyed ∧ (s.reap result).main = s.main ∧
      (s.reap result).handler = s.handler := by
  cases result <;> simp [State.reap]

end Frames

/-- How one process goes on in a step. -/
inductive Lives (s s' : State) (a : Action) (pid : Int) : Prop where
  | stays (same : s'.table.life pid = s.table.life pid)
  | begins (positive : 0 < pid) (unborn : s.table.life pid = .unborn)
      (alive : s'.table.life pid = .alive)
  | ends (status : Status) (alive : s.table.life pid = .alive)
      (zombie : s'.table.life pid = .zombie status) (pending : s'.pending = true)
  | reaped (status : Status) (zombie : s.table.life pid = .zombie status)
      (reaped : s'.table.life pid = .reaped) (waited : a = .waitpid (.child pid status))

theorem lives_forked {s s' : State} {a : Action} {ret : Int} (pid : Int)
    (fresh : ret = -1 ∨ (0 < ret ∧ s.table.life ret = .unborn))
    (table : s'.table = (s.forked ret).table) : Lives s s' a pid := by
  by_cases failed : ret = -1
  · exact .stays (by simp [table, State.forked, failed])
  · obtain ⟨positive, unborn⟩ := fresh.resolve_left failed
    by_cases same : pid = ret
    · subst same
      exact .begins positive unborn (by simp [table, State.forked, failed])
    · exact .stays (by simp [table, State.forked, failed, same])

theorem lives_of_takes {s s' : State} {a : Action} (takes : Takes s a s') (pid : Int) :
    Lives s s' a pid := by
  cases takes with
  | destroy | deliver | heartbeat | detect | assignFirst | ignore => exact .stays rfl
  | handle | assign => exact .stays (by simp)
  | @spawn other positive fresh =>
    by_cases same : pid = other
    · subst same
      exact .begins positive fresh (by simp)
    · exact .stays (by simp [same])
  | @exit other status alive =>
    by_cases same : pid = other
    · subst same
      exact .ends status alive (by simp) rfl
    · exact .stays (by simp [same])
  | forkFirst _ _ _ fresh => exact lives_forked pid fresh rfl
  | fork _ _ fresh => exact lives_forked pid fresh (by simp)
  | @waitpid result _ answers =>
    cases result with
    | alive | error => exact .stays (by simp [State.reap])
    | child other status =>
      by_cases same : pid = other
      · subst same
        exact .reaped status answers (by simp [State.reap]) rfl
      · exact .stays (by simp [State.reap, same])

/-- A process that has been reaped is gone for good. -/
theorem reaped_of_takes {s s' : State} {a : Action} {pid : Int} (takes : Takes s a s')
    (reaped : s.table.life pid = .reaped) : s'.table.life pid = .reaped := by
  cases lives_of_takes takes pid with
  | stays same => rw [same, reaped]
  | begins _ unborn => simp [reaped] at unborn
  | ends _ alive => simp [reaped] at alive
  | reaped _ zombie => simp [reaped] at zombie

theorem born_of_takes {s s' : State} {a : Action} {pid : Int} (takes : Takes s a s')
    (born : s.table.life pid ≠ .unborn) : s'.table.life pid ≠ .unborn := by
  cases lives_of_takes takes pid with
  | stays same => rwa [same]
  | begins _ _ alive => simp [alive]
  | ends _ _ zombie => simp [zombie]
  | reaped _ _ reaped => simp [reaped]

/-- Agents are added by `fork` only, each as a new process. -/
theorem agents_of_takes {s s' : State} {a : Action} (takes : Takes s a s') :
    s'.agents = s.agents ∨
      ∃ ret, s'.agents = ret :: s.agents ∧ a = .fork ret ∧ 0 < ret ∧
        s.table.life ret = .unborn ∧ s'.table.life ret = .alive := by
  have forked : ∀ {ret : Int}, a = .fork ret →
      (ret = -1 ∨ (0 < ret ∧ s.table.life ret = .unborn)) →
      s'.agents = (s.forked ret).agents → s'.table = (s.forked ret).table →
      s'.agents = s.agents ∨
        ∃ ret, s'.agents = ret :: s.agents ∧ a = .fork ret ∧ 0 < ret ∧
          s.table.life ret = .unborn ∧ s'.table.life ret = .alive := by
    intro ret action fresh agents table
    by_cases failed : ret = -1
    · exact .inl (by simp [agents, State.forked, failed])
    · obtain ⟨positive, unborn⟩ := fresh.resolve_left failed
      refine .inr ⟨ret, ?_, action, positive, unborn, ?_⟩
      · simp [agents, State.forked, failed]
      · simp [table, State.forked, failed]
  cases takes with
  | forkFirst _ _ _ fresh => exact forked rfl fresh rfl rfl
  | fork _ _ fresh => exact forked rfl fresh (by simp) (by simp)
  | _ => exact .inl (by simp [State.destroy])

theorem State.at_of_moveTo {s : State} {point other : Point} (stands : (s.moveTo point).At other) :
    s.At other ∨ other = point := by
  unfold State.moveTo at stands
  split at stands
  · rcases stands with handler | main
    · exact .inr (Option.some.inj handler).symm
    · exact .inl (.inr main)
  · rcases stands with handler | main
    · exact .inl (.inl handler)
    · exact .inr (Main.reaping.inj main).symm

theorem State.at_of_goOn {s : State} {point : Point} (stands : s.goOn.At point) : s.At point := by
  unfold State.goOn at stands
  split at stands
  · exact stands.elim (fun handler => by cases handler) .inr
  · exact stands.elim .inl fun main => by cases main

/-- The running thread moves, the other one stays. -/
theorem State.at_moveTo {s : State} {point other : Point} (next : Point) (stands : s.At other)
    (running : s.point = some point) (differ : other ≠ point) : (s.moveTo next).At other := by
  rcases s.point_cases running with handler | ⟨idle, main⟩
  · rcases stands with same | main
    · exact absurd (Option.some.inj (same.symm.trans handler)) differ
    · exact .inr (by simp [State.moveTo, handler, main])
  · rcases stands with handler | same
    · cases idle.symm.trans handler
    · exact absurd (Main.reaping.inj (same.symm.trans main)) differ

theorem State.at_goOn {s : State} {point other : Point} (stands : s.At other)
    (running : s.point = some point) (differ : other ≠ point) : s.goOn.At other := by
  rcases s.point_cases running with handler | ⟨idle, main⟩
  · rcases stands with same | main
    · exact absurd (Option.some.inj (same.symm.trans handler)) differ
    · exact .inr (by simp [State.goOn, handler, main])
  · rcases stands with handler | same
    · cases idle.symm.trans handler
    · exact absurd (Main.reaping.inj (same.symm.trans main)) differ

/-- A thread that stands at a point after a step stood there before it, or the step
has brought it there. -/
theorem at_of_takes {s s' : State} {a : Action} {point : Point} (takes : Takes s a s')
    (stands : s'.At point) :
    s.At point ∨ match point with
      | .waitpid | .childExit _ => True
      | .compare result => a = .waitpid result ∧ s'.table = (s.reap result).table
      | .assign ret => a = .fork ret ∧ s'.agents = (s.forked ret).agents := by
  cases takes with
  | spawn | exit => exact .inl stands
  | destroy | ignore => exact .inl (stands.imp_left fun handler => by cases handler)
  | deliver =>
    rcases stands with handler | main
    · cases handler
      exact .inr trivial
    · exact .inl (.inr main)
  | heartbeat => exact .inl (stands.imp_right fun main => by cases main)
  | detect _ next =>
    rcases stands with handler | main
    · exact .inl (.inl handler)
    · rcases next with next | next | next <;> cases main.symm.trans next
      exact .inr trivial
  | forkFirst =>
    refine .inl (stands.imp (fun handler => ?_) fun main => by cases main)
    simpa using handler
  | assignFirst => exact .inl (stands.imp_right fun main => by cases main)
  | @assign ret => exact .inl (@State.at_of_goOn { s with agentpid := ret } _ stands)
  | waitpid =>
    rcases State.at_of_moveTo stands with before | rfl
    · exact .inl (by simpa [State.At] using before)
    · exact .inr ⟨rfl, by simp⟩
  | handle =>
    rcases State.at_of_moveTo stands with before | rfl
    · exact .inl before
    · exact .inr trivial
  | fork =>
    rcases State.at_of_moveTo stands with before | rfl
    · exact .inl (by simpa [State.At] using before)
    · exact .inr ⟨rfl, by simp⟩

/-- Only positive pids are used, the agents among them, and a child whose pid a
thread has from `waitpid` is reaped. -/
structure Sound (s : State) : Prop where
  positive : ∀ pid, s.table.life pid ≠ .unborn → 0 < pid
  agents : ∀ pid ∈ s.agents, s.table.life pid ≠ .unborn
  compared : ∀ pid status, s.At (.compare (.child pid status)) → s.table.life pid = .reaped

theorem sound_init : Sound init where
  positive pid born := absurd rfl born
  agents pid member := by cases member
  compared pid status stands := by simp [State.At, init] at stands

theorem sound_step {s s' : State} {a : Action} (sound : Sound s) (takes : Takes s a s') :
    Sound s' where
  positive pid born := by
    cases lives_of_takes takes pid with
    | stays same => exact sound.positive pid (same ▸ born)
    | begins positive => exact positive
    | ends _ alive => exact sound.positive pid (by simp [alive])
    | reaped _ zombie => exact sound.positive pid (by simp [zombie])
  agents pid member := by
    rcases agents_of_takes takes with same | ⟨ret, added, _, _, _, alive⟩
    · exact born_of_takes takes (sound.agents pid (same ▸ member))
    · rcases List.mem_cons.mp (added ▸ member) with rfl | old
      · simp [alive]
      · exact born_of_takes takes (sound.agents pid old)
  compared pid status stands := by
    rcases at_of_takes takes stands with before | ⟨_, table⟩
    · exact reaped_of_takes takes (sound.compared pid status before)
    · simp [table, State.reap]

end Moha.Supervise
