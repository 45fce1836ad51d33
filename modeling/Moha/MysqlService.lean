import Moha.FallibleCalls
import Moha.LeaderLoop

/-! The MySQL service manager: `mysqlServiceManager` of `agent/service_manager.go` over
`pkg/mysql`. A call sends one or more statements, each of which may fail, and a failing
statement has no effect. The server turns `read_only` on with `super_read_only`, turns
`super_read_only` off with `read_only`, and refuses `CHANGE MASTER` while replication
runs. The manager remembers in `readonly` what it set last. -/
namespace Moha.MysqlService
open FallibleCalls LeaderLoop

/-- A replication source. -/
structure Source where
  host : String
  port : String
  deriving DecidableEq, Repr

/-- The server variables and the replication state that the manager changes. -/
structure Database where
  readOnly : Bool
  superReadOnly : Bool
  source : Source
  running : Bool
  deriving DecidableEq, Repr

inductive Statement where
  | setSuperReadOnly (on : Bool)
  | setReadOnly (on : Bool)
  | stopSlave
  | changeMaster (source : Source)
  | startSlave
  deriving DecidableEq, Repr

/-- What a statement does when it succeeds. -/
def Statement.effect (db : Database) : Statement → Database
  | .setSuperReadOnly true => { db with superReadOnly := true, readOnly := true }
  | .setSuperReadOnly false => { db with superReadOnly := false }
  | .setReadOnly true => { db with readOnly := true }
  | .setReadOnly false => { db with readOnly := false, superReadOnly := false }
  | .stopSlave => { db with running := false }
  | .changeMaster source => { db with source := source }
  | .startSlave => { db with running := true }

def Statement.refused (db : Database) : Statement → Bool
  | .changeMaster _ => db.running
  | _ => false

/-- The errors of the manager. `wrap` is `errors.Wrap` of a rollback that fails. -/
inductive Error where
  | exec (statement : Statement)
  | query
  | ddlBefore
  | ddlAfter
  | wrap (readonlyErr anotherErr : Error)
  deriving DecidableEq, Repr

/-- `db.Exec` of a statement; `succeeds` is what comes from outside. -/
def exec (statement : Statement) (succeeds : Bool) : Call Database Error := fun db =>
  if succeeds && !statement.refused db then (statement.effect db, none)
  else (db, some (.exec statement))

/-- How the two statements of a mode change come back. -/
structure ModeChange where
  first : Bool
  second : Bool
  deriving DecidableEq, Repr

/-- Both statements succeed. -/
def ModeChange.whole (o : ModeChange) : Bool := o.first && o.second

/-- Only the first of the two succeeds. -/
def ModeChange.torn (o : ModeChange) : Bool := o.first && !o.second

/-- `mysql.go::SetReadOnly`. -/
def setReadOnly (o : ModeChange) : Call Database Error :=
  (exec (.setSuperReadOnly true) o.first).andThen (exec (.setReadOnly true) o.second)

/-- `mysql.go::SetReadWrite`. -/
def setReadWrite (o : ModeChange) : Call Database Error :=
  (exec (.setReadOnly false) o.first).andThen (exec (.setSuperReadOnly false) o.second)

/-- The user of a process, as the query tells them apart. -/
inductive User where
  | root
  | replication
  | systemUser
  | other (name : String)
  deriving DecidableEq, Repr

/-- A row of the process list: its user, whether its text is `LIKE 'ALTER%'`, and whether the
statement that it runs is an `ALTER`. -/
structure Process where
  user : User
  infoLikeAlter : Bool
  alters : Bool
  deriving DecidableEq, Repr

/-- The `WHERE` of the query. -/
def Process.counted (p : Process) : Bool :=
  match p.user with
  | .root | .replication | .systemUser => false
  | .other _ => p.infoLikeAlter

/-- A query for the number of running `ALTER` statements. -/
structure DDLCount where
  processes : List Process
  rows : Rows
  deriving DecidableEq, Repr

/-- `mysql.go::GetRunningDDLCount`. Only the error of the query is looked at. -/
def getRunningDDLCount (count : DDLCount) : Except Error Nat :=
  match count.rows with
  | .failed => .error .query
  | .lost => .ok 0
  | .row => .ok (count.processes.countP Process.counted)

/-- `service_manager.go::mysqlServiceManager`. -/
structure Manager where
  db : Database
  readonly : Bool
  deriving DecidableEq, Repr

/-- `NewMySQLServiceManager` once it is connected: no flag is set yet. -/
def newMySQLServiceManager (db : Database) : Manager := ⟨db, false⟩

/-- `mysqlServiceManager.IsReadOnly`. -/
def Manager.isReadOnly (m : Manager) : Bool := m.readonly

/-- The flag is stored after a mode change that returns no error. -/
def Manager.change (readonly : Bool) (statements : Call Database Error) : Call Manager Error :=
  fun m =>
    match statements m.db with
    | (db, some error) => ({ m with db := db }, some error)
    | (db, none) => (⟨db, readonly⟩, none)

/-- `mysqlServiceManager.SetReadOnly`. -/
def Manager.setReadOnly (o : ModeChange) : Call Manager Error :=
  Manager.change true (MysqlService.setReadOnly o)

/-- `mysqlServiceManager.SetReadWrite`. -/
def Manager.setReadWrite (o : ModeChange) : Call Manager Error :=
  Manager.change false (MysqlService.setReadWrite o)

/-- `service_manager.go::rollbackReadOnly`. -/
def Manager.rollbackReadOnly (m : Manager) (o : ModeChange) (readonlyErr : Error) :
    Manager × Error :=
  match m.setReadWrite o with
  | (m, some anotherErr) => (m, .wrap readonlyErr anotherErr)
  | (m, none) => (m, readonlyErr)

/-- What comes from outside in one call of `SetReadOnlyManually`. -/
structure ManualOutcomes where
  before : DDLCount
  change : ModeChange
  after : DDLCount
  rollback : ModeChange
  deriving DecidableEq, Repr

structure ManualResult where
  manager : Manager
  success : Bool
  error : Option Error
  deriving DecidableEq, Repr

/-- `return false, m.rollbackReadOnly(err)`. -/
def Manager.failAfterRollback (m : Manager) (o : ModeChange) (readonlyErr : Error) :
    ManualResult :=
  let (m, error) := m.rollbackReadOnly o readonlyErr
  ⟨m, false, some error⟩

/-- `mysqlServiceManager.SetReadOnlyManually`. -/
def Manager.setReadOnlyManually (m : Manager) (o : ManualOutcomes) : ManualResult :=
  match getRunningDDLCount o.before with
  | .error error => ⟨m, false, some error⟩
  | .ok ddl =>
    if ddl ≠ 0 then ⟨m, false, some .ddlBefore⟩
    else
      match m.setReadOnly o.change with
      | (m, some error) => m.failAfterRollback o.rollback error
      | (m, none) =>
        match getRunningDDLCount o.after with
        | .error error => m.failAfterRollback o.rollback error
        | .ok ddl =>
          if ddl ≠ 0 then m.failAfterRollback o.rollback .ddlAfter
          else ⟨m, true, none⟩

/-- How the statements of one `RedirectMaster` come back. -/
structure RedirectOutcomes where
  stop : Bool
  change : Bool
  start : Bool
  deriving DecidableEq, Repr

/-- `mysql.go::RedirectMaster`: each statement overwrites the error of the one before. -/
def redirectMaster (source : Source) (o : RedirectOutcomes) : Call Database Error :=
  (exec .stopSlave o.stop).regardless <|
    (exec (.changeMaster source) o.change).regardless (exec .startSlave o.start)

/-- `mysql.go::PromoteToMaster`. -/
def promoteToMaster (stop : Bool) : Call Database Error := exec .stopSlave stop

/-- `mysqlServiceManager.PromoteToMaster`. -/
def Manager.promoteToMaster (stop : Bool) : Call Manager Error := fun m =>
  let (db, error) := MysqlService.promoteToMaster stop m.db
  ({ m with db := db }, error)

/-! ### What the calls do -/

/-- A mode change whose two statements are not refused, by how they come back. -/
private theorem change_eq {first second : Statement} (free : ∀ db, first.refused db = false)
    (free' : ∀ db, second.refused db = false) (readonly : Bool) (o : ModeChange) (m : Manager) :
    Manager.change readonly ((exec first o.first).andThen (exec second o.second)) m =
      if o.whole then (⟨second.effect (first.effect m.db), readonly⟩, none)
      else if o.first then ({ m with db := first.effect m.db }, some (.exec second))
      else (m, some (.exec first)) := by
  obtain ⟨sent, sent'⟩ := o
  cases sent <;> cases sent' <;>
    simp [Manager.change, Call.andThen, exec, free, free', ModeChange.whole]

section Modes
variable (o : ModeChange) (m : Manager)

private theorem setReadOnly_eq :
    m.setReadOnly o =
      if o.whole then (⟨{ m.db with readOnly := true, superReadOnly := true }, true⟩, none)
      else if o.first then
        ({ m with db := { m.db with readOnly := true, superReadOnly := true } },
          some (.exec (.setReadOnly true)))
      else (m, some (.exec (.setSuperReadOnly true))) :=
  change_eq (fun _ => rfl) (fun _ => rfl) true o m

private theorem setReadWrite_eq :
    m.setReadWrite o =
      if o.whole then (⟨{ m.db with readOnly := false, superReadOnly := false }, false⟩, none)
      else if o.first then
        ({ m with db := { m.db with readOnly := false, superReadOnly := false } },
          some (.exec (.setSuperReadOnly false)))
      else (m, some (.exec (.setReadOnly false))) :=
  change_eq (fun _ => rfl) (fun _ => rfl) false o m

theorem setReadOnly_manager :
    (m.setReadOnly o).1 =
      { db := { m.db with
          readOnly := m.db.readOnly || o.first
          superReadOnly := m.db.superReadOnly || o.first }
        readonly := m.readonly || o.whole } := by
  obtain ⟨first, second⟩ := o
  cases first <;> cases second <;> simp [setReadOnly_eq, ModeChange.whole]

theorem setReadWrite_manager :
    (m.setReadWrite o).1 =
      { db := { m.db with
          readOnly := m.db.readOnly && !o.first
          superReadOnly := m.db.superReadOnly && !o.first }
        readonly := m.readonly && !o.whole } := by
  obtain ⟨first, second⟩ := o
  cases first <;> cases second <;> simp [setReadWrite_eq, ModeChange.whole]

theorem setReadOnly_error : (m.setReadOnly o).2 = none ↔ o.whole = true := by
  rw [setReadOnly_eq]
  split
  · simp [*]
  · split <;> simp [*]

theorem setReadWrite_error : (m.setReadWrite o).2 = none ↔ o.whole = true := by
  rw [setReadWrite_eq]
  split
  · simp [*]
  · split <;> simp [*]

end Modes

theorem promoteToMaster_manager (stop : Bool) (m : Manager) :
    (m.promoteToMaster stop).1 =
      { m with db := { m.db with running := m.db.running && !stop } } := by
  cases stop <;>
    simp [Manager.promoteToMaster, promoteToMaster, exec, Statement.refused, Statement.effect]

/-- The source changes if `CHANGE MASTER` succeeds while replication is stopped; only the
error of `START SLAVE` is returned. -/
theorem redirectMaster_eq (source : Source) (o : RedirectOutcomes) (db : Database) :
    redirectMaster source o db =
      ({ db with
          source := if o.change && (!db.running || o.stop) then source else db.source
          running := o.start || (db.running && !o.stop) },
        if o.start then none else some (.exec .startSlave)) := by
  obtain ⟨stop, change, start⟩ := o
  obtain ⟨readOnly, superReadOnly, old, running⟩ := db
  cases running <;> cases stop <;> cases change <;> cases start <;> rfl

/-- The count is read as zero: no process is counted, or its row is lost. -/
def DDLCount.passes (count : DDLCount) : Bool :=
  match count.rows with
  | .failed => false
  | .lost => true
  | .row => count.processes.countP Process.counted = 0

namespace ManualOutcomes
variable (o : ManualOutcomes)

def succeeds : Bool := o.before.passes && (o.change.whole && o.after.passes)

/-- The request goes as far as `SetReadOnly` and not to its end. -/
def rollsBack : Bool := o.before.passes && !(o.change.whole && o.after.passes)

end ManualOutcomes

/-- The error of a rollback that failed itself. -/
def Error.isWrap : Error → Bool
  | .wrap _ _ => true
  | _ => false

private theorem getRunningDDLCount_cases (count : DDLCount) :
    (count.passes = true ∧ getRunningDDLCount count = .ok 0) ∨
      (count.passes = false ∧ (getRunningDDLCount count = .error .query ∨
        ∃ ddl, ddl ≠ 0 ∧ getRunningDDLCount count = .ok ddl)) := by
  unfold DDLCount.passes getRunningDDLCount
  cases count.rows with
  | failed => exact .inr ⟨rfl, .inl rfl⟩
  | lost => exact .inl ⟨rfl, rfl⟩
  | row =>
    by_cases zero : count.processes.countP Process.counted = 0
    · exact .inl ⟨decide_eq_true zero, congrArg _ zero⟩
    · exact .inr ⟨decide_eq_false zero, .inr ⟨_, zero, rfl⟩⟩

private theorem setReadOnly_plain {m after : Manager} {o : ModeChange} {error : Error}
    (failed : m.setReadOnly o = (after, some error)) : error.isWrap = false := by
  rw [setReadOnly_eq] at failed
  split at failed
  · cases failed
  · split at failed <;> cases failed <;> rfl

/-- A manual request is refused before it changes anything, succeeds, or ends in a
rollback. -/
theorem setReadOnlyManually_cases (m : Manager) (o : ManualOutcomes) :
    (o.before.passes = false ∧ ∃ error, error.isWrap = false ∧
      m.setReadOnlyManually o = ⟨m, false, some error⟩) ∨
    (o.succeeds = true ∧ m.setReadOnlyManually o = ⟨(m.setReadOnly o.change).1, true, none⟩) ∨
    (o.rollsBack = true ∧ ∃ error, error.isWrap = false ∧
      m.setReadOnlyManually o =
        (m.setReadOnly o.change).1.failAfterRollback o.rollback error) := by
  unfold Manager.setReadOnlyManually ManualOutcomes.succeeds ManualOutcomes.rollsBack
  rcases getRunningDDLCount_cases o.before with
    ⟨passes, ran⟩ | ⟨passes, ran | ⟨ddl, running, ran⟩⟩
  · simp only [passes, ran, Bool.true_and]
    have whole := setReadOnly_error o.change m
    rcases changed : m.setReadOnly o.change with ⟨after, _ | error⟩
    · simp only [changed, true_iff] at whole
      simp only [whole, Bool.true_and]
      rcases getRunningDDLCount_cases o.after with
        ⟨passes, ran⟩ | ⟨passes, ran | ⟨ddl, running, ran⟩⟩
      · exact .inr (.inl ⟨passes, by simp [ran]⟩)
      · exact .inr (.inr ⟨by simp [passes], .query, rfl, by simp [ran]⟩)
      · exact .inr (.inr ⟨by simp [passes], .ddlAfter, rfl, by simp [ran, running]⟩)
    · simp only [changed, reduceCtorEq, false_iff, Bool.not_eq_true] at whole
      exact .inr (.inr ⟨by simp [whole], error, setReadOnly_plain changed, rfl⟩)
  · exact .inl ⟨passes, .query, rfl, by simp [ran]⟩
  · exact .inl ⟨passes, .ddlBefore, rfl, by simp [ran, running]⟩

@[simp] theorem failAfterRollback_success (m : Manager) (o : ModeChange) (error : Error) :
    (m.failAfterRollback o error).success = false := rfl

@[simp] theorem failAfterRollback_manager (m : Manager) (o : ModeChange) (error : Error) :
    (m.failAfterRollback o error).manager = (m.setReadWrite o).1 := by
  unfold Manager.failAfterRollback Manager.rollbackReadOnly
  rcases m.setReadWrite o with ⟨after, _ | anotherErr⟩ <;> rfl

/-- The rollback failed, as its caller can tell from the error. -/
def ManualResult.rollbackFailed (result : ManualResult) : Bool := result.error.any Error.isWrap

theorem rollbackFailed_failAfterRollback (m : Manager) (o : ModeChange) {error : Error}
    (plain : error.isWrap = false) :
    (m.failAfterRollback o error).rollbackFailed = !o.whole := by
  have whole := setReadWrite_error o m
  unfold Manager.failAfterRollback Manager.rollbackReadOnly
  rcases back : m.setReadWrite o with ⟨after, _ | anotherErr⟩
  · simp only [back, true_iff] at whole
    simp [ManualResult.rollbackFailed, plain, whole]
  · simp only [back, reduceCtorEq, false_iff, Bool.not_eq_true] at whole
    simp [ManualResult.rollbackFailed, Error.isWrap, whole]

/-! ### The outcomes of the agent's calls

`LeaderLoop` sees a mode change as one call that succeeds, fails, or fails after its
effect, and of the database only whether it accepts writes. -/

/-- A mode change as the agent sees it. -/
def ModeChange.outcome (o : ModeChange) : Outcome :=
  if o.whole then .ok else if o.first then .failedAfterEffect else .failed

/-- A manual request as the agent sees it. -/
def ManualOutcomes.outcome (o : ManualOutcomes) : ManualOutcome :=
  if o.succeeds then .readOnly
  else if o.rollsBack then .rollback o.change.outcome
  else .refused

/-- The agent takes the service for writable exactly if `read_only` is off. -/
def Mirrors (agent : Agent) (m : Manager) : Prop := agent.writable = !m.db.readOnly

theorem outcome_ok_iff (o : ModeChange) : o.outcome = .ok ↔ o.whole = true := by
  unfold ModeChange.outcome
  split
  · simp [*]
  · split <;> simp [*]

private theorem outcome_failed_iff (o : ModeChange) : o.outcome = .failed ↔ o.first = false := by
  obtain ⟨first, second⟩ := o
  cases first <;> cases second <;> decide

theorem setReadOnly_mirrors {agent : Agent} {m : Manager} (mirrors : Mirrors agent m)
    (o : ModeChange) : Mirrors (agent.setReadOnly o.outcome) (m.setReadOnly o).1 := by
  unfold Mirrors at mirrors ⊢
  rw [setReadOnly_manager]
  simp only [Agent.setReadOnly, outcome_failed_iff]
  cases o.first <;> simp [mirrors]

theorem setReadWrite_mirrors {agent : Agent} {m : Manager} (mirrors : Mirrors agent m)
    (o : ModeChange) : Mirrors (agent.setReadWrite o.outcome) (m.setReadWrite o).1 := by
  unfold Mirrors at mirrors ⊢
  rw [setReadWrite_manager]
  simp only [Agent.setReadWrite, outcome_failed_iff]
  cases o.first <;> simp [mirrors]

/-- A manual request of the agent, with the rollback that may follow it, leaves the
agent in step with the service. -/
theorem afterManual_mirrors {agent : Agent} {m : Manager} (mirrors : Mirrors agent m)
    {o : ManualOutcomes} {index : Nat}
    (handler : agent.handlers[index]? = some .setReadOnlyManually) :
    ∃ next, agent.afterManual index o.outcome = some next ∧
      if o.rollsBack then
        next.handlers[index]? = some .rollbackReadOnly ∧
        ∀ revision, ∃ after, next.afterHandlerService revision index o.rollback.outcome =
            some (.continues after) ∧ Mirrors after (m.setReadOnlyManually o).manager
      else Mirrors next (m.setReadOnlyManually o).manager := by
  have within : index < agent.handlers.length := (List.getElem?_eq_some_iff.mp handler).1
  unfold Agent.afterManual
  simp only [handler]
  rcases setReadOnlyManually_cases m o with
    ⟨refused, error, plain, result⟩ | ⟨succeeds, result⟩ | ⟨rollsBack, error, plain, result⟩
  · have outcome : o.outcome = .refused := by
      simp [ManualOutcomes.outcome, ManualOutcomes.succeeds, ManualOutcomes.rollsBack, refused]
    have through : o.rollsBack = false := by simp [ManualOutcomes.rollsBack, refused]
    simp only [outcome, through, result]
    exact ⟨_, rfl, mirrors⟩
  · have outcome : o.outcome = .readOnly := by simp [ManualOutcomes.outcome, succeeds]
    simp only [ManualOutcomes.succeeds, Bool.and_eq_true] at succeeds
    have through : o.rollsBack = false := by
      simp [ManualOutcomes.rollsBack, succeeds.2.1, succeeds.2.2]
    have changed := setReadOnly_mirrors mirrors o.change
    rw [(outcome_ok_iff o.change).mpr succeeds.2.1] at changed
    simp only [outcome, through, result]
    exact ⟨_, rfl, changed⟩
  · have outcome : o.outcome = .rollback o.change.outcome := by
      simp only [ManualOutcomes.rollsBack, Bool.and_eq_true, Bool.not_eq_true'] at rollsBack
      simp [ManualOutcomes.outcome, ManualOutcomes.succeeds, ManualOutcomes.rollsBack, rollsBack]
    have kept : (agent.setReadOnly o.change.outcome).handlers = agent.handlers := by
      unfold Agent.setReadOnly
      split <;> rfl
    have changed : Mirrors ((agent.setReadOnly o.change.outcome).setHandler index
        .rollbackReadOnly) (m.setReadOnly o.change).1 := setReadOnly_mirrors mirrors o.change
    have waiting : ((agent.setReadOnly o.change.outcome).setHandler index
        .rollbackReadOnly).handlers[index]? = some .rollbackReadOnly := by
      simp [Agent.setHandler, kept, within]
    simp only [outcome, rollsBack, result, failAfterRollback_manager]
    refine ⟨_, rfl, waiting, fun revision => ?_⟩
    simp only [Agent.afterHandlerService, waiting]
    exact ⟨_, rfl, setReadWrite_mirrors changed o.rollback⟩

end Moha.MysqlService
