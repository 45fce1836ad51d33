import Moha.ClusterSteps
import Moha.TransactionLog

/-! The databases behind the agents. A MySQL server executes its own writes while it is
the only writable one, and the transactions of its replication source in their order
and without gaps. `pkg/mysql` changes the source and starts and stops the slave
threads, and what the service managers load is read from the executed transactions. -/
namespace Moha.Replication
open LeaderRecord Election LeaderLoop Cluster ClusterSteps LatestLog TransactionLog

/-- A MySQL server: what it has executed, in order, and its replication. -/
structure Database where
  executed : List Txn := []
  source : Option NodeID := none
  slaveRunning : Bool := false

structure State where
  cluster : Cluster.State
  databases : NodeID → Database

/-- Nothing is stored, nothing runs and nothing is executed. -/
def init (nodes : List NodeID) (named : "" ∉ nodes) (cfg : NodeID → Config) : State where
  cluster := Cluster.init nodes named cfg
  databases := fun _ => {}

inductive Event where
  /-- A step of the cluster but for `RedirectMaster` and what is reported. -/
  | agent (action : Action)
  /-- `mysql.go::RedirectMaster`: only the error of `START SLAVE` is returned, so that the
  answer says nothing about `CHANGE MASTER`. -/
  | redirect (n : NodeID) (changed running redirected : Bool)
  /-- Which loads of the service manager would succeed now. -/
  | load (n : NodeID) (master slave : Bool) (slaveStatus : Option Position)
  | write (n : NodeID)
  | replicate (n : NodeID)
  deriving DecidableEq

def State.executed (t : State) (n : NodeID) : List Txn := (t.databases n).executed

/-- A database changes, and what was loaded from it is of no use. -/
def State.modify (t : State) (n : NodeID) (change : Database → Database) : State where
  cluster := t.cluster.set n { t.cluster.agents n with reports := {} }
  databases := Function.update t.databases n (change (t.databases n))

def State.execute (t : State) (n : NodeID) (txn : Txn) : State :=
  t.modify n fun db => { db with executed := db.executed ++ [txn] }

/-- What `LoadReplicationInfoOfMaster` or `LoadReplicationInfoOfSlave` gives. -/
def State.load (uuid : NodeID → ServerUUID) (t : State) (n : NodeID) (former : Bool) :
    Option ReplicationInfo :=
  let executedGTID := gtidText (t.executed n)
  if former then loadReplicationInfoOfMaster (some executedGTID) (some (uuid n).text)
  else loadReplicationInfoOfSlave ((t.databases n).source.map fun source =>
    ⟨(uuid source).text, executedGTID⟩)

/-- The actions of the cluster that are no event of a database. -/
def ofAgent : Action → Bool
  | .report _ _ | .call _ (.redirectMaster _) => false
  | _ => true

/-- The node whose slave threads `STOP SLAVE` of `mysql.go::PromoteToMaster` stops. -/
def promotes (c : Cluster.State) : Action → Option NodeID
  | .call n (.service outcome) =>
    match (c.agents n).loop with
    | .promoteToMaster _ => if outcome = .failed then none else some n
    | _ => none
  | _ => none

def State.stopSlave (t : State) (action : Action) : NodeID → Database :=
  match promotes t.cluster action with
  | none => t.databases
  | some n => Function.update t.databases n { t.databases n with slaveRunning := false }

/-- The node has the only service that is writable. -/
def State.aloneWritable (t : State) (n : NodeID) : Prop :=
  (t.cluster.agents n).writable = true ∧
    ∀ m ∈ t.cluster.nodes, m ≠ n → (t.cluster.agents m).writable = false

instance (t : State) (n : NodeID) : Decidable (t.aloneWritable n) :=
  inferInstanceAs (Decidable (_ ∧ _))

/-- A step; `none` when the event is not enabled. Transaction numbers end where those
of MySQL do. -/
def step (uuid : NodeID → ServerUUID) (t : State) : Event → Option State
  | .agent action =>
    if ofAgent action then
      (Cluster.step t.cluster action).map fun c => ⟨c, t.stopSlave action⟩
    else none
  | .redirect n changed running redirected =>
    match (t.cluster.agents n).loop with
    | .redirectMaster leader _ =>
      (Cluster.step t.cluster (.call n (.redirectMaster redirected))).map fun c =>
        (State.mk c t.databases).modify n fun db =>
          { db with
            source := if changed then some leader.name else db.source
            slaveRunning := running }
    | _ => none
  | .load n master slave slaveStatus =>
    some { t with cluster := t.cluster.set n { t.cluster.agents n with
      reports :=
        { master := if master then t.load uuid n true else none
          slave := if slave then t.load uuid n false else none
          slaveStatus := slaveStatus } } }
  | .write n =>
    let number := count (uuid n) (t.executed n) + 1
    if t.aloneWritable n ∧ number + 1 < 2 ^ 63 then some (t.execute n ⟨uuid n, number⟩) else none
  | .replicate n =>
    match (t.databases n).source with
    | none => none
    | some source =>
      if (t.databases n).slaveRunning then
        match (t.executed source).find? fun txn => txn ∉ t.executed n with
        | none => none
        | some txn =>
          if txn.number = count txn.uuid (t.executed n) + 1 then some (t.execute n txn) else none
      else none

/-! ### What a step does -/

/-- The kinds of steps. -/
inductive Takes (uuid : NodeID → ServerUUID) (t t' : State) : Event → Prop where
  | agent {action : Action} (allowed : ofAgent action = true)
      (taken : Cluster.step t.cluster action = some t'.cluster)
      (databases : t'.databases = t.stopSlave action) : Takes uuid t t' (.agent action)
  | redirect {n : NodeID} {changed running redirected : Bool} {c : Cluster.State}
      {change : Database → Database}
      (taken : Cluster.step t.cluster (.call n (.redirectMaster redirected)) = some c)
      (keeps : ∀ db, (change db).executed = db.executed)
      (result : t' = (State.mk c t.databases).modify n change) :
      Takes uuid t t' (.redirect n changed running redirected)
  | load {n : NodeID} {master slave : Bool} {slaveStatus : Option Position} {reports : Reports}
      (loaded : ∀ former info, reports.choose former = some info → t.load uuid n former = some info)
      (result : t' = { t with
        cluster := t.cluster.set n { t.cluster.agents n with reports := reports } }) :
      Takes uuid t t' (.load n master slave slaveStatus)
  | write {n : NodeID} (small : count (uuid n) (t.executed n) + 2 < 2 ^ 63)
      (result : t' = t.execute n ⟨uuid n, count (uuid n) (t.executed n) + 1⟩) :
      Takes uuid t t' (.write n)
  | replicate {n source : NodeID} {txn : Txn} (replicates : (t.databases n).source = some source)
      (found : (t.executed source).find? (fun txn => txn ∉ t.executed n) = some txn)
      (number : txn.number = count txn.uuid (t.executed n) + 1)
      (result : t' = t.execute n txn) : Takes uuid t t' (.replicate n)

theorem step_takes {uuid : NodeID → ServerUUID} {t t' : State} {event : Event}
    (taken : step uuid t event = some t') : Takes uuid t t' event := by
  cases event with
  | agent action =>
    simp only [step] at taken
    split at taken
    · rename_i allowed
      obtain ⟨c, moved, rfl⟩ := Option.map_eq_some_iff.mp taken
      exact .agent allowed moved rfl
    · contradiction
  | redirect n changed running redirected =>
    simp only [step] at taken
    split at taken
    · obtain ⟨c, moved, rfl⟩ := Option.map_eq_some_iff.mp taken
      refine .redirect moved ?_ rfl
      exact fun _ => rfl
    · contradiction
  | load n master slave slaveStatus =>
    cases taken
    refine .load (fun former info chosen => ?_) rfl
    cases former <;> simp only [Reports.choose] at chosen <;> split at chosen
    all_goals first | exact chosen | (split at chosen <;> first | exact chosen | contradiction)
  | write n =>
    simp only [step] at taken
    split at taken
    · rename_i allowed
      cases taken
      exact .write (by omega) rfl
    · contradiction
  | replicate n =>
    simp only [step] at taken
    split at taken
    · contradiction
    · rename_i source replicates
      split at taken
      · split at taken
        · contradiction
        · split at taken
          · rename_i txn found number
            cases taken
            exact .replicate replicates found number rfl
          · contradiction
      · contradiction

theorem executed_modify {t : State} {n m : NodeID} {change : Database → Database}
    (keeps : ∀ db, (change db).executed = db.executed) :
    (t.modify n change).executed m = t.executed m := by
  by_cases same : m = n
  · subst same
    simp [State.executed, State.modify, keeps]
  · simp [State.executed, State.modify, Function.update_of_ne same]

theorem executed_execute (t : State) (n m : NodeID) (txn : Txn) :
    (t.execute n txn).executed m = if m = n then t.executed n ++ [txn] else t.executed m := by
  by_cases same : m = n
  · subst same
    simp [State.executed, State.execute, State.modify]
  · simp [State.executed, State.execute, State.modify, same]

/-- `PromoteToMaster` changes neither what is executed nor the source. -/
theorem stopSlave_fields (t : State) (action : Action) (n : NodeID) :
    (t.stopSlave action n).executed = t.executed n ∧
      (t.stopSlave action n).source = (t.databases n).source := by
  unfold State.stopSlave
  cases promotes t.cluster action with
  | none => exact ⟨rfl, rfl⟩
  | some m =>
    by_cases same : n = m
    · subst same
      simp [State.executed]
    · simp [State.executed, Function.update_of_ne same]

theorem load_congr {uuid : NodeID → ServerUUID} {t t' : State} {n : NodeID}
    (executed : t'.executed n = t.executed n)
    (source : (t'.databases n).source = (t.databases n).source) (former : Bool) :
    t'.load uuid n former = t.load uuid n former := by
  simp only [State.load, executed, source]

theorem wellFormed_report {c : Cluster.State} (formed : WellFormed c) (n : NodeID)
    (reports : Reports) : WellFormed (c.set n { c.agents n with reports := reports }) :=
  wellFormed_step (a := .report n reports) formed rfl

/-- Executed transactions are in order, and what would be reported is what would be
loaded. -/
structure Sound (uuid : NodeID → ServerUUID) (t : State) : Prop where
  formed : WellFormed t.cluster
  truthful : ∀ n former info, (t.cluster.agents n).reports.choose former = some info →
    t.load uuid n former = some info
  sequential : ∀ n, Sequential (t.executed n)
  small : ∀ n origin, count origin (t.executed n) + 1 < 2 ^ 63

theorem sound_init (uuid : NodeID → ServerUUID) (nodes : List NodeID) (named : "" ∉ nodes)
    (cfg : NodeID → Config) : Sound uuid (init nodes named cfg) where
  formed := wellFormed_init nodes named cfg
  truthful n former info chosen := by
    cases former <;> cases chosen
  sequential _ := sequential_nil
  small _ _ := by simp [State.executed, init, count]

/-- A changed database has nothing loaded, the others what they had. -/
theorem truthful_modify {uuid : NodeID → ServerUUID} {t : State} {n : NodeID}
    {change : Database → Database}
    (truthful : ∀ n former info, (t.cluster.agents n).reports.choose former = some info →
      t.load uuid n former = some info) :
    ∀ m former info, ((t.modify n change).cluster.agents m).reports.choose former = some info →
      (t.modify n change).load uuid m former = some info := by
  intro m former info chosen
  by_cases same : m = n
  · subst same
    cases former <;> simp [State.modify, Cluster.State.set, Reports.choose] at chosen
  · simp only [State.modify, Cluster.State.set, Function.update_of_ne same] at chosen
    rw [← truthful m former info chosen]
    refine load_congr ?_ ?_ former <;>
      simp [State.executed, State.modify, Function.update_of_ne same]

theorem sound_execute {uuid : NodeID → ServerUUID} {t : State} {n : NodeID} {txn : Txn}
    (sound : Sound uuid t) (number : txn.number = count txn.uuid (t.executed n) + 1)
    (small : txn.number + 1 < 2 ^ 63) : Sound uuid (t.execute n txn) where
  formed := wellFormed_report sound.formed n {}
  truthful := truthful_modify sound.truthful
  sequential m := by
    rw [executed_execute]
    split
    · exact (sound.sequential n).concat number
    · exact sound.sequential m
  small m origin := by
    rw [executed_execute]
    split
    · rw [count_concat]
      have bound := sound.small n origin
      split
      · rename_i same
        rw [← same]
        omega
      · omega
    · exact sound.small m origin

theorem sound_step {uuid : NodeID → ServerUUID} {t t' : State} {event : Event}
    (sound : Sound uuid t) (taken : step uuid t event = some t') : Sound uuid t' := by
  cases step_takes taken with
  | @agent action allowed moved databases =>
    have executed : ∀ n, t'.executed n = t.executed n := by
      intro n
      rw [State.executed, databases]
      exact (stopSlave_fields t action n).1
    refine ⟨wellFormed_step sound.formed moved, fun n former info chosen => ?_, fun n => ?_,
      fun n => ?_⟩
    · rcases step_reports moved n with same | reported
      · rw [same] at chosen
        rw [load_congr (executed n) (by rw [databases]; exact (stopSlave_fields t action n).2)]
        exact sound.truthful n former info chosen
      · subst reported
        cases allowed
    · rw [executed n]
      exact sound.sequential n
    · rw [executed n]
      exact sound.small n
  | @redirect n _ _ redirected c change moved keeps result =>
    subst result
    have truthful : ∀ m former info, (c.agents m).reports.choose former = some info →
        (State.mk c t.databases).load uuid m former = some info := by
      intro m former info chosen
      rcases step_reports moved m with same | reported
      · rw [same] at chosen
        exact sound.truthful m former info chosen
      · cases reported
    refine ⟨wellFormed_report (wellFormed_step sound.formed moved) n {}, truthful_modify truthful,
      fun m => ?_, fun m => ?_⟩
    · rw [executed_modify keeps]
      exact sound.sequential m
    · rw [executed_modify keeps]
      exact sound.small m
  | @load n _ _ _ reports loaded result =>
    subst result
    refine ⟨wellFormed_report sound.formed n reports, fun m former info chosen => ?_,
      sound.sequential, sound.small⟩
    by_cases same : m = n
    · subst same
      exact loaded former info (by simpa [Cluster.State.set] using chosen)
    · exact sound.truthful m former info
        (by simpa [Cluster.State.set, Function.update_of_ne same] using chosen)
  | write small result =>
    subst result
    exact sound_execute sound rfl small
  | @replicate n source txn _ found number result =>
    subst result
    have bound := (sound.sequential source).number_le (List.mem_of_find?_eq_some found)
    have small := sound.small source txn.uuid
    exact sound_execute sound number (by omega)

end Moha.Replication
