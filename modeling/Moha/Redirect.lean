import Moha.MysqlService
import Moha.Runs

/-! `becomeSlave` of `agent/server.go` with the MySQL service manager: `RedirectMaster`
is tried up to eleven times, until `START SLAVE` succeeds. The errors of `STOP SLAVE` and
`CHANGE MASTER` are not looked at, so replication may be started from the source it had. -/
namespace Moha.Redirect
open FallibleCalls MysqlService

/-- `server.go::becomeSlave`; `attempts` is what comes back in each attempt. -/
def becomeSlave (source : Source) (attempts : Nat → RedirectOutcomes) : Call Database Error :=
  retry (fun k => redirectMaster source (attempts k)) 10

/-- Replication runs from a source. -/
def Follows (db : Database) (source : Source) : Prop := db.source = source ∧ db.running = true

/-! ### All attempts -/

section Attempts
variable (source : Source) (attempts : Nat → RedirectOutcomes) (db : Database)

/-- The state before an attempt, if it is made. -/
def before (k : Nat) : Database := stateBefore (fun k => redirectMaster source (attempts k)) db k

/-- `CHANGE MASTER` takes effect in the attempt, as replication is stopped by then. -/
def Changes (i : Nat) : Prop :=
  (attempts i).change = true ∧ (db.running = false ∨ ∃ j ≤ i, (attempts j).stop = true)

variable {source attempts db}

private theorem before_succ (k : Nat) :
    before source attempts db (k + 1) =
      { before source attempts db k with
        source :=
          if (attempts k).change && (!(before source attempts db k).running || (attempts k).stop)
          then source else (before source attempts db k).source
        running :=
          (attempts k).start || ((before source attempts db k).running && !(attempts k).stop) } :=
  congrArg Prod.fst (redirectMaster_eq source (attempts k) _)

/-- Until `START SLAVE` succeeds, replication is stopped from the first `STOP SLAVE` on. -/
theorem stopped_before_iff {k : Nat} (failed : ∀ i < k, (attempts i).start = false) :
    (before source attempts db k).running = false ↔
      db.running = false ∨ ∃ j < k, (attempts j).stop = true := by
  induction k with
  | zero => simp [before, stateBefore]
  | succ k ih =>
    have earlier := ih fun i below => failed i (Nat.lt_succ_of_lt below)
    simp only [before_succ, failed k (Nat.lt_succ_self k), Bool.false_or,
      Bool.and_eq_false_iff, earlier, or_assoc, Bool.not_eq_false',
      Nat.lt_succ_iff_lt_or_eq, or_and_right, exists_or, exists_eq_left]

private theorem source_step_iff {k : Nat} (failed : ∀ i < k, (attempts i).start = false) :
    (before source attempts db (k + 1)).source = source ↔
      (before source attempts db k).source = source ∨ Changes attempts db k := by
  have stopped : (!(before source attempts db k).running || (attempts k).stop) = true ↔
      db.running = false ∨ ∃ j ≤ k, (attempts j).stop = true := by
    rw [Bool.or_eq_true, Bool.not_eq_true', stopped_before_iff failed, or_assoc]
    simp only [Nat.le_iff_lt_or_eq, or_and_right, exists_or, exists_eq_left]
  rw [before_succ, Changes, ← stopped, ← Bool.and_eq_true]
  dsimp only
  split <;> simp [*]

/-- The source after an attempt, if no `START SLAVE` before it succeeded. -/
theorem source_after_iff {k : Nat} (failed : ∀ i < k, (attempts i).start = false) :
    (before source attempts db (k + 1)).source = source ↔
      db.source = source ∨ ∃ i ≤ k, Changes attempts db i := by
  induction k with
  | zero =>
    rw [source_step_iff failed]
    simp [before, stateBefore]
  | succ k ih =>
    rw [source_step_iff failed, ih fun i below => failed i (Nat.lt_succ_of_lt below), or_assoc]
    simp only [Nat.le_succ_iff, or_and_right, exists_or, exists_eq_left]

private theorem errorOf_eq_none_iff (k : Nat) :
    errorOf (fun k => redirectMaster source (attempts k)) db k = none ↔
      (attempts k).start = true := by
  rw [errorOf, redirectMaster_eq]
  cases (attempts k).start <;> simp

private theorem follows_after_iff {k : Nat} (failed : ∀ i < k, (attempts i).start = false)
    (started : (attempts k).start = true) :
    Follows (before source attempts db (k + 1)) source ↔
      db.source = source ∨ ∃ i ≤ k, Changes attempts db i := by
  have running : (before source attempts db (k + 1)).running = true := by
    simp only [before_succ, started, Bool.true_or]
  rw [← source_after_iff failed]
  exact and_iff_left running

end Attempts

/-- `becomeSlave` reports success only when replication follows the new master exactly if,
in the attempt whose `START SLAVE` is the first to succeed or before it, a `CHANGE MASTER`
took effect, or the source was right from the start. -/
theorem becomeSlave_follows_iff (source : Source) (attempts : Nat → RedirectOutcomes)
    (db : Database) :
    ((becomeSlave source attempts db).2 = none →
      Follows (becomeSlave source attempts db).1 source) ↔
    ∀ k ≤ 10, (attempts k).start = true → (∀ i < k, (attempts i).start = false) →
      db.source = source ∨ ∃ i ≤ k, Changes attempts db i := by
  unfold becomeSlave
  constructor
  · intro follows k within started failed
    have result := @retry_of_success _ _ (fun k => redirectMaster source (attempts k)) db 10 k
      within (fun i below => by simp [errorOf_eq_none_iff, failed i below])
      ((errorOf_eq_none_iff k).mpr started)
    rw [result] at follows
    exact (follows_after_iff failed started).mp (follows rfl)
  · intro changed returned
    obtain ⟨k, within, failed, _, result⟩ :=
      retry_cases (fun k => redirectMaster source (attempts k)) 10 db
    rw [result] at returned ⊢
    have started := (errorOf_eq_none_iff k).mp returned
    have waited : ∀ i < k, (attempts i).start = false := fun i below => by
      simpa [errorOf_eq_none_iff] using failed i below
    exact (follows_after_iff waited started).mpr (changed k within started waited)

/-- `CHANGE MASTER` fails in the first attempt and `START SLAVE` succeeds: success is
reported and replication runs from the old master. -/
theorem becomeSlave_keeps_old_source :
    let old : Source := ⟨"10.0.0.1", "3306"⟩
    let new : Source := ⟨"10.0.0.2", "3306"⟩
    let result := becomeSlave new (fun _ => ⟨true, false, true⟩) ⟨true, true, old, true⟩
    result.2 = none ∧ result.1.source = old ∧ result.1.running = true := by
  decide

/-! ### The attempts in the loop

`LeaderLoop` counts the attempts itself and sees of each whether it was redirected. -/

section Loop
open LeaderLoop (Agent)
open LeaderRecord (Etcd Leader NodeID)
variable {agent : Agent} {leader : Leader} {attempts : Nat → RedirectOutcomes}

/-- The calls of the attempts from the `n`-th on, with `more` after it. -/
def attemptCalls (attempts : Nat → RedirectOutcomes) (n more : Nat) : List LeaderLoop.Call :=
  (List.range' n (more + 1)).map fun i => .redirectMaster (attempts i).start

private theorem exec_attemptCalls (etcd : Etcd) (nodes : List NodeID)
    {n more : Nat} (waits : agent.loop = .redirectMaster leader n) (within : n + more ≤ 10)
    (failed : ∀ i, n ≤ i → i < n + more → (attempts i).start = false)
    (ends : (attempts (n + more)).start = true ∨ n + more = 10) :
    Runs.exec (fun agent call => agent.advance etcd nodes call) agent
        (attemptCalls attempts n more) =
      some { agent with
        loop :=
          if (attempts (n + more)).start then .watchLeader leader false else .getLeader } := by
  induction more generalizing n agent with
  | zero =>
    have last : ¬ (attempts n).start = true → ¬ n < 10 := by
      intro refused
      rcases ends with redirected | ten
      · exact absurd redirected refused
      · omega
    by_cases redirected : (attempts n).start = true
    · simp [attemptCalls, Runs.exec, Agent.advance, waits, redirected]
    · simp [attemptCalls, Runs.exec, Agent.advance, waits, redirected, last redirected]
  | succ more ih =>
    have refused : (attempts n).start = false := failed n (Nat.le_refl n) (by omega)
    have early : n < 10 := by omega
    have next : agent.advance etcd nodes (.redirectMaster (attempts n).start) =
        some { agent with loop := .redirectMaster leader (n + 1) } := by
      simp [Agent.advance, waits, refused, early]
    have rest := @ih { agent with loop := .redirectMaster leader (n + 1) } (n + 1) rfl (by omega)
      (fun i past before => failed i (by omega) (by omega))
      (by rwa [Nat.add_right_comm, Nat.add_assoc])
    rw [attemptCalls, List.range'_succ, List.map_cons, Runs.exec, next, Option.bind_some]
    rw [Nat.add_right_comm, Nat.add_assoc] at rest
    exact rest

/-- The loop goes on to watch the leader exactly if `becomeSlave` reports success, after
the same attempts. -/
theorem loop_follows_becomeSlave (etcd : Etcd) (nodes : List NodeID)
    (waits : agent.loop = .redirectMaster leader 0) (source : Source) (db : Database) :
    ∃ more ≤ 10, Runs.exec (fun agent call => agent.advance etcd nodes call) agent
        (attemptCalls attempts 0 more) =
      some { agent with
        loop := if (becomeSlave source attempts db).2 = none then .watchLeader leader false
          else .getLeader } := by
  obtain ⟨k, within, failed, ends, result⟩ :=
    retry_cases (fun k => redirectMaster source (attempts k)) 10 db
  refine ⟨k, within, ?_⟩
  rw [exec_attemptCalls etcd nodes waits (by omega)]
  · simp only [becomeSlave, result, errorOf_eq_none_iff, Nat.zero_add]
  · intro i _ earlier
    simpa [errorOf_eq_none_iff] using failed i (by omega)
  · simpa [errorOf_eq_none_iff] using ends

end Loop

end Moha.Redirect
