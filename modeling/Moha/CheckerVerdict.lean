import Mathlib.Data.Finset.Card
import Moha.LeaderRecord
import Moha.Runs

/-! The verdict of `checker/server.go`. While a chaos job disturbs the cluster, a job writes
rows until as many writes as it wants were answered; then the rows of the master and of
every registered node are counted, and the counts compared. A write whose answer got lost is
made again, by the job or already by `database/sql`, and its row may be there all the same. So
the counts say less than that nothing was lost: a passed check says that on every node the
rows missing and the rows too many are the same in number. -/
namespace Moha.CheckerVerdict
open LeaderRecord (NodeID)
open Runs

/-- `SimpleDMLJob` and `LongTxnJob` of `job.go`. -/
inductive DMLJob where
  | simple
  | longTxn
  deriving DecidableEq, Repr

def DMLJob.getMaxCounter : DMLJob → Nat
  | .simple => 500
  | .longTxn => 5

/-- What became of the statement that makes a row durable. -/
inductive Written where
  | answered
  | unanswered
  | failed
  deriving DecidableEq, Repr

/-- What the statements of one `RunDML` do; the simple job makes the last one only. `resent`
are the times that its `INSERT` came back with `driver.ErrBadConn`, upon which `database/sql`
sends it again, each with whether the row was inserted all the same. -/
structure Outcomes where
  begin : Bool := true
  insert : Bool := true
  resent : List Bool := []
  write : Written
  deriving DecidableEq, Repr

/-- Whether the row of a write is there, and whether the write was answered. -/
structure Result where
  inserted : Bool
  answered : Bool
  deriving DecidableEq, Repr

def Written.result : Written → Result
  | .answered => ⟨true, true⟩
  | .unanswered => ⟨true, false⟩
  | .failed => ⟨false, false⟩

/-- `RunDML` of both jobs: the writes that are sent, of which the last is answered if it
returns no error. A transaction is not sent again. -/
def DMLJob.runDML (o : Outcomes) : DMLJob → List Result
  | .simple => o.resent.map (fun inserted => ⟨inserted, false⟩) ++ [o.write.result]
  | .longTxn =>
    if o.begin then
      if o.insert then
        -- the error of `Commit` is replaced by that of `Rollback`, which on a transaction
        -- that was committed is an error as well
        [o.write.result]
      else []
    else []

/-- The rows of the job's table on each node, by the number of the write that made them; the
node that the checker is connected to; the writes sent, with whether they were answered; and
the counter of the job. -/
structure State where
  tables : NodeID → Finset ℕ
  connection : Option NodeID
  writes : List Bool
  counter : Nat

/-- The tables are empty, and no master is known. -/
def init : State := ⟨fun _ => ∅, none, [], 0⟩

/-- A tick of the job, a new master ID from `pollMaster`, and what goes on between the nodes:
a row is copied, or lost. -/
inductive Action where
  | tick (o : Outcomes)
  | connect (n : NodeID)
  | replicate (source target : NodeID) (row : ℕ)
  | lose (n : NodeID) (row : ℕ)
  deriving DecidableEq, Repr

def State.setTable (s : State) (n : NodeID) (table : Finset ℕ) : State :=
  { s with tables := Function.update s.tables n table }

/-- A write is sent to the given node; the job counts those that are answered. -/
def State.write (s : State) (n : NodeID) (result : Result) : State :=
  { s.setTable n
      (if result.inserted then insert s.writes.length (s.tables n) else s.tables n) with
    writes := s.writes ++ [result.answered]
    counter := if result.answered then s.counter + 1 else s.counter }

/-- The job makes no attempt after its counter is at the maximum. -/
def step (job : DMLJob) (s : State) : Action → Option State
  | .tick o =>
    if s.counter = job.getMaxCounter then none
    else s.connection.map fun n => (job.runDML o).foldl (fun s => s.write n) s
  | .connect n => some { s with connection := some n }
  | .replicate source target row =>
    if row ∈ s.tables source then some (s.setTable target (insert row (s.tables target)))
    else none
  | .lose n row => some (s.setTable n ((s.tables n).erase row))

inductive CheckError where
  | masterRecord
  | registeredNodes
  | connection (id : NodeID)
  | record (id : NodeID)
  deriving DecidableEq, Repr

/-- `server.go::check`, given what `Check` of the job returns for each node. -/
def check (job : DMLJob) (chaosJobDone : Nat) (master : NodeID) (record : NodeID → Int)
    (registeredNodes : Option (List NodeID)) (connects : NodeID → Bool) : Option CheckError :=
  if record master ≠ job.getMaxCounter ∧ chaosJobDone ≠ 2 ∧ chaosJobDone ≠ 3 then
    some .masterRecord
  else if chaosJobDone = 3 then none
  else
    match registeredNodes with
    | none => some .registeredNodes
    | some ids => ids.findSome? fun id =>
      if id = master then none
      else if connects id then
        if record id ≠ record master then some (.record id) else none
      else some (.connection id)

/-- The writes that were answered. -/
def State.answered (s : State) : Finset ℕ :=
  (Finset.range s.writes.length).filter fun k => s.writes.getD k false

/-- The writes that came back with an error. -/
def State.unanswered (s : State) : Finset ℕ := Finset.range s.writes.length \ s.answered

/-- What `Check` of the job returns for a node: the number of its rows in the state in which it
is asked, or -1 if the query fails. -/
def Reads (record : NodeID → Int) (seen : NodeID → State) (n : NodeID) : Prop :=
  record n = -1 ∨ record n = ((seen n).tables n).card

/-! ### The books -/

theorem answered_write (s : State) (n : NodeID) (result : Result) :
    (s.write n result).answered =
      if result.answered then insert s.writes.length s.answered else s.answered := by
  ext k
  rcases Nat.lt_trichotomy k s.writes.length with before | rfl | after
  · have apart : k ≠ s.writes.length := by omega
    cases result.answered <;>
      simp [State.answered, State.write, State.setTable, apart, before, Nat.lt_succ_of_lt before]
  · cases answered : result.answered <;>
      simp [State.answered, State.write, State.setTable, answered]
  · have apart : k ≠ s.writes.length := by omega
    cases result.answered <;>
      simp [State.answered, State.write, State.setTable, apart] <;> omega

/-- Every row is of a write, and the counter counts the answered ones. -/
structure Balanced (s : State) : Prop where
  rows : ∀ n, s.tables n ⊆ Finset.range s.writes.length
  counter : s.answered.card = s.counter

theorem balanced_init : Balanced init := ⟨fun _ => Finset.empty_subset _, rfl⟩

section Steps
variable {job : DMLJob} {s s' : State} {a : Action}

theorem Balanced.write (balanced : Balanced s) (n : NodeID) (result : Result) :
    Balanced (s.write n result) where
  rows := by
    intro m
    have kept : s.tables m ⊆ Finset.range (s.writes.length + 1) :=
      (balanced.rows m).trans (Finset.range_subset_range.mpr (Nat.le_succ _))
    simp only [State.write, State.setTable, List.length_append, List.length_singleton]
    by_cases here : m = n
    · subst here
      rw [Function.update_self]
      split
      · exact Finset.insert_subset (Finset.self_mem_range_succ _) kept
      · exact kept
    · rw [Function.update_of_ne here]
      exact kept
  counter := by
    have new : s.writes.length ∉ s.answered := by simp [State.answered]
    rw [answered_write]
    cases answered : result.answered with
    | true =>
      rw [if_pos rfl, Finset.card_insert_of_notMem new, balanced.counter]
      simp [State.write, answered]
    | false =>
      rw [if_neg (by decide), balanced.counter]
      simp [State.write, answered]

theorem Balanced.writes (n : NodeID) (results : List Result) {s : State}
    (balanced : Balanced s) : Balanced (results.foldl (fun s => s.write n) s) := by
  induction results generalizing s with
  | nil => exact balanced
  | cons result results ih => exact ih (balanced.write n result)

theorem Balanced.setTable (balanced : Balanced s) (n : NodeID) {table : Finset ℕ}
    (rows : table ⊆ Finset.range s.writes.length) : Balanced (s.setTable n table) where
  rows := by
    intro m
    simp only [State.setTable]
    by_cases here : m = n
    · subst here
      rwa [Function.update_self]
    · rw [Function.update_of_ne here]
      exact balanced.rows m
  counter := balanced.counter

theorem Balanced.step (balanced : Balanced s) (taken : step job s a = some s') : Balanced s' := by
  cases a with
  | tick o =>
    simp only [CheckerVerdict.step] at taken
    split at taken
    · cases taken
    · obtain ⟨n, _, rfl⟩ := Option.map_eq_some_iff.mp taken
      exact .writes n _ balanced
  | connect n =>
    cases taken
    exact ⟨balanced.rows, balanced.counter⟩
  | replicate source target row =>
    simp only [CheckerVerdict.step] at taken
    split at taken <;> cases taken
    rename_i held
    exact balanced.setTable target
      (Finset.insert_subset (balanced.rows source held) (balanced.rows target))
  | lose n row =>
    cases taken
    exact balanced.setTable n ((Finset.erase_subset _ _).trans (balanced.rows n))

/-- After its last attempt a job makes none. -/
theorem step_after_last (last : s.counter = job.getMaxCounter) (taken : step job s a = some s') :
    s'.writes = s.writes ∧ s'.counter = s.counter := by
  cases a with
  | tick o =>
    simp only [step, last, ↓reduceIte] at taken
    cases taken
  | connect n =>
    cases taken
    exact ⟨rfl, rfl⟩
  | replicate source target row =>
    simp only [step] at taken
    split at taken <;> cases taken
    exact ⟨rfl, rfl⟩
  | lose n row =>
    cases taken
    exact ⟨rfl, rfl⟩

theorem run_after_last (last : s.counter = job.getMaxCounter)
    (run : Run (step job) (fun _ _ => True) s s') :
    s'.writes = s.writes ∧ s'.counter = s.counter := by
  refine @Run.invariant _ _ _ _ _ _
    (fun s' => s'.writes = s.writes ∧ s'.counter = s.counter) run ⟨rfl, rfl⟩ ?_
  intro before action after same _ taken
  obtain ⟨writes, counter⟩ := step_after_last (same.2.trans last) taken
  exact ⟨writes.trans same.1, counter.trans same.2⟩

end Steps

/-- What a check that passes has compared. -/
theorem check_eq_none_iff {job : DMLJob} {chaosJobDone : Nat} {master : NodeID}
    {record : NodeID → Int} {registeredNodes : Option (List NodeID)} {connects : NodeID → Bool} :
    check job chaosJobDone master record registeredNodes connects = none ↔
      (record master = job.getMaxCounter ∨ chaosJobDone = 2 ∨ chaosJobDone = 3) ∧
        (chaosJobDone = 3 ∨ ∃ ids, registeredNodes = some ids ∧
          ∀ id ∈ ids, id = master ∨ connects id = true ∧ record id = record master) := by
  have compared : ∀ id, (if id = master then (none : Option CheckError)
      else if connects id then if record id ≠ record master then some (.record id) else none
      else some (.connection id)) = none ↔
        id = master ∨ connects id = true ∧ record id = record master := by
    intro id
    by_cases own : id = master
    · simp [own]
    · cases connects id <;> simp [own]
  unfold check
  by_cases wrong : record master ≠ job.getMaxCounter ∧ chaosJobDone ≠ 2 ∧ chaosJobDone ≠ 3
  · rw [if_pos wrong]
    simp [wrong]
  · rw [if_neg wrong]
    have right : record master = job.getMaxCounter ∨ chaosJobDone = 2 ∨ chaosJobDone = 3 := by
      tauto
    by_cases skips : chaosJobDone = 3
    · simp [skips]
    · rw [if_neg skips]
      cases registeredNodes with
      | none => simp [skips]
      | some ids =>
        simp only [List.findSome?_eq_none_iff, compared, skips, false_or, Option.some.injEq,
          exists_eq_left']
        rw [eq_false skips] at right
        exact ⟨fun all => ⟨right, all⟩, And.right⟩

/-- What a passed check says, unless the chaos job let it pass: on the master and on every
registered node, when it was counted, as many answered writes were missing as there were
rows of writes that had come back with an error. -/
theorem passed_check_balances {job : DMLJob} {s : State}
    (run : Run (step job) (fun _ _ => True) init s) (last : s.counter = job.getMaxCounter)
    {chaosJobDone : Nat} {master : NodeID} {record : NodeID → Int}
    {registeredNodes : Option (List NodeID)} {connects : NodeID → Bool}
    {seen : NodeID → State} (later : ∀ n, Run (step job) (fun _ _ => True) s (seen n))
    (reads : ∀ n, Reads record seen n)
    (passed : check job chaosJobDone master record registeredNodes connects = none)
    (strict : chaosJobDone ≠ 2 ∧ chaosJobDone ≠ 3) {n : NodeID}
    (counted : n = master ∨ ∃ ids, registeredNodes = some ids ∧ n ∈ ids) :
    (s.answered \ (seen n).tables n).card = ((seen n).tables n \ s.answered).card ∧
      (seen n).tables n \ s.answered ⊆ s.unanswered := by
  obtain ⟨right, compared⟩ := check_eq_none_iff.mp passed
  have full : record master = job.getMaxCounter := by tauto
  have same : record n = job.getMaxCounter := by
    rcases counted with rfl | ⟨ids, registered, member⟩
    · exact full
    · rcases compared with skipped | ⟨others, found, equal⟩
      · exact absurd skipped strict.2
      · cases registered.symm.trans found
        rcases equal n member with rfl | ⟨_, equal⟩
        · exact full
        · exact equal.trans full
  have count : record n = ((seen n).tables n).card := by
    rcases reads n with failed | count
    · rw [failed] at same
      omega
    · exact count
  have balanced : Balanced (seen n) := by
    refine Run.invariant (run.trans (later n)) balanced_init ?_
    exact fun balanced _ taken => balanced.step taken
  obtain ⟨writes, counter⟩ := run_after_last last (later n)
  have answered : (seen n).answered = s.answered := by
    unfold State.answered
    rw [writes]
  have equal : s.answered.card = ((seen n).tables n).card := by
    rw [← answered, balanced.counter, counter, last]
    omega
  refine ⟨Finset.card_sdiff_comm equal, ?_⟩
  unfold State.unanswered
  rw [← writes]
  exact Finset.sdiff_subset_sdiff (balanced.rows n) (Finset.Subset.refl _)

/-- The commit of the fifth write got no answer and the write is made again; the first row is
lost. The check passes. -/
theorem passed_check_balances_with_lost_row :
    ∃ s, Run (step .longTxn) (fun _ _ => True) init s ∧ s.counter = 5 ∧
      check .longTxn 1 "a" (fun n => (s.tables n).card) (some ["a"]) (fun _ => true) = none ∧
      s.answered \ s.tables "a" = {0} ∧ (s.tables "a" \ s.answered).card = 1 := by
  have ran : (exec (restrict (step .longTxn) fun _ _ => true) init
      [.connect "a", .tick ⟨true, true, [], .answered⟩, .tick ⟨true, true, [], .answered⟩,
        .tick ⟨true, true, [], .answered⟩, .tick ⟨true, true, [], .answered⟩,
        .tick ⟨true, true, [], .unanswered⟩, .tick ⟨true, true, [], .answered⟩, .lose "a" 0]).any
      (fun s => decide (s.counter = 5) && decide ((s.tables "a").card = 5) &&
        decide (s.answered \ s.tables "a" = {0})) = true := by
    decide +kernel
  obtain ⟨s, run, found⟩ := exists_run_of_exec (fun _ _ _ => trivial) ran
  simp only [Bool.and_eq_true, decide_eq_true_eq] at found
  obtain ⟨⟨last, full⟩, lost⟩ := found
  have passed : check .longTxn 1 "a" (fun n => (s.tables n).card) (some ["a"])
      (fun _ => true) = none := by
    rw [check_eq_none_iff]
    simp [full, DMLJob.getMaxCounter]
  have balance := (@passed_check_balances .longTxn s run last 1 "a" _ _ _ (fun _ => s)
    (fun _ => .refl _) (fun _ => .inr rfl) passed (by decide) "a" (.inl rfl)).1
  rw [lost] at balance
  exact ⟨s, run, last, passed, lost, balance.symm⟩

end Moha.CheckerVerdict
