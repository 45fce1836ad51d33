import Moha.LeaderRecord
import Moha.Runs

/-! The tear-down hook that `supervise` runs when it ends:
`cmd/mysql-agent-tear-down/main.go` with `waitProcessToStop`, and the
`agent/cleaner.go::StartClean` that it calls. A goroutine waits for the database
process and closes a channel; `main` takes the closed channel for a stopped
database, or gives up after three seconds. The goroutine closes the channel after
an error as well. -/
namespace Moha.TearDown
open KeyValueStore DecimalText LeaderRecord Runs

/-- Where the goroutine stands: in `ioutil.ReadFile`, in `Wait4`, or after it has
closed the channel. -/
inductive Waiter where
  | readFile
  | wait4 (pid : Int)
  | closed
  deriving DecidableEq, Repr

/-- Where `main` stands: in its `select`, in `StartClean`, or past it. -/
inductive Main where
  | selecting
  | startClean
  | cleaned
  | gaveUp
  deriving DecidableEq, Repr

/-- The database process, the two goroutines, the timer and etcd. -/
structure State where
  database : Int
  nodeID : Option NodeID
  terminated : Bool := false
  waiter : Waiter := .readFile
  expired : Bool := false
  main : Main := .selecting
  etcd : Etcd

/-- `strings.TrimRight` of the newlines, and `strconv.Atoi`. -/
def pidOf (bytes : String) : Option Int :=
  atoi (String.ofList (bytes.toList.reverse.dropWhile (· == '\n')).reverse)

/-- A pid above zero names one child; the others stand for any child of a group. -/
def Names (pid wpid : Int) : Prop := 0 < pid → wpid = pid

instance (pid wpid : Int) : Decidable (Names pid wpid) := inferInstanceAs (Decidable (_ → _))

/-- How far `StartClean` gets with etcd: no client, no answer, or a committed
transaction. -/
inductive CleanOutcome where
  | noClient
  | noAnswer
  | committed
  deriving DecidableEq, Repr

inductive CleanError where
  | client
  | nodeID
  | txn
  | notLeader
  deriving DecidableEq, Repr

/-- `cleaner.go::StartClean`. -/
def startClean (etcd : Etcd) (nodeID : Option NodeID) (outcome : CleanOutcome) :
    Etcd × Option CleanError :=
  match outcome, nodeID with
  | .noClient, _ => (etcd, some .client)
  | _, none => (etcd, some .nodeID)
  | .noAnswer, some _ => (etcd, some .txn)
  | .committed, some id =>
    match etcd.commit (Request.startClean id etcd.revision).txn with
    | (after, .done true) => (after, none)
    | (after, _) => (after, some .notLeader)

inductive Action where
  | terminate
  | readFile (content : Option String)
  | wait4 (result : Option Int)
  | expire
  | selectStopped
  | selectTimeout
  | startClean (outcome : CleanOutcome)
  deriving DecidableEq, Repr

/-- `waitProcessToStop` after the pid file: an unreadable file and a text that is
no number both end it with an error. -/
def afterReadFile (content : Option String) : Waiter :=
  match content.bind pidOf with
  | none => .closed
  | some pid => .wait4 pid

/-- A step of the hook or of its environment; `none` when it is not enabled. The
result of `wait4` is the pid of a terminated child, or none for an error. -/
def step (s : State) : Action → Option State
  | .terminate => some { s with terminated := true }
  | .readFile content =>
    if s.waiter = .readFile then some { s with waiter := afterReadFile content } else none
  | .wait4 result =>
    match s.waiter with
    | .wait4 pid =>
      if ∀ wpid ∈ result, Names pid wpid ∧ (wpid = s.database → s.terminated = true) then
        some { s with waiter := .closed }
      else none
    | _ => none
  | .expire => some { s with expired := true }
  | .selectStopped =>
    if s.main = .selecting ∧ s.waiter = .closed then some { s with main := .startClean } else none
  | .selectTimeout =>
    if s.main = .selecting ∧ s.expired then some { s with main := .gaveUp } else none
  | .startClean outcome =>
    if s.main = .startClean then
      some { s with main := .cleaned, etcd := (startClean s.etcd s.nodeID outcome).1 }
    else none

/-- The pid file names the running database, and `wait4` fails only when the
database has terminated. -/
def Waited (s : State) : Action → Prop
  | .readFile content =>
    s.terminated = true ∨ (0 < s.database ∧ content.bind pidOf = some s.database)
  | .wait4 result => result = none → s.terminated = true
  | _ => True

/-- `StartClean` has been called. -/
def CallsStartClean (s : State) : Prop := s.main = .startClean ∨ s.main = .cleaned

/-- While the database runs, the goroutine waits for it, and nothing is cleaned. -/
structure Waiting (s : State) : Prop where
  waiter : s.waiter = .readFile ∨ (0 < s.database ∧ s.waiter = .wait4 s.database)
  main : ¬ CallsStartClean s

def Orderly (s : State) : Prop := s.terminated = true ∨ Waiting s

theorem orderly_step {s s' : State} {a : Action} (orderly : Orderly s) (waited : Waited s a)
    (taken : step s a = some s') : Orderly s' := by
  rcases orderly with terminated | waiting
  · -- the database does not come back
    left
    cases a <;> simp only [step] at taken
    all_goals (repeat' split at taken)
    all_goals cases taken
    all_goals first | rfl | exact terminated
  · cases a with
    | terminate =>
      cases taken
      exact .inl rfl
    | readFile content =>
      simp only [step] at taken
      split at taken <;> cases taken
      rcases waited with terminated | ⟨positive, names⟩
      · exact .inl terminated
      · exact .inr ⟨.inr ⟨positive, by simp [afterReadFile, names]⟩, waiting.main⟩
    | wait4 result =>
      simp only [step] at taken
      split at taken
      · rename_i pid stands
        split at taken <;> cases taken
        rename_i returned
        left
        cases result with
        | none => exact waited rfl
        | some wpid =>
          obtain ⟨names, stopped⟩ := returned wpid rfl
          rcases waiting.waiter with reading | ⟨positive, waits⟩
          · cases reading.symm.trans stands
          · cases waits.symm.trans stands
            exact stopped (names positive)
      · contradiction
    | expire =>
      cases taken
      exact .inr ⟨waiting.waiter, waiting.main⟩
    | selectStopped =>
      simp only [step] at taken
      split at taken <;> cases taken
      rename_i enabled
      rcases waiting.waiter with reading | ⟨_, waits⟩
      · cases reading.symm.trans enabled.2
      · cases waits.symm.trans enabled.2
    | selectTimeout =>
      simp only [step] at taken
      split at taken <;> cases taken
      exact .inr ⟨waiting.waiter, by simp [CallsStartClean]⟩
    | startClean outcome =>
      simp only [step] at taken
      split at taken <;> cases taken
      rename_i enabled
      exact absurd (.inl enabled) waiting.main

/-- The hook begins: nothing has been read, and the database runs or not. -/
structure Begins (s : State) : Prop where
  waiter : s.waiter = .readFile
  main : s.main = .selecting

/-- In every run in which the pid file names the running database and `wait4` fails
only after its end, `StartClean` is called only when the database has terminated. -/
theorem cleans_after_database_stops {s t : State} (begins : Begins s) (run : Run step Waited s t)
    (calls : CallsStartClean t) : t.terminated = true := by
  have orderly : Orderly t := by
    refine run.invariant (.inr ⟨.inl begins.waiter, ?_⟩) fun orderly waited taken =>
      orderly_step orderly waited taken
    simp [CallsStartClean, begins.main]
  rcases orderly with terminated | waiting
  · exact terminated
  · exact absurd calls waiting.main

/-- A node whose database runs as process 77 and that holds the leader key. -/
def sampleState : State where
  database := 77
  nodeID := some "a"
  etcd := (Store.empty.commit ⟨[], [.put .leaderPath (.text "a") none]⟩).1

private def waited (s : State) : Action → Bool
  | .readFile content => decide (0 < s.database) && content.bind pidOf == some s.database
  | .wait4 result => result.isSome || s.terminated
  | _ => true

private theorem waited_of_check {s : State} {a : Action} (check : waited s a = true) :
    Waited s a := by
  cases a <;> simp_all [waited, Waited]
  intro none
  simpa [none] using check

/-- The database stops while the hook waits for it, and the leader key is removed. -/
theorem cleans_after_database_stops_once :
    ∃ t, Run step Waited sampleState t ∧ t.main = .cleaned ∧ text t.etcd .leaderPath = none ∧
      t.terminated = true := by
  have ran : (exec (restrict step waited) sampleState
      [.readFile (some "77\n"), .terminate, .wait4 (some 77), .expire, .selectStopped,
        .startClean .committed]).any
      (fun t => t.main == .cleaned && text t.etcd .leaderPath == none) = true := by
    decide +kernel
  obtain ⟨t, run, found⟩ := exists_run_of_exec (fun _ _ => waited_of_check) ran
  simp only [Bool.and_eq_true, beq_iff_eq] at found
  exact ⟨t, run, found.1, found.2, cleans_after_database_stops ⟨rfl, rfl⟩ run (.inr found.1)⟩

/-- The pid file cannot be read: the channel is closed at once, and the leader key
is removed while the database runs. -/
theorem cleans_while_database_runs :
    ∃ t, Run step (fun _ _ => True) sampleState t ∧ t.main = .cleaned ∧
      text t.etcd .leaderPath = none ∧ t.terminated = false := by
  have ran : (exec (restrict step fun _ _ => true) sampleState
      [.readFile none, .selectStopped, .startClean .committed]).any
      (fun t => t.main == .cleaned && text t.etcd .leaderPath == none && !t.terminated) = true := by
    decide +kernel
  obtain ⟨t, run, found⟩ := exists_run_of_exec (fun _ _ _ => trivial) ran
  simp only [Bool.and_eq_true, beq_iff_eq, Bool.not_eq_true'] at found
  exact ⟨t, run, found.1.1, found.1.2, found.2⟩

end Moha.TearDown
