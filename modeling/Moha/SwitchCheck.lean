import Moha.FallibleCalls
import Moha.GtidPosition
import Mathlib.Data.Int.Interval
import Mathlib.Data.Set.Card

/-! The check before a planned switch, `prefixSwitchCheck` of `moctl/switch.go`. Its loop
over the slaves returns a verdict on the first one, and it compares the positions of one
UUID, those that the queries came back with. -/
namespace Moha.SwitchCheck
open FallibleCalls GtidText GtidPosition

def maxRuningThred : Nat := 200

def maxNotExecGtid : Int64 := 10000

/-- The master, and how the three queries of the check come back. -/
structure Master where
  threadsRunning : Nat
  serverUUID : String
  executedGtidSet : String
  threadsRows : Rows
  uuidRows : Rows
  statusRows : Rows
  deriving DecidableEq, Repr

/-- `switch.go::threadsRunning`. -/
def Master.getThreadsRunning (m : Master) : Option Nat :=
  match m.threadsRows with
  | .failed => none
  | .lost => some 0
  | .row => some m.threadsRunning

/-- `switch.go::getServerUUID`, whose error is logged. -/
def Master.getServerUUID (m : Master) : String :=
  match m.uuidRows with
  | .row => m.serverUUID
  | _ => ""

/-- The GTID set of `switch.go::masterStatus`, whose error is logged. -/
def Master.masterStatus (m : Master) : String :=
  match m.statusRows with
  | .failed => "nil"
  | .lost => ""
  | .row => m.executedGtidSet

/-- A slave as it is registered, and how the query for its status comes back. -/
structure Slave where
  node : String
  slaveIORunning : String
  slaveSQLRunning : String
  executedGtidSet : String
  statusRows : Rows
  deriving DecidableEq, Repr

/-- A column of `switch.go::GetSlaveStatus`; without a row all of them are empty. -/
def Slave.column (s : Slave) (text : String) : String := if s.statusRows = .row then text else ""

inductive Verdict where
  | passed
  | refused
  | failed
  | panics
  deriving DecidableEq, Repr

/-- The body of the loop. -/
def checkSlave (mastergtid serverUUID : String) (s : Slave) : Verdict :=
  match (s.node.toList.splitOn ':')[1]? with
  | none => .panics
  | some _ =>
    if s.column s.slaveIORunning = "Yes" ∧ s.column s.slaveSQLRunning = "Yes" then
      match moctlGetTxnIDFromGTIDStr mastergtid serverUUID with
      | .error _ => .refused
      | .ok masterGtidEvent =>
        match moctlGetTxnIDFromGTIDStr (s.column s.executedGtidSet) serverUUID with
        | .error _ => .refused
        | .ok executedLasteGtid =>
          if maxNotExecGtid ≤ masterGtidEvent - executedLasteGtid then .refused else .passed
    else .refused

/-- `switch.go::prefixSwitchCheck`. -/
def prefixSwitchCheck (m : Master) (slaves : List Slave) : Verdict :=
  match m.getThreadsRunning with
  | none => .failed
  | some threads =>
    if threads > maxRuningThred then .refused
    else
      match slaves with
      | [] => .passed
      -- every path through the body returns
      | first :: _ => checkSlave m.masterStatus m.getServerUUID first

/-! ### What the check is for -/

/-- How many transactions of the master a slave has not executed. -/
noncomputable def behind (m : Master) (s : Slave) : ℕ∞ :=
  { txn : String × Int | Names m.executedGtidSet txn.1 txn.2 ∧
    ¬ Names s.executedGtidSet txn.1 txn.2 }.encard

def Ready (m : Master) (s : Slave) : Prop :=
  s.slaveIORunning = "Yes" ∧ s.slaveSQLRunning = "Yes" ∧ behind m s < 10000

def Covered (m : Master) (slaves : List Slave) : Prop :=
  m.threadsRunning ≤ maxRuningThred ∧ ∀ s ∈ slaves, Ready m s

/-- The number of threads that the check goes by is not too large. -/
def Quiet (m : Master) : Prop :=
  m.threadsRows = .lost ∨ m.threadsRows = .row ∧ m.threadsRunning ≤ maxRuningThred

/-- What the queries show of the slave is in order: both threads run, and the two positions
are near each other. -/
def Shown (m : Master) (s : Slave) : Prop :=
  ':' ∈ s.node.toList ∧ s.statusRows = .row ∧ s.slaveIORunning = "Yes" ∧
    s.slaveSQLRunning = "Yes" ∧
    ∃ last executed, moctlGetTxnIDFromGTIDStr m.masterStatus m.getServerUUID = .ok last ∧
      moctlGetTxnIDFromGTIDStr s.executedGtidSet m.getServerUUID = .ok executed ∧
      last - executed < maxNotExecGtid

/-- A slave that is not ready for a switch. -/
def Unready (m : Master) (s : Slave) : Prop :=
  s.slaveIORunning ≠ "Yes" ∨ s.slaveSQLRunning ≠ "Yes" ∨ 10000 ≤ behind m s

/-- All that the slave lacks is between the two positions that are compared. -/
def Visible (m : Master) (s : Slave) : Prop :=
  ∃ last executed, moctlGetTxnIDFromGTIDStr m.masterStatus m.getServerUUID = .ok last ∧
    moctlGetTxnIDFromGTIDStr s.executedGtidSet m.getServerUUID = .ok executed ∧
    ∀ uuid number, Names m.executedGtidSet uuid number → ¬ Names s.executedGtidSet uuid number →
      uuid = m.getServerUUID ∧ executed.toInt ≤ number ∧ number < last.toInt

/-- What the check cannot see: the threads behind a lost row, transactions that are not between
the compared positions of the first slave, and every slave after the first. -/
def Missed (m : Master) (slaves : List Slave) : Prop :=
  m.threadsRows = .lost ∧ maxRuningThred < m.threadsRunning ∨
  (∃ first ∈ slaves.head?, ¬ Visible m first ∧ 10000 ≤ behind m first) ∨
  ∃ s ∈ slaves.tail, Unready m s

/-! ### The first slave -/

/-- A registered node has a port to connect to exactly if there is a colon in it. -/
private theorem port_isSome_iff (node : List Char) :
    (node.splitOn ':')[1]?.isSome = true ↔ ':' ∈ node := by
  constructor
  · intro found
    by_contra absent
    rw [List.splitOn_eq_singleton absent] at found
    cases found
  · intro colon
    obtain ⟨host, rest, rfl, first⟩ := List.eq_append_cons_of_mem colon
    rw [List.splitOn_append_cons_self_of_not_mem first]
    obtain ⟨port, others, split⟩ := List.exists_cons_of_ne_nil (List.splitOn_ne_nil ':' rest)
    rw [split]
    rfl

/-- The body of the loop passes the slaves that show nothing amiss. -/
theorem checkSlave_passed_iff {m : Master} {s : Slave} :
    checkSlave m.masterStatus m.getServerUUID s = .passed ↔ Shown m s := by
  unfold checkSlave Shown
  rw [← port_isSome_iff]
  cases (s.node.toList.splitOn ':')[1]? with
  | none => simp
  | some port =>
    simp only [Option.isSome_some, true_and]
    by_cases answered : s.statusRows = .row
    · simp only [Slave.column, answered, if_true, true_and]
      by_cases running : s.slaveIORunning = "Yes" ∧ s.slaveSQLRunning = "Yes"
      · rw [if_pos running]
        simp only [running.1, running.2, true_and]
        cases moctlGetTxnIDFromGTIDStr m.masterStatus m.getServerUUID with
        | error => simp
        | ok last =>
          cases moctlGetTxnIDFromGTIDStr s.executedGtidSet m.getServerUUID with
          | error => simp
          | ok executed => simp
      · rw [if_neg running]
        simp only [reduceCtorEq, false_iff]
        exact fun shown => running ⟨shown.1, shown.2.1⟩
    · simp [Slave.column, answered]

private theorem encard_between_le (uuid : String) (low high : Int) :
    { txn : String × Int | txn.1 = uuid ∧ low ≤ txn.2 ∧ txn.2 < high }.encard ≤
      ((high - low).toNat : ℕ∞) := by
  have image : { txn : String × Int | txn.1 = uuid ∧ low ≤ txn.2 ∧ txn.2 < high } =
      (Finset.Ico low high : Set Int).image (Prod.mk uuid) := by
    ext ⟨name, number⟩
    simp [eq_comm, and_comm]
  rw [image]
  refine (Set.encard_image_le _ _).trans ?_
  rw [Set.encard_coe_eq_coe_finsetCard, Int.card_Ico]

/-- The difference of the positions does not overflow. -/
private theorem lag_lt_of_near {last executed : Int64} (nonneg : 0 ≤ executed.toInt)
    (near : last - executed < maxNotExecGtid) : (last.toInt - executed.toInt).toNat < 10000 := by
  have limit : maxNotExecGtid.toInt = 10000 := by decide
  have high := last.toInt_lt
  rw [Int64.lt_iff_toInt_lt, Int64.toInt_sub, limit] at near
  by_cases ahead : last.toInt ≤ executed.toInt
  · omega
  · rw [Int.bmod_eq_of_le (by omega) (by omega)] at near
    omega

/-- A slave that shows nothing amiss lacks little if the positions show all that it lacks. -/
theorem behind_lt_of_visible {m : Master} {s : Slave} (visible : Visible m s)
    (shown : Shown m s) : behind m s < 10000 := by
  obtain ⟨last, executed, ofMaster, ofSlave, between⟩ := visible
  obtain ⟨_, _, _, _, last', executed', ofMaster', ofSlave', near⟩ := shown
  rw [ofMaster] at ofMaster'
  rw [ofSlave] at ofSlave'
  cases ofMaster'
  cases ofSlave'
  have few := lag_lt_of_near (moctlGetTxnIDFromGTIDStr_nonneg ofSlave) near
  have bound : behind m s ≤ ((last.toInt - executed.toInt).toNat : ℕ∞) := by
    refine le_trans (Set.encard_le_encard ?_) (encard_between_le m.getServerUUID _ _)
    rintro ⟨uuid, number⟩ ⟨named, lacking⟩
    exact between uuid number named lacking
  exact bound.trans_lt (by exact_mod_cast few)

/-! ### The verdict -/

theorem prefixSwitchCheck_passed_iff {m : Master} {slaves : List Slave} :
    prefixSwitchCheck m slaves = .passed ↔
      Quiet m ∧ ∀ first ∈ slaves.head?, Shown m first := by
  have body : (match slaves with
      | [] => Verdict.passed
      | first :: _ => checkSlave m.masterStatus m.getServerUUID first) = .passed ↔
      ∀ first ∈ slaves.head?, Shown m first := by
    cases slaves with
    | nil => simp
    | cons first rest => simp [checkSlave_passed_iff]
  unfold prefixSwitchCheck Quiet Master.getThreadsRunning
  cases rows : m.threadsRows with
  | failed => simp
  | lost => simpa [maxRuningThred] using body
  | row =>
    by_cases many : m.threadsRunning > maxRuningThred
    · simp [many]
    · simpa [many, Nat.not_lt.mp many] using body

theorem ready_iff {m : Master} {s : Slave} : Ready m s ↔ ¬ Unready m s := by
  simp [Ready, Unready, not_or]

private theorem threads_of_quiet {m : Master} (quiet : Quiet m) :
    m.threadsRunning ≤ maxRuningThred ↔
      ¬ (m.threadsRows = .lost ∧ maxRuningThred < m.threadsRunning) := by
  rcases quiet with lost | ⟨row, few⟩
  · simp [lost]
  · simp [row, few]

private theorem ready_of_shown {m : Master} {first : Slave} (shown : Shown m first) :
    Ready m first ↔ ¬ (¬ Visible m first ∧ 10000 ≤ behind m first) := by
  obtain ⟨_, _, io, sql, _⟩ := id shown
  constructor
  · rintro ready ⟨_, far⟩
    exact absurd ready.2.2 (not_lt.mpr far)
  · intro near
    refine ⟨io, sql, ?_⟩
    by_cases visible : Visible m first
    · exact behind_lt_of_visible visible shown
    · exact not_le.mp fun far => near ⟨visible, far⟩

/-- Of a master and slaves that it passes, the check covers all but what it cannot see. -/
private theorem covered_iff_of_shown {m : Master} {slaves : List Slave} (quiet : Quiet m)
    (shown : ∀ first ∈ slaves.head?, Shown m first) :
    Covered m slaves ↔ ¬ Missed m slaves := by
  unfold Covered Missed
  rw [threads_of_quiet quiet, not_or, not_or]
  refine and_congr_right fun _ => ?_
  cases slaves with
  | nil => simp
  | cons first rest =>
    have ofFirst := ready_of_shown (shown first rfl)
    rw [List.forall_mem_cons, ofFirst]
    simp only [List.head?_cons, Option.mem_some_iff, exists_eq_left', List.tail_cons, ready_iff,
      not_exists, not_and]

/-- The check passes only a master and slaves that are all ready, exactly if it is not the
case that the thread count and the first slave show nothing amiss while something is amiss
that the check cannot see. -/
theorem prefixSwitchCheck_covers_iff (m : Master) (slaves : List Slave) :
    (prefixSwitchCheck m slaves = .passed → Covered m slaves) ↔
      ¬ (Quiet m ∧ (∀ first ∈ slaves.head?, Shown m first) ∧ Missed m slaves) := by
  rw [prefixSwitchCheck_passed_iff]
  constructor
  · rintro covers ⟨quiet, shown, missed⟩
    exact (covered_iff_of_shown quiet shown).mp (covers ⟨quiet, shown⟩) missed
  · rintro seen ⟨quiet, shown⟩
    exact (covered_iff_of_shown quiet shown).mpr fun missed => seen ⟨quiet, shown, missed⟩

/-- Two slaves of which the second does not replicate: the check passes. -/
theorem prefixSwitchCheck_passes_stopped_slave :
    let gtid := "3e11fa47-71ca-11e1-9e33-c80aa9429562:1-5"
    let m : Master := ⟨7, "3e11fa47-71ca-11e1-9e33-c80aa9429562", gtid, .row, .row, .row⟩
    let first : Slave := ⟨"10.0.0.2:3306", "Yes", "Yes", gtid, .row⟩
    let second : Slave := ⟨"10.0.0.3:3306", "No", "No", "", .row⟩
    prefixSwitchCheck m [first, second] = .passed ∧ second.slaveIORunning ≠ "Yes" := by
  decide +kernel

end Moha.SwitchCheck
