import Moha.PreviousMaster

/-! The log positions of the PostgreSQL service manager, from the queries of
`pkg/postgresql` to the `endTxnID` that elections and admissions compare. The server
answers with the text `H/L`; `Scan` into a `uint64` reads decimal text only, and its error
is not looked at. -/
namespace Moha.WalPosition
open DecimalText LeaderRecord Election

/-! ### Positions -/

def hexDigitValue (c : Char) : Option Nat :=
  if '0' ≤ c ∧ c ≤ '9' then some (c.toNat - '0'.toNat)
  else if 'a' ≤ c ∧ c ≤ 'f' then some (c.toNat - 'a'.toNat + 10)
  else if 'A' ≤ c ∧ c ≤ 'F' then some (c.toNat - 'A'.toNat + 10)
  else none

/-- Up to eight hexadecimal digits, with or without leading zeros. -/
structure HexWord where
  digits : List Char
  nonempty : digits ≠ []
  short : digits.length ≤ 8
  hexadecimal : digits.all (fun c => (hexDigitValue c).isSome) = true

def HexWord.value (word : HexWord) : Nat :=
  word.digits.foldl (fun n c => n * 16 + (hexDigitValue c).getD 0) 0

/-- A WAL position as the server prints it. -/
structure Lsn where
  high : HexWord
  low : HexWord

def Lsn.text (lsn : Lsn) : String := String.ofList (lsn.high.digits ++ '/' :: lsn.low.digits)

def Lsn.value (lsn : Lsn) : Nat := lsn.high.value * 2 ^ 32 + lsn.low.value

/-! ### Loading -/

/-- What a query for one position comes back with. -/
inductive Answer where
  | failed
  | noRow
  | row (text : String)
  deriving DecidableEq, Repr

/-- `rs.Scan(&r)`: text that is not a decimal number leaves `r` alone. -/
def scan (r : UInt64) (text : String) : UInt64 := (parseUint text).getD r

/-- The two queries of `postgresql.go`; `none` is the error of the query. -/
def getLSN : Answer → Option UInt64
  | .failed => none
  | .noRow => some 0
  | .row text => some (scan 0 text)

/-- `postgresqlServiceManager`, with the answers of its two queries. -/
structure Manager where
  uniqueID : String
  currentWalLSN : Answer
  lastWalReplayLSN : Answer
  deriving DecidableEq, Repr

/-- `postgresql.go::GetCurrentLSN`. -/
def Manager.getCurrentLSN (m : Manager) : Option UInt64 := getLSN m.currentWalLSN

/-- `postgresql.go::GetLastReplayLSN`. -/
def Manager.getLastReplayLSN (m : Manager) : Option UInt64 := getLSN m.lastWalReplayLSN

/-- `postgresqlServiceManager.LoadReplicationInfoOfSlave`. -/
def Manager.loadReplicationInfoOfSlave (m : Manager) : Option ReplicationInfo :=
  m.getLastReplayLSN.map fun lsn => ⟨m.uniqueID, "", lsn⟩

/-- `postgresqlServiceManager.LoadReplicationInfoOfMaster`. -/
def Manager.loadReplicationInfoOfMaster (m : Manager) : Option ReplicationInfo :=
  m.getCurrentLSN.map fun lsn => ⟨m.uniqueID, "", lsn⟩

/-- The load of a slave is the one that elections are modelled with. -/
theorem loadReplicationInfoOfSlave_eq (m : Manager) (serverUUID : NodeID → String)
    (source : NodeID) (executedGtidSet : Option String) :
    m.loadReplicationInfoOfSlave =
      PreviousMaster.loadReplicationInfoOfSlave .postgresql serverUUID m.uniqueID
        ⟨source, executedGtidSet, m.getLastReplayLSN⟩ :=
  rfl

/-! ### What is loaded -/

/-- The two loads with the answer each of them reads. -/
inductive Load where
  | ofMaster
  | ofSlave
  deriving DecidableEq, Repr

def Load.answer (m : Manager) : Load → Answer
  | .ofMaster => m.currentWalLSN
  | .ofSlave => m.lastWalReplayLSN

def Load.run (m : Manager) : Load → Option ReplicationInfo
  | .ofMaster => m.loadReplicationInfoOfMaster
  | .ofSlave => m.loadReplicationInfoOfSlave

/-- The slash between the two words is not a digit. -/
theorem parseUint_text (lsn : Lsn) : parseUint lsn.text = none := by
  have slash : (lsn.high.digits ++ '/' :: lsn.low.digits).all Char.isDigit = false := by
    simp only [List.all_append, List.all_cons]
    simp
  simp [parseUint, Lsn.text, digitsValue, slash]

/-- Every position is loaded as zero. -/
theorem run_of_row {load : Load} {m : Manager} {lsn : Lsn}
    (reported : load.answer m = .row lsn.text) : load.run m = some ⟨m.uniqueID, "", 0⟩ := by
  cases load <;>
    simp_all [Load.run, Load.answer, Manager.loadReplicationInfoOfMaster,
      Manager.loadReplicationInfoOfSlave, Manager.getCurrentLSN, Manager.getLastReplayLSN, getLSN,
      scan, parseUint_text]

/-- Positions that the server reports are loaded, a position other than zero as another
number, and of no two positions is one loaded as a smaller number than the other. -/
theorem loaded_lsn_iff {load : Load} {m m' : Manager} {a b : Lsn}
    (reportedA : load.answer m = .row a.text) (reportedB : load.answer m' = .row b.text) :
    ∃ x y : ReplicationInfo, load.run m = some x ∧ load.run m' = some y ∧
      (x.endTxnID.toNat = a.value ↔ a.value = 0) ∧
      (y.endTxnID.toNat = b.value ↔ b.value = 0) ∧
      ¬ x.endTxnID < y.endTxnID := by
  refine ⟨_, _, run_of_row reportedA, run_of_row reportedB, ?_, ?_, ?_⟩
  · exact eq_comm
  · exact eq_comm
  · exact UInt64.lt_irrefl 0

/-- The position `0/16B3748`. -/
def sampleLower : Lsn where
  high := ⟨['0'], by decide, by decide, by decide⟩
  low := ⟨['1', '6', 'B', '3', '7', '4', '8'], by decide, by decide, by decide⟩

/-- The position `1/0000000a`. -/
def sampleHigher : Lsn where
  high := ⟨['1'], by decide, by decide, by decide⟩
  low := ⟨['0', '0', '0', '0', '0', '0', '0', 'a'], by decide, by decide, by decide⟩

def sampleReporting (lsn : Lsn) : Manager := ⟨"n1", .row lsn.text, .row lsn.text⟩

/-- A master at `0/16B3748` and one at `1/0000000a` both load zero. -/
theorem loaded_lsn_loses_order :
    sampleLower.value < sampleHigher.value ∧
      (sampleReporting sampleLower).loadReplicationInfoOfMaster = some ⟨"n1", "", 0⟩ ∧
      (sampleReporting sampleHigher).loadReplicationInfoOfMaster = some ⟨"n1", "", 0⟩ := by
  decide +kernel

theorem loaded_lsn_of_samples :
    ∃ x y : ReplicationInfo, Load.ofSlave.run (sampleReporting sampleLower) = some x ∧
      Load.ofSlave.run (sampleReporting sampleHigher) = some y ∧
      (x.endTxnID.toNat = sampleLower.value ↔ sampleLower.value = 0) ∧
      (y.endTxnID.toNat = sampleHigher.value ↔ sampleHigher.value = 0) ∧
      ¬ x.endTxnID < y.endTxnID :=
  loaded_lsn_iff rfl rfl

end Moha.WalPosition
