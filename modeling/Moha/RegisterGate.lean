import Moha.GtidPrint
import Moha.Runs

/-! When a node begins to register itself. `startHeartbeatLoop` waits until the node leads or
its replication runs without much lag; what it reads is the variable `latestPos`, which
`updateBinlogPos` writes in another goroutine, one field after the other and without a lock.
The two threads and the lag that the condition sees may therefore be of different loads. -/
namespace Moha.RegisterGate
open DecimalText GtidText Runs
open LeaderRecord (Position)

/-- The columns of `SHOW SLAVE STATUS` by name; one that is null or missing is empty. -/
abbrev SlaveRow := String → String

/-- `service_manager.go::LoadSlaveStatusFromDB`. A lag that is null counts as no lag, and one
that does not parse as that of the load before. -/
def loadSlaveStatusFromDB (latestPos : Position) (answer : Option SlaveRow) : Option Position :=
  answer.bind fun rSet =>
    if rSet "Relay_Master_Log_File" = "" then none
    else
      let currentPos : Position :=
        { file := rSet "Relay_Master_Log_File"
          pos := rSet "Exec_Master_Log_Pos"
          gtid := rSet "Executed_Gtid_Set"
          uuid := latestPos.uuid
          endTxnID := 0
          slaveIORunning := rSet "Slave_IO_Running" = "Yes"
          slaveSQLRunning := rSet "Slave_SQL_Running" = "Yes"
          secondsBehindMaster :=
            if rSet "Seconds_Behind_Master" = "" then 0
            else (atoi (rSet "Seconds_Behind_Master")).getD latestPos.secondsBehindMaster }
      if rSet "Master_UUID" = "" then some currentPos
      else
        match getTxnIDFromGTIDStr currentPos.gtid (rSet "Master_UUID") with
        | .error _ => none
        | .ok endTxnID => some { currentPos with endTxnID := endTxnID.toUInt64 }

/-! ### The two goroutines -/

/-- The fields of `latestPos` that `updateBinlogPos` writes. -/
inductive Field where
  | file
  | pos
  | gtid
  | behind
  | io
  | sql
  deriving DecidableEq, Repr

/-- A load of `updateBinlogPos`, in the branch of a leader or of a slave. -/
inductive Load where
  | master (pos : Position)
  | slave (pos : Position)
  deriving DecidableEq, Repr

/-- What `latestPos` is to be after the load. -/
def Load.published : Load → Position
  | .master pos =>
    { pos with slaveIORunning := false, slaveSQLRunning := false, secondsBehindMaster := 0 }
  | .slave pos => pos

/-- The order of the assignments in either branch. -/
def Load.fields : Load → List Field
  | .master _ => [.file, .pos, .gtid, .behind, .io, .sql]
  | .slave _ => [.file, .pos, .gtid, .sql, .io, .behind]

/-- One assignment to `latestPos`. -/
def assign (latestPos published : Position) : Field → Position
  | .file => { latestPos with file := published.file }
  | .pos => { latestPos with pos := published.pos }
  | .gtid => { latestPos with gtid := published.gtid }
  | .behind => { latestPos with secondsBehindMaster := published.secondsBehindMaster }
  | .io => { latestPos with slaveIORunning := published.slaveIORunning }
  | .sql => { latestPos with slaveSQLRunning := published.slaveSQLRunning }

/-- Where `startHeartbeatLoop` is in its condition: the operand that is read next. -/
inductive Gate where
  | leader
  | io
  | sql
  | behind
  | registers (asLeader : Bool)
  deriving DecidableEq, Repr

/-- The lag that `server.go::init` sets is out of the bound of the condition. `loads` are all
loads so far, which no code keeps. -/
structure State where
  isLeader : Bool := false
  latestPos : Position := ⟨"", "", "", "", 0, false, false, 2 ^ 30⟩
  pending : List Field := []
  gate : Gate := .leader
  loads : List Load := []

/-- What the queries of one `updateBinlogPos` come back with. -/
structure Answers where
  master : GtidPrint.Outcome Position
  slave : Option SlaveRow

inductive Action where
  | setIsLeader (isLeader : Bool)
  | update (answers : Answers)
  | write
  | check

/-- The load of `updateBinlogPos`; a load that fails writes nothing. -/
def State.load (s : State) (answers : Answers) : Option Load :=
  if s.isLeader then
    match answers.master with
    | .loaded pos => some (.master pos)
    | .failed | .crashed => none
  else (loadSlaveStatusFromDB s.latestPos answers.slave).map .slave

/-- The next operand of the condition of `startHeartbeatLoop`; a condition that fails is
evaluated again after a second. -/
def State.check (s : State) : Option Gate :=
  match s.gate with
  | .leader => some (if s.isLeader then .registers true else .io)
  | .io => some (if s.latestPos.slaveIORunning then .sql else .leader)
  | .sql => some (if s.latestPos.slaveSQLRunning then .behind else .leader)
  | .behind => some (if s.latestPos.secondsBehindMaster < 60 then .registers false else .leader)
  | .registers _ => none

def step (s : State) : Action → Option State
  | .setIsLeader isLeader => some { s with isLeader := isLeader }
  | .update answers =>
    if s.pending = [] then
      match s.load answers with
      | none => some s
      | some load => some { s with pending := load.fields, loads := s.loads ++ [load] }
    else none
  | .write =>
    match s.pending, s.loads.getLast? with
    | field :: rest, some load =>
      some { s with latestPos := assign s.latestPos load.published field, pending := rest }
    | _, _ => none
  | .check => s.check.map fun gate => { s with gate := gate }

/-! ### Which load a field is of -/

def init : State := {}

/-- What `latestPos` is to be after a number of loads. -/
def publishedAt (loads : List Load) : Nat → Position
  | 0 => init.latestPos
  | k + 1 => ((loads[k]?).map Load.published).getD init.latestPos

/-- The positions have the same value in the field. -/
def Agree (first second : Position) : Field → Prop
  | .file => first.file = second.file
  | .pos => first.pos = second.pos
  | .gtid => first.gtid = second.gtid
  | .behind => first.secondsBehindMaster = second.secondsBehindMaster
  | .io => first.slaveIORunning = second.slaveIORunning
  | .sql => first.slaveSQLRunning = second.slaveSQLRunning

theorem agree_assign_self (latestPos published : Position) (field : Field) :
    Agree (assign latestPos published field) published field := by
  cases field <;> rfl

theorem agree_assign_of_ne {latestPos published held : Position} {field other : Field}
    (ne : other ≠ field) (agree : Agree latestPos held other) :
    Agree (assign latestPos published field) held other := by
  cases field <;> cases other <;> first | exact absurd rfl ne | exact agree

theorem publishedAt_append {loads : List Load} {load : Load} {k : Nat} (old : k ≤ loads.length) :
    publishedAt (loads ++ [load]) k = publishedAt loads k := by
  cases k with
  | zero => rfl
  | succ k => rw [publishedAt, publishedAt, List.getElem?_append_left (by omega)]

theorem publishedAt_length {loads : List Load} {load : Load} (last : loads.getLast? = some load) :
    publishedAt loads loads.length = load.published := by
  rw [List.getLast?_eq_getElem?] at last
  cases length : loads.length with
  | zero => rw [List.length_eq_zero_iff.mp length] at last; cases last
  | succ n =>
    rw [length] at last
    rw [publishedAt, show n = n + 1 - 1 from rfl, last]
    rfl

/-- A field still to be written is of the load before the last, every other of the last. -/
structure Tracks (s : State) : Prop where
  order : s.pending = [] ∨ ∃ load, s.loads.getLast? = some load ∧ s.pending <:+ load.fields
  written : ∀ field ∉ s.pending, Agree s.latestPos (publishedAt s.loads s.loads.length) field
  unwritten : ∀ field ∈ s.pending,
    Agree s.latestPos (publishedAt s.loads (s.loads.length - 1)) field

theorem Load.nodup_fields (load : Load) : load.fields.Nodup := by
  cases load <;> simp [Load.fields]

theorem Tracks.nodup {s : State} (tracks : Tracks s) : s.pending.Nodup := by
  rcases tracks.order with none | ⟨load, _, suffix⟩
  · rw [none]
    exact List.nodup_nil
  · exact load.nodup_fields.sublist suffix.sublist

section Steps
variable {s t : State}

/-- Only the fields and the loads matter. -/
theorem Tracks.of_fields (tracks : Tracks s) (latestPos : t.latestPos = s.latestPos)
    (pending : t.pending = s.pending) (loads : t.loads = s.loads) : Tracks t := by
  obtain ⟨order, written, unwritten⟩ := tracks
  constructor
  · rwa [pending, loads]
  · rwa [pending, latestPos, loads]
  · rwa [pending, latestPos, loads]

theorem Tracks.update (tracks : Tracks s) (idle : s.pending = []) (load : Load) :
    Tracks { s with pending := load.fields, loads := s.loads ++ [load] } where
  order := .inr ⟨load, by simp, List.suffix_rfl⟩
  written := by
    intro field absent
    exact absurd (by cases load <;> cases field <;> simp [Load.fields]) absent
  unwritten := by
    intro field _
    dsimp only
    rw [List.length_append, List.length_singleton, Nat.add_sub_cancel,
      publishedAt_append (Nat.le_refl _)]
    exact tracks.written field (by rw [idle]; exact List.not_mem_nil)

theorem Tracks.write (tracks : Tracks s) {field : Field} {rest : List Field} {load : Load}
    (pending : s.pending = field :: rest) (last : s.loads.getLast? = some load) :
    Tracks { s with latestPos := assign s.latestPos load.published field, pending := rest } := by
  have nodup := tracks.nodup
  rw [pending, List.nodup_cons] at nodup
  constructor
  · rcases tracks.order with none | ⟨held, found, suffix⟩
    · rw [pending] at none
      cases none
    · rw [pending] at suffix
      exact .inr ⟨held, found, (List.suffix_cons field rest).trans suffix⟩
  · intro other absent
    dsimp only
    rw [publishedAt_length last]
    by_cases same : other = field
    · rw [same]
      exact agree_assign_self _ _ _
    · have before := tracks.written other (by simp [pending, same, absent])
      rw [publishedAt_length last] at before
      exact agree_assign_of_ne same before
  · intro other member
    have ne : other ≠ field := fun same => nodup.1 (same ▸ member)
    exact agree_assign_of_ne ne
      (tracks.unwritten other (by rw [pending]; exact List.mem_cons_of_mem _ member))

theorem Tracks.step {a : Action} (tracks : Tracks s) (taken : RegisterGate.step s a = some t) :
    Tracks t := by
  cases a with
  | setIsLeader isLeader =>
    cases taken
    exact tracks.of_fields rfl rfl rfl
  | update answers =>
    simp only [RegisterGate.step] at taken
    split at taken
    · rename_i idle
      split at taken <;> cases taken
      · exact tracks
      · exact tracks.update idle _
    · contradiction
  | write =>
    simp only [RegisterGate.step] at taken
    split at taken
    · rename_i pending last
      cases taken
      exact tracks.write pending last
    · contradiction
  | check =>
    obtain ⟨gate, _, rfl⟩ := Option.map_eq_some_iff.mp taken
    exact tracks.of_fields rfl rfl rfl

/-- How many loads the value of a field has gone through. -/
def State.age (s : State) (field : Field) : Nat :=
  if field ∈ s.pending then s.loads.length - 1 else s.loads.length

theorem Tracks.agree (tracks : Tracks s) (field : Field) :
    Agree s.latestPos (publishedAt s.loads (s.age field)) field := by
  unfold State.age
  split
  · rename_i pending
    exact tracks.unwritten field pending
  · rename_i written
    exact tracks.written field written

theorem age_bounds (s : State) (field : Field) :
    s.age field ≤ s.loads.length ∧ s.loads.length ≤ s.age field + 1 := by
  unfold State.age
  split <;> omega

/-- Nothing that was published is lost, and no field goes back to an earlier load. -/
structure Grows (s t : State) : Prop where
  length : s.loads.length ≤ t.loads.length
  kept : ∀ k ≤ s.loads.length, publishedAt t.loads k = publishedAt s.loads k
  age : ∀ field, s.age field ≤ t.age field

theorem Grows.of_fields (pending : t.pending = s.pending) (loads : t.loads = s.loads) :
    Grows s t := by
  refine ⟨?_, fun k _ => ?_, fun field => ?_⟩
  · rw [loads]
  · rw [loads]
  · simp [State.age, pending, loads]

theorem step_grows {a : Action} (taken : RegisterGate.step s a = some t) : Grows s t := by
  cases a with
  | setIsLeader isLeader =>
    cases taken
    exact .of_fields rfl rfl
  | update answers =>
    simp only [RegisterGate.step] at taken
    split at taken
    · split at taken <;> cases taken
      · exact .of_fields rfl rfl
      · refine ⟨by simp, fun k old => publishedAt_append old, fun field => ?_⟩
        refine (age_bounds s field).1.trans ?_
        unfold State.age
        split <;> simp
    · contradiction
  | write =>
    simp only [RegisterGate.step] at taken
    split at taken
    · rename_i field rest _ pending _
      cases taken
      refine ⟨Nat.le_refl _, fun _ _ => rfl, fun other => ?_⟩
      by_cases later : other ∈ rest
      · simp [State.age, pending, later]
      · refine (age_bounds s other).1.trans ?_
        simp [State.age, later]
    · contradiction
  | check =>
    obtain ⟨gate, _, rfl⟩ := Option.map_eq_some_iff.mp taken
    exact .of_fields rfl rfl

/-! ### The condition -/

/-- What the operands read so far say about the loads. -/
def Seen (s : State) : Prop :=
  match s.gate with
  | .leader | .io | .registers true => True
  | .sql => ∃ i ≤ s.age .sql, (publishedAt s.loads i).slaveIORunning = true
  | .behind => ∃ i j, i ≤ j ∧ j ≤ s.loads.length ∧
      (publishedAt s.loads i).slaveIORunning = true ∧
      (publishedAt s.loads j).slaveSQLRunning = true
  | .registers false => ∃ i j k, i ≤ j ∧ j ≤ k + 1 ∧ j ≤ s.loads.length ∧ k ≤ s.loads.length ∧
      (publishedAt s.loads i).slaveIORunning = true ∧
      (publishedAt s.loads j).slaveSQLRunning = true ∧
      (publishedAt s.loads k).secondsBehindMaster < 60

theorem Seen.grows (seen : Seen s) (gate : t.gate = s.gate) (grows : Grows s t) : Seen t := by
  have long := grows.length
  unfold Seen at seen ⊢
  rw [gate]
  split at seen
  · trivial
  · trivial
  · trivial
  · obtain ⟨i, fresh, io⟩ := seen
    have old := fresh.trans (age_bounds s .sql).1
    exact ⟨i, fresh.trans (grows.age .sql), by rwa [grows.kept i old]⟩
  · obtain ⟨i, j, order, old, io, sql⟩ := seen
    exact ⟨i, j, order, by omega, by rwa [grows.kept i (by omega)], by rwa [grows.kept j old]⟩
  · obtain ⟨i, j, k, order, next, oldJ, oldK, io, sql, behind⟩ := seen
    exact ⟨i, j, k, order, next, by omega, by omega, by rwa [grows.kept i (by omega)],
      by rwa [grows.kept j oldJ], by rwa [grows.kept k oldK]⟩

/-- A slave's load sets the SQL thread before the IO thread. -/
theorem io_pending_of_sql {pos : Position} {pending : List Field}
    (suffix : pending <:+ (Load.slave pos).fields) (sql : .sql ∈ pending) : .io ∈ pending := by
  simp only [Load.fields, List.suffix_cons_iff, List.suffix_nil] at suffix
  rcases suffix with rfl | rfl | rfl | rfl | rfl | rfl | rfl <;> simp_all

/-- An IO thread that is seen running is of no later load than the SQL thread. -/
theorem Tracks.io_le_sql (tracks : Tracks s) (io : s.latestPos.slaveIORunning = true) :
    s.age .io ≤ s.age .sql := by
  by_cases sql : Field.sql ∈ s.pending
  · rcases tracks.order with none | ⟨load, last, suffix⟩
    · rw [none] at sql
      cases sql
    · by_cases pending : Field.io ∈ s.pending
      · simp [State.age, pending, sql]
      · -- the value is of the last load, which is a slave's as its IO thread runs
        have value := tracks.written .io pending
        rw [publishedAt_length last] at value
        cases load with
        | master pos =>
          have stopped : s.latestPos.slaveIORunning = false := value
          rw [io] at stopped
          cases stopped
        | slave pos => exact absurd (io_pending_of_sql suffix sql) pending
  · have whole : s.age .sql = s.loads.length := by simp [State.age, sql]
    rw [whole]
    exact (age_bounds s .io).1

theorem Seen.check (seen : Seen s) (tracks : Tracks s) {gate : Gate}
    (checked : s.check = some gate) : Seen { s with gate := gate } := by
  unfold State.check at checked
  unfold Seen at seen ⊢
  cases position : s.gate with
  | leader =>
    rw [position] at checked
    cases checked
    by_cases leads : s.isLeader = true
    · rw [if_pos leads]
      trivial
    · rw [if_neg leads]
      trivial
  | io =>
    rw [position] at checked
    cases checked
    by_cases running : s.latestPos.slaveIORunning = true
    · have value : s.latestPos.slaveIORunning = _ := tracks.agree .io
      rw [if_pos running]
      exact ⟨s.age .io, tracks.io_le_sql running, value ▸ running⟩
    · rw [if_neg running]
      trivial
  | sql =>
    rw [position] at checked seen
    cases checked
    by_cases running : s.latestPos.slaveSQLRunning = true
    · have value : s.latestPos.slaveSQLRunning = _ := tracks.agree .sql
      obtain ⟨i, fresh, io⟩ := seen
      rw [if_pos running]
      exact ⟨i, s.age .sql, fresh, (age_bounds s .sql).1, io, value ▸ running⟩
    · rw [if_neg running]
      trivial
  | behind =>
    rw [position] at checked seen
    cases checked
    by_cases small : s.latestPos.secondsBehindMaster < 60
    · have value : s.latestPos.secondsBehindMaster = _ := tracks.agree .behind
      obtain ⟨i, j, order, old, io, sql⟩ := seen
      obtain ⟨upper, lower⟩ := age_bounds s .behind
      rw [if_pos small]
      exact ⟨i, j, s.age .behind, order, by omega, old, upper, io, sql, value ▸ small⟩
    · rw [if_neg small]
      trivial
  | registers asLeader =>
    rw [position] at checked
    cases checked

end Steps

theorem exists_load {loads : List Load} {n : Nat} (old : n ≤ loads.length)
    (loaded : publishedAt loads n ≠ init.latestPos) :
    ∃ i load, n = i + 1 ∧ loads[i]? = some load ∧ publishedAt loads n = load.published := by
  cases n with
  | zero => exact absurd rfl loaded
  | succ i =>
    have found : loads[i]? = some loads[i] := List.getElem?_eq_getElem old
    refine ⟨i, loads[i], rfl, found, ?_⟩
    rw [publishedAt, found]
    rfl

/-- A node that registers without leading has seen both threads running and a lag below the
bound, but not always in one load: the SQL thread is of the load of the IO thread or a later
one, and the lag may be of the load before that. -/
theorem registers_after_running_loads {s : State} (run : Run step (fun _ _ => True) init s)
    (registers : s.gate = .registers false) :
    ∃ i j k, i ≤ j ∧ j ≤ k + 1 ∧
      (∃ load, s.loads[i]? = some load ∧ load.published.slaveIORunning = true) ∧
      (∃ load, s.loads[j]? = some load ∧ load.published.slaveSQLRunning = true) ∧
      ∃ load, s.loads[k]? = some load ∧ load.published.secondsBehindMaster < 60 := by
  have invariant : Tracks s ∧ Seen s := by
    refine @Run.invariant _ _ _ _ _ _ (fun s => Tracks s ∧ Seen s) run ⟨?_, trivial⟩ ?_
    · exact ⟨.inl rfl, fun field _ => by cases field <;> rfl, fun _ member => by cases member⟩
    · intro before after a held _ taken
      refine ⟨held.1.step taken, ?_⟩
      cases a with
      | check =>
        obtain ⟨gate, checked, rfl⟩ := Option.map_eq_some_iff.mp taken
        exact held.2.check held.1 checked
      | setIsLeader | update | write =>
        refine held.2.grows ?_ (step_grows taken)
        simp only [step] at taken
        first
          | (cases taken; rfl)
          | ((repeat' split at taken) <;> cases taken <;> rfl)
  have seen := invariant.2
  unfold Seen at seen
  rw [registers] at seen
  obtain ⟨i, j, k, order, next, oldJ, oldK, io, sql, behind⟩ := seen
  obtain ⟨i, first, rfl, foundI, sameI⟩ := @exists_load s.loads i (by omega)
    (fun same => by rw [same] at io; cases io)
  obtain ⟨j, second, rfl, foundJ, sameJ⟩ := exists_load oldJ
    (fun same => by rw [same] at sql; cases sql)
  obtain ⟨k, third, rfl, foundK, sameK⟩ := exists_load oldK
    (fun same => by rw [same] at behind; revert behind; decide)
  exact ⟨i, j, k, by omega, by omega, ⟨first, foundI, sameI ▸ io⟩, ⟨second, foundJ, sameJ ▸ sql⟩,
    third, foundK, sameK ▸ behind⟩

/-- Two answers of a slave: while its IO thread connects the lag is null, and when it is
connected the slave turns out to be far behind. -/
def reconnects (io behind : String) : Answers where
  master := .failed
  slave := some fun column => ([("Relay_Master_Log_File", "ON.000001"), ("Slave_IO_Running", io),
    ("Slave_SQL_Running", "Yes"), ("Seconds_Behind_Master", behind)].lookup column).getD ""

/-- Two loads, and a check that reads between the stores of the second. -/
private def tornLoad : List Action :=
  [Action.update (reconnects "Connecting" "")] ++ List.replicate 6 Action.write ++
    [Action.update (reconnects "Yes" "5000")] ++ List.replicate 5 Action.write ++
    List.replicate 4 Action.check

/-- A node that is 5000 seconds behind registers, on the lag of the load before. -/
theorem registers_after_running_loads_torn :
    ∃ s, Run step (fun _ _ => True) init s ∧ s.gate = .registers false ∧
      s.loads.all (fun load => !(load.published.slaveIORunning &&
        decide (load.published.secondsBehindMaster < 60))) = true ∧
      ∃ i j k, i ≤ j ∧ j ≤ k + 1 ∧
        (∃ load, s.loads[i]? = some load ∧ load.published.slaveIORunning = true) ∧
        (∃ load, s.loads[j]? = some load ∧ load.published.slaveSQLRunning = true) ∧
        ∃ load, s.loads[k]? = some load ∧ load.published.secondsBehindMaster < 60 := by
  have ran : (exec (restrict step fun _ _ => true) init tornLoad).any
      (fun s => decide (s.gate = .registers false) &&
        s.loads.all (fun load => !(load.published.slaveIORunning &&
          decide (load.published.secondsBehindMaster < 60)))) = true := by
    decide +kernel
  obtain ⟨s, run, found⟩ := exists_run_of_exec (fun _ _ _ => trivial) ran
  obtain ⟨registers, behind⟩ := Bool.and_eq_true_iff.mp found
  have opened := of_decide_eq_true registers
  exact ⟨s, run, opened, behind, registers_after_running_loads run opened⟩

end Moha.RegisterGate
