import Moha.FallibleCalls
import Moha.GtidPosition
import Moha.PlannedSwitch
import Moha.TransactionLog
import Moha.Runs

/-! The planned switch of `moctl/switch.go` while the cluster goes on: clients write to the
master, its slaves apply its binlog, and `main` sends its requests and makes its checks in
between. `checkConsistency` reads the status of the master and of every slave one after the
other, each at a time of its own. What it compares is the status of the master as it was
read first, so a verdict says something about now only while the master takes no writes. -/
namespace Moha.SwitchHandover
open DecimalText FallibleCalls GtidPosition PlannedSwitch Runs TransactionLog

/-- The master: what it has executed, in the order of its binlog, with `none` for an event
without a transaction such as a rotation, and whether it refuses writes. -/
structure Master where
  uuid : ServerUUID
  binlog : List (Option Txn)
  readOnly : Bool

def transactions (events : List (Option Txn)) : List Txn := events.filterMap id

def Master.executed (m : Master) : List Txn := transactions m.binlog

/-- What a slave has executed that has applied so many events of the master. -/
def Master.executedBy (m : Master) (applied : Nat) : List Txn :=
  transactions (m.binlog.take applied)

/-- File and position behind each number of events of the master's binlog. -/
structure Coordinates where
  behind : Nat → String × UInt64
  distinct : Function.Injective behind
  named : ∀ events, (behind events).1 ≠ ""

/-- What `masterStatus` returns. -/
structure Status where
  binlogFileName : String
  binlogPos : UInt64
  masterGtid : String
  deriving DecidableEq, Repr

/-- A `checkConsistency` that is going on: the status has been read, or the loop is at the
slave with the given index. -/
inductive Reading where
  | status (status : Status)
  | slave (status : Status) (serverUUID : String) (intMasterGtid : Int64) (index : Nat)

/-- The cluster with the tool. A slave is the number of events that it has applied; `done`
and `todo` are the requests and checks of `main`, made and still to be made. -/
structure State where
  master : Master
  slaves : List Nat
  done : List Event
  todo : List Event
  reading : Option Reading

inductive Action where
  | write
  | rotate
  | apply (slave : Nat)
  | reopen
  | request (took : Bool)
  | masterStatus (rows : Rows)
  | serverUUID (rows : Rows)
  | slaveStatus (rows : Rows)
  deriving DecidableEq, Repr

/-- What a request does to the master. One that is not answered with a success may have taken
effect nevertheless. -/
def Master.receive (m : Master) (api : Api) (outcome : HttpOutcome) (took : Bool) : Master :=
  if outcome = .success ∨ took then { m with readOnly := api ≠ .setReadWrite } else m

/-- `switch.go::masterStatus`. Its error is dropped by `checkConsistency`. -/
def Master.status (coordinates : Coordinates) (m : Master) : Rows → Status
  | .failed => ⟨"nil", 9999, "nil"⟩
  | .lost => ⟨"", 0, ""⟩
  | .row =>
    let (file, pos) := coordinates.behind m.binlog.length
    ⟨file, pos, gtidText m.executed⟩

/-- The three columns of `switch.go::GetSlaveStatus` that are compared. -/
structure SlaveStatus where
  relayMasterLogFile : String
  execMasterLogPos : String
  executedGtidSet : String

def Master.slaveStatus (coordinates : Coordinates) (m : Master) (applied : Nat) : SlaveStatus :=
  let (file, pos) := coordinates.behind applied
  ⟨file, sprint pos, gtidText (m.executedBy applied)⟩

/-- The comparison in the loop of `switch.go::checkConsistency`. A set of the slave that does
not parse counts as position zero. -/
def approves (status : Status) (serverUUID : String) (intMasterGtid : Int64)
    (slave : SlaveStatus) : Bool :=
  let executedLasteGtid :=
    match moctlGetTxnIDFromGTIDStr slave.executedGtidSet serverUUID with
    | .ok position => position
    | .error _ => 0
  slave.relayMasterLogFile = status.binlogFileName &&
    slave.execMasterLogPos = sprint status.binlogPos && intMasterGtid - executedLasteGtid = 0

/-- The check is over with a result, and `main` goes on. -/
def State.finish (s : State) (result : Consistency) : Option State :=
  match s.todo with
  | .check expected :: rest =>
    if expected = result then
      some { s with done := s.done ++ [.check result], todo := rest, reading := none }
    else none
  | _ => none

/-- The head of the loop over the slaves. -/
def State.compare (s : State) (status : Status) (serverUUID : String) (intMasterGtid : Int64)
    (index : Nat) : Option State :=
  if index < s.slaves.length then
    some { s with reading := some (.slave status serverUUID intMasterGtid index) }
  else s.finish .consistent

def State.append (s : State) (event : Option Txn) : State :=
  { s with master := { s.master with binlog := s.master.binlog ++ [event] } }

/-- The next transaction of the master. -/
def Master.next (m : Master) : Txn := ⟨m.uuid, count m.uuid m.executed + 1⟩

/-- One step of the clients, of the replication or of the tool; `none` where it cannot be
taken. -/
def step (coordinates : Coordinates) (s : State) : Action → Option State
  | .write => if s.master.readOnly then none else some (s.append (some s.master.next))
  | .rotate => some (s.append none)
  | .apply slave =>
    match s.slaves[slave]? with
    | some applied =>
      if applied < s.master.binlog.length then
        some { s with slaves := s.slaves.set slave (applied + 1) }
      else none
    | none => none
  | .reopen => some { s with master := { s.master with readOnly := false } }
  | .request took =>
    match s.todo with
    | .request api outcome :: rest =>
      some { s with
        master := s.master.receive api outcome took
        done := s.done ++ [.request api outcome]
        todo := rest }
    | _ => none
  | .masterStatus rows =>
    match s.todo, s.reading with
    | .check _ :: _, none =>
      some { s with reading := some (.status (s.master.status coordinates rows)) }
    | _, _ => none
  | .serverUUID rows =>
    match s.reading with
    | some (.status status) =>
      if rows = .failed then s.finish .error
      else
        let serverUUID := if rows = .row then s.master.uuid.text else ""
        match moctlGetTxnIDFromGTIDStr status.masterGtid serverUUID with
        | .error _ => s.finish .error
        | .ok intMasterGtid => s.compare status serverUUID intMasterGtid 0
    | _ => none
  | .slaveStatus rows =>
    match s.reading with
    | some (.slave status serverUUID intMasterGtid index) =>
      match s.slaves[index]? with
      | some applied =>
        if rows = .failed then s.finish .error
        else
          let slave :=
            if rows = .row then s.master.slaveStatus coordinates applied else ⟨"", "", ""⟩
          if approves status serverUUID intMasterGtid slave then
            s.compare status serverUUID intMasterGtid (index + 1)
          else s.finish .inconsistent
      | none => none
    | _ => none

/-- Before `main` has sent anything: any master, with any slaves of it. -/
structure Starts (o : Outcomes) (s : State) : Prop where
  todo : s.todo = main o
  done : s.done = []
  reading : s.reading = none

/-- Nobody but the tool sets the master writable. -/
def Undisturbed (_ : State) (action : Action) : Prop := action ≠ .reopen

/-- The tool is about to ask the master to give up the leader key, or has asked it. -/
def State.Asks (s : State) : Prop :=
  ∃ outcome, .request .changeMaster outcome ∈ s.done ∨
    s.todo.head? = some (.request .changeMaster outcome)

/-- The tool has set the master read-only, and has not asked it to be writable again. -/
structure Held (done : List Event) : Prop where
  closed : .request .setReadOnly .success ∈ done
  kept : ∀ outcome, .request .setReadWrite outcome ∉ done

def State.Complete (s : State) : Prop :=
  ∀ applied ∈ s.slaves, s.master.executedBy applied = s.master.executed

/-! ### The order of `main` -/

theorem check_before_changeMaster_loop {setReadWrite outcome : HttpOutcome}
    {its : List Iteration} {before after : List Event}
    (split : loop setReadWrite its = before ++ .request .changeMaster outcome :: after) :
    .check .consistent ∈ before := by
  induction its generalizing before with
  | nil =>
    cases before with
    | nil => cases split
    | cons first before =>
      have rest := List.append_eq_nil_iff.mp (List.cons.inj split).2.symm
      cases rest.2
  | cons it rest ih =>
    cases before with
    | nil => cases split
    | cons first before =>
      obtain ⟨same, tail⟩ := List.cons.inj split
      subst same
      cases consistency : it.consistency with
      | consistent => exact List.mem_cons_self
      | inconsistent =>
        rw [consistency] at tail
        exact List.mem_cons_of_mem _ (ih tail)
      | error =>
        rw [consistency] at tail
        cases before with
        | nil => cases tail
        | cons second before =>
          have rest := List.append_eq_nil_iff.mp (List.cons.inj tail).2.symm
          cases rest.2

/-- Everything behind the first request comes from the rounds. -/
theorem split_main {o : Outcomes} {before after : List Event} {event : Event}
    (split : main o = before ++ event :: after) :
    before = [] ∧ event = .request .setReadOnly o.setReadOnly ∨
      ∃ rounds, before = .request .setReadOnly .success :: rounds ∧
        loop o.setReadWrite (List.ofFn o.iterations) = rounds ++ event :: after := by
  have nonempty : ([] : List Event) ≠ before ++ event :: after := by simp
  unfold main at split
  split at split
  · exact absurd split nonempty
  · split at split
    · cases before with
      | nil => exact .inl ⟨rfl, (List.cons.inj split).1.symm⟩
      | cons first rounds =>
        obtain ⟨same, tail⟩ := List.cons.inj split
        split at tail
        · rename_i readOnly
          rw [readOnly] at same
          exact .inr ⟨rounds, by rw [same], tail⟩
        · exact absurd tail (by simp)
    · exact absurd split nonempty

theorem closed_before_check {o : Outcomes} {before after : List Event} {result : Consistency}
    (split : main o = before ++ .check result :: after) :
    .request .setReadOnly .success ∈ before := by
  rcases split_main split with ⟨_, request⟩ | ⟨rounds, rfl, _⟩
  · cases request
  · exact List.mem_cons_self

theorem check_before_changeMaster {o : Outcomes} {before after : List Event}
    {outcome : HttpOutcome} (split : main o = before ++ .request .changeMaster outcome :: after) :
    .check .consistent ∈ before := by
  rcases split_main split with ⟨_, request⟩ | ⟨rounds, rfl, tail⟩
  · cases request
  · exact List.mem_cons_of_mem _ (check_before_changeMaster_loop tail)

/-! ### Events without a transaction -/

theorem transactions_append (first second : List (Option Txn)) :
    transactions (first ++ second) = transactions first ++ transactions second :=
  List.filterMap_append

/-- A slave has executed all if no transaction is behind the events that it has applied. -/
theorem executedBy_eq_iff {m : Master} {applied : Nat} :
    m.executedBy applied = m.executed ↔ transactions (m.binlog.drop applied) = [] := by
  have whole : m.executed =
      m.executedBy applied ++ transactions (m.binlog.drop applied) := by
    rw [Master.executed, Master.executedBy, ← transactions_append, List.take_append_drop]
  rw [whole]
  exact List.self_eq_append_right

theorem transactions_drop_of_le {events : List (Option Txn)} {read applied : Nat}
    (none : transactions (events.drop read) = []) (le : read ≤ applied) :
    transactions (events.drop applied) = [] := by
  have later : events.drop applied = (events.drop read).drop (applied - read) := by
    rw [List.drop_drop, Nat.add_sub_cancel' le]
  rw [transactions, List.filterMap_eq_nil_iff] at none ⊢
  rw [later]
  exact fun event member => none event (List.mem_of_mem_drop member)

theorem transactions_drop_rotated (events : List (Option Txn)) (read : Nat) :
    transactions ((events ++ [none]).drop read) = transactions (events.drop read) := by
  have rotation : transactions (([none] : List (Option Txn)).drop (read - events.length)) = [] := by
    rw [transactions, List.filterMap_eq_nil_iff]
    intro event member
    rw [List.mem_singleton.mp (List.mem_of_mem_drop member)]
    rfl
  rw [List.drop_append, transactions_append, rotation, List.append_nil]

/-! ### What the tool knows -/

variable {coordinates : Coordinates} {o : Outcomes} {s s' : State}

/-- The status was read when no transaction was to come any more, and the slaves before the
index have been found to have applied what it covers. -/
def State.Dated (coordinates : Coordinates) (s : State) (status : Status) (index : Nat) : Prop :=
  ∃ read, transactions (s.master.binlog.drop read) = [] ∧
    (∀ i < index, ∀ applied, s.slaves[i]? = some applied → read ≤ applied) ∧
    (status.binlogFileName = "" ∨
      (status.binlogFileName, status.binlogPos) = coordinates.behind read)

/-- A failed query for the status leaves a text that is not a GTID set. -/
def State.Sees (coordinates : Coordinates) (s : State) : Prop :=
  match s.reading with
  | none => True
  | some (.status status) => status.masterGtid = "nil" ∨ s.Dated coordinates status 0
  | some (.slave status _ _ index) => s.Dated coordinates status index

/-- The facts that every step keeps while the master is held. -/
structure Tracks (coordinates : Coordinates) (o : Outcomes) (s : State) : Prop where
  trace : main o = s.done ++ s.todo
  checking : s.reading ≠ none → ∃ result rest, s.todo = .check result :: rest
  closed : Held s.done → s.master.readOnly = true
  sees : Held s.done → s.Sees coordinates
  complete : Held s.done → .check .consistent ∈ s.done → s.Complete

theorem Tracks.held_of_check {result : Consistency} (tracks : Tracks coordinates o s)
    (member : .check result ∈ s.done) : .request .setReadOnly .success ∈ s.done := by
  obtain ⟨before, after, split⟩ := List.append_of_mem member
  have order : main o = before ++ .check result :: (after ++ s.todo) := by
    rw [tracks.trace, split, List.append_assoc, List.cons_append]
  rw [split]
  exact List.mem_append_left _ (closed_before_check order)

theorem tracks_of_starts (starts : Starts o s) : Tracks coordinates o s where
  trace := by rw [starts.done, starts.todo, List.nil_append]
  checking := fun reading => absurd starts.reading reading
  closed := fun held => by
    have member := held.closed
    rw [starts.done] at member
    cases member
  sees := fun _ => by simp only [State.Sees, starts.reading]
  complete := fun _ member => by
    rw [starts.done] at member
    cases member

theorem finish_eq {result : Consistency} (finished : s.finish result = some s') :
    ∃ rest, s.todo = .check result :: rest ∧
      s' = { s with done := s.done ++ [.check result], todo := rest, reading := none } := by
  unfold State.finish at finished
  split at finished
  · rename_i expected rest head
    split at finished
    · rename_i same
      subst same
      cases finished
      exact ⟨rest, head, rfl⟩
    · cases finished
  · cases finished

/-- A check that is over leaves the master as held as it was. -/
theorem Held.of_check {done : List Event} {result : Consistency}
    (held : Held (done ++ [.check result])) : Held done where
  closed := by simpa using held.closed
  kept := fun outcome => by simpa using held.kept outcome

theorem Tracks.finish {result : Consistency} (tracks : Tracks coordinates o s)
    (found : Held s.done → result = .consistent → s.Complete)
    (finished : s.finish result = some s') : Tracks coordinates o s' := by
  obtain ⟨rest, head, rfl⟩ := finish_eq finished
  refine ⟨?_, ?_, ?_, ?_, ?_⟩
  · rw [tracks.trace, head, List.append_assoc, List.singleton_append]
  · exact fun reading => absurd rfl reading
  · exact fun held => tracks.closed held.of_check
  · exact fun _ => trivial
  · intro held member
    rcases List.mem_append.mp member with earlier | now
    · exact tracks.complete held.of_check earlier
    · cases List.mem_singleton.mp now
      exact found held.of_check rfl

theorem Tracks.finish_other {result : Consistency} (tracks : Tracks coordinates o s)
    (other : result ≠ .consistent) (finished : s.finish result = some s') :
    Tracks coordinates o s' :=
  tracks.finish (fun _ same => absurd same other) finished

theorem State.Dated.complete {status : Status} {index : Nat}
    (dated : s.Dated coordinates status index) (all : s.slaves.length ≤ index) : s.Complete := by
  obtain ⟨read, still, reached, _⟩ := dated
  intro applied member
  obtain ⟨i, within, rfl⟩ := List.mem_iff_getElem.mp member
  have le := reached i (by omega) _ (List.getElem?_eq_getElem within)
  exact executedBy_eq_iff.mpr (transactions_drop_of_le still le)

theorem State.Sees.of_dated (sees : s.Sees coordinates) (same : s'.reading = s.reading)
    (dated : ∀ {status index}, s.Dated coordinates status index →
      s'.Dated coordinates status index) : s'.Sees coordinates := by
  unfold State.Sees at sees ⊢
  rw [same]
  split
  · trivial
  · rename_i reading
    simp only [reading] at sees
    exact sees.imp_right dated
  · rename_i reading
    simp only [reading] at sees
    exact dated sees

theorem Tracks.compare {status : Status} {serverUUID : String} {position : Int64} {index : Nat}
    (tracks : Tracks coordinates o s) (reading : s.reading ≠ none)
    (dated : Held s.done → s.Dated coordinates status index)
    (compared : s.compare status serverUUID position index = some s') :
    Tracks coordinates o s' := by
  unfold State.compare at compared
  split at compared
  · cases compared
    exact { tracks with checking := fun _ => tracks.checking reading, sees := dated }
  · rename_i all
    exact tracks.finish (fun held _ => (dated held).complete (Nat.le_of_not_lt all)) compared

/-! ### The steps -/

theorem Tracks.append {event : Option Txn} (tracks : Tracks coordinates o s)
    (still : Held s.done → event = none) : Tracks coordinates o (s.append event) where
  trace := tracks.trace
  checking := tracks.checking
  closed := tracks.closed
  sees := fun held => by
    cases still held
    refine (tracks.sees held).of_dated rfl ?_
    rintro status index ⟨read, none, reached, named⟩
    exact ⟨read, (transactions_drop_rotated _ _).trans none, reached, named⟩
  complete := fun held member applied slave => by
    cases still held
    have complete := tracks.complete held member applied slave
    rw [executedBy_eq_iff] at complete ⊢
    exact (transactions_drop_rotated _ _).trans complete

theorem Tracks.write (tracks : Tracks coordinates o s)
    (taken : step coordinates s .write = some s') : Tracks coordinates o s' := by
  simp only [step] at taken
  split at taken
  · cases taken
  · rename_i writable
    cases taken
    exact tracks.append fun held => absurd (tracks.closed held) writable

/-- A slave only gets on. -/
theorem Tracks.apply {slave : Nat} (tracks : Tracks coordinates o s)
    (taken : step coordinates s (.apply slave) = some s') : Tracks coordinates o s' := by
  simp only [step] at taken
  split at taken
  · rename_i applied held
    split at taken
    · cases taken
      refine { tracks with sees := fun closed => ?_, complete := fun closed member now found => ?_ }
      · refine (tracks.sees closed).of_dated rfl ?_
        rintro status index ⟨read, still, reached, named⟩
        refine ⟨read, still, fun i before now found => ?_, named⟩
        rcases eq_or_ne slave i with rfl | other
        · have old := reached slave before applied held
          rw [List.getElem?_set_self (List.getElem?_eq_some_iff.mp held).1] at found
          cases found
          omega
        · rw [List.getElem?_set_ne other] at found
          exact reached i before now found
      · have complete := tracks.complete closed member
        rcases List.mem_or_eq_of_mem_set found with old | rfl
        · exact complete now old
        · have before := executedBy_eq_iff.mp (complete applied (List.mem_of_getElem? held))
          exact executedBy_eq_iff.mpr (transactions_drop_of_le before (Nat.le_succ applied))
    · cases taken
  · cases taken

theorem Master.receive_readOnly {m : Master} {api : Api} {outcome : HttpOutcome} {took : Bool}
    (keeps : api ≠ .setReadWrite)
    (closed : api = .setReadOnly ∧ outcome = .success ∨ m.readOnly = true) :
    (m.receive api outcome took).readOnly = true := by
  unfold Master.receive
  split
  · simpa using keeps
  · rename_i untouched
    rcases closed with ⟨_, success⟩ | closed
    · exact absurd (.inl success) untouched
    · exact closed

/-- No request but `setReadWrite` lets the master go. -/
theorem Tracks.request {took : Bool} (tracks : Tracks coordinates o s)
    (taken : step coordinates s (.request took) = some s') : Tracks coordinates o s' := by
  simp only [step] at taken
  split at taken
  · rename_i api outcome rest head
    cases taken
    have idle : s.reading = none := by
      by_contra reading
      obtain ⟨_, _, check⟩ := tracks.checking reading
      rw [head] at check
      cases check
    have before : Held (s.done ++ [.request api outcome]) →
        api ≠ .setReadWrite ∧ (api = .setReadOnly ∧ outcome = .success ∨ Held s.done) := by
      intro held
      have kept : ∀ outcome, .request .setReadWrite outcome ∉ s.done := fun outcome member =>
        held.kept outcome (List.mem_append_left _ member)
      refine ⟨?_, ?_⟩
      · rintro rfl
        exact held.kept outcome (List.mem_append_right _ List.mem_cons_self)
      · rcases List.mem_append.mp held.closed with earlier | now
        · exact .inr ⟨earlier, kept⟩
        · cases List.mem_singleton.mp now
          exact .inl ⟨rfl, rfl⟩
    refine ⟨?_, ?_, ?_, ?_, ?_⟩
    · rw [tracks.trace, head, List.append_assoc, List.singleton_append]
    · exact fun reading => absurd idle reading
    · intro held
      exact Master.receive_readOnly (before held).1 ((before held).2.imp_right tracks.closed)
    · intro held
      simp only [State.Sees, idle]
    · intro held member
      have earlier : .check .consistent ∈ s.done := by simpa using member
      have kept : Held s.done := ⟨tracks.held_of_check earlier, fun outcome found =>
        held.kept outcome (List.mem_append_left _ found)⟩
      have complete := tracks.complete kept earlier
      intro applied slave
      have same : (s.master.receive api outcome took).binlog = s.master.binlog := by
        unfold Master.receive
        split <;> rfl
      simp only [Master.executedBy, Master.executed, same]
      exact complete applied slave
  · cases taken

theorem Tracks.masterStatus {rows : Rows} (tracks : Tracks coordinates o s)
    (taken : step coordinates s (.masterStatus rows) = some s') : Tracks coordinates o s' := by
  simp only [step] at taken
  split at taken
  · rename_i result rest head idle
    cases taken
    refine { tracks with checking := fun _ => ⟨result, rest, head⟩, sees := fun _ => ?_ }
    have still : transactions (s.master.binlog.drop s.master.binlog.length) = [] := by
      rw [List.drop_length]
      rfl
    cases rows with
    | failed => exact .inl rfl
    | lost => exact .inr ⟨_, still, fun i before => absurd before (Nat.not_lt_zero i), .inl rfl⟩
    | row => exact .inr ⟨_, still, fun i before => absurd before (Nat.not_lt_zero i), .inr rfl⟩
  · cases taken

theorem Tracks.serverUUID {rows : Rows} (tracks : Tracks coordinates o s)
    (taken : step coordinates s (.serverUUID rows) = some s') : Tracks coordinates o s' := by
  simp only [step] at taken
  split at taken
  · rename_i status reading
    split at taken
    · exact tracks.finish_other (by decide) taken
    · split at taken
      · exact tracks.finish_other (by decide) taken
      · rename_i position parsed
        refine tracks.compare (by simp [reading]) (fun held => ?_) taken
        have sees := tracks.sees held
        simp only [State.Sees, reading] at sees
        rcases sees with unread | dated
        · have unparsable : ∀ uuid, moctlGetTxnIDFromGTIDStr "nil" uuid = .error .unparsable := by
            have text : GtidText.parseMysqlGTIDSet "nil" = none := by decide
            intro uuid
            rw [moctlGetTxnIDFromGTIDStr, text]
          rw [unread, unparsable] at parsed
          cases parsed
        · exact dated
  · cases taken

/-- A slave that is approved has applied what the status covers. -/
theorem State.Dated.approves {status : Status} {serverUUID : String} {position : Int64}
    {index applied : Nat} {rows : Rows} (dated : s.Dated coordinates status index)
    (found : s.slaves[index]? = some applied)
    (approved : approves status serverUUID position
      (if rows = .row then s.master.slaveStatus coordinates applied else ⟨"", "", ""⟩) = true) :
    s.Dated coordinates status (index + 1) := by
  obtain ⟨read, still, reached, covers⟩ := dated
  simp only [SwitchHandover.approves, Bool.and_eq_true, decide_eq_true_eq] at approved
  obtain ⟨⟨sameFile, samePos⟩, _⟩ := approved
  have row : rows = .row := by
    by_contra lost
    rw [if_neg lost] at samePos
    have digits : parseUint "" = some status.binlogPos := by
      rw [← parseUint_sprint status.binlogPos]
      exact congrArg parseUint samePos
    have none : parseUint "" = none := by decide
    rw [none] at digits
    cases digits
  rw [if_pos row] at sameFile samePos
  have covered : coordinates.behind applied = coordinates.behind read := by
    rcases covers with unnamed | covers
    · exact absurd (sameFile.trans unnamed) (coordinates.named applied)
    · rw [← covers]
      exact Prod.ext sameFile (sprint_injective samePos)
  refine ⟨read, still, fun i before now slave => ?_, covers⟩
  rcases Nat.lt_or_ge i index with earlier | last
  · exact reached i earlier now slave
  · have here : i = index := by omega
    subst here
    rw [found] at slave
    cases slave
    exact (coordinates.distinct covered).ge

theorem Tracks.slaveStatus {rows : Rows} (tracks : Tracks coordinates o s)
    (taken : step coordinates s (.slaveStatus rows) = some s') : Tracks coordinates o s' := by
  simp only [step] at taken
  split at taken
  · rename_i status serverUUID position index reading
    split at taken
    · rename_i applied found
      by_cases failed : rows = .failed
      · rw [if_pos failed] at taken
        exact tracks.finish_other (by decide) taken
      · rw [if_neg failed] at taken
        by_cases approved : approves status serverUUID position
            (if rows = .row then s.master.slaveStatus coordinates applied else ⟨"", "", ""⟩) = true
        · rw [if_pos approved] at taken
          refine tracks.compare (by simp [reading]) (fun held => ?_) taken
          have sees := tracks.sees held
          simp only [State.Sees, reading] at sees
          exact sees.approves found approved
        · rw [if_neg approved] at taken
          exact tracks.finish_other (by decide) taken
    · cases taken
  · cases taken

theorem Tracks.step {action : Action} (tracks : Tracks coordinates o s)
    (undisturbed : Undisturbed s action) (taken : step coordinates s action = some s') :
    Tracks coordinates o s' := by
  cases action with
  | write => exact tracks.write taken
  | rotate =>
    cases taken
    exact tracks.append fun _ => rfl
  | apply slave => exact tracks.apply taken
  | reopen => exact absurd rfl undisturbed
  | request took => exact tracks.request taken
  | masterStatus rows => exact tracks.masterStatus taken
  | serverUUID rows => exact tracks.serverUUID taken
  | slaveStatus rows => exact tracks.slaveStatus taken

/-- The switch loses no transaction: when the tool asks the master to give up the leader key,
and from then on, the master takes no writes and every slave has executed all that it has,
unless the tool has asked it to be writable again in between. -/
theorem planned_switch_loses_nothing {start : State} (starts : Starts o start)
    (run : Run (step coordinates) Undisturbed start s) (asks : s.Asks)
    (kept : ∀ outcome, .request .setReadWrite outcome ∉ s.done) :
    s.master.readOnly = true ∧
      ∀ applied ∈ s.slaves, s.master.executedBy applied = s.master.executed := by
  have tracks : Tracks coordinates o s :=
    run.invariant (tracks_of_starts starts) fun tracks allowed taken => tracks.step allowed taken
  have checked : .check .consistent ∈ s.done := by
    obtain ⟨outcome, asked | next⟩ := asks
    · obtain ⟨before, after, split⟩ := List.append_of_mem asked
      have order : main o = before ++ .request .changeMaster outcome :: (after ++ s.todo) := by
        rw [tracks.trace, split, List.append_assoc, List.cons_append]
      rw [split]
      exact List.mem_append_left _ (check_before_changeMaster order)
    · obtain ⟨rest, head⟩ := List.head?_eq_some_iff.mp next
      exact check_before_changeMaster (head ▸ tracks.trace)
  have held : Held s.done := ⟨tracks.held_of_check checked, kept⟩
  exact ⟨tracks.closed held, tracks.complete held checked⟩

/-- A binlog that is rotated behind every event. -/
def sampleCoordinates : Coordinates where
  behind := fun events => (String.ofList ("mysql-bin.".toList ++ Nat.toDigits 10 events), 154)
  distinct := by
    intro first second same
    have files := congrArg String.toList (Prod.ext_iff.mp same).1
    simp only [String.toList_ofList] at files
    have values := congrArg digitsValue (List.append_cancel_left files)
    rw [digitsValue_toDigits, digitsValue_toDigits] at values
    exact Option.some.inj values
  named := by
    intro events empty
    have text := congrArg String.toList empty
    rw [String.toList_ofList] at text
    exact absurd text (by simp)

/-- A master that has executed one transaction, with a slave that has not. -/
def sampleState (its : Fin 10 → Iteration) : State where
  master := ⟨⟨"3e11fa47-71ca-11e1-9e33-c80aa9429562", by decide⟩, [none, some
    ⟨⟨"3e11fa47-71ca-11e1-9e33-c80aa9429562", by decide⟩, 1⟩], false⟩
  slaves := [1]
  done := []
  todo := main ⟨false, true, .success, its, .success⟩
  reading := none

def undisturbed (_ : State) (action : Action) : Bool := action ≠ .reopen

/-- A check round with one slave. -/
def checkRound : List Action := [.masterStatus .row, .serverUUID .row, .slaveStatus .row]

/-- A write, and two rounds of the check with the replication between them. -/
def secondRound : List Action :=
  [Action.write, .request false] ++ checkRound ++ [Action.apply 0, .apply 0] ++ checkRound

/-- A round, a `changeMaster` that fails, and a write after the next round. -/
def reopenedRound : List Action :=
  [Action.apply 0, .request false] ++ checkRound ++ [Action.request false, .request true] ++
    checkRound ++ [Action.write]

def asksReadWrite : Event → Bool
  | .request .setReadWrite _ => true
  | _ => false

/-- The second round finds the slave consistent, after a write that came before the master
was set read-only. -/
theorem planned_switch_loses_nothing_in_second_round :
    let its : Fin 10 → Iteration := fun i =>
      if i = 0 then ⟨.inconsistent, .failure, .failure⟩ else ⟨.consistent, .success, .failure⟩
    ∃ s, Run (step sampleCoordinates) Undisturbed (sampleState its) s ∧
      s.todo.head? = some (.request .changeMaster .success) ∧ s.slaves = [3] ∧
      s.master.readOnly = true ∧
      ∀ applied ∈ s.slaves, s.master.executedBy applied = s.master.executed := by
  intro its
  have ran : (exec (restrict (step sampleCoordinates) undisturbed) (sampleState its)
      secondRound).any
      (fun s => decide (s.todo.head? = some (.request .changeMaster .success)) &&
        decide (s.slaves = [3]) && s.done.all fun event => !asksReadWrite event) = true := by
    decide +kernel
  obtain ⟨s, run, found⟩ := exists_run_of_exec
    (fun _ action allowed => of_decide_eq_true allowed) ran
  obtain ⟨⟨asks, slaves⟩, kept⟩ := (Bool.and_eq_true_iff.mp found).imp_left Bool.and_eq_true_iff.mp
  have next := of_decide_eq_true asks
  have starts : Starts ⟨false, true, .success, its, .success⟩ (sampleState its) := ⟨rfl, rfl, rfl⟩
  refine ⟨s, run, next, of_decide_eq_true slaves,
    planned_switch_loses_nothing starts run ⟨_, .inr next⟩ fun outcome member => ?_⟩
  exact absurd (List.all_eq_true.mp kept _ member) (by simp [asksReadWrite])

/-- The exception is real: a `changeMaster` that fails has the master set writable again, the
next round finds the slave consistent, and a write comes before the next `changeMaster`. -/
theorem reopened_switch_loses_transaction :
    ∃ s, Run (step sampleCoordinates) Undisturbed
        (sampleState fun _ => ⟨.consistent, .failure, .success⟩) s ∧
      s.todo.head? = some (.request .changeMaster .failure) ∧
      ∃ applied ∈ s.slaves, s.master.executedBy applied ≠ s.master.executed := by
  have ran : (exec (restrict (step sampleCoordinates) undisturbed)
      (sampleState fun _ => ⟨.consistent, .failure, .success⟩) reopenedRound).any
      (fun s => decide (s.todo.head? = some (.request .changeMaster .failure)) &&
        s.slaves.any fun applied => decide (s.master.executedBy applied ≠ s.master.executed)) =
      true := by
    decide +kernel
  obtain ⟨s, run, found⟩ := exists_run_of_exec
    (fun _ action allowed => of_decide_eq_true allowed) ran
  obtain ⟨next, lacks⟩ := Bool.and_eq_true_iff.mp found
  obtain ⟨applied, slave, lacking⟩ := List.any_eq_true.mp lacks
  exact ⟨s, run, of_decide_eq_true next, applied, slave, of_decide_eq_true lacking⟩

end Moha.SwitchHandover
