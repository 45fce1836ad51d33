import Moha.ServiceDeath
import Mathlib.Algebra.Group.Int.Defs
import Mathlib.Algebra.Group.Nat.Defs

/-! The eventfd that the agent, `service-boot` and the supervisor share. The agent
adds 1 for each heartbeat (`server.go::writeFD`),
`cmd/mysql-agent-service-boot/main.go` adds the pid of the service shifted by 32
bits, and `detect_child_alive` takes the sum and leaves 0. epoll reports the eventfd
only while its counter is not 0. The eventfd does not block: a write that the counter
cannot hold fails, and neither writer looks at the error. -/
namespace Moha.ServicePid
open Supervise ServiceDeath Runs

/-- `binary.LittleEndian.PutUint64`. -/
def putUint64 (value : BitVec 64) : List (BitVec 8) :=
  [0, 8, 16, 24, 32, 40, 48, 56].map fun shift => (value >>> shift).setWidth 8

/-- The value of eight bytes in the order of the machine, which is little-endian. -/
def valueOf (bytes : List (BitVec 8)) : Nat :=
  bytes.foldr (fun byte rest => byte.toNat + 256 * rest) 0

/-- `systemcall.WriteToEventfd`: the counter after the write. The largest value is
refused, and so is a sum above the one before it. -/
@[irreducible] def writeToEventfd (counter value : BitVec 64) : BitVec 64 :=
  let added := valueOf (putUint64 value)
  if added = 2 ^ 64 - 1 ∨ 2 ^ 64 - 2 < counter.toNat + added then counter
  else BitVec.ofNat 64 (counter.toNat + added)

/-- `ForkExec` returns the pid of the service, or 0 and an error that is only logged. -/
inductive Event where
  | writeFD
  | serviceBoot (forked : Option Int)
  | read
  deriving DecidableEq, Repr

/-- The counter, `_servicepid`, and the events so far, last first. -/
structure State where
  counter : BitVec 64 := 0
  servicepid : Int := 0
  history : List Event := []
  deriving Repr

/-- `service-boot`'s `uint64(cpid)<<32`. -/
def bootValue (forked : Option Int) : BitVec 64 := BitVec.ofInt 64 (forked.getD 0) <<< 32

/-- `detect_child_alive`, as far as the eventfd goes. -/
def detectChildAlive (s : State) : State :=
  if s.counter = 0 then s
  else { s with counter := 0, servicepid := heartbeat s.servicepid s.counter }

/-- Every event can happen at any time. -/
def step (s : State) (e : Event) : Option State :=
  match e with
  | .writeFD => some { s with counter := writeToEventfd s.counter 1, history := e :: s.history }
  | .serviceBoot forked =>
    let counter := writeToEventfd s.counter (bootValue forked)
    some { s with counter, history := e :: s.history }
  | .read => some { detectChildAlive s with history := e :: s.history }

/-- The pid that was written last, 0 if none was. -/
def lastPid : List Event → Int
  | [] => 0
  | .serviceBoot (some pid) :: _ => pid
  | _ :: before => lastPid before

/-- The events since the last read. -/
def stretch (history : List Event) : List Event := history.takeWhile (· ≠ .read)

def pidWrites (events : List Event) : Nat :=
  events.countP fun e => match e with | .serviceBoot (some _) => true | _ => false

/-- Pids are positive ints, and between two reads lie at most one of them and fewer
than 2³² heartbeats. -/
def Spaced (s : State) : Event → Prop
  | .writeFD => True
  | .serviceBoot forked => ∀ pid ∈ forked, 0 < pid ∧ pid < 2 ^ 31
  | .read => pidWrites (stretch s.history) ≤ 1 ∧ (stretch s.history).count .writeFD < 2 ^ 32

/-! ### The sum -/

theorem valueOf_putUint64 (value : BitVec 64) : valueOf (putUint64 value) = value.toNat := by
  have bound := value.isLt
  simp only [valueOf, putUint64, List.map_cons, List.map_nil, List.foldr_cons, List.foldr_nil,
    BitVec.toNat_setWidth, BitVec.toNat_ushiftRight, Nat.shiftRight_eq_div_pow]
  omega

theorem toNat_writeToEventfd {counter value : BitVec 64}
    (fits : counter.toNat + value.toNat ≤ 2 ^ 64 - 2) :
    (writeToEventfd counter value).toNat = counter.toNat + value.toNat := by
  have accepted : ¬ (value.toNat = 2 ^ 64 - 1 ∨ 2 ^ 64 - 2 < counter.toNat + value.toNat) := by
    omega
  rw [writeToEventfd, valueOf_putUint64, if_neg accepted, BitVec.toNat_ofNat]
  exact Nat.mod_eq_of_lt (by omega)

theorem toNat_bootValue {pid : Int} (positive : 0 < pid) (small : pid < 2 ^ 31) :
    (bootValue (some pid)).toNat = pid.toNat * 2 ^ 32 := by
  obtain ⟨n, rfl⟩ := Int.eq_ofNat_of_zero_le (Int.le_of_lt positive)
  have bound : n < 2 ^ 31 := by omega
  rw [bootValue, Option.getD_some, BitVec.toNat_shiftLeft, BitVec.ofInt_natCast,
    BitVec.toNat_ofNat, Nat.shiftLeft_eq, Int.toNat_natCast]
  omega

/-- The upper half of the sum is the pid, and the heartbeats do not reach it. -/
theorem heartbeat_of_sum {servicepid : Int} {val : BitVec 64} {pid beats : Nat}
    (sum : val.toNat = pid * 2 ^ 32 + beats) (small : pid < 2 ^ 31) (few : beats < 2 ^ 32) :
    heartbeat servicepid val = if 0 < pid then (pid : Int) else servicepid := by
  have upper : ((val >>> 32).setWidth 32).toNat = pid := by
    rw [BitVec.toNat_setWidth, BitVec.toNat_ushiftRight, Nat.shiftRight_eq_div_pow, sum]
    omega
  have spid : ((val >>> 32).setWidth 32).toInt = pid := by
    rw [BitVec.toInt_eq_toNat_of_lt (by omega), upper]
  unfold heartbeat
  split
  · simp [spid]
  · rename_i low
    have none : pid = 0 := by omega
    simp [none]

/-! ### What the counter holds between two reads -/

/-- The counter is the sum of a stretch that a read may end. The last pid is the one of
the stretch, if it has one, or else `_servicepid`, the last of those that were read. -/
structure Sums (s : State) : Prop where
  counter : pidWrites (stretch s.history) ≤ 1 → (stretch s.history).count .writeFD < 2 ^ 32 →
    s.counter.toNat =
      (lastPid (stretch s.history)).toNat * 2 ^ 32 + (stretch s.history).count .writeFD
  pid : 0 ≤ lastPid (stretch s.history) ∧ lastPid (stretch s.history) < 2 ^ 31
  last : lastPid s.history =
    if 0 < lastPid (stretch s.history) then lastPid (stretch s.history) else s.servicepid
  read : s.servicepid = lastPid (s.history.dropWhile (· ≠ .read))

theorem sums_init : Sums {} := ⟨fun _ _ => rfl, by decide, rfl, rfl⟩

theorem lastPid_eq_zero {events : List Event} (unwritten : pidWrites events = 0) :
    lastPid events = 0 := by
  induction events with
  | nil => rfl
  | cons e before ih =>
    match e with
    | .serviceBoot (some pid) => simp [pidWrites] at unwritten
    | .serviceBoot none | .writeFD | .read => exact ih (by simpa [pidWrites] using unwritten)

/-- What a read leaves in `_servicepid`. -/
theorem servicepid_detectChildAlive {s : State} (sums : Sums s) (spaced : Spaced s .read) :
    (detectChildAlive s).servicepid = lastPid s.history := by
  obtain ⟨one, few⟩ := spaced
  have sum := sums.counter one few
  obtain ⟨positive, small⟩ := sums.pid
  rw [sums.last]
  unfold detectChildAlive
  split
  · rename_i empty
    have zero : s.counter.toNat = 0 := by simp [empty]
    rw [if_neg (by omega)]
  · obtain ⟨pid, read⟩ := Int.eq_ofNat_of_zero_le positive
    rw [read, Int.toNat_natCast] at sum
    rw [read] at small ⊢
    rw [heartbeat_of_sum sum (by omega) few]
    simp only [Int.natCast_pos]

theorem sums_step {s s' : State} {e : Event} (sums : Sums s) (spaced : Spaced s e)
    (taken : step s e = some s') : Sums s' := by
  have small := sums.pid.2
  match e with
  | .writeFD =>
    simp only [step, Option.some.injEq] at taken
    subst taken
    refine ⟨fun one few => ?_, sums.pid, sums.last, sums.read⟩
    have more : (stretch (.writeFD :: s.history)).count .writeFD =
        (stretch s.history).count .writeFD + 1 := List.count_cons_self
    have same : lastPid (stretch (.writeFD :: s.history)) = lastPid (stretch s.history) := rfl
    have unit : (1 : BitVec 64).toNat = 1 := rfl
    rw [more] at few ⊢
    have sum := sums.counter (by simpa [stretch, pidWrites] using one) (by omega)
    rw [same, toNat_writeToEventfd (by omega)]
    omega
  | .serviceBoot none =>
    simp only [step, Option.some.injEq] at taken
    subst taken
    refine ⟨fun one few => ?_, sums.pid, sums.last, sums.read⟩
    have same : (stretch (.serviceBoot none :: s.history)).count .writeFD =
        (stretch s.history).count .writeFD := by simp [stretch]
    have nothing : (bootValue none).toNat = 0 := by decide
    rw [same] at few ⊢
    have sum := sums.counter (by simpa [stretch, pidWrites] using one) few
    have last : lastPid (stretch (.serviceBoot none :: s.history)) = lastPid (stretch s.history) :=
      rfl
    rw [last, toNat_writeToEventfd (by omega)]
    omega
  | .serviceBoot (some pid) =>
    simp only [step, Option.some.injEq] at taken
    subst taken
    obtain ⟨positive, bounded⟩ := spaced pid rfl
    have last : lastPid (stretch (.serviceBoot (some pid) :: s.history)) = pid := rfl
    refine ⟨fun one few => ?_, ?_, ?_, sums.read⟩
    · have same : (stretch (.serviceBoot (some pid) :: s.history)).count .writeFD =
          (stretch s.history).count .writeFD := by simp [stretch]
      have unwritten : pidWrites (stretch s.history) = 0 := by
        simpa [stretch, pidWrites] using one
      rw [same] at few ⊢
      have sum := sums.counter (by omega) few
      rw [lastPid_eq_zero unwritten, Int.toNat_zero, Nat.zero_mul, Nat.zero_add] at sum
      have value := toNat_bootValue positive bounded
      rw [last, toNat_writeToEventfd (by omega)]
      omega
    · rw [last]
      exact ⟨Int.le_of_lt positive, bounded⟩
    · rw [last, if_pos positive]
      rfl
  | .read =>
    simp only [step, Option.some.injEq] at taken
    subst taken
    have unread : lastPid (stretch (.read :: s.history)) = 0 := rfl
    have found := servicepid_detectChildAlive sums spaced
    refine ⟨fun _ _ => ?_, ?_, found.symm, found⟩
    · have empty : (detectChildAlive s).counter = 0 := by
        unfold detectChildAlive
        split
        · assumption
        · rfl
      simp [empty, stretch, lastPid]
    · rw [unread]
      decide

/-- After every read `_servicepid` is the pid that was written last, and a read of
heartbeats alone leaves it as it was. -/
theorem servicepid_survives_counter {t t' : State} (run : Run step Spaced {} t)
    (spaced : Spaced t .read) (read : step t .read = some t') :
    t'.servicepid = lastPid t.history ∧
      (pidWrites (stretch t.history) = 0 → t'.servicepid = t.servicepid) := by
  have sums : Sums t := run.invariant sums_init sums_step
  have found := servicepid_detectChildAlive sums spaced
  simp only [step, Option.some.injEq] at read
  subst read
  refine ⟨found, fun unwritten => ?_⟩
  have last := sums.last
  rw [lastPid_eq_zero unwritten, if_neg (Int.lt_irrefl 0)] at last
  exact found.trans last

instance (s : State) (e : Event) : Decidable (Spaced s e) :=
  match e with
  | .writeFD => isTrue trivial
  | .serviceBoot none => isTrue (by simp [Spaced])
  | .serviceBoot (some pid) =>
    decidable_of_iff (0 < pid ∧ pid < 2 ^ 31) (by simp [Spaced])
  | .read => inferInstanceAs (Decidable (_ ∧ _))

/-- The service is started between heartbeats, a read follows, and two more
heartbeats are read after that. -/
theorem servicepid_survives_counter_of_restart :
    ∃ t t', Run step Spaced {} t ∧ step t .read = some t' ∧
      pidWrites (stretch t.history) = 0 ∧ t'.servicepid = 4321 ∧ t.servicepid = 4321 := by
  have ran : (exec (restrict step fun s e => decide (Spaced s e)) {}
      [.writeFD, .serviceBoot (some 17), .read, .writeFD, .serviceBoot none,
        .serviceBoot (some 4321), .writeFD, .read, .writeFD, .writeFD]).any
      (fun t => decide (Spaced t .read) && decide (pidWrites (stretch t.history) = 0) &&
        decide (lastPid t.history = 4321)) = true := by
    decide +kernel
  obtain ⟨t, run, found⟩ := exists_run_of_exec (fun _ _ => of_decide_eq_true) ran
  simp only [Bool.and_eq_true, decide_eq_true_eq] at found
  obtain ⟨⟨spaced, unwritten⟩, last⟩ := found
  obtain ⟨survives, kept⟩ := servicepid_survives_counter run spaced rfl
  refine ⟨t, _, run, rfl, unwritten, ?_, ?_⟩
  · exact survives.trans last
  · exact (kept unwritten).symm.trans (survives.trans last)

/-! ### The supervisor beside the two writers -/

/-- The supervisor with its eventfd. -/
structure Supervised where
  supervisor : Supervise.State := {}
  counter : BitVec 64 := 0
  history : List Event := []

inductive Supervised.Action where
  | writeFD
  | serviceBoot (forked : Option Int)
  | supervise (a : Supervise.Action)
  deriving DecidableEq, Repr

def Supervised.eventfd (s : Supervised) : State := ⟨s.counter, s.supervisor.servicepid, s.history⟩

/-- What a write leaves. -/
def Supervised.write (s : Supervised) (e : Event) (value : BitVec 64) : Supervised :=
  { s with counter := writeToEventfd s.counter value, history := e :: s.history }

/-- A step of a writer, or one of the supervisor, whose heartbeats are what it reads
from the eventfd. -/
def Supervised.step (s : Supervised) : Action → Option Supervised
  | .writeFD => some (s.write .writeFD 1)
  | .serviceBoot forked => some (s.write (.serviceBoot forked) (bootValue forked))
  | .supervise (.heartbeat val) =>
    if val = s.counter ∧ val ≠ 0 then
      (Supervise.step s.supervisor (.heartbeat val)).map fun supervisor =>
        { supervisor, counter := 0, history := .read :: s.history }
    else none
  | .supervise a => (Supervise.step s.supervisor a).map fun supervisor => { s with supervisor }

/-- The event of the eventfd that an action is. -/
def Supervised.Action.event : Supervised.Action → Option Event
  | .writeFD => some .writeFD
  | .serviceBoot forked => some (.serviceBoot forked)
  | .supervise (.heartbeat _) => some .read
  | .supervise _ => none

def Supervised.Spaced (s : Supervised) (a : Supervised.Action) : Prop :=
  ∀ e ∈ a.event, ServicePid.Spaced s.eventfd e

/-- Every step is a step of the eventfd, or leaves counter and pid alone. -/
theorem eventfd_step {s s' : Supervised} {a : Supervised.Action} (taken : s.step a = some s') :
    (a.event = none ∧ s'.eventfd = s.eventfd) ∨
      ∃ e, a.event = some e ∧ step s.eventfd e = some s'.eventfd := by
  cases a with
  | writeFD | serviceBoot =>
    simp only [Supervised.step, Option.some.injEq] at taken
    subst taken
    exact .inr ⟨_, rfl, rfl⟩
  | supervise a =>
    by_cases beat : ∃ val, a = .heartbeat val
    · obtain ⟨val, rfl⟩ := beat
      simp only [Supervised.step] at taken
      split at taken
      · rename_i reads
        obtain ⟨rfl, written⟩ := reads
        obtain ⟨supervisor, moved, rfl⟩ := Option.map_eq_some_iff.mp taken
        simp only [Supervise.step] at moved
        split at moved <;> cases moved
        refine .inr ⟨.read, rfl, ?_⟩
        have found : detectChildAlive s.eventfd =
            ⟨0, heartbeat s.supervisor.servicepid s.counter, s.history⟩ := if_neg written
        rw [step, found]
        rfl
      · contradiction
    · have plain : Supervised.Action.event (.supervise a) = none ∧
          s.step (.supervise a) =
            (Supervise.step s.supervisor a).map fun supervisor => { s with supervisor } := by
        cases a with
        | heartbeat val => exact absurd ⟨val, rfl⟩ beat
        | _ => exact ⟨rfl, rfl⟩
      rw [plain.2] at taken
      obtain ⟨supervisor, moved, rfl⟩ := Option.map_eq_some_iff.mp taken
      refine .inl ⟨plain.1, ?_⟩
      rcases servicepid_of_takes (step_takes moved) with same | ⟨val, beaten, _⟩
      · simp [Supervised.eventfd, same]
      · exact absurd ⟨val, beaten⟩ beat

theorem eventfd_run {t : Supervised} (run : Run Supervised.step Supervised.Spaced {} t) :
    Run step Spaced {} t.eventfd := by
  induction run with
  | refl => exact .refl _
  | snoc _ spaced taken ih =>
    rcases eventfd_step taken with ⟨_, same⟩ | ⟨e, event, stepped⟩
    · exact same ▸ ih
    · exact ih.snoc (spaced e event) stepped

/-- Whatever the supervisor does between its reads, `_servicepid` is the last pid that
was written before the last of them. -/
theorem supervisor_servicepid {t : Supervised}
    (run : Run Supervised.step Supervised.Spaced {} t) :
    t.supervisor.servicepid = lastPid (t.history.dropWhile (· ≠ .read)) := by
  have sums : Sums t.eventfd := (eventfd_run run).invariant sums_init sums_step
  exact sums.read

end Moha.ServicePid
