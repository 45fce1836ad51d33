import Moha.LeaseTenure

/-! A writable service and its lease. From the answer of a leader transaction on,
some monitor of the process watches the lease: it wakes early enough to exit the
process, and to have its service stopped, before the lease expires. The answer
must come within two seconds of the grant, since the local deadline counts from
the answer, and the stop channel must reach the keep-alive goroutine, since the
deadline is shared by all of them. -/
namespace Moha.LeaseSafety
open KeyValueStore LeaderRecord Election LeaderLoop LeaseClock LeaseTenure Runs

/-- Were the process to exit now, its service would be stopped before the lease
expires. -/
def Covered (cfg : Config) (t : State) : Prop :=
  ∃ lease held, t.obtained = some lease ∧ t.leases lease = some held ∧
    t.now + seconds (cfg.shutdownThreshold - 2) < held.deadline

/-- The local deadline leaves the threshold, less the second it is rounded to. -/
def Renewed (cfg : Config) (t : State) (held : Lease) : Prop :=
  t.leaseExpireTS * 1000000000 + seconds (cfg.shutdownThreshold - 1) ≤ held.deadline

/-- The local deadline still counts from the answer at `since`, and the monitor
wakes for the first or the second time. -/
def Answered (cfg : Config) (t : State) (held : Lease) (wake : Nat) : Prop :=
  ∃ since, t.leaseExpireTS = updateLeaseExpireTS cfg since ∧
    since + seconds cfg.leaderLeaseTTL < held.deadline + seconds 2 ∧
    (wake = since ∨ wake = since + seconds (cfg.leaderLeaseTTL - cfg.shutdownThreshold))

/-- The monitor wakes early enough for the lease, this time and the next. -/
structure Watches (cfg : Config) (t : State) (held : Lease) (wake : Nat) : Prop where
  due : t.now ≤ wake
  early : wake + seconds (cfg.shutdownThreshold - 2) < held.deadline
  next : Renewed cfg t held ∨ Answered cfg t held wake

/-- The loop holds the lease: the stop channel is open, every keep-alive goroutine
but the one of the lease has been released, and a monitor watches the lease. -/
structure Holds (cfg : Config) (t : State) (ch : Nat) (lease : LeaseID) (held : Lease) :
    Prop where
  running : t.agent.running = true
  isClosed : t.agent.server.isClosed = false
  tenured : Tenured lease t.agent.loop
  leaderStopCh : t.agent.leaderStopCh = some ch
  openCh : ch ∉ t.agent.closedChs
  obtained : t.obtained = some lease
  leased : t.leases lease = some held
  kept : ∃ k ∈ t.agent.keepAlives, k.lease = lease
  parked : ∀ k ∈ t.agent.keepAlives, (k.lease = lease ∧ (k.waiting = none ∨ k.waiting = some ch)) ∨
    (k.lease ≠ lease ∧ t.agent.released k.waiting = true)
  watched : ∃ monitor ∈ t.monitors, monitor.waiting = some ch ∧ Watches cfg t held monitor.wake

/-- The loop holds no lease. A service that is still writable waits for a
released keep-alive goroutine to set it read-only. -/
structure Idle (cfg : Config) (t : State) : Prop where
  running : t.agent.running = true
  isClosed : t.agent.server.isClosed = false
  untenured : ∀ lease, ¬ Tenured lease t.agent.loop
  released : ∀ k ∈ t.agent.keepAlives, t.agent.released k.waiting = true
  covered : t.agent.writable = true → t.agent.keepAlives ≠ [] ∧ Covered cfg t

/-- The process has exited, and its service is stopped before the lease expires. -/
structure Off (t : State) : Prop where
  running : t.agent.running = false
  stopped : t.agent.writable = true → ∃ stop lease held, t.stopBy = some stop ∧ t.now ≤ stop ∧
    t.obtained = some lease ∧ t.leases lease = some held ∧ stop < held.deadline

/-- The server is closed and its service read-only. -/
structure Closed (t : State) : Prop where
  running : t.agent.running = true
  isClosed : t.agent.server.isClosed = true
  readOnly : t.agent.writable = false

inductive Safe (cfg : Config) (t : State) : Prop where
  | off (off : Off t)
  | closed (closed : Closed t)
  | idle (idle : Idle cfg t)
  | holds {ch : Nat} {lease : LeaseID} {held : Lease} (holds : Holds cfg t ch lease held)

theorem Holds.covered {cfg : Config} {t : State} {ch : Nat} {lease : LeaseID} {held : Lease}
    (holds : Holds cfg t ch lease held) : Covered cfg t := by
  obtain ⟨monitor, _, _, watches⟩ := holds.watched
  refine ⟨lease, held, holds.obtained, holds.leased, ?_⟩
  have due := watches.due
  have early := watches.early
  omega

/-- A running process whose service is writable is covered. -/
theorem Safe.covered {cfg : Config} {t : State} (safe : Safe cfg t)
    (running : t.agent.running = true) (writable : t.agent.writable = true) : Covered cfg t := by
  cases safe with
  | off off => cases off.running.symm.trans running
  | closed closed => cases closed.readOnly.symm.trans writable
  | idle idle => exact (idle.covered writable).2
  | holds holds => exact holds.covered

theorem Safe.unexpired {cfg : Config} {t : State} (safe : Safe cfg t)
    (writable : t.agent.writable = true) :
    ∃ lease held, t.obtained = some lease ∧ t.leases lease = some held ∧ t.now < held.deadline := by
  by_cases running : t.agent.running = true
  · obtain ⟨lease, held, obtained, leased, within⟩ := safe.covered running writable
    exact ⟨lease, held, obtained, leased, by omega⟩
  · cases safe with
    | off off =>
      obtain ⟨stop, lease, held, _, due, obtained, leased, within⟩ := off.stopped writable
      exact ⟨lease, held, obtained, leased, by omega⟩
    | closed closed => exact absurd closed.running running
    | idle idle => exact absurd idle.running running
    | holds holds => exact absurd holds.running running

/-! ### Steps that leave the tenure as it is -/

/-- The lease deadlines only move back, the clock and the timers stay, and a
monitor on an open channel goes on. -/
structure Quiet (t t' : State) : Prop where
  now : t'.now = t.now
  leases : ∀ lease held, t.leases lease = some held →
    ∃ later, t'.leases lease = some later ∧ held.deadline ≤ later.deadline
  leaseExpireTS : t'.leaseExpireTS = t.leaseExpireTS
  obtained : t'.obtained = t.obtained
  stopBy : t'.stopBy = t.stopBy
  monitors : ∀ monitor ∈ t.monitors, t.agent.released monitor.waiting = false →
    monitor ∈ t'.monitors

private theorem quiet_of_leases {t t' : State} (now : t'.now = t.now)
    (leases : t'.leases = t.leases) (leaseExpireTS : t'.leaseExpireTS = t.leaseExpireTS)
    (obtained : t'.obtained = t.obtained) (stopBy : t'.stopBy = t.stopBy)
    (monitors : t'.monitors = t.monitors) : Quiet t t' where
  now := now
  leases := fun _ held leased => ⟨held, leases ▸ leased, Nat.le_refl _⟩
  leaseExpireTS := leaseExpireTS
  obtained := obtained
  stopBy := stopBy
  monitors := fun _ member _ => monitors ▸ member

theorem Covered.quiet {cfg : Config} {t t' : State} (covered : Covered cfg t)
    (quiet : Quiet t t') : Covered cfg t' := by
  obtain ⟨lease, held, obtained, leased, within⟩ := covered
  obtain ⟨later, renewed, grows⟩ := quiet.leases lease held leased
  refine ⟨lease, later, quiet.obtained.trans obtained, renewed, ?_⟩
  rw [quiet.now]
  omega

theorem Watches.quiet {cfg : Config} {t t' : State} {held later : Lease} {wake : Nat}
    (watches : Watches cfg t held wake) (quiet : Quiet t t')
    (grows : held.deadline ≤ later.deadline) : Watches cfg t' later wake where
  due := quiet.now ▸ watches.due
  early := Nat.lt_of_lt_of_le watches.early grows
  next := by
    rcases watches.next with renewed | ⟨since, counts, within, wakes⟩
    · left
      unfold Renewed at renewed ⊢
      rw [quiet.leaseExpireTS]
      omega
    · exact .inr ⟨since, quiet.leaseExpireTS.trans counts, by omega, wakes⟩

theorem released_congr {before after : Agent}
    (isClosed : after.server.isClosed = before.server.isClosed)
    (closedChs : after.closedChs = before.closedChs) (waiting : Option Nat) :
    after.released waiting = before.released waiting := by
  unfold Agent.released
  rw [isClosed, closedChs]

theorem Holds.released_eq_false {cfg : Config} {t : State} {ch : Nat} {lease : LeaseID}
    {held : Lease} (holds : Holds cfg t ch lease held) : t.agent.released (some ch) = false := by
  simp [Agent.released, holds.isClosed, holds.openCh]

/-- The tenure goes on when no goroutine starts or ends. -/
theorem Holds.quiet {cfg : Config} {t t' : State} {ch : Nat} {lease : LeaseID} {held : Lease}
    (holds : Holds cfg t ch lease held) (quiet : Quiet t t')
    (running : t'.agent.running = t.agent.running)
    (isClosed : t'.agent.server.isClosed = t.agent.server.isClosed)
    (keepAlives : t'.agent.keepAlives = t.agent.keepAlives)
    (leaderStopCh : t'.agent.leaderStopCh = t.agent.leaderStopCh)
    (closedChs : t'.agent.closedChs = t.agent.closedChs) (tenured : Tenured lease t'.agent.loop) :
    ∃ later, Holds cfg t' ch lease later := by
  obtain ⟨later, renewed, grows⟩ := quiet.leases lease held holds.leased
  obtain ⟨monitor, member, waits, watches⟩ := holds.watched
  have goesOn := quiet.monitors monitor member (waits ▸ holds.released_eq_false)
  exact ⟨later,
    { running := running.trans holds.running
      isClosed := isClosed.trans holds.isClosed
      tenured := tenured
      leaderStopCh := leaderStopCh.trans holds.leaderStopCh
      openCh := closedChs ▸ holds.openCh
      obtained := quiet.obtained.trans holds.obtained
      leased := renewed
      kept := keepAlives ▸ holds.kept
      parked := by
        intro k member
        rw [released_congr isClosed closedChs]
        exact holds.parked k (keepAlives ▸ member)
      watched := ⟨monitor, goesOn, waits, watches.quiet quiet grows⟩ }⟩

theorem Idle.quiet {cfg : Config} {t t' : State} (idle : Idle cfg t) (quiet : Quiet t t')
    (same : SameTenure t.agent t'.agent) : Idle cfg t' where
  running := same.running.trans idle.running
  isClosed := same.isClosed.trans idle.isClosed
  untenured := fun lease tenured => idle.untenured lease ((same.loop lease).mp tenured)
  released := by
    intro k member
    rw [released_congr same.isClosed same.closedChs]
    exact idle.released k (same.keepAlives ▸ member)
  covered := by
    intro writable
    obtain ⟨some, covered⟩ := idle.covered (same.writable ▸ writable)
    exact ⟨same.keepAlives ▸ some, covered.quiet quiet⟩

theorem Off.quiet {t t' : State} (off : Off t) (quiet : Quiet t t')
    (running : t'.agent.running = t.agent.running)
    (writable : t'.agent.writable = true → t.agent.writable = true) : Off t' where
  running := running.trans off.running
  stopped := by
    intro writable'
    obtain ⟨stop, lease, held, by_, due, obtained, leased, within⟩ :=
      off.stopped (writable writable')
    obtain ⟨later, renewed, grows⟩ := quiet.leases lease held leased
    exact ⟨stop, lease, later, quiet.stopBy.trans by_, quiet.now ▸ due,
      quiet.obtained.trans obtained, renewed, Nat.lt_of_lt_of_le within grows⟩

theorem Safe.quiet {cfg : Config} {t t' : State} (safe : Safe cfg t) (quiet : Quiet t t')
    (same : SameTenure t.agent t'.agent) : Safe cfg t' := by
  cases safe with
  | off off => exact .off (off.quiet quiet same.running (same.writable ▸ id))
  | closed closed =>
    exact .closed ⟨same.running.trans closed.running, same.isClosed.trans closed.isClosed,
      same.writable.trans closed.readOnly⟩
  | idle idle => exact .idle (idle.quiet quiet same)
  | holds holds =>
    obtain ⟨later, holds⟩ := holds.quiet quiet same.running same.isClosed same.keepAlives
      same.leaderStopCh same.closedChs ((same.loop _).mpr holds.tenured)
    exact .holds holds

/-- An exit of the process: its service is stopped in time. -/
theorem Safe.exit {cfg : Config} {t : State} {agent : Agent} (safe : Safe cfg t)
    (running : t.agent.running = true)
    (writable : agent.writable = true → t.agent.writable = true) : Safe cfg (t.exit cfg agent) := by
  refine .off ⟨rfl, fun still => ?_⟩
  obtain ⟨lease, held, obtained, leased, within⟩ := safe.covered running (writable still)
  exact ⟨_, lease, held, rfl, Nat.le_add_right _ _, obtained, leased, within⟩

/-! ### Time -/

/-- The clock waits for the goroutines that are ready, so it goes on only when no
service is left writable without a tenure. -/
theorem Safe.elapse {cfg : Config} {t : State} {duration : Nat} (safe : Safe cfg t)
    (calm : t.calm duration = true) : Safe cfg { t with now := t.now + duration } := by
  cases safe with
  | off off =>
    refine .off ⟨off.running, fun writable => ?_⟩
    obtain ⟨stop, lease, held, stopBy, due, obtained, leased, within⟩ := off.stopped writable
    refine ⟨stop, lease, held, stopBy, ?_, obtained, leased, within⟩
    simpa [State.calm, off.running, show t.agent.writable = true from writable, stopBy] using calm
  | closed closed => exact .closed ⟨closed.running, closed.isClosed, closed.readOnly⟩
  | idle idle =>
    simp only [State.calm, idle.running, ↓reduceIte, Bool.and_eq_true, List.all_eq_true] at calm
    refine .idle ⟨idle.running, idle.isClosed, idle.untenured, idle.released, fun writable => ?_⟩
    obtain ⟨k, member⟩ := List.exists_mem_of_ne_nil _ (idle.covered writable).1
    exact absurd (idle.released k member) (by simpa using calm.2 k member)
  | holds holds =>
    simp only [State.calm, holds.running, ↓reduceIte, Bool.and_eq_true, List.all_eq_true] at calm
    obtain ⟨monitor, member, waits, watches⟩ := holds.watched
    have due := (calm.1 monitor member).2
    exact .holds { holds with
      watched := ⟨monitor, member, waits, of_decide_eq_true due, watches.early, watches.next⟩ }

theorem updateLeaseExpireTS_eq (cfg : Config) (now : Nat) :
    updateLeaseExpireTS cfg now =
      (now : Int) / 1000000000 + (cfg.leaderLeaseTTL - cfg.shutdownThreshold) := by
  have shifted : (now : Int) + seconds cfg.leaderLeaseTTL - seconds cfg.shutdownThreshold =
      now + (cfg.leaderLeaseTTL - cfg.shutdownThreshold) * 1000000000 := by
    unfold seconds
    omega
  unfold updateLeaseExpireTS
  rw [shifted, Int.add_mul_ediv_right _ _ (by decide)]

section Timers
variable {cfg : Config} (atLeast : 2 ≤ cfg.shutdownThreshold)
  (atMost : cfg.shutdownThreshold ≤ cfg.leaderLeaseTTL)
include atLeast atMost

/-- A monitor that fires and does not close the server wakes early enough again. -/
theorem Watches.rearm {t : State} {held : Lease} (watches : Watches cfg t held t.now)
    (positive : 0 < t.leaseExpireTS - (t.now : Int) / 1000000000) :
    Watches cfg t held
      (t.now + seconds (t.leaseExpireTS - (t.now : Int) / 1000000000).toNat) := by
  obtain ⟨_, early, next⟩ := watches
  rcases next with renewed | ⟨since, counts, within, wakes⟩
  · refine ⟨Nat.le_add_right _ _, ?_, .inl renewed⟩
    unfold Renewed at renewed
    unfold seconds at renewed ⊢
    omega
  · have first : t.now = since := by
      rcases wakes with same | second
      · exact same
      · rw [counts, second, updateLeaseExpireTS_eq] at positive
        unfold seconds at positive
        omega
    have delta : (t.leaseExpireTS - (t.now : Int) / 1000000000).toNat =
        cfg.leaderLeaseTTL - cfg.shutdownThreshold := by
      rw [counts, first, updateLeaseExpireTS_eq]
      omega
    rw [delta]
    refine ⟨Nat.le_add_right _ _, ?_, .inr ⟨since, counts, within, .inr (by rw [first])⟩⟩
    unfold seconds at within ⊢
    omega

/-- The first timer of a tenure whose answer came within two seconds of the grant. -/
theorem watches_answered {t : State} {held : Lease}
    (granted : held.granted + seconds cfg.leaderLeaseTTL ≤ held.deadline)
    (prompt : t.now < held.granted + seconds 2)
    (counts : t.leaseExpireTS = updateLeaseExpireTS cfg t.now) : Watches cfg t held t.now := by
  unfold seconds at granted prompt
  refine ⟨Nat.le_refl _, ?_, .inr ⟨t.now, counts, ?_, .inl rfl⟩⟩
  all_goals
    unfold seconds
    omega

omit atMost in
/-- A renewal is processed at most the timeout of `KeepAliveOnce` before its answer. -/
theorem renewed_of_attempt {now since processed : Nat} {held : Lease}
    (made : since ≤ processed) (answered : now ≤ since + keepAliveTimeout)
    (renewed : processed + seconds cfg.leaderLeaseTTL ≤ held.deadline) :
    updateLeaseExpireTS cfg now * 1000000000 + seconds (cfg.shutdownThreshold - 1) ≤
      held.deadline := by
  unfold updateLeaseExpireTS
  unfold seconds at renewed ⊢
  unfold keepAliveTimeout at answered
  omega

theorem Safe.fire {t : State} {monitor : Monitor} (safe : Safe cfg t)
    (running : t.agent.running = true) (fires : monitor.wake ≤ t.now) :
    Safe cfg (t.fire cfg monitor) := by
  unfold State.fire
  dsimp only
  split
  · exact safe.exit running id
  · rename_i positive
    cases safe with
    | off off => cases off.running.symm.trans running
    | closed closed => exact .closed ⟨closed.running, closed.isClosed, closed.readOnly⟩
    | idle idle =>
      exact .idle ⟨idle.running, idle.isClosed, idle.untenured, idle.released, idle.covered⟩
    | holds holds =>
      obtain ⟨watch, member, waits, watches⟩ := holds.watched
      refine .holds { holds with watched := ?_ }
      by_cases same : watch = monitor
      · subst same
        have wake : watch.wake = t.now := Nat.le_antisymm fires watches.due
        have rearmed := Watches.rearm atLeast atMost (wake ▸ watches) (by omega)
        exact ⟨_, List.mem_cons_self .., holds.leaderStopCh,
          rearmed.due, rearmed.early, rearmed.next⟩
      · exact ⟨watch, List.mem_cons_of_mem _ ((List.mem_erase_of_ne same).mpr member), waits,
          watches.due, watches.early, watches.next⟩

/-- A successful answer begins a tenure with a monitor of its own. -/
theorem Safe.begin {t : State} {lease : LeaseID} {held : Lease} {revision : Nat}
    (stamped : Stamped cfg t) (safe : Safe cfg t) (running : t.agent.running = true)
    (waits : txnLease t.agent.loop = some lease) (leased : t.leases lease = some held)
    (prompt : t.now < held.granted + seconds 2) :
    Safe cfg (t.receive cfg lease revision true) := by
  have begins := @afterRequest_success t.agent revision lease waits
  have fresh : t.agent.madeChs ∉ t.agent.closedChs := fun member =>
    Nat.lt_irrefl _ (stamped.closedChs _ member)
  unfold State.receive
  simp only [↓reduceIte]
  cases safe with
  | off off => cases off.running.symm.trans running
  | closed closed =>
    exact .closed ⟨begins.running.trans closed.running, begins.isClosed.trans closed.isClosed,
      begins.writable.trans closed.readOnly⟩
  | holds holds => exact absurd holds.tenured (not_tenured waits _)
  | idle idle =>
    have watches := @watches_answered cfg atLeast atMost
      { t with leaseExpireTS := updateLeaseExpireTS cfg t.now } held
      (stamped.granted lease held leased).2.1 prompt rfl
    exact .holds
      { running := begins.running.trans idle.running
        isClosed := begins.isClosed.trans idle.isClosed
        tenured := begins.loop
        leaderStopCh := begins.leaderStopCh
        openCh := begins.closedChs ▸ fresh
        obtained := rfl
        leased := leased
        kept := by
          rw [begins.keepAlives]
          exact ⟨_, List.mem_cons_self .., rfl⟩
        parked := by
          intro k member
          rw [begins.keepAlives] at member
          rw [released_congr begins.isClosed begins.closedChs]
          rcases List.mem_cons.mp member with rfl | before
          · exact .inl ⟨rfl, .inr rfl⟩
          · exact .inr ⟨(stamped.awaited lease (.inr waits)).2 k before, idle.released k before⟩
        watched := ⟨_, List.mem_cons_self .., begins.leaderStopCh,
          watches.due, watches.early, watches.next⟩ }

end Timers

/-! ### Service calls -/

private theorem released_cons {agent after : Agent} {ch : Nat} {waiting : Option Nat}
    (isClosed : after.server.isClosed = agent.server.isClosed)
    (closedChs : after.closedChs = ch :: agent.closedChs)
    (before : agent.released waiting = true ∨ waiting = some ch) :
    after.released waiting = true := by
  unfold Agent.released at before ⊢
  rw [isClosed, closedChs]
  rcases before with released | rfl
  · obtain ⟨other, rfl, closed⟩ := (Option.any_eq_true _ _).mp released
    rcases (Bool.or_eq_true _ _).mp closed with done | member
    · simp [done]
    · simp only [Option.any_some, List.contains_cons, member, Bool.or_true]
  · simp

theorem Holds.service {cfg : Config} {t : State} {ch : Nat} {lease : LeaseID} {held : Lease}
    {outcome : Outcome} {next : Next} (holds : Holds cfg t ch lease held)
    (parked : t.agent.loop = .resumeReadOnly ∨ t.agent.loop = .promoteFailed →
      ∀ k ∈ t.agent.keepAlives, k.waiting ≠ none)
    (moved : t.agent.afterService outcome = some next) : Safe cfg (t.proceed cfg next) := by
  have quiet : ∀ after, Quiet t { t with agent := after } := fun _ =>
    quiet_of_leases rfl rfl rfl rfl rfl rfl
  cases serviced holds.tenured holds.leaderStopCh holds.openCh holds.kept moved with
  | goesOn running isClosed keepAlives leaderStopCh closedChs _ loop _ =>
    obtain ⟨later, holds⟩ :=
      holds.quiet (quiet _) running isClosed keepAlives leaderStopCh closedChs loop
    exact .holds holds
  | @closes after running isClosed keepAlives _ closedChs _ loop writable failed =>
    have released : ∀ k ∈ after.keepAlives, after.released k.waiting = true := by
      intro k member
      rw [keepAlives] at member
      refine released_cons isClosed closedChs ?_
      rcases holds.parked k member with ⟨_, none | waits⟩ | ⟨_, released⟩
      · exact absurd none (parked failed k member)
      · exact .inr waits
      · exact .inl released
    have some : after.keepAlives ≠ [] := by
      obtain ⟨k, member, _⟩ := holds.kept
      exact keepAlives ▸ List.ne_nil_of_mem member
    have untenured : ∀ other, ¬ Tenured other after.loop := by
      rw [loop]
      exact fun _ => id
    exact .idle ⟨running.trans holds.running, isClosed.trans holds.isClosed, untenured, released,
      fun _ => ⟨some, holds.covered.quiet (quiet after)⟩⟩
  | exits writable => exact (Safe.holds holds).exit holds.running writable

theorem Safe.service {cfg : Config} {t : State} {outcome : Outcome} {next : Next}
    (safe : Safe cfg t) (running : t.agent.running = true) (outside : ¬ SinglePoint t.agent.loop)
    (parked : t.agent.loop = .resumeReadOnly ∨ t.agent.loop = .promoteFailed →
      ∀ k ∈ t.agent.keepAlives, k.waiting ≠ none)
    (failed : t.agent.server.isClosed = true → outcome = .failed)
    (moved : t.agent.afterService outcome = some next) : Safe cfg (t.proceed cfg next) := by
  cases safe with
  | off off => cases off.running.symm.trans running
  | idle idle => cases (afterService_outside idle.untenured outside).symm.trans moved
  | holds holds => exact holds.service parked moved
  | closed closed =>
    rw [failed closed.isClosed] at moved
    obtain ⟨writable, continues⟩ := afterService_failed moved
    cases next with
    | continues after =>
      obtain ⟨running, isClosed⟩ := continues after rfl
      exact .closed ⟨running.trans closed.running, isClosed.trans closed.isClosed,
        writable.trans closed.readOnly⟩
    | exits after => exact (Safe.closed closed).exit running (writable ▸ id)

/-! ### Keep-alive goroutines -/

/-- The only keep-alive goroutine of a tenure that has not been released is the one
of its lease. -/
theorem Holds.lease_eq {cfg : Config} {t : State} {ch : Nat} {lease : LeaseID} {held : Lease}
    (holds : Holds cfg t ch lease held) {k : KeepAlive} (member : k ∈ t.agent.keepAlives)
    (unreleased : t.agent.released k.waiting = false) : k.lease = lease := by
  rcases holds.parked k member with ⟨same, _⟩ | ⟨_, released⟩
  · exact same
  · cases unreleased.symm.trans released

/-- The goroutine of the lease moves between its `select` and `KeepAliveOnce`. -/
theorem Holds.turn {cfg : Config} {t t' : State} {ch : Nat} {lease : LeaseID} {held : Lease}
    {waiting : Option Nat} (holds : Holds cfg t ch lease held)
    (waits : waiting = none ∨ waiting = some ch)
    (agent : t'.agent = { t.agent with keepAlives := t.agent.keepAlives.map fun k =>
      if k.lease = lease then { k with waiting := waiting } else k })
    (obtained : t'.obtained = t.obtained) (leases : t'.leases = t.leases)
    (watched : ∃ monitor ∈ t'.monitors, monitor.waiting = some ch ∧
      Watches cfg t' held monitor.wake) : Holds cfg t' ch lease held where
  running := by rw [agent]; exact holds.running
  isClosed := by rw [agent]; exact holds.isClosed
  tenured := by rw [agent]; exact holds.tenured
  leaderStopCh := by rw [agent]; exact holds.leaderStopCh
  openCh := by rw [agent]; exact holds.openCh
  obtained := obtained.trans holds.obtained
  leased := leases ▸ holds.leased
  kept := by
    obtain ⟨k, member, same⟩ := holds.kept
    rw [agent]
    refine ⟨_, List.mem_map_of_mem member, ?_⟩
    split <;> exact same
  parked := by
    rw [agent]
    intro k member
    obtain ⟨before, present, rfl⟩ := List.mem_map.mp member
    by_cases same : before.lease = lease
    · simp only [same, ↓reduceIte]
      exact .inl ⟨trivial, waits⟩
    · simp only [same, ↓reduceIte]
      rcases holds.parked before present with ⟨other, _⟩ | ⟨_, released⟩
      · exact absurd other same
      · exact .inr ⟨same, released⟩
  watched := watched

theorem Safe.tick {cfg : Config} {t : State} {lease : LeaseID} {next : Next} (safe : Safe cfg t)
    (timely : Timely t (.keepAliveTick lease)) (running : t.agent.running = true)
    (called : t.agent.move .empty [] (.keepAliveTick lease) = some next) :
    Safe cfg { t.proceed cfg next with
      attempts := Function.update t.attempts lease (some ⟨t.now, none⟩) } := by
  simp only [Agent.move] at called
  split at called
  · rename_i some
    cases called
    obtain ⟨k, member, waits⟩ := List.any_eq_true.mp some
    simp only [Bool.and_eq_true, beq_iff_eq] at waits
    have unreleased := timely.2 k member waits.1
    cases safe with
    | off off => cases off.running.symm.trans running
    | closed closed => exact .closed ⟨closed.running, closed.isClosed, closed.readOnly⟩
    | idle idle => cases unreleased.symm.trans (idle.released k member)
    | holds holds =>
      obtain rfl := waits.1.symm.trans (holds.lease_eq member unreleased)
      obtain ⟨monitor, watch, channel, watches⟩ := holds.watched
      exact .holds (holds.turn (.inl rfl) rfl rfl rfl
        ⟨monitor, watch, channel, watches.due, watches.early, watches.next⟩)
  · contradiction

/-- A renewal moves the local deadline, which then counts from the renewal. -/
theorem Safe.renewed {cfg : Config} {t : State} {lease : LeaseID} {since processed : Nat}
    {next : Next} (atLeast : 2 ≤ cfg.shutdownThreshold) (stamped : Stamped cfg t)
    (safe : Safe cfg t) (attempt : t.attempts lease = some ⟨since, some processed⟩)
    (answered : t.now ≤ since + keepAliveTimeout) (running : t.agent.running = true)
    (called : t.agent.move .empty [] (.keepAliveRenewed lease) = some next) :
    Safe cfg { t.proceed cfg next with leaseExpireTS := updateLeaseExpireTS cfg t.now } := by
  simp only [Agent.move] at called
  split at called
  · rename_i some
    cases called
    obtain ⟨k, member, waits⟩ := List.any_eq_true.mp some
    simp only [Bool.and_eq_true, beq_iff_eq, Option.isNone_iff_eq_none] at waits
    have unreleased : t.agent.released k.waiting = false := by simp [waits.2, Agent.released]
    cases safe with
    | off off => cases off.running.symm.trans running
    | closed closed => exact .closed ⟨closed.running, closed.isClosed, closed.readOnly⟩
    | idle idle => cases unreleased.symm.trans (idle.released k member)
    | holds holds =>
      obtain rfl := waits.1.symm.trans (holds.lease_eq member unreleased)
      obtain ⟨made, held, leased, within⟩ := (stamped.attempted _ _ attempt).2 processed rfl
      cases holds.leased.symm.trans leased
      obtain ⟨monitor, watch, channel, watches⟩ := holds.watched
      exact .holds (holds.turn (.inr holds.leaderStopCh) rfl rfl rfl
        ⟨monitor, watch, channel, watches.due, watches.early,
          .inl (renewed_of_attempt atLeast made answered within)⟩)
  · contradiction

/-- A released goroutine is not the one of the lease. -/
theorem Holds.lease_ne {cfg : Config} {t : State} {ch : Nat} {lease : LeaseID} {held : Lease}
    (holds : Holds cfg t ch lease held) {k : KeepAlive} (member : k ∈ t.agent.keepAlives)
    (released : t.agent.released k.waiting = true) : k.lease ≠ lease := by
  rcases holds.parked k member with ⟨_, none | waits⟩ | ⟨differs, _⟩
  · simp [none, Agent.released] at released
  · rw [waits, holds.released_eq_false] at released
    cases released
  · exact differs

/-- The tenure outlives the end of a released goroutine. -/
theorem Holds.drop {cfg : Config} {t : State} {ch : Nat} {lease exited : LeaseID} {held : Lease}
    (holds : Holds cfg t ch lease held) (differs : exited ≠ lease) :
    Holds cfg { t with agent := { t.agent with
      writable := false
      keepAlives := t.agent.keepAlives.filter fun k => k.lease != exited
      loop := if t.agent.loop = .barrier exited then .getLeader else t.agent.loop } }
      ch lease held :=
  { running := holds.running
    isClosed := holds.isClosed
    tenured := by
      dsimp only
      split
      · rename_i barrier
        have tenured := holds.tenured
        rw [barrier] at tenured
        exact absurd tenured differs
      · exact holds.tenured
    leaderStopCh := holds.leaderStopCh
    openCh := holds.openCh
    obtained := holds.obtained
    leased := holds.leased
    kept := by
      obtain ⟨k, member, rfl⟩ := holds.kept
      exact ⟨k, List.mem_filter.mpr ⟨member, by simpa using differs.symm⟩, rfl⟩
    parked := fun k member => holds.parked k (List.mem_filter.mp member).1
    watched := by
      obtain ⟨monitor, member, waits, watches⟩ := holds.watched
      exact ⟨monitor, member, waits, watches.due, watches.early, watches.next⟩ }

theorem Idle.drop {cfg : Config} {t : State} (idle : Idle cfg t) (exited : LeaseID) :
    Idle cfg { t with agent := { t.agent with
      writable := false
      keepAlives := t.agent.keepAlives.filter fun k => k.lease != exited
      loop := if t.agent.loop = .barrier exited then .getLeader else t.agent.loop } } where
  running := idle.running
  isClosed := idle.isClosed
  untenured := by
    intro lease
    dsimp only
    split
    · exact id
    · exact idle.untenured lease
  released := fun k member => idle.released k (List.mem_filter.mp member).1
  covered := fun writable => nomatch writable

/-- A released goroutine ends: it sets the service read-only, or the process exits. -/
theorem Safe.release {cfg : Config} {t : State} {etcd : Etcd} {nodes : List NodeID}
    {exited : LeaseID} {outcome : Outcome} {next : Next} (safe : Safe cfg t)
    (running : t.agent.running = true)
    (moved : t.agent.move etcd nodes (.keepAliveExit exited outcome) = some next) :
    Safe cfg (t.proceed cfg next) := by
  simp only [Agent.move] at moved
  split at moved
  · rename_i some
    cases moved
    obtain ⟨k, member, waits⟩ := List.any_eq_true.mp some
    simp only [Bool.and_eq_true, beq_iff_eq] at waits
    obtain ⟨rfl, released⟩ := waits
    unfold Agent.afterKeepAlive Agent.readOnlyOrShutdown
    split
    · rename_i done
      cases safe with
      | off off => cases off.running.symm.trans running
      | closed closed => exact .closed ⟨closed.running, closed.isClosed, closed.readOnly⟩
      | idle idle => cases idle.isClosed.symm.trans done
      | holds holds => cases holds.isClosed.symm.trans done
    · rename_i notDone
      split
      · rename_i ok
        subst ok
        cases safe with
        | off off => cases off.running.symm.trans running
        | closed closed => exact absurd closed.isClosed notDone
        | idle idle => exact .idle (idle.drop k.lease)
        | holds holds => exact .holds (holds.drop (holds.lease_ne member released))
      · exact safe.exit running Agent.writable_of_setReadOnly
  · contradiction

/-! ### Every step -/

private theorem Safe.close {cfg : Config} {t : State} {etcd : Etcd} {nodes : List NodeID}
    {outcome : Outcome} {next : Next} (safe : Safe cfg t) (running : t.agent.running = true)
    (moved : t.agent.move etcd nodes (.close outcome) = some next) :
    Safe cfg (t.proceed cfg next) := by
  simp only [Agent.move, Agent.readOnlyOrShutdown] at moved
  split at moved
  · contradiction
  · cases moved
    split
    · rename_i ok
      subst ok
      exact .closed ⟨running, rfl, rfl⟩
    · exact safe.exit running Agent.writable_of_setReadOnly

theorem Safe.call {cfg : Config} {t : State} {etcd : Etcd} {nodes : List NodeID} {call : Call}
    {next : Next} (safe : Safe cfg t) (running : t.agent.running = true)
    (timely : Timely t (.call etcd nodes call)) (untimed : untimed call = true)
    (moved : t.agent.move etcd nodes call = some next) : Safe cfg (t.proceed cfg next) := by
  obtain ⟨⟨outside, plain⟩, timely⟩ := timely
  have noHttp := plain _ _ _ rfl
  cases Agent.moves_of_move moved with
  | service => exact safe.service running outside timely.1 timely.2 moved
  | turn _ _ turns => rcases turns with ⟨rfl, _⟩ | ⟨rfl, _⟩ <;> cases untimed
  | keepAliveExit => exact safe.release running moved
  | close => exact safe.close running moved
  | exits => exact safe.exit running id
  | advance advanced =>
    exact safe.quiet (quiet_of_leases rfl rfl rfl rfl rfl rfl) (advance_same advanced).1
  | http | handlerService | handlerManual | handlerStop | setOnlyFollow => cases noHttp

theorem safe_step {cfg : Config} {t t' : State} {event : Event}
    (atLeast : 2 ≤ cfg.shutdownThreshold) (atMost : cfg.shutdownThreshold ≤ cfg.leaderLeaseTTL)
    (stamped : Stamped cfg t) (safe : Safe cfg t) (timely : Timely t event)
    (taken : step cfg t event = some t') : Safe cfg t' := by
  cases taken_of_step taken with
  | elapse calm => exact safe.elapse calm
  | start => exact .idle ⟨rfl, rfl, fun _ => id, by rintro _ ⟨⟩, by rintro ⟨⟩⟩
  | serviceStop stopped => exact .off ⟨stopped, by rintro ⟨⟩⟩
  | report =>
    exact safe.quiet (quiet_of_leases rfl rfl rfl rfl rfl rfl)
      ⟨rfl, rfl, rfl, rfl, rfl, rfl, rfl, fun _ => .rfl⟩
  | call running free called =>
    exact (safe.call running timely free called).quiet
      (quiet_of_leases rfl rfl rfl rfl rfl rfl) (.refl _)
  | reply other =>
    exact safe.quiet (quiet_of_leases rfl rfl rfl rfl rfl rfl) (afterRequest_same other).1
  | @grantProcessed lease granting fresh =>
    refine safe.quiet ⟨rfl, ?_, rfl, rfl, rfl, fun _ member _ => member⟩ (.refl _)
    intro other held leased
    have differs : other ≠ lease := by
      rintro rfl
      cases fresh.symm.trans leased
    exact ⟨held, by simpa [Function.update_of_ne differs] using leased, Nat.le_refl _⟩
  | grantReceived flight granted =>
    exact safe.quiet (quiet_of_leases rfl rfl rfl rfl rfl rfl) (afterGrant_same granted).1
  | txnProcessed | keepAliveRetry =>
    exact safe.quiet (quiet_of_leases rfl rfl rfl rfl rfl rfl) (.refl _)
  | @txnReceived revision lease succeeded running waits flight =>
    cases succeeded with
    | true =>
      obtain ⟨held, leased⟩ :=
        Option.ne_none_iff_exists'.mp (stamped.awaited lease (.inr waits)).1
      exact safe.begin atLeast atMost stamped running waits leased
        (timely.2 flight lease held waits leased)
    | false =>
      exact safe.quiet (quiet_of_leases rfl rfl rfl rfl rfl rfl)
        (afterRequest_failed waits (by simp)).1
  | txnLost waits =>
    exact safe.quiet (quiet_of_leases rfl rfl rfl rfl rfl rfl)
      (afterRequest_failed waits (by simp)).1
  | keepAliveTick running called => exact safe.tick timely running called
  | @renewProcessed lease held attempt leased attempts =>
    refine safe.quiet ⟨rfl, ?_, rfl, rfl, rfl, fun _ member _ => member⟩ (.refl _)
    intro other before made
    by_cases same : other = lease
    · subst same
      cases leased.symm.trans made
      exact ⟨_, Function.update_self .., (stamped.granted other held leased).2.2⟩
    · exact ⟨before, by simpa [Function.update_of_ne same] using made, Nat.le_refl _⟩
  | keepAliveRenewed attempt answered running called =>
    exact safe.renewed atLeast stamped attempt answered running called
  | monitorFires running due => exact safe.fire atLeast atMost running due
  | monitorExits released =>
    refine safe.quiet ⟨rfl, fun _ held leased => ⟨held, leased, Nat.le_refl _⟩, rfl, rfl, rfl, ?_⟩
      (.refl _)
    intro other member unreleased
    refine (List.mem_erase_of_ne ?_).mpr member
    rintro rfl
    cases unreleased.symm.trans released

/-- In every run whose answers, renewals and service calls are timely, a service
that is writable has the lease its agent last obtained, and the lease has not
expired. -/
theorem writable_within_lease {id : NodeID} {cfg : Config} {now : Nat} {t : State}
    (atLeast : 2 ≤ cfg.shutdownThreshold) (atMost : cfg.shutdownThreshold ≤ cfg.leaderLeaseTTL)
    (run : Run (step cfg) Timely (init id cfg now) t) (writable : t.agent.writable = true) :
    ∃ lease held, t.obtained = some lease ∧ t.leases lease = some held ∧
      t.now < held.deadline := by
  have kept : Stamped cfg t ∧ Safe cfg t := by
    refine @Run.invariant _ _ _ _ _ _ (fun t => Stamped cfg t ∧ Safe cfg t) run ?_ ?_
    · exact ⟨stamped_init id cfg now, .off ⟨rfl, fun none => nomatch none⟩⟩
    · rintro before after event ⟨stamped, safe⟩ timely taken
      exact ⟨stamped_step stamped timely.1 taken,
        safe_step atLeast atMost stamped safe timely taken⟩
  exact kept.2.unexpired writable

/-- A decidable condition that is enough for a timely step. -/
private def timely (t : State) (event : Event) : Bool :=
  !decide (SinglePoint t.agent.loop) &&
  match event with
  | .call _ _ (.service _) =>
    t.agent.loop != .resumeReadOnly && t.agent.loop != .promoteFailed && !t.agent.server.isClosed
  | .call _ _ call => !isHttp call
  | .txnReceived _ => (txnLease t.agent.loop).all fun lease => (t.leases lease).all fun held =>
      t.now == held.granted
  | .keepAliveTick _ => t.agent.keepAlives.all fun held => !t.agent.released held.waiting
  | _ => true

private theorem timely_of_check {t : State} {event : Event} (check : timely t event = true) :
    Timely t event := by
  unfold timely at check
  simp only [Bool.and_eq_true, Bool.not_eq_true', decide_eq_false_iff_not] at check
  obtain ⟨outside, check⟩ := check
  refine ⟨⟨outside, ?_⟩, ?_⟩
  · rintro etcd nodes call rfl
    cases call <;> simp_all [isHttp]
  · split at check
    · simp_all
    · rename_i call other
      cases call <;> simp_all
    · intro _ lease held waits leased
      simp only [waits, leased, Option.all_some, beq_iff_eq] at check
      rw [check]
      exact Nat.lt_add_of_pos_right (by decide)
    · intro held member _
      simpa using (List.all_eq_true.mp check) held member
    · split <;> simp_all

/-- The lease granted at zero is kept for twelve seconds by three renewals. -/
theorem writable_within_lease_renewed :
    ∃ t, Run (step ⟨false, 10, 5⟩) Timely (init "a" ⟨false, 10, 5⟩ 0) t ∧ t.now = seconds 12 ∧
      t.agent.writable = true ∧ ∃ lease held, t.obtained = some lease ∧
        t.leases lease = some held ∧ t.now < held.deadline := by
  have ran : (exec (restrict (step ⟨false, 10, 5⟩) timely) (init "a" ⟨false, 10, 5⟩ 0)
      [.start "u", .call .empty [] .read, .grantProcessed 1, .grantReceived, .txnProcessed true,
        .txnReceived 1, .monitorFires ⟨0, some 0⟩, .call .empty [] (.service .ok),
        .call .empty [] .loadPromotion, .call .empty [] (.service .ok),
        .elapse (seconds 1), .keepAliveTick 1, .renewProcessed 1, .keepAliveRenewed 1,
        .elapse (seconds 4), .monitorFires ⟨seconds 5, some 0⟩,
        .keepAliveTick 1, .renewProcessed 1, .keepAliveRenewed 1,
        .elapse (seconds 1), .monitorFires ⟨seconds 6, some 0⟩,
        .elapse (seconds 3), .keepAliveTick 1, .renewProcessed 1, .keepAliveRenewed 1,
        .elapse (seconds 1), .monitorFires ⟨seconds 10, some 0⟩, .elapse (seconds 2)]).any
      (fun t => t.now == seconds 12 && t.agent.writable) = true := by
    decide +kernel
  obtain ⟨t, run, found⟩ := exists_run_of_exec (fun _ _ => timely_of_check) ran
  simp only [Bool.and_eq_true, beq_iff_eq] at found
  exact ⟨t, run, found.1, found.2, writable_within_lease (by decide) (by decide) run found.2⟩

private def plain (t : State) (event : Event) : Bool :=
  !decide (SinglePoint t.agent.loop) &&
  match event with
  | .call _ _ call => !isHttp call
  | _ => true

private theorem plain_of_check {t : State} {event : Event} (check : plain t event = true) :
    Plain t event := by
  unfold plain at check
  simp only [Bool.and_eq_true, Bool.not_eq_true', decide_eq_false_iff_not] at check
  refine ⟨check.1, ?_⟩
  rintro etcd nodes call rfl
  simpa using check.2

/-- The answer of the campaign arrives twelve seconds after a grant for ten. The
agent counts the lease from the answer and makes its service writable. -/
theorem writable_after_late_answer :
    ∃ t held, Run (step ⟨false, 10, 5⟩) Plain (init "a" ⟨false, 10, 5⟩ 0) t ∧
      t.agent.writable = true ∧ t.obtained = some 1 ∧ t.leases 1 = some held ∧
      held.deadline < t.now := by
  have ran : (exec (restrict (step ⟨false, 10, 5⟩) plain) (init "a" ⟨false, 10, 5⟩ 0)
      [.start "u", .call .empty [] .read, .grantProcessed 1, .grantReceived, .txnProcessed true,
        .elapse (seconds 12), .txnReceived 1, .monitorFires ⟨seconds 12, some 0⟩,
        .call .empty [] (.service .ok), .call .empty [] .loadPromotion,
        .call .empty [] (.service .ok)]).any
      (fun t => t.agent.writable && t.obtained == some 1 &&
        (t.leases 1).any fun held => held.deadline.blt t.now) = true := by
    decide +kernel
  obtain ⟨t, run, found⟩ := exists_run_of_exec (fun _ _ => plain_of_check) ran
  simp only [Bool.and_eq_true, beq_iff_eq] at found
  obtain ⟨⟨writable, obtained⟩, expired⟩ := found
  obtain ⟨held, leased, late⟩ := (Option.any_eq_true _ _).mp expired
  exact ⟨t, held, run, writable, obtained, leased, Nat.blt_eq.mp late⟩

end Moha.LeaseSafety
