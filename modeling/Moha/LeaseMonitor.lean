import Moha.LeaderRecord
import Moha.Runs

/-! The lease monitor on the clock: `leader.go::leaseExpireMonitorLoop` and the
renewals that move its deadline by `updateLeaseExpireTS`. The clock counts
nanoseconds since the Unix epoch and never goes back, durations are `int64`
nanoseconds, and timers fire on time: the clock waits for a timer that is due, and
the body of the loop takes no time. -/
namespace Moha.LeaseMonitor
open LeaderRecord Runs

/-- `t.Unix()`: whole seconds. -/
def unix (t : Int) : Int := t / 1000000000

/-- `time.Duration(n) * time.Second`. -/
def durationSeconds (n : Int) : Int := (n * 1000000000).bmod (2 ^ 64)

/-- `leader.go::updateLeaseExpireTS`. -/
def updateLeaseExpireTS (cfg : Config) (now : Int) : Int :=
  unix (now + durationSeconds cfg.leaderLeaseTTL + durationSeconds (-cfg.shutdownThreshold))

/-- The monitor goroutine: not started, in its `select` with the timer due at
`wake`, returned on a stop channel or context, or past `forceClose`, which exits
the process. -/
inductive Monitor where
  | unstarted
  | waiting (wake : Int)
  | returned
  | forceClosed
  deriving DecidableEq, Repr

structure State where
  now : Int
  /-- When the deadline was last updated. -/
  updated : Option Int := none
  leaseExpireTS : Int := 0
  monitor : Monitor := .unstarted
  deriving DecidableEq, Repr

def init (now : Int) : State where
  now := now

inductive Event where
  | elapse (duration : Nat)
  | update
  | start
  | fire
  | stop
  deriving DecidableEq, Repr

/-- The body of the loop when its timer fires. -/
def State.fire (s : State) : State :=
  let delta := s.leaseExpireTS - unix s.now
  if delta ≤ 0 then { s with monitor := .forceClosed }
  else { s with monitor := .waiting (s.now + max 0 (durationSeconds delta)) }

/-- A step on the clock; `none` when the event is not enabled. -/
def step (cfg : Config) (s : State) : Event → Option State
  | .elapse duration =>
    match s.monitor with
    | .waiting wake =>
      if s.now + duration ≤ wake then some { s with now := s.now + duration } else none
    | _ => some { s with now := s.now + duration }
  | .update =>
    if s.monitor = .forceClosed then none
    else some { s with
      updated := some s.now, leaseExpireTS := updateLeaseExpireTS cfg s.now }
  | .start =>
    -- the timer is `time.NewTimer(0)`
    if s.monitor = .unstarted then some { s with monitor := .waiting s.now } else none
  | .fire => if s.monitor = .waiting s.now then some s.fire else none
  | .stop =>
    match s.monitor with
    | .waiting _ => some { s with monitor := .returned }
    | _ => none

/-- The monitor starts after the first update, in a second before the deadline. -/
def Prepared (s : State) (e : Event) : Prop :=
  e = .start → s.updated ≠ none ∧ unix s.now < s.leaseExpireTS

/-- Only time passes and timers fire. -/
def Unrenewed (_ : State) : Event → Prop
  | .elapse _ | .fire => True
  | _ => False

theorem Unrenewed.prepared {s : State} {e : Event} (unrenewed : Unrenewed s e) : Prepared s e := by
  rintro rfl
  cases unrenewed

/-- The timer fires now and the loop calls `forceClose`. -/
def ForceCloses (cfg : Config) (s : State) : Prop :=
  ∃ after, step cfg s .fire = some after ∧ after.monitor = .forceClosed

/-- The seconds between a renewal and the deadline. -/
def margin (cfg : Config) : Int := cfg.leaderLeaseTTL - cfg.shutdownThreshold

/-- The second in which the monitor closes the server after an update at `u`. -/
structure InWindow (cfg : Config) (u now : Int) : Prop where
  reached : (unix u + margin cfg) * 1000000000 ≤ now
  within : now < (unix u + margin cfg + 1) * 1000000000

theorem durationSeconds_eq {n : Int} (low : -1000000000 ≤ n) (high : n ≤ 1000000000) :
    durationSeconds n = n * 1000000000 := by
  refine Int.bmod_eq_of_le ?_ ?_ <;> omega

section Bounded
variable {cfg : Config} (ttl : cfg.leaderLeaseTTL ≤ 1000000000)
  (threshold : cfg.shutdownThreshold ≤ 1000000000)
include ttl threshold

/-- The two durations do not overflow, so the deadline is a whole number of seconds
after the second of the update. -/
theorem updateLeaseExpireTS_eq (now : Int) :
    updateLeaseExpireTS cfg now = unix now + margin cfg := by
  rw [updateLeaseExpireTS, durationSeconds_eq (by omega) (by omega),
    durationSeconds_eq (by omega) (by omega), unix, unix, margin]
  omega

end Bounded

/-- The deadline is that of the last update, and the timer is due no later than in
the second of the deadline. -/
structure Armed (cfg : Config) (s : State) : Prop where
  recorded : ∀ u, s.updated = some u → u ≤ s.now ∧ s.leaseExpireTS = unix u + margin cfg
  due : ∀ wake, s.monitor = .waiting wake →
    s.updated ≠ none ∧ s.now ≤ wake ∧ unix wake ≤ s.leaseExpireTS

theorem armed_init (cfg : Config) (now : Int) : Armed cfg (init now) where
  recorded := fun _ none => nomatch none
  due := fun _ waiting => nomatch waiting

theorem unix_le_unix {t u : Int} (le : t ≤ u) : unix t ≤ unix u :=
  Int.ediv_le_ediv (by decide) le

/-- What the loop does when its timer fires: in the second of the deadline it closes
the server, before it sleeps into that second. -/
inductive Fired (s : State) : State → Prop where
  | closes (second : unix s.now = s.leaseExpireTS) : Fired s { s with monitor := .forceClosed }
  | sleeps {wake : Int} (later : s.now ≤ wake) (second : unix wake = s.leaseExpireTS) :
      Fired s { s with monitor := .waiting wake }

theorem Armed.fired {cfg : Config} {s : State} (armed : Armed cfg s)
    (ttl : cfg.leaderLeaseTTL ≤ 1000000000) (due : s.monitor = .waiting s.now) :
    Fired s s.fire := by
  obtain ⟨updated, _, second⟩ := armed.due s.now due
  obtain ⟨u, last⟩ := Option.ne_none_iff_exists'.mp updated
  obtain ⟨past, deadline⟩ := armed.recorded u last
  unfold State.fire
  dsimp only
  split
  · exact .closes (by omega)
  · rename_i early
    -- the sleep is at most the time from a renewal to its deadline
    have sleep : s.leaseExpireTS - unix s.now ≤ 1000000000 := by
      have order := unix_le_unix past
      rw [deadline, margin]
      omega
    rw [durationSeconds_eq (by omega) sleep, Int.max_eq_right (by omega)]
    refine .sleeps (by omega) ?_
    simp only [unix] at early ⊢
    omega

theorem armed_step {cfg : Config} (ttl : cfg.leaderLeaseTTL ≤ 1000000000)
    (threshold : cfg.shutdownThreshold ≤ 1000000000) {s s' : State} {e : Event}
    (armed : Armed cfg s) (prepared : Prepared s e) (taken : step cfg s e = some s') :
    Armed cfg s' := by
  cases e with
  | elapse duration =>
    simp only [step] at taken
    have later : ∀ u, s.updated = some u →
        u ≤ s.now + duration ∧ s.leaseExpireTS = unix u + margin cfg := fun u last =>
      ⟨Int.le_trans (armed.recorded u last).1 (by omega), (armed.recorded u last).2⟩
    split at taken
    · rename_i wake waiting
      split at taken <;> cases taken
      rename_i inTime
      refine ⟨later, ?_⟩
      rintro other same
      obtain ⟨updated, _, second⟩ := armed.due other same
      cases waiting.symm.trans same
      exact ⟨updated, inTime, second⟩
    · rename_i idle
      cases taken
      exact ⟨later, fun wake waiting => absurd waiting (idle wake)⟩
  | update =>
    simp only [step] at taken
    split at taken <;> cases taken
    rw [updateLeaseExpireTS_eq ttl threshold]
    refine ⟨?_, ?_⟩
    · rintro _ ⟨⟩
      exact ⟨Int.le_refl _, rfl⟩
    · intro wake waiting
      obtain ⟨updated, inTime, second⟩ := armed.due wake waiting
      obtain ⟨u, last⟩ := Option.ne_none_iff_exists'.mp updated
      obtain ⟨past, deadline⟩ := armed.recorded u last
      refine ⟨nofun, inTime, ?_⟩
      -- a later update only moves the deadline on
      calc unix wake ≤ unix u + margin cfg := deadline ▸ second
        _ ≤ unix s.now + margin cfg := by
          have order := unix_le_unix past
          omega
  | start =>
    simp only [step] at taken
    split at taken <;> cases taken
    obtain ⟨updated, before⟩ := prepared rfl
    refine ⟨armed.recorded, ?_⟩
    rintro _ ⟨⟩
    exact ⟨updated, Int.le_refl _, Int.le_of_lt before⟩
  | fire =>
    simp only [step] at taken
    split at taken <;> cases taken
    rename_i due
    have updated := (armed.due s.now due).1
    have fired := armed.fired ttl due
    generalize s.fire = after at fired ⊢
    cases fired with
    | closes => exact ⟨armed.recorded, fun _ waiting => nomatch waiting⟩
    | sleeps later second =>
      refine ⟨armed.recorded, ?_⟩
      rintro _ ⟨⟩
      exact ⟨updated, later, Int.le_of_eq second⟩
  | stop =>
    simp only [step] at taken
    split at taken <;> cases taken
    exact ⟨armed.recorded, fun _ waiting => nomatch waiting⟩

/-- In the second of the deadline the timer that is due closes the server. -/
theorem forceCloses_of_second {cfg : Config} {s : State} (due : s.monitor = .waiting s.now)
    (second : unix s.now = s.leaseExpireTS) : ForceCloses cfg s := by
  refine ⟨s.fire, if_pos due, ?_⟩
  simp [State.fire, second]

/-- A forced close happens in the second of the deadline. -/
theorem Armed.second {cfg : Config} {s : State} (armed : Armed cfg s)
    (ttl : cfg.leaderLeaseTTL ≤ 1000000000) (closes : ForceCloses cfg s) :
    unix s.now = s.leaseExpireTS ∧ s.updated ≠ none := by
  obtain ⟨after, taken, closed⟩ := closes
  simp only [step] at taken
  split at taken <;> cases taken
  rename_i due
  have fired := armed.fired ttl due
  generalize s.fire = after at fired closed
  cases fired with
  | closes second => exact ⟨second, (armed.due s.now due).1⟩
  | sleeps => cases closed

/-- The clock can go on to the time at which the timer is due. -/
theorem Armed.elapse {cfg : Config} {s : State} {wake : Int} (armed : Armed cfg s)
    (waiting : s.monitor = .waiting wake) :
    ∃ duration, step cfg s (.elapse duration) = some { s with now := wake } := by
  obtain ⟨_, inTime, _⟩ := armed.due wake waiting
  obtain ⟨duration, reaches⟩ := Int.le.dest inTime
  exact ⟨duration, by simp [step, waiting, reaches]⟩

/-- Without renewals the monitor closes the server when its timer fires the next
time, or the time after. -/
theorem Armed.closes {cfg : Config} {s : State} (armed : Armed cfg s)
    (ttl : cfg.leaderLeaseTTL ≤ 1000000000) (threshold : cfg.shutdownThreshold ≤ 1000000000)
    {wake : Int} (waiting : s.monitor = .waiting wake) :
    ∃ t, Run (step cfg) Unrenewed s t ∧ ForceCloses cfg t ∧ t.updated = s.updated := by
  have next : ∀ {s : State} {wake : Int}, Armed cfg s → s.monitor = .waiting wake →
      Run (step cfg) Unrenewed s { s with now := wake } ∧ Armed cfg { s with now := wake } := by
    intro s wake armed waiting
    obtain ⟨duration, elapsed⟩ := armed.elapse waiting
    have quiet : Unrenewed s (.elapse duration) := trivial
    exact ⟨.single quiet elapsed, armed_step ttl threshold armed quiet.prepared elapsed⟩
  obtain ⟨first, awake⟩ := next armed waiting
  have fired := awake.fired ttl waiting
  have taken : step cfg { s with now := wake } .fire = some { s with now := wake }.fire :=
    if_pos waiting
  have quiet : Unrenewed { s with now := wake } .fire := trivial
  generalize State.fire { s with now := wake } = after at fired taken
  cases fired with
  | closes second => exact ⟨_, first, forceCloses_of_second waiting second, rfl⟩
  | @sleeps again later second =>
    obtain ⟨slept, _⟩ := next (armed_step ttl threshold awake quiet.prepared taken) rfl
    exact ⟨_, (first.snoc quiet taken).trans slept, forceCloses_of_second rfl second, rfl⟩

theorem inWindow_of_second {cfg : Config} {u now : Int} (second : unix now = unix u + margin cfg) :
    InWindow cfg u now := by
  unfold unix at second
  constructor <;> unfold unix <;> omega

/-- The monitor closes the server exactly when renewals stop. It never does so in a
second before the recorded deadline, and always within the second that begins
`margin` seconds after the second of the last update. As long as it waits that
second has not passed, and without a further update or stop it does close. -/
theorem lease_monitor_fires_when_renewals_stop {cfg : Config}
    (ttl : cfg.leaderLeaseTTL ≤ 1000000000) (threshold : cfg.shutdownThreshold ≤ 1000000000)
    {now : Int} {s : State} (run : Run (step cfg) Prepared (init now) s) :
    (ForceCloses cfg s → ¬ unix s.now < s.leaseExpireTS ∧
      ∃ u, s.updated = some u ∧ InWindow cfg u s.now) ∧
    ∀ wake, s.monitor = .waiting wake → ∃ u, s.updated = some u ∧
      s.now < (unix u + margin cfg + 1) * 1000000000 ∧
      ∃ t, Run (step cfg) Unrenewed s t ∧ ForceCloses cfg t ∧ t.updated = some u ∧
        InWindow cfg u t.now := by
  have armed : ∀ {t : State}, Run (step cfg) Prepared (init now) t → Armed cfg t := fun run =>
    run.invariant (armed_init cfg now) (armed_step ttl threshold)
  have window : ∀ {t : State} {u : Int}, Armed cfg t → ForceCloses cfg t → t.updated = some u →
      InWindow cfg u t.now := fun armed closes last =>
    inWindow_of_second ((armed.second ttl closes).1.trans (armed.recorded _ last).2)
  refine ⟨fun closes => ?_, fun wake waiting => ?_⟩
  · obtain ⟨second, updated⟩ := (armed run).second ttl closes
    obtain ⟨u, last⟩ := Option.ne_none_iff_exists'.mp updated
    exact ⟨by omega, u, last, window (armed run) closes last⟩
  · obtain ⟨updated, inTime, due⟩ := (armed run).due wake waiting
    obtain ⟨u, last⟩ := Option.ne_none_iff_exists'.mp updated
    refine ⟨u, last, ?_, ?_⟩
    · have order := Int.le_trans (unix_le_unix inTime) due
      rw [((armed run).recorded u last).2, unix] at order
      omega
    · obtain ⟨t, quiet, closes, same⟩ := (armed run).closes ttl threshold waiting
      have reached := run.trans (quiet.weaken fun _ _ => Unrenewed.prepared)
      exact ⟨t, quiet, closes, same.trans last, window (armed reached) closes (same.trans last)⟩

private def prepared (s : State) (e : Event) : Bool :=
  e != .start || (s.updated.isSome && decide (unix s.now < s.leaseExpireTS))

private theorem prepared_of_check {s : State} {e : Event} (check : prepared s e = true) :
    Prepared s e := by
  rintro rfl
  obtain ⟨updated, before⟩ := Bool.and_eq_true_iff.mp check
  exact ⟨Option.isSome_iff_ne_none.mp updated, of_decide_eq_true before⟩

/-- With a lease of ten seconds and a threshold of five: an update late in second 0,
the monitor starts, a renewal late in second 1, and the timer that was set for second
5 is set again for second 6. -/
theorem lease_monitor_fires_when_renewals_stop_after_renewal :
    ∃ s, Run (step ⟨false, 10, 5⟩) Prepared (init 700000000) s ∧
      ForceCloses ⟨false, 10, 5⟩ s ∧ ¬ unix s.now < s.leaseExpireTS ∧
      InWindow ⟨false, 10, 5⟩ 1900000000 s.now := by
  have ran : (exec (restrict (step ⟨false, 10, 5⟩) prepared) (init 700000000)
      [.update, .elapse 100000000, .start, .fire, .elapse 1100000000, .update,
        .elapse 3900000000, .fire, .elapse 1000000000]).any (fun s =>
        (step ⟨false, 10, 5⟩ s .fire).any (fun after => after.monitor == .forceClosed) &&
          s.updated == some 1900000000) = true := by
    decide +kernel
  obtain ⟨s, run, found⟩ := exists_run_of_exec (fun _ _ => prepared_of_check) ran
  obtain ⟨fires, last⟩ := Bool.and_eq_true_iff.mp found
  obtain ⟨after, taken, closed⟩ := (Option.any_eq_true _ _).mp fires
  have closes : ForceCloses ⟨false, 10, 5⟩ s := ⟨after, taken, eq_of_beq closed⟩
  obtain ⟨inTime, u, same, window⟩ :=
    (lease_monitor_fires_when_renewals_stop (by decide) (by decide) run).1 closes
  cases (eq_of_beq last).symm.trans same
  exact ⟨s, run, closes, inTime, window⟩

end Moha.LeaseMonitor
