import Moha.Runs
import Mathlib.Logic.Function.Basic

/-! The life of an agent process, `cmd/mysql-agent/main.go` with `Parse`,
`NewServer`, `Start`, `waitUtilPortAlive` and `Close`: how it comes up, and how
these end it. Three goroutines call `Close`: the one that waits for a signal, the
deferred functions of `leaderLoop` and `startBinlogMonitorLoop`, and `leaderLoop`
also in its body, after an invalid answer and after a failed `preWatch`. The
compare-and-swap at its head lets one call through, as long as `Start` does not
set the flag back after a signal that came too early. A panic of the call in the
body of `leaderLoop` is recovered, and nobody goes on with `Close` after it. -/
namespace Moha.ProcessLife
open Runs

/-- What makes a goroutine panic. A panic that is not recovered ends the process
with status 2. -/
inductive Panic where
  /-- A method of the service manager, which is nil until `Start` has set it, and
  stays so for a service type it does not know. -/
  | nilServiceManager
  | closeOfClosedChannel
  /-- `httpSrv.Shutdown(nil)` looks at its context unless all connections are idle. -/
  | nilContext
  deriving DecidableEq, Repr

/-- How the process ends. -/
inductive Exit where
  | clean
  /-- `Parse` after `-h` or `-V`. -/
  | usage
  | badFlag
  | badConfig
  | startError
  | newServerError
  | forceClose
  | panic (cause : Panic)
  deriving DecidableEq, Repr

def Exit.status : Exit → Nat
  | .clean | .usage => 0
  | .badConfig => 1
  | .badFlag | .startError | .panic _ => 2
  | .newServerError | .forceClose => 3

/-- Where the main goroutine is: in `main` before `NewServer` has returned, and in
`Start`. -/
inductive Main where
  | parse
  | newServer
  | markStarted
  | initHTTPServer
  | isPortAlive
  | doubleFork
  | waitPort
  | sendTimeout
  | newServiceManager
  | setReadOnly
  | spawn
  | shutdown
  deriving DecidableEq, Repr

/-- The goroutine of `waitUtilPortAlive`. -/
inductive Poller where
  | absent
  | select
  | dial
  | sleep
  | returned
  deriving DecidableEq, Repr

/-- The next step of `Close`. -/
inductive Stage where
  | compareAndSwap
  | setReadOnly
  | closeServiceManager
  | closeRegisterStopCh
  | unregister
  | cancel
  | deleteLeaderKey
  | shutdownHTTP
  | closeShutdownCh
  deriving DecidableEq, Repr

inductive Goroutine where
  | signal
  | leaderLoop
  | monitor
  deriving DecidableEq, Repr

/-- A goroutine that calls `Close`. The call is `guarded` when a panic of it is
recovered; `ended` is after its last one. -/
inductive Closer where
  | absent
  | running
  | closing (guarded : Bool) (stage : Stage)
  | ended
  deriving DecidableEq, Repr

structure State where
  main : Main := .parse
  poller : Poller := .absent
  closers : Goroutine → Closer := fun _ => .absent
  isClosed : Bool := false
  serviceManager : Bool := false
  registerStopChClosed : Bool := false
  shutdownChClosed : Bool := false
  /-- The panic of `Close` that `leaderLoop` has recovered. -/
  recovered : Option Panic := none
  exit : Option Exit := none

/-- What came of the call a goroutine makes. `unknown` is a flag that is not
defined, or a service type that is neither `mysql` nor `postgresql`; `usage` is a
request for the usage or the version. -/
inductive Outcome where
  | ok
  | failed
  | unknown
  | usage
  deriving DecidableEq, Repr

inductive Event where
  | main (outcome : Outcome)
  | timeout
  | poller (alive : Bool)
  /-- A signal that `main` waits for arrives, or one of the two loops returns or
  panics. -/
  | ends (g : Goroutine)
  /-- `leaderLoop` calls `Close` in its body. -/
  | closes
  | close (g : Goroutine) (ok : Bool)
  /-- `forceClose`, by `setServiceReadonlyOrShutdown` or by the lease monitor. -/
  | forceClose
  deriving DecidableEq, Repr

def State.exits (s : State) (exit : Exit) : State := { s with exit := some exit }

def State.setCloser (s : State) (g : Goroutine) (closer : Closer) : State :=
  { s with closers := Function.update s.closers g closer }

def State.goTo (s : State) (main : Main) : State := { s with main := main }

/-- `main` and `Start`. -/
def stepMain (s : State) (outcome : Outcome) : Option State :=
  match s.main, outcome with
  | .parse, .ok => some (s.goTo .newServer)
  | .parse, .usage => some (s.exits .usage)
  | .parse, .unknown => some (s.exits .badFlag)
  | .parse, .failed => some (s.exits .badConfig)
  | .newServer, .ok => some ((s.goTo .markStarted).setCloser .signal .running)
  | .newServer, _ => some (s.exits .newServerError)
  | .markStarted, _ => some { s.goTo .initHTTPServer with isClosed := false }
  | .initHTTPServer, .ok => some (s.goTo .isPortAlive)
  | .initHTTPServer, _ => some (s.exits .startError)
  | .isPortAlive, .ok => some (s.goTo .newServiceManager)
  | .isPortAlive, _ => some (s.goTo .doubleFork)
  | .doubleFork, .ok => some { s.goTo .waitPort with poller := .select }
  | .doubleFork, _ => some (s.exits .startError)
  -- The channel of the poller is closed when it returns.
  | .waitPort, _ => if s.poller = .returned then some (s.goTo .newServiceManager) else none
  -- An unbuffered channel: the poller has to be at its `select`.
  | .sendTimeout, _ =>
    if s.poller = .select then some ({ s with poller := .returned }.exits .startError) else none
  | .newServiceManager, .ok => some { s.goTo .setReadOnly with serviceManager := true }
  | .newServiceManager, .unknown => some (s.goTo .setReadOnly)
  | .newServiceManager, _ => some (s.exits .startError)
  | .setReadOnly, outcome =>
    if s.serviceManager then some (if outcome = .ok then s.goTo .spawn else s)
    else some (s.exits (.panic .nilServiceManager))
  | .spawn, _ =>
    some (((s.goTo .shutdown).setCloser .leaderLoop .running).setCloser .monitor .running)
  | .shutdown, _ => if s.shutdownChClosed then some (s.exits .clean) else none

/-- The loop of `waitUtilPortAlive`. Its `select` takes the default case only when
nothing is sent. -/
def stepPoller (s : State) (alive : Bool) : Option State :=
  match s.poller with
  | .select => if s.main = .sendTimeout then none else some { s with poller := .dial }
  | .dial => some { s with poller := if alive then .returned else .sleep }
  | .sleep => some { s with poller := .select }
  | .absent | .returned => none

/-- `Close` returns. The goroutine of the signal then exits, and `leaderLoop` goes on
after the call in its body. -/
def State.returns (s : State) (g : Goroutine) (guarded : Bool) : State :=
  if guarded then s.setCloser g .running
  else if g = .signal then (s.setCloser g .ended).exits .clean
  else s.setCloser g .ended

/-- `Close` panics. `recover` is called in the deferred function, which then calls
`Close` once more. -/
def State.panics (s : State) (g : Goroutine) (guarded : Bool) (cause : Panic) : State :=
  if guarded then
    { s with recovered := some cause }.setCloser g (.closing false .compareAndSwap)
  else s.exits (.panic cause)

/-- `Close`, called by `g`; `ok` is false when `SetReadOnly` fails, or when the HTTP
server is busy. -/
def stepClose (s : State) (g : Goroutine) (ok : Bool) : Option State :=
  match s.closers g with
  | .closing guarded .compareAndSwap =>
    if s.isClosed then some (s.returns g guarded)
    else some ({ s with isClosed := true }.setCloser g (.closing guarded .setReadOnly))
  | .closing guarded .setReadOnly =>
    if s.serviceManager then
      if ok then some (s.setCloser g (.closing guarded .closeServiceManager))
      else some (s.exits .forceClose)
    else some (s.panics g guarded .nilServiceManager)
  | .closing guarded .closeServiceManager =>
    some (s.setCloser g (.closing guarded .closeRegisterStopCh))
  | .closing guarded .closeRegisterStopCh =>
    if s.registerStopChClosed then some (s.panics g guarded .closeOfClosedChannel)
    else some ({ s with registerStopChClosed := true }.setCloser g (.closing guarded .unregister))
  | .closing guarded .unregister => some (s.setCloser g (.closing guarded .cancel))
  | .closing guarded .cancel => some (s.setCloser g (.closing guarded .deleteLeaderKey))
  | .closing guarded .deleteLeaderKey => some (s.setCloser g (.closing guarded .shutdownHTTP))
  | .closing guarded .shutdownHTTP =>
    if ok then some (s.setCloser g (.closing guarded .closeShutdownCh))
    else some (s.panics g guarded .nilContext)
  | .closing guarded .closeShutdownCh =>
    if s.shutdownChClosed then some (s.panics g guarded .closeOfClosedChannel)
    else some ({ s with shutdownChClosed := true }.returns g guarded)
  | .absent | .running | .ended => none

/-- A step of a process that has not ended. -/
def step (s : State) (event : Event) : Option State :=
  if s.exit = none then
    match event with
    | .main outcome => stepMain s outcome
    | .timeout => if s.main = .waitPort then some (s.goTo .sendTimeout) else none
    | .poller alive => stepPoller s alive
    | .ends g =>
      if s.closers g = .running then some (s.setCloser g (.closing false .compareAndSwap))
      else none
    | .closes =>
      if s.closers .leaderLoop = .running then
        some (s.setCloser .leaderLoop (.closing true .compareAndSwap))
      else none
    | .close g ok => stepClose s g ok
    | .forceClose => if s.main = .shutdown then some (s.exits .forceClose) else none
  else none

def init : State := {}

/-! ### One goroutine closes the server -/

/-- Past the compare-and-swap. -/
def Closer.inside : Closer → Bool
  | .closing _ .compareAndSwap | .absent | .running | .ended => false
  | .closing .. => true

/-- Past the close of `registerStopCh`. -/
def Closer.unregistered : Closer → Bool
  | .closing _ .unregister | .closing _ .cancel | .closing _ .deleteLeaderKey
  | .closing _ .shutdownHTTP | .closing _ .closeShutdownCh => true
  | _ => false

theorem Closer.inside_of_unregistered {closer : Closer} (past : closer.unregistered = true) :
    closer.inside = true := by
  cases closer with
  | closing guarded stage => cases stage <;> simp_all [Closer.unregistered, Closer.inside]
  | absent | running | ended => simp_all [Closer.unregistered]

/-- Nobody goes on with `Close` any more: it has been gone through, or its panic has
been recovered. -/
def State.Over (s : State) : Prop := s.shutdownChClosed = true ∨ s.recovered ≠ none

/-- The process ends with status 0 when `Close` has been gone through, when
`leaderLoop` has recovered from its panic, or when the signal finds another
goroutine on its way through it. -/
def State.CleanlyEnded (s : State) : Prop :=
  s.Over ∨ s.closers .signal = .ended ∧
    ∃ g guarded stage, g ≠ .signal ∧ s.closers g = .closing guarded stage ∧
      stage ≠ .compareAndSwap

/-- `Start` has not marked the server as started. -/
def Main.early : Main → Bool
  | .parse | .newServer | .markStarted => true
  | _ => false

/-- Which goroutines there are, by how far `main` has come. -/
structure Spawned (s : State) : Prop where
  loops : s.main ≠ .shutdown → s.closers .leaderLoop = .absent ∧ s.closers .monitor = .absent
  unmade : s.main = .parse ∨ s.main = .newServer → s.closers .signal = .absent
  unstarted : s.main = .markStarted → s.closers .signal = .running
  unclosed : s.main.early = true → s.isClosed = false

/-- The flag is up when a goroutine is inside or the closing is over, there is one
inside at most, and `registerStopCh` is closed by it. -/
structure Closing (s : State) : Prop where
  flag : s.isClosed = true ↔ (∃ g, (s.closers g).inside = true) ∨ s.Over
  one : ∀ g g', (s.closers g).inside = true → (s.closers g').inside = true → g = g'
  finished : s.Over → ∀ g, (s.closers g).inside = false
  register : s.registerStopChClosed = true → (∃ g, (s.closers g).unregistered = true) ∨ s.Over

structure Ended (s : State) : Prop where
  once : s.exit ≠ some (.panic .closeOfClosedChannel)
  clean : s.exit = some .clean → s.CleanlyEnded

structure Orderly (s : State) : Prop where
  spawned : Spawned s
  closing : Closing s
  recovered : s.recovered ≠ some .closeOfClosedChannel
  ended : Ended s

theorem init_orderly : Orderly init where
  spawned := ⟨fun _ => ⟨rfl, rfl⟩, fun _ => rfl, fun held => by simp [init] at held, fun _ => rfl⟩
  closing := by
    refine ⟨?_, fun _ _ held => ?_, fun _ _ => rfl, fun held => ?_⟩ <;>
      simp_all [init, Closer.inside, State.Over]
  recovered := by simp [init]
  ended := ⟨by simp [init], fun held => by simp [init] at held⟩

variable {s t : State} {g : Goroutine} {closer : Closer}

theorem setCloser_self : (s.setCloser g closer).closers g = closer := Function.update_self ..

theorem setCloser_of_ne {g' : Goroutine} (ne : g' ≠ g) :
    (s.setCloser g closer).closers g' = s.closers g' := Function.update_of_ne ne ..

/-- A process that goes on has not ended. -/
theorem ended_of_running (running : s.exit = none) : Ended s := by
  constructor
  · simp [running]
  · intro held
    rw [running] at held
    contradiction

/-- What `main` shares with the goroutines that close the server. -/
structure SameClosers (s t : State) : Prop where
  closers : t.closers = s.closers
  isClosed : t.isClosed = s.isClosed
  register : t.registerStopChClosed = s.registerStopChClosed
  shutdown : t.shutdownChClosed = s.shutdownChClosed
  recovered : t.recovered = s.recovered

theorem SameClosers.finished (same : SameClosers s t) : t.Over ↔ s.Over := by
  unfold State.Over
  rw [same.shutdown, same.recovered]

theorem Closing.of_same (closing : Closing s) (same : SameClosers s t) : Closing t := by
  refine ⟨?_, ?_, ?_, ?_⟩ <;> rw [same.closers]
  · rw [same.isClosed, same.finished]
    exact closing.flag
  · exact closing.one
  · rw [same.finished]
    exact closing.finished
  · rw [same.register, same.finished]
    exact closing.register

theorem Spawned.of_same (spawned : Spawned s) (same : SameClosers s t) (main : t.main = s.main) :
    Spawned t := by
  refine ⟨?_, ?_, ?_, ?_⟩ <;> rw [main]
  · rw [same.closers]
    exact spawned.loops
  · rw [same.closers]
    exact spawned.unmade
  · rw [same.closers]
    exact spawned.unstarted
  · rw [same.isClosed]
    exact spawned.unclosed

/-- The process ends, cleanly or not. -/
theorem Orderly.exits (orderly : Orderly s) {exit : Exit} (same : SameClosers s t)
    (main : t.main = s.main) (ends : t.exit = some exit)
    (once : exit ≠ .panic .closeOfClosedChannel) (clean : exit = .clean → s.CleanlyEnded) :
    Orderly t where
  spawned := orderly.spawned.of_same same main
  closing := orderly.closing.of_same same
  recovered := same.recovered ▸ orderly.recovered
  ended := by
    refine ⟨fun held => once (Option.some.inj (ends.symm.trans held)), fun held => ?_⟩
    unfold State.CleanlyEnded
    rw [same.closers, same.finished]
    exact clean (Option.some.inj (ends.symm.trans held))

/-- `main` goes on without touching the goroutines. -/
theorem Orderly.goTo (orderly : Orderly s) (same : SameClosers s t) (running : t.exit = none)
    (was : s.main ≠ .shutdown) (unmade : t.main = .newServer → s.main = .parse)
    (unparsed : t.main ≠ .parse) (unstarted : t.main ≠ .markStarted) : Orderly t where
  spawned := by
    refine ⟨fun _ => ?_, fun held => ?_, fun held => absurd held unstarted, fun held => ?_⟩
    · rw [same.closers]
      exact orderly.spawned.loops was
    · rw [same.closers]
      exact orderly.spawned.unmade (.inl (unmade (held.resolve_left unparsed)))
    · have parsing : s.main = .parse := by
        cases position : t.main <;> simp_all [Main.early]
      rw [same.isClosed]
      exact orderly.spawned.unclosed (by rw [parsing]; rfl)
  closing := orderly.closing.of_same same
  recovered := same.recovered ▸ orderly.recovered
  ended := ended_of_running running

/-- A goroutine that is there goes on. -/
theorem Spawned.setCloser (spawned : Spawned s) (started : s.main.early = false)
    (present : s.closers g ≠ .absent) (main : t.main = s.main)
    (closers : t.closers = Function.update s.closers g closer) : Spawned t := by
  have late : ∀ {position : Main}, position.early = true → t.main ≠ position := by
    rintro _ early rfl
    rw [main, started] at early
    contradiction
  refine ⟨fun held => ?_, fun held => ?_, fun held => absurd held (late rfl), fun held => ?_⟩
  · obtain ⟨loop, monitor⟩ := spawned.loops (main ▸ held)
    have notLoop : g ≠ .leaderLoop := fun self => present (self ▸ loop)
    have notMonitor : g ≠ .monitor := fun self => present (self ▸ monitor)
    rw [closers, Function.update_of_ne notLoop.symm, Function.update_of_ne notMonitor.symm]
    exact ⟨loop, monitor⟩
  · exact absurd held (not_or.mpr ⟨late rfl, late rfl⟩)
  · exact absurd rfl (late held)

/-- It goes on, on its side of the compare-and-swap. -/
theorem Closing.setCloser (closing : Closing s)
    (inside : closer.inside = (s.closers g).inside)
    (past : (s.closers g).unregistered = true → closer.unregistered = true) :
    Closing (s.setCloser g closer) := by
  have same : ∀ g', ((s.setCloser g closer).closers g').inside = (s.closers g').inside := by
    intro g'
    by_cases self : g' = g
    · subst self
      rw [setCloser_self, inside]
    · rw [setCloser_of_ne self]
  refine ⟨?_, fun g' g'' => ?_, fun finished g' => ?_, fun held => ?_⟩
  · simp only [same]
    exact closing.flag
  · rw [same, same]
    exact closing.one g' g''
  · rw [same]
    exact closing.finished finished g'
  · refine (closing.register held).imp (fun ⟨g', stopped⟩ => ?_) id
    by_cases self : g' = g
    · subst self
      exact ⟨g', by rw [setCloser_self]; exact past stopped⟩
    · exact ⟨g', by rwa [setCloser_of_ne self]⟩

/-- The goroutine that was inside leaves, and the closing is over. -/
theorem Closing.leave (closing : Closing s) (was : (s.closers g).inside = true)
    (outside : closer.inside = false) (after : t.closers = Function.update s.closers g closer)
    (kept : t.isClosed = s.isClosed) (finished : t.Over) : Closing t := by
  have nobody : ∀ g', (t.closers g').inside = false := by
    intro g'
    rw [after]
    by_cases self : g' = g
    · subst self
      rwa [Function.update_self]
    · rw [Function.update_of_ne self, Bool.eq_false_iff]
      exact fun inside => self (closing.one g' g inside was)
  refine ⟨?_, fun g' _ inside => ?_, fun _ => nobody, fun _ => .inr finished⟩
  · rw [kept]
    exact ⟨fun _ => .inr finished, fun _ => closing.flag.mpr (.inl ⟨g, was⟩)⟩
  · rw [nobody g'] at inside
    contradiction

/-- While the flag is down nobody is inside, and the closing is not over. -/
theorem Closing.outside (closing : Closing s) (free : s.isClosed = false) :
    (∀ g, (s.closers g).inside = false) ∧ ¬ s.Over := by
  have down : ¬ s.isClosed = true := by simp [free]
  rw [closing.flag, not_or] at down
  exact ⟨fun g => Bool.eq_false_iff.mpr fun inside => down.1 ⟨g, inside⟩, down.2⟩

/-- The goroutine that wins the compare-and-swap finds both channels open. -/
theorem Closing.enter (closing : Closing s) (free : s.isClosed = false) (guarded : Bool) :
    Closing ({ s with isClosed := true }.setCloser g (.closing guarded .setReadOnly)) := by
  obtain ⟨outside, notOver⟩ := closing.outside free
  have only : ∀ g', (({ s with isClosed := true }.setCloser g
      (.closing guarded .setReadOnly)).closers g').inside = true → g' = g := by
    intro g' inside
    by_contra self
    rw [setCloser_of_ne self, outside g'] at inside
    contradiction
  refine ⟨⟨fun _ => .inl ⟨g, by rw [setCloser_self]; rfl⟩, fun _ => rfl⟩,
    fun g' g'' inside inside' => (only g' inside).trans (only g'' inside').symm,
    fun finished => absurd finished notOver, fun held => ?_⟩
  rcases closing.register held with ⟨g', past⟩ | finished
  · have inside := Closer.inside_of_unregistered past
    rw [outside g'] at inside
    contradiction
  · exact absurd finished notOver

/-- A goroutine that is about to close a channel finds it open. -/
theorem Closing.register_open (closing : Closing s) {guarded : Bool}
    (next : s.closers g = .closing guarded .closeRegisterStopCh) :
    s.registerStopChClosed = false := by
  have inside : (s.closers g).inside = true := by rw [next]; rfl
  rw [Bool.eq_false_iff]
  intro held
  rcases closing.register held with ⟨g', past⟩ | finished
  · obtain rfl := closing.one g' g (Closer.inside_of_unregistered past) inside
    rw [next] at past
    contradiction
  · rw [closing.finished finished g] at inside
    contradiction

theorem Closing.shutdown_open (closing : Closing s) (inside : (s.closers g).inside = true) :
    s.shutdownChClosed = false := by
  rw [Bool.eq_false_iff]
  intro held
  rw [closing.finished (.inl held) g] at inside
  contradiction

theorem Closing.closeRegister (closing : Closing s) {guarded : Bool}
    (next : s.closers g = .closing guarded .closeRegisterStopCh) :
    Closing ({ s with registerStopChClosed := true }.setCloser g
      (.closing guarded .unregister)) := by
  have moved : Closing (s.setCloser g (.closing guarded .unregister)) :=
    closing.setCloser (by rw [next]; rfl) fun _ => rfl
  exact ⟨moved.flag, moved.one, moved.finished, fun _ => .inl ⟨g, by rw [setCloser_self]; rfl⟩⟩

/-- `Close` has returned to its caller. -/
theorem orderly_returns {guarded : Bool}
    (orderly : ∀ {closer}, closer.inside = false → closer.unregistered = false →
      Orderly (s.setCloser g closer))
    (clean : g = .signal → (s.setCloser g .ended).CleanlyEnded) :
    Orderly (s.returns g guarded) := by
  unfold State.returns
  split
  · exact orderly rfl rfl
  · split
    · rename_i signal
      exact (@orderly .ended rfl rfl).exits ⟨rfl, rfl, rfl, rfl, rfl⟩ rfl rfl (by simp)
        fun _ => clean signal
    · exact orderly rfl rfl

/-- A goroutine calls `Close` only after `Start` has marked the server as started. -/
theorem Spawned.started (spawned : Spawned s) {guarded : Bool} {stage : Stage}
    (held : s.closers g = .closing guarded stage) : s.main.early = false := by
  obtain ⟨loops, unmade, unstarted, -⟩ := spawned
  cases position : s.main <;> try rfl
  all_goals cases g <;> simp_all

/-- `Close` panics in a goroutine that is inside. -/
theorem Orderly.panics (orderly : Orderly s) (running : s.exit = none) {guarded : Bool}
    {stage : Stage} (held : s.closers g = .closing guarded stage)
    (inside : (Closer.closing guarded stage).inside = true) {cause : Panic}
    (once : cause ≠ .closeOfClosedChannel) : Orderly (s.panics g guarded cause) := by
  unfold State.panics
  split
  · refine ⟨orderly.spawned.setCloser (orderly.spawned.started held) (by simp [held]) rfl rfl, ?_,
      fun found => once (Option.some.inj found), ended_of_running running⟩
    exact orderly.closing.leave (by rwa [held]) rfl rfl rfl (.inr (by simp [State.setCloser]))
  · exact orderly.exits ⟨rfl, rfl, rfl, rfl, rfl⟩ rfl rfl (by simpa using once) (by simp)

/-- `Close` is called when the flag is up. -/
theorem Orderly.skips (orderly : Orderly s) (running : s.exit = none) {guarded : Bool}
    (held : s.closers g = .closing guarded .compareAndSwap) (closed : s.isClosed = true) :
    Orderly (s.returns g guarded) := by
  refine orderly_returns (fun outside before => ?_) ?_
  · refine ⟨orderly.spawned.setCloser (orderly.spawned.started held) (by simp [held]) rfl rfl,
      orderly.closing.setCloser ?_ ?_, orderly.recovered, ended_of_running running⟩
    · rw [held, outside]
      rfl
    · simp [held, Closer.unregistered]
  · rintro rfl
    -- The flag is up, so another goroutine is on its way, or the closing is over.
    rcases orderly.closing.flag.mp closed with ⟨g', inside⟩ | finished
    · have other : g' ≠ .signal := by
        rintro rfl
        rw [held] at inside
        contradiction
      have kept := @setCloser_of_ne s .signal .ended g' other
      cases position : s.closers g' with
      | closing guarded' stage =>
        refine .inr ⟨setCloser_self, g', guarded', stage, other, kept.trans position, ?_⟩
        rintro rfl
        rw [position] at inside
        contradiction
      | absent | running | ended =>
        rw [position] at inside
        contradiction
    · exact .inl finished

theorem close_orderly (orderly : Orderly s) (running : s.exit = none) {ok : Bool}
    (taken : stepClose s g ok = some t) : Orderly t := by
  have moves : ∀ {guarded : Bool} {stage : Stage} {next : Closer} {u : State},
      s.closers g = .closing guarded stage → u.main = s.main →
      u.closers = Function.update s.closers g next → Spawned u :=
    fun held main closers =>
      orderly.spawned.setCloser (orderly.spawned.started held) (by simp [held]) main closers
  have goes : ∀ {guarded : Bool} {stage next : Stage}, s.closers g = .closing guarded stage →
      (Closer.closing guarded next).inside = (Closer.closing guarded stage).inside →
      ((Closer.closing guarded stage).unregistered = true →
        (Closer.closing guarded next).unregistered = true) →
      Orderly (s.setCloser g (.closing guarded next)) := by
    intro guarded stage next held inside past
    refine ⟨moves held rfl rfl, ?_, orderly.recovered, ended_of_running running⟩
    exact orderly.closing.setCloser (by rw [held, inside]) (by rwa [held])
  unfold stepClose at taken
  split at taken
  case h_1 held =>
    split at taken <;> cases taken
    · rename_i closed
      exact orderly.skips running held closed
    · rename_i free
      exact ⟨moves held rfl rfl, orderly.closing.enter (by simpa using free) _,
        orderly.recovered, ended_of_running running⟩
  case h_2 held =>
    split at taken
    · split at taken <;> cases taken
      · exact goes held rfl (by simp [Closer.unregistered])
      · exact orderly.exits ⟨rfl, rfl, rfl, rfl, rfl⟩ rfl rfl (by simp) (by simp)
    · cases taken
      exact orderly.panics running held rfl (by simp)
  case h_3 held =>
    cases taken
    exact goes held rfl (by simp [Closer.unregistered])
  case h_4 held =>
    rw [orderly.closing.register_open held] at taken
    cases taken
    exact ⟨moves held rfl rfl, orderly.closing.closeRegister held, orderly.recovered,
      ended_of_running running⟩
  case h_5 held | h_6 held | h_7 held =>
    cases taken
    exact goes held rfl fun _ => rfl
  case h_8 held =>
    split at taken <;> cases taken
    · exact goes held rfl fun _ => rfl
    · exact orderly.panics running held rfl (by simp)
  case h_9 held =>
    have inside : (s.closers g).inside = true := by rw [held]; rfl
    rw [orderly.closing.shutdown_open inside] at taken
    cases taken
    refine orderly_returns (fun outside _ => ?_) fun _ => .inl (.inl rfl)
    exact ⟨moves held rfl rfl, orderly.closing.leave inside outside rfl rfl (.inl rfl),
      orderly.recovered, ended_of_running running⟩
  all_goals contradiction

/-- What a step of `main` can do. -/
inductive MainStep (s t : State) : Prop where
  | makes (was : s.main = .newServer)
      (after : t = (s.goTo .markStarted).setCloser .signal .running)
  | starts (was : s.main = .markStarted)
      (after : t = { s.goTo .initHTTPServer with isClosed := false })
  | spawns (was : s.main = .spawn) (after : t =
      ((s.goTo .shutdown).setCloser .leaderLoop .running).setCloser .monitor .running)
  | goes (same : SameClosers s t) (running : t.exit = s.exit) (was : s.main ≠ .shutdown)
      (unmade : t.main = .newServer → s.main = .parse) (unparsed : t.main ≠ .parse)
      (unstarted : t.main ≠ .markStarted)
  | ends (exit : Exit) (same : SameClosers s t) (main : t.main = s.main)
      (exits : t.exit = some exit) (once : exit ≠ .panic .closeOfClosedChannel)
      (clean : exit = .clean → s.shutdownChClosed = true)

theorem mainStep_of_step {outcome : Outcome} (taken : stepMain s outcome = some t) :
    MainStep s t := by
  have goes : ∀ {u : State}, SameClosers s u → u.exit = s.exit → s.main ≠ .shutdown →
      (u.main = .newServer → s.main = .parse) ∧ u.main ≠ .parse ∧ u.main ≠ .markStarted →
      MainStep s u := fun same exit was main => .goes same exit was main.1 main.2.1 main.2.2
  unfold stepMain at taken
  cases at_main : s.main <;> simp only [at_main] at taken
  case parse =>
    cases outcome <;> cases taken
    · exact goes ⟨rfl, rfl, rfl, rfl, rfl⟩ rfl (by simp [at_main]) (by simp [State.goTo, at_main])
    all_goals exact .ends _ ⟨rfl, rfl, rfl, rfl, rfl⟩ rfl rfl (by simp) (by simp)
  case newServer =>
    cases outcome <;> cases taken
    · exact .makes at_main rfl
    all_goals exact .ends .newServerError ⟨rfl, rfl, rfl, rfl, rfl⟩ rfl rfl (by simp) (by simp)
  case markStarted =>
    cases taken
    exact .starts at_main rfl
  case initHTTPServer | doubleFork =>
    cases outcome <;> cases taken
    · exact goes ⟨rfl, rfl, rfl, rfl, rfl⟩ rfl (by simp [at_main]) (by simp [State.goTo])
    all_goals exact .ends .startError ⟨rfl, rfl, rfl, rfl, rfl⟩ rfl rfl (by simp) (by simp)
  case isPortAlive =>
    cases outcome <;> cases taken <;>
      exact goes ⟨rfl, rfl, rfl, rfl, rfl⟩ rfl (by simp [at_main]) (by simp [State.goTo])
  case waitPort =>
    split at taken <;> cases taken
    exact goes ⟨rfl, rfl, rfl, rfl, rfl⟩ rfl (by simp [at_main]) (by simp [State.goTo])
  case sendTimeout =>
    split at taken <;> cases taken
    exact .ends .startError ⟨rfl, rfl, rfl, rfl, rfl⟩ at_main.symm rfl (by simp) (by simp)
  case newServiceManager =>
    cases outcome <;> cases taken
    case ok | unknown =>
      exact goes ⟨rfl, rfl, rfl, rfl, rfl⟩ rfl (by simp [at_main]) (by simp [State.goTo])
    all_goals exact .ends .startError ⟨rfl, rfl, rfl, rfl, rfl⟩ rfl rfl (by simp) (by simp)
  case setReadOnly =>
    split at taken
    · cases taken
      split
      · exact goes ⟨rfl, rfl, rfl, rfl, rfl⟩ rfl (by simp [at_main]) (by simp [State.goTo])
      · exact goes ⟨rfl, rfl, rfl, rfl, rfl⟩ rfl (by simp [at_main]) (by simp [at_main])
    · cases taken
      exact .ends _ ⟨rfl, rfl, rfl, rfl, rfl⟩ rfl rfl (by simp) (by simp)
  case spawn =>
    cases taken
    exact .spawns at_main rfl
  case shutdown =>
    split at taken <;> cases taken
    rename_i closed
    exact .ends .clean ⟨rfl, rfl, rfl, rfl, rfl⟩ rfl rfl (by simp) fun _ => closed

/-- A goroutine that starts has not called `Close`. -/
theorem Closing.start (closing : Closing s) (absent : s.closers g = .absent) :
    Closing (s.setCloser g .running) :=
  closing.setCloser (by rw [absent]; rfl) (by simp [absent, Closer.unregistered])

theorem main_orderly (orderly : Orderly s) (running : s.exit = none) {outcome : Outcome}
    (taken : stepMain s outcome = some t) : Orderly t := by
  cases mainStep_of_step taken with
  | makes was after =>
    subst after
    have loops := orderly.spawned.loops (by simp [was])
    refine ⟨⟨fun _ => loops, fun held => ?_, fun _ => setCloser_self,
      fun _ => orderly.spawned.unclosed (by rw [was]; rfl)⟩, ?_, orderly.recovered,
      ended_of_running running⟩
    · simp [State.goTo, State.setCloser] at held
    · have made := orderly.closing.start (orderly.spawned.unmade (.inr was))
      exact made.of_same ⟨rfl, rfl, rfl, rfl, rfl⟩
  | starts was after =>
    subst after
    -- No signal has been received yet, so the flag is down already.
    have down : s.isClosed = false := orderly.spawned.unclosed (by rw [was]; rfl)
    refine ⟨⟨fun _ => orderly.spawned.loops (by simp [was]), fun held => ?_, fun held => ?_,
      fun _ => rfl⟩, orderly.closing.of_same ⟨rfl, down.symm, rfl, rfl, rfl⟩,
      orderly.recovered, ended_of_running running⟩
    · simp [State.goTo] at held
    · simp [State.goTo] at held
  | spawns was after =>
    subst after
    obtain ⟨loop, monitor⟩ := orderly.spawned.loops (by simp [was])
    refine ⟨⟨fun held => ?_, fun held => ?_, fun held => ?_, fun held => ?_⟩, ?_,
      orderly.recovered, ended_of_running running⟩
    · simp [State.goTo, State.setCloser] at held
    · simp [State.goTo, State.setCloser] at held
    · simp [State.goTo, State.setCloser] at held
    · simp [State.goTo, State.setCloser, Main.early] at held
    · have first := orderly.closing.start loop
      have second := first.start (g := .monitor) ((setCloser_of_ne (by simp)).trans monitor)
      exact second.of_same ⟨rfl, rfl, rfl, rfl, rfl⟩
  | goes same kept was unmade unparsed unstarted =>
    exact orderly.goTo same (kept.trans running) was unmade unparsed unstarted
  | ends exit same main exits once clean =>
    exact orderly.exits same main exits once fun held => .inl (.inl (clean held))

/-- A signal comes only after `Start` has marked the server as started. -/
def Late (s : State) (event : Event) : Prop := event = .ends .signal → s.main ≠ .markStarted

theorem step_orderly (orderly : Orderly s) {event : Event} (late : Late s event)
    (taken : step s event = some t) : Orderly t := by
  obtain ⟨running, taken⟩ := Option.ite_none_right_eq_some.mp taken
  have calls : ∀ {g : Goroutine} (guarded : Bool), s.closers g = .running →
      s.main.early = false → Orderly (s.setCloser g (.closing guarded .compareAndSwap)) := by
    intro g guarded held started
    refine ⟨orderly.spawned.setCloser started (by simp [held]) rfl rfl, ?_, orderly.recovered,
      ended_of_running running⟩
    exact orderly.closing.setCloser (by rw [held]; rfl) (by simp [held, Closer.unregistered])
  have looping : ∀ {g : Goroutine}, s.closers g = .running → g ≠ .signal →
      s.main.early = false := by
    intro g held other
    have serving : s.main = .shutdown := by
      by_contra before
      have loops := orderly.spawned.loops before
      cases g <;> simp_all
    rw [serving]
    rfl
  cases event with
  | main outcome => exact main_orderly orderly running taken
  | timeout =>
    obtain ⟨waiting, equal⟩ := Option.ite_none_right_eq_some.mp taken
    cases equal
    exact orderly.goTo ⟨rfl, rfl, rfl, rfl, rfl⟩ running (by simp [waiting]) (by simp [State.goTo])
      (by simp [State.goTo]) (by simp [State.goTo])
  | poller alive =>
    have same : SameClosers s t ∧ t.main = s.main ∧ t.exit = s.exit := by
      simp only [stepPoller] at taken
      repeat' split at taken
      all_goals first
        | contradiction
        | (cases taken; exact ⟨⟨rfl, rfl, rfl, rfl, rfl⟩, rfl, rfl⟩)
    obtain ⟨same, main, exit⟩ := same
    exact ⟨orderly.spawned.of_same same main, orderly.closing.of_same same,
      same.recovered ▸ orderly.recovered, ended_of_running (exit.trans running)⟩
  | ends g =>
    obtain ⟨held, equal⟩ := Option.ite_none_right_eq_some.mp taken
    cases equal
    by_cases signal : g = .signal
    · subst signal
      refine calls false held ?_
      have notMarking := late rfl
      have unmade := orderly.spawned.unmade
      cases position : s.main <;> simp_all [Main.early]
    · exact calls false held (looping held signal)
  | closes =>
    obtain ⟨held, equal⟩ := Option.ite_none_right_eq_some.mp taken
    cases equal
    exact calls true held (looping held (by simp))
  | close g ok => exact close_orderly orderly running taken
  | forceClose =>
    obtain ⟨-, equal⟩ := Option.ite_none_right_eq_some.mp taken
    cases equal
    exact orderly.exits ⟨rfl, rfl, rfl, rfl, rfl⟩ rfl rfl (by simp) (by simp)

/-! ### The service manager -/

/-- Not past the first call to the service manager. -/
def Closer.waiting : Closer → Bool
  | .absent | .running => true
  | .closing guarded .compareAndSwap | .closing guarded .setReadOnly => !guarded
  | .closing .. | .ended => false

/-- `Start` has not made the service manager. -/
def Main.unmanaged : Main → Bool
  | .setReadOnly | .spawn | .shutdown => false
  | _ => true

/-- Without a service manager neither `Start` nor `Close` gets far, and `leaderLoop`
is not there to recover. -/
structure Unmanaged (s : State) : Prop where
  main : s.main.unmanaged = true → s.serviceManager = false
  served : s.main = .spawn ∨ s.main = .shutdown → s.serviceManager = true
  signal : s.exit = none → s.serviceManager = false → (s.closers .signal).waiting = true
  unfinished : s.serviceManager = false → ¬ s.Over
  recovered : s.recovered ≠ some .nilServiceManager

theorem stepMain_unmanaged (unmanaged : Unmanaged s) (running : s.exit = none)
    {outcome : Outcome} (taken : stepMain s outcome = some t) : Unmanaged t := by
  obtain ⟨early, served, signal, unfinished, recovered⟩ := unmanaged
  have waits := signal running
  unfold stepMain at taken
  cases at_main : s.main <;> cases outcome <;> simp only [at_main] at taken
  all_goals (repeat' split at taken)
  all_goals first
    | contradiction
    | (cases taken
       constructor <;> simp_all [State.goTo, State.exits, State.setCloser, Main.unmanaged,
         Closer.waiting, State.Over])

theorem stepClose_unmanaged (unmanaged : Unmanaged s) (orderly : Orderly s)
    (running : s.exit = none) {ok : Bool} (taken : stepClose s g ok = some t) : Unmanaged t := by
  obtain ⟨early, served, signal, unfinished, recovered⟩ := unmanaged
  have waits := signal running
  have loops := orderly.spawned.loops
  cases managed : s.serviceManager with
  | true =>
    have same : t.main = s.main ∧ t.serviceManager = s.serviceManager ∧
        t.recovered ≠ some .nilServiceManager := by
      simp only [stepClose, State.returns, State.panics] at taken
      repeat' split at taken
      all_goals first
        | contradiction
        | (cases taken; exact ⟨rfl, rfl, recovered⟩)
        | (cases taken; exact ⟨rfl, rfl, by simp [State.setCloser]⟩)
    obtain ⟨main, serviceManager, panicked⟩ := same
    rw [managed] at early serviceManager
    refine ⟨?_, fun _ => serviceManager, fun _ held => ?_, fun held => ?_, panicked⟩
    · rw [main, serviceManager]
      exact early
    all_goals
      rw [serviceManager] at held
      contradiction
  | false =>
    -- Only the signal is there, and it is not past its first call.
    have notServed : s.main ≠ .shutdown := fun held => by simp [served (.inr held)] at managed
    obtain ⟨loop, monitor⟩ := loops notServed
    have self : g = .signal := by
      cases g with
      | signal => rfl
      | leaderLoop => simp [stepClose, loop] at taken
      | monitor => simp [stepClose, monitor] at taken
    subst self
    have position := waits managed
    simp only [stepClose, State.returns, State.panics] at taken
    repeat' split at taken
    all_goals first
      | contradiction
      | (cases taken
         constructor <;>
           simp_all [State.exits, State.setCloser, Closer.waiting, State.Over])

theorem step_unmanaged (unmanaged : Unmanaged s) (orderly : Orderly s) {event : Event}
    (taken : step s event = some t) : Unmanaged t := by
  obtain ⟨running, taken⟩ := Option.ite_none_right_eq_some.mp taken
  have whole := unmanaged
  obtain ⟨early, served, signal, unfinished, recovered⟩ := unmanaged
  cases event with
  | main outcome => exact stepMain_unmanaged whole running taken
  | timeout =>
    obtain ⟨waiting, equal⟩ := Option.ite_none_right_eq_some.mp taken
    cases equal
    exact ⟨fun _ => early (by simp [waiting, Main.unmanaged]),
      fun held => by simp [State.goTo] at held, signal, unfinished, recovered⟩
  | poller alive =>
    simp only [stepPoller] at taken
    repeat' split at taken
    all_goals first
      | contradiction
      | (cases taken; exact ⟨early, served, signal, unfinished, recovered⟩)
  | ends g =>
    obtain ⟨held, equal⟩ := Option.ite_none_right_eq_some.mp taken
    cases equal
    refine ⟨early, served, fun _ none => ?_, unfinished, recovered⟩
    by_cases self : .signal = g
    · subst self
      rw [setCloser_self]
      rfl
    · rw [setCloser_of_ne self]
      exact signal running none
  | closes =>
    obtain ⟨-, equal⟩ := Option.ite_none_right_eq_some.mp taken
    cases equal
    refine ⟨early, served, fun _ none => ?_, unfinished, recovered⟩
    rw [setCloser_of_ne (by simp)]
    exact signal running none
  | close g ok => exact stepClose_unmanaged whole orderly running taken
  | forceClose =>
    obtain ⟨-, equal⟩ := Option.ite_none_right_eq_some.mp taken
    cases equal
    exact ⟨early, served, fun held => by simp [State.exits] at held, unfinished, recovered⟩

theorem orderly_of_run (run : Run step Late init s) : Orderly s ∧ Unmanaged s :=
  @Run.invariant _ _ _ _ _ _ (fun s => Orderly s ∧ Unmanaged s) run
    ⟨init_orderly, fun _ => rfl, fun held => by simp [init] at held, fun _ _ => rfl,
      by simp [init, State.Over], by simp [init]⟩
    fun held late taken => ⟨step_orderly held.1 late taken, step_unmanaged held.2 held.1 taken⟩

/-! ### How the process ends -/

/-- Whatever the order in which the goroutines end, `Close` does not close a channel
twice, and the only panic of it that is recovered is that of the shutdown of the
HTTP server. The process ends with status 0 for its usage, after all of `Close`,
after such a recovery, or when a signal finds another goroutine in the middle of
`Close`. -/
theorem closes_once_and_ends_cleanly (run : Run step Late init s) :
    s.exit ≠ some (.panic .closeOfClosedChannel) ∧
      (s.recovered = none ∨ s.recovered = some .nilContext) ∧
      (s.exit.map Exit.status = some 0 → s.exit = some .usage ∨ s.CleanlyEnded) := by
  obtain ⟨orderly, unmanaged⟩ := orderly_of_run run
  refine ⟨orderly.ended.once, ?_, fun status => ?_⟩
  · have opened := orderly.recovered
    have managed := unmanaged.recovered
    generalize s.recovered = recovered at opened managed
    rcases recovered with _ | (_ | _ | _) <;> simp_all
  · obtain ⟨exit, held, zero⟩ := Option.map_eq_some_iff.mp status
    cases exit with
    | clean => exact .inr (orderly.ended.clean held)
    | usage => exact .inl held
    | badFlag | badConfig | startError | newServerError | forceClose | panic =>
      simp [Exit.status] at zero

/-- The process comes up: the port is dead at first and alive after one poll. -/
def comesUp : List Event :=
  [.main .ok, .main .ok, .main .ok, .main .ok, .main .failed, .main .ok, .poller false,
    .poller true, .main .ok, .main .ok, .main .ok, .main .ok]

private def late (s : State) (event : Event) : Bool :=
  event != .ends .signal || s.main != .markStarted

private theorem late_of_check {s : State} {event : Event} (check : late s event = true) :
    Late s event := by
  rintro rfl
  simpa [late] using check

/-- `leaderLoop` calls `Close` in its body, and gets as far as the HTTP server, which
is busy. The panic is recovered, and the second call finds the flag up. -/
private def recovers : List Event :=
  [.closes, .close .leaderLoop true, .close .leaderLoop true, .close .leaderLoop true,
    .close .leaderLoop true, .close .leaderLoop true, .close .leaderLoop true,
    .close .leaderLoop true, .close .leaderLoop false, .close .leaderLoop true]

/-- The process lives on after the recovery, with the node unregistered, until a
signal ends it with status 0. -/
theorem closes_once_and_ends_cleanly_after_recovery :
    ∃ s, Run step Late init s ∧ s.exit = some .clean ∧ s.shutdownChClosed = false ∧
      s.recovered = some .nilContext ∧ s.CleanlyEnded := by
  have ran : (exec (restrict step late) init (comesUp ++ recovers ++
      [Event.ends .signal, .close .signal true])).any (fun s => s.exit == some .clean &&
        !s.shutdownChClosed && s.recovered == some .nilContext) = true := by
    decide +kernel
  obtain ⟨s, run, found⟩ := exists_run_of_exec (fun _ _ => late_of_check) ran
  simp only [Bool.and_eq_true, beq_iff_eq, Bool.not_eq_true'] at found
  obtain ⟨⟨exit, unfinished⟩, recovered⟩ := found
  refine ⟨s, run, exit, unfinished, recovered, ?_⟩
  exact ((closes_once_and_ends_cleanly run).2.2 (by rw [exit]; rfl)).resolve_left (by simp [exit])

/-- A signal at once, whose goroutine goes on when the server is up. -/
private def earlySignal : List Event :=
  [Event.main .ok, .main .ok, .ends .signal, .close .signal true] ++ comesUp.drop 2 ++
    [Event.close .signal true, .close .signal true, .close .signal true, .ends .monitor,
      .close .monitor true, .close .monitor true, .close .monitor true, .close .monitor true]

/-- A signal that comes before `Start` has marked the server as started may lead to a
second `Close`, when its goroutine is held up until the service manager is there. -/
theorem closes_twice_after_early_signal :
    ∃ s, Run step (fun _ _ => True) init s ∧
      s.exit = some (.panic .closeOfClosedChannel) := by
  have ran : (exec (restrict step fun _ _ => true) init earlySignal).any
      (fun s => s.exit == some (.panic .closeOfClosedChannel)) = true := by
    decide +kernel
  obtain ⟨s, run, found⟩ := exists_run_of_exec (fun _ _ _ => trivial) ran
  exact ⟨s, run, eq_of_beq found⟩

/-! ### A start that does not end -/

/-- The timeout has been chosen after the poller had returned: nobody receives from
`stopCh`. -/
structure Stuck (s : State) : Prop where
  main : s.main = .sendTimeout
  poller : s.poller = .returned
  orderly : Orderly s
  unmanaged : Unmanaged s
  exits : s.exit = none ∨ s.exit = some (.panic .nilServiceManager)

theorem stuck_step (stuck : Stuck s) {event : Event} (late : Late s event)
    (taken : step s event = some t) : Stuck t := by
  have orderly := step_orderly stuck.orderly late taken
  have unmanaged := step_unmanaged stuck.unmanaged stuck.orderly taken
  obtain ⟨running, taken⟩ := Option.ite_none_right_eq_some.mp taken
  have none : s.serviceManager = false := stuck.unmanaged.main (by rw [stuck.main]; rfl)
  have main := stuck.main
  have poller := stuck.poller
  cases event with
  | main outcome => simp [stepMain, main, poller] at taken
  | timeout => simp [main] at taken
  | poller alive => simp [stepPoller, poller] at taken
  | ends g =>
    obtain ⟨-, equal⟩ := Option.ite_none_right_eq_some.mp taken
    cases equal
    exact ⟨main, poller, orderly, unmanaged, .inl running⟩
  | closes =>
    obtain ⟨loop, -⟩ := stuck.orderly.spawned.loops (by simp [main])
    simp [loop] at taken
  | forceClose => simp [main] at taken
  | close g ok =>
    -- Only the signal closes, and it panics at its first call to the service manager.
    obtain ⟨loop, monitor⟩ := stuck.orderly.spawned.loops (by simp [main])
    cases g with
    | leaderLoop => simp [stepClose, loop] at taken
    | monitor => simp [stepClose, monitor] at taken
    | signal =>
      have waits := stuck.unmanaged.signal running none
      replace taken : stepClose s .signal ok = some t := taken
      unfold stepClose at taken
      split at taken <;> rename_i position <;> rw [position] at waits <;> try contradiction
      · have free : s.isClosed = false := by
          rw [Bool.eq_false_iff]
          intro closed
          rcases stuck.orderly.closing.flag.mp closed with ⟨g, inside⟩ | finished
          · cases g <;> simp_all [Closer.inside]
          · exact stuck.unmanaged.unfinished none finished
        rw [free] at taken
        cases taken
        exact ⟨main, poller, orderly, unmanaged, .inl running⟩
      · simp only [Closer.waiting, Bool.not_eq_true'] at waits
        subst waits
        rw [none] at taken
        cases taken
        exact ⟨main, poller, orderly, unmanaged, .inr rfl⟩

/-- When the timeout of the start is chosen although the poller has returned, `Start`
never returns: `main` takes no further step, and the process stays as it is until a
signal makes it panic. -/
theorem start_blocks_forever (run : Run step Late init s) (main : s.main = .sendTimeout)
    (poller : s.poller = .returned) (running : s.exit = none) (rest : Run step Late s t) :
    (t.exit = none ∨ t.exit = some (.panic .nilServiceManager)) ∧
      (∀ outcome, step t (.main outcome) = none) ∧ step t .timeout = none := by
  obtain ⟨orderly, unmanaged⟩ := orderly_of_run run
  have stuck : Stuck t :=
    rest.invariant ⟨main, poller, orderly, unmanaged, .inl running⟩
      fun stuck late taken => stuck_step stuck late taken
  refine ⟨stuck.exits, fun outcome => ?_, ?_⟩
  · simp [step, stepMain, stuck.main, stuck.poller]
  · simp [step, stuck.main]

/-- The port comes up just when the wait for it times out; a signal then ends the
process, with status 2. -/
theorem start_blocks_forever_until_signal :
    ∃ s t, Run step Late init s ∧ s.main = .sendTimeout ∧ s.poller = .returned ∧
      s.exit = none ∧ Run step Late s t ∧ t.exit.map Exit.status = some 2 ∧
      t.exit = some (.panic .nilServiceManager) := by
  have ran : (exec (restrict step late) init [.main .ok, .main .ok, .main .ok, .main .ok,
      .main .failed, .main .ok, .poller false, .poller true, .timeout]).any
      (fun s => s.main == .sendTimeout && s.poller == .returned && s.exit == none &&
        (exec (restrict step late) s
          [.ends .signal, .close .signal true, .close .signal true]).any
          fun t => t.exit.map Exit.status == some 2) = true := by
    decide +kernel
  obtain ⟨s, run, found⟩ := exists_run_of_exec (fun _ _ => late_of_check) ran
  simp only [Bool.and_eq_true, beq_iff_eq] at found
  obtain ⟨⟨⟨main, poller⟩, running⟩, ended⟩ := found
  obtain ⟨t, rest, status⟩ := exists_run_of_exec (fun _ _ => late_of_check) ended
  replace status := eq_of_beq status
  refine ⟨s, t, run, main, poller, running, rest, status, ?_⟩
  exact (start_blocks_forever run main poller running rest).1.resolve_left
    fun none => by simp [none] at status

end Moha.ProcessLife
