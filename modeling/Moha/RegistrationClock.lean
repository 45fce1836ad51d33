import Moha.LeaseClock
import Mathlib.Data.List.Nodup

/-! The registrations of the nodes on a clock, and what the single point master
reads off them. `node.go::Heartbeat` registers its node anew on every tick, each
time with a fresh lease; the key lives as long as the lease it was last put with,
and etcd removes it some time after. `single_point.go::waitUntilSlaveAppears`
polls the registry, and ends the single point mode when it has counted more than
one agent twice, a time to live apart.

Timers fire on time, so the clock waits for every goroutine that is ready. A
request is processed at one time, and its answer arrives at another. -/
namespace Moha.RegistrationClock
open LeaseClock Runs

structure Config where
  /-- In seconds. -/
  registerTTL : Nat
  etcdDialTimeout : Nat
  deriving DecidableEq, Repr

/-- The configuration's defaults. -/
def defaultConfig : Config := ⟨30, seconds 5⟩

def Config.ttl (cfg : Config) : Nat := seconds cfg.registerTTL

/-- The period of the ticker of `Heartbeat`. -/
def Config.period (cfg : Config) : Nat := seconds (cfg.registerTTL / 3 + 1)

/-- Where the goroutine of `startHeartbeatLoop` is: before its first registration
or after its end, in `register` before the grant or before the put, asleep after a
failed first registration, or in the `select` of `Heartbeat`. -/
inductive Position where
  | idle
  | granting (since : Nat)
  | putting (since granted : Nat)
  | retry (wake : Nat)
  | select
  deriving DecidableEq, Repr

/-- `ticker` is the time of the next tick, once there is a ticker; `pending` is a
tick in its channel, which holds one. `missed` counts the registrations that have
failed since the last that did not. -/
structure Heartbeat where
  position : Position := .idle
  ticker : Option Nat := none
  pending : Bool := false
  missed : Nat := 0
  deriving DecidableEq, Repr

/-- The registered agents of an answer, each with the time its lease was granted. -/
abbrev Agents (Node : Type) := List (Node × Nat)

/-- Where `waitUntilSlaveAppears` is, with the time it was entered; `second` tells
the second poll, and the sleep before it, from the first. -/
inductive Wait (Node : Type) where
  | absent
  | sleeping (entered wake : Nat) (second : Bool)
  | polling (entered since : Nat) (second : Bool)
  | answered (entered since : Nat) (second : Bool) (allAgents : Agents Node)
  | returned (entered : Nat) (allAgents : Agents Node)
  deriving DecidableEq, Repr

structure State (Node : Type) where
  now : Nat
  /-- When the lease was granted that a node's key is attached to. -/
  registry : Node → Option Nat := fun _ => none
  heartbeats : Node → Heartbeat := fun _ => {}
  /-- Puts whose callers have given up, with the times of their grants. -/
  limbo : List (Node × Nat) := []
  wait : Wait Node := .absent

inductive Event (Node : Type) where
  | elapse (duration : Nat)
  | register (node : Node)
  | granted (node : Node)
  | put (node : Node)
  | putUnanswered (node : Node)
  | putLost (node : Node)
  | fails (node : Node)
  | retry (node : Node)
  | tick (node : Node)
  | beat (node : Node)
  | stops (node : Node)
  | unregistered (node : Node)
  | expire (node : Node)
  | late (put : Node × Nat)
  | enter
  | wake
  | pollProcessed
  | pollReceived
  | pollFails
  deriving DecidableEq, Repr

section Clock

/-- The clock of a goroutine: it is not ready, its timers are not due before, and
the deadline of its request is not passed. -/
def Heartbeat.calm (cfg : Config) (h : Heartbeat) (now duration : Nat) : Bool :=
  h.ticker.all (fun next => decide (now + duration ≤ next)) &&
  match h.position with
  | .idle => true
  | .granting since | .putting since _ => decide (now + duration ≤ since + cfg.etcdDialTimeout)
  | .retry wake => decide (now + duration ≤ wake)
  | .select => !h.pending || duration == 0

def Wait.calm {Node : Type} (cfg : Config) (now duration : Nat) : Wait Node → Bool
  | .absent | .returned .. => true
  | .sleeping _ wake _ => decide (now + duration ≤ wake)
  | .polling _ since _ | .answered _ since _ _ =>
    decide (now + duration ≤ since + cfg.etcdDialTimeout)

/-- `register` returns. The first registration is repeated until it succeeds, and
then the ticker is made. -/
def Heartbeat.registered (cfg : Config) (h : Heartbeat) (now : Nat) (ok : Bool) : Heartbeat :=
  match h.ticker with
  | none =>
    if ok then { h with position := .select, ticker := some (now + cfg.period), missed := 0 }
    else { h with position := .retry (now + seconds 1) }
  | some _ => { h with position := .select, missed := if ok then 0 else h.missed + 1 }

end Clock

variable {Node : Type}

/-- `pollAllRegisteredAgents`: what the registry holds. -/
def State.allAgents (nodes : List Node) (s : State Node) : Agents Node :=
  nodes.filterMap fun node => (s.registry node).map fun granted => (node, granted)

/-- etcd has kept no key longer than `slack` after the end of its lease. -/
def State.calm (cfg : Config) (slack : Nat) (nodes : List Node) (s : State Node)
    (duration : Nat) : Bool :=
  nodes.all (fun node => (s.heartbeats node).calm cfg s.now duration &&
    (s.registry node).all fun granted => decide (s.now + duration ≤ granted + cfg.ttl + slack)) &&
  s.wait.calm cfg s.now duration

/-- The body of the loop of `waitUntilSlaveAppears` after the answer of a poll. -/
def counted (cfg : Config) (now entered : Nat) (second : Bool) (allAgents : Agents Node) :
    Wait Node :=
  if allAgents.length > 1 then
    if second then .returned entered allAgents else .sleeping entered (now + cfg.ttl) true
  else .sleeping entered (now + seconds 5) false

variable [DecidableEq Node]

def State.setHeartbeat (s : State Node) (node : Node) (h : Heartbeat) : State Node :=
  { s with heartbeats := Function.update s.heartbeats node h }

/-- The put of a registration is applied. -/
def State.attach (s : State Node) (node : Node) (granted : Nat) : State Node :=
  { s with registry := Function.update s.registry node (some granted) }

def step (cfg : Config) (slack : Nat) (nodes : List Node) (s : State Node) :
    Event Node → Option (State Node)
  | .elapse duration =>
    if s.calm cfg slack nodes duration then some { s with now := s.now + duration } else none
  | .register node =>
    if node ∈ nodes ∧ (s.heartbeats node).position = .idle then
      some (s.setHeartbeat node { position := .granting s.now })
    else none
  | .granted node =>
    match (s.heartbeats node).position with
    | .granting since =>
      some (s.setHeartbeat node { s.heartbeats node with position := .putting since s.now })
    | _ => none
  | .put node =>
    match (s.heartbeats node).position with
    | .putting _ granted =>
      if s.now ≤ granted + cfg.ttl + slack then
        some ((s.attach node granted).setHeartbeat node
          ((s.heartbeats node).registered cfg s.now true))
      else none
    | _ => none
  | .putUnanswered node =>
    match (s.heartbeats node).position with
    | .putting _ granted =>
      if s.now ≤ granted + cfg.ttl + slack then
        some ((s.attach node granted).setHeartbeat node
          ((s.heartbeats node).registered cfg s.now false))
      else none
    | _ => none
  | .putLost node =>
    match (s.heartbeats node).position with
    | .putting _ granted =>
      some { s.setHeartbeat node ((s.heartbeats node).registered cfg s.now false) with
        limbo := (node, granted) :: s.limbo }
    | _ => none
  | .fails node =>
    match (s.heartbeats node).position with
    | .granting _ | .putting .. =>
      some (s.setHeartbeat node ((s.heartbeats node).registered cfg s.now false))
    | _ => none
  | .retry node =>
    if (s.heartbeats node).position = .retry s.now then
      some (s.setHeartbeat node { s.heartbeats node with position := .granting s.now })
    else none
  -- A tick that finds one in the channel is dropped.
  | .tick node =>
    if (s.heartbeats node).ticker = some s.now then
      some (s.setHeartbeat node { s.heartbeats node with
        ticker := some (s.now + cfg.period), pending := true })
    else none
  | .beat node =>
    if (s.heartbeats node).position = .select ∧ (s.heartbeats node).pending then
      some (s.setHeartbeat node { s.heartbeats node with
        position := .granting s.now, pending := false })
    else none
  -- The process ends, or the heartbeat receives from `registerStopCh`.
  | .stops node => some (s.setHeartbeat node {})
  -- `UnregisterNode` of the node itself, or of one whose ID begins the node's.
  | .unregistered node => some { s with registry := Function.update s.registry node none }
  | .expire node =>
    match s.registry node with
    | some granted =>
      if granted + cfg.ttl ≤ s.now then
        some { s with registry := Function.update s.registry node none }
      else none
    | none => none
  | .late put =>
    if put ∈ s.limbo ∧ s.now ≤ put.2 + cfg.ttl + slack then
      some { s.attach put.1 put.2 with limbo := s.limbo.erase put }
    else none
  | .enter =>
    match s.wait with
    | .absent | .returned .. => some { s with wait := .sleeping s.now (s.now + cfg.ttl) false }
    | _ => none
  | .wake =>
    match s.wait with
    | .sleeping entered wake second =>
      if wake = s.now then some { s with wait := .polling entered s.now second } else none
    | _ => none
  | .pollProcessed =>
    match s.wait with
    | .polling entered since second =>
      some { s with wait := .answered entered since second (s.allAgents nodes) }
    | _ => none
  | .pollReceived =>
    match s.wait with
    | .answered entered _ second allAgents =>
      some { s with wait := counted cfg s.now entered second allAgents }
    | _ => none
  -- After a failed second poll the loop starts over at once.
  | .pollFails =>
    match s.wait with
    | .polling entered _ second | .answered entered _ second _ =>
      some { s with wait :=
        if second then .polling entered s.now false
        else .sleeping entered (s.now + seconds 5) false }
    | _ => none

def init (now : Nat) : State Node := { now }

variable {cfg : Config} {slack : Nat} {nodes : List Node} {s t : State Node} {node other : Node}

/-! ### What a step does -/

/-- What the heartbeat of a node does by itself, without a change of the registry. -/
inductive Heartbeat.Moves (cfg : Config) (now : Nat) (node : Node) (h : Heartbeat) :
    Event Node → Heartbeat → Prop where
  | register (idle : h.position = .idle) :
      Moves cfg now node h (.register node) { position := .granting now }
  | granted {since : Nat} (position : h.position = .granting since) :
      Moves cfg now node h (.granted node) { h with position := .putting since now }
  | fails {event : Event Node} {since : Nat} (failing : event = .fails node ∨ event = .putLost node)
      (position : h.position = .granting since ∨
        ∃ granted, h.position = .putting since granted) :
      Moves cfg now node h event (h.registered cfg now false)
  | retry (position : h.position = .retry now) :
      Moves cfg now node h (.retry node) { h with position := .granting now }
  | tick (ticker : h.ticker = some now) :
      Moves cfg now node h (.tick node)
        { h with ticker := some (now + cfg.period), pending := true }
  | beat (position : h.position = .select) :
      Moves cfg now node h (.beat node) { h with position := .granting now, pending := false }
  | stops : Moves cfg now node h (.stops node) {}

/-- What `waitUntilSlaveAppears` does, with the agents that a poll finds. -/
inductive Wait.Moves (cfg : Config) (now : Nat) (found : Agents Node) (wait : Wait Node) :
    Event Node → Wait Node → Prop where
  | enter : Moves cfg now found wait .enter (.sleeping now (now + cfg.ttl) false)
  | wake {entered : Nat} {second : Bool} (sleeping : wait = .sleeping entered now second) :
      Moves cfg now found wait .wake (.polling entered now second)
  | pollProcessed {entered since : Nat} {second : Bool}
      (polling : wait = .polling entered since second) :
      Moves cfg now found wait .pollProcessed (.answered entered since second found)
  | pollReceived {entered since : Nat} {second : Bool} {allAgents : Agents Node}
      (answered : wait = .answered entered since second allAgents) :
      Moves cfg now found wait .pollReceived (counted cfg now entered second allAgents)
  | pollFails {entered since : Nat} {second : Bool}
      (polling : wait = .polling entered since second ∨
        ∃ allAgents, wait = .answered entered since second allAgents) :
      Moves cfg now found wait .pollFails
        (if second then .polling entered now false
          else .sleeping entered (now + seconds 5) false)

/-- The steps on the clock, with what was seen when they were taken. -/
inductive Taken (cfg : Config) (slack : Nat) (nodes : List Node) (s : State Node) :
    Event Node → State Node → Prop where
  | elapse {duration : Nat} (calm : s.calm cfg slack nodes duration = true) :
      Taken cfg slack nodes s (.elapse duration) { s with now := s.now + duration }
  | heartbeat {event : Event Node} {node : Node} {h : Heartbeat} {limbo : List (Node × Nat)}
      (moves : (s.heartbeats node).Moves cfg s.now node event h) :
      Taken cfg slack nodes s event { s.setHeartbeat node h with limbo := limbo }
  | put {event : Event Node} {node : Node} {since granted : Nat} {ok : Bool}
      (made : event = if ok then .put node else .putUnanswered node)
      (position : (s.heartbeats node).position = .putting since granted)
      (live : s.now ≤ granted + cfg.ttl + slack) :
      Taken cfg slack nodes s event ((s.attach node granted).setHeartbeat node
        ((s.heartbeats node).registered cfg s.now ok))
  | late {node : Node} {granted : Nat} {limbo : List (Node × Nat)}
      (live : s.now ≤ granted + cfg.ttl + slack) :
      Taken cfg slack nodes s (.late (node, granted)) { s.attach node granted with limbo := limbo }
  | unregistered {node : Node} :
      Taken cfg slack nodes s (.unregistered node)
        { s with registry := Function.update s.registry node none }
  | expire {node : Node} {granted : Nat} (held : s.registry node = some granted)
      (ended : granted + cfg.ttl ≤ s.now) :
      Taken cfg slack nodes s (.expire node)
        { s with registry := Function.update s.registry node none }
  | wait {event : Event Node} {wait : Wait Node}
      (moves : s.wait.Moves cfg s.now (s.allAgents nodes) event wait) :
      Taken cfg slack nodes s event { s with wait := wait }

theorem taken_of_step {event : Event Node} (taken : step cfg slack nodes s event = some t) :
    Taken cfg slack nodes s event t := by
  cases event <;> simp only [step] at taken
  case elapse =>
    obtain ⟨calm, equal⟩ := Option.ite_none_right_eq_some.mp taken
    cases equal
    exact .elapse calm
  case register =>
    obtain ⟨⟨-, idle⟩, equal⟩ := Option.ite_none_right_eq_some.mp taken
    cases equal
    exact .heartbeat (.register idle)
  case granted =>
    split at taken <;> cases taken
    rename_i position
    exact .heartbeat (.granted position)
  case put =>
    split at taken <;> try contradiction
    rename_i position
    obtain ⟨live, equal⟩ := Option.ite_none_right_eq_some.mp taken
    cases equal
    exact .put rfl position live
  case putUnanswered =>
    split at taken <;> try contradiction
    rename_i position
    obtain ⟨live, equal⟩ := Option.ite_none_right_eq_some.mp taken
    cases equal
    exact .put rfl position live
  case putLost =>
    split at taken <;> cases taken
    rename_i position
    exact .heartbeat (.fails (.inr rfl) (.inr ⟨_, position⟩))
  case fails =>
    split at taken <;> cases taken <;> rename_i position
    · exact .heartbeat (.fails (.inl rfl) (.inl position))
    · exact .heartbeat (.fails (.inl rfl) (.inr ⟨_, position⟩))
  case retry =>
    obtain ⟨position, equal⟩ := Option.ite_none_right_eq_some.mp taken
    cases equal
    exact .heartbeat (.retry position)
  case tick =>
    obtain ⟨ticker, equal⟩ := Option.ite_none_right_eq_some.mp taken
    cases equal
    exact .heartbeat (.tick ticker)
  case beat =>
    obtain ⟨⟨position, -⟩, equal⟩ := Option.ite_none_right_eq_some.mp taken
    cases equal
    exact .heartbeat (.beat position)
  case stops =>
    cases taken
    exact .heartbeat .stops
  case unregistered =>
    cases taken
    exact .unregistered
  case expire =>
    split at taken <;> try contradiction
    rename_i held
    obtain ⟨ended, equal⟩ := Option.ite_none_right_eq_some.mp taken
    cases equal
    exact .expire held ended
  case late =>
    obtain ⟨⟨-, live⟩, equal⟩ := Option.ite_none_right_eq_some.mp taken
    cases equal
    exact .late live
  case enter =>
    split at taken <;> cases taken <;> exact .wait .enter
  case wake =>
    split at taken <;> try contradiction
    rename_i sleeping
    obtain ⟨rfl, equal⟩ := Option.ite_none_right_eq_some.mp taken
    cases equal
    exact .wait (.wake sleeping)
  case pollProcessed =>
    split at taken <;> cases taken
    rename_i polling
    exact .wait (.pollProcessed polling)
  case pollReceived =>
    split at taken <;> cases taken
    rename_i answered
    exact .wait (.pollReceived answered)
  case pollFails =>
    split at taken <;> cases taken <;> rename_i polling
    · exact .wait (.pollFails (.inl polling))
    · exact .wait (.pollFails (.inr ⟨_, polling⟩))

/-! ### When the single point mode ends -/

/-- The times to live that have passed since `waitUntilSlaveAppears` was entered. -/
def rounds (second : Bool) : Nat := if second then 2 else 1

/-- Every agent of an answer was granted its lease late enough for its key to be
there after so many times to live. -/
structure Recent (cfg : Config) (slack entered : Nat) (second : Bool) (allAgents : Agents Node) :
    Prop where
  distinct : (allAgents.map Prod.fst).Nodup
  granted : ∀ agent ∈ allAgents, entered + rounds second * cfg.ttl ≤ agent.2 + cfg.ttl + slack

def Wait.Timely (cfg : Config) (slack now : Nat) : Wait Node → Prop
  | .absent => True
  | .sleeping entered wake second => entered + rounds second * cfg.ttl ≤ wake
  | .polling entered _ second => entered + rounds second * cfg.ttl ≤ now
  | .answered entered _ second allAgents =>
    entered + rounds second * cfg.ttl ≤ now ∧ Recent cfg slack entered second allAgents
  | .returned entered allAgents => 1 < allAgents.length ∧ Recent cfg slack entered true allAgents

/-- No key outlives its lease by more than `slack`, and the waits are waited out. -/
structure Timed (cfg : Config) (slack : Nat) (nodes : List Node) (s : State Node) : Prop where
  fresh : ∀ node ∈ nodes, ∀ granted, s.registry node = some granted →
    s.now ≤ granted + cfg.ttl + slack
  waited : s.wait.Timely cfg slack s.now

omit [DecidableEq Node] in
theorem recent_allAgents (distinct : nodes.Nodup) (timed : Timed cfg slack nodes s)
    {entered : Nat} {second : Bool} (waited : entered + rounds second * cfg.ttl ≤ s.now) :
    Recent cfg slack entered second (s.allAgents nodes) where
  distinct := by
    have keys : ((s.allAgents nodes).map Prod.fst).Sublist nodes := by
      unfold State.allAgents
      clear distinct timed
      induction nodes with
      | nil => simp
      | cons node rest ih =>
        cases held : s.registry node with
        | none => simpa [held] using ih.cons node
        | some granted => simpa [held] using ih
    exact keys.nodup distinct
  granted := by
    intro agent member
    obtain ⟨node, listed, found⟩ := List.mem_filterMap.mp member
    obtain ⟨granted, held, rfl⟩ := Option.map_eq_some_iff.mp found
    exact Nat.le_trans waited (timed.fresh node listed granted held)

omit [DecidableEq Node] in
theorem Wait.Timely.later {wait : Wait Node} {now later : Nat}
    (timely : wait.Timely cfg slack now) (le : now ≤ later) : wait.Timely cfg slack later := by
  cases wait with
  | absent => trivial
  | sleeping => exact timely
  | polling => exact Nat.le_trans timely le
  | answered => exact ⟨Nat.le_trans timely.1 le, timely.2⟩
  | returned => exact timely

omit [DecidableEq Node] in
theorem timely_counted {now entered : Nat} {second : Bool} {allAgents : Agents Node}
    (waited : entered + rounds second * cfg.ttl ≤ now)
    (recent : Recent cfg slack entered second allAgents) :
    (counted cfg now entered second allAgents).Timely cfg slack now := by
  unfold counted
  split
  · rename_i several
    cases second with
    | true => exact ⟨several, recent⟩
    | false =>
      simp only [Bool.false_eq_true, if_false, Wait.Timely]
      simp only [rounds, Bool.false_eq_true, if_false, if_true] at waited ⊢
      omega
  · simp only [Wait.Timely]
    cases second <;> simp only [rounds, if_true, Bool.false_eq_true, if_false] at waited ⊢ <;> omega

theorem timed_attach {granted : Nat} (timed : Timed cfg slack nodes s) (node : Node)
    (live : s.now ≤ granted + cfg.ttl + slack) : Timed cfg slack nodes (s.attach node granted) where
  fresh other member held found := by
    by_cases same : other = node
    · subst same
      simp only [State.attach, Function.update_self, Option.some.injEq] at found
      exact found ▸ live
    · simp only [State.attach, Function.update_of_ne same] at found
      exact timed.fresh other member held found
  waited := timed.waited

theorem timed_removed (timed : Timed cfg slack nodes s) :
    Timed cfg slack nodes { s with registry := Function.update s.registry node none } where
  fresh other member held found := by
    by_cases same : other = node
    · subst same
      simp at found
    · simp only [Function.update_of_ne same] at found
      exact timed.fresh other member held found
  waited := timed.waited

omit [DecidableEq Node] in
theorem timed_elapse {duration : Nat} (timed : Timed cfg slack nodes s)
    (calm : s.calm cfg slack nodes duration = true) :
    Timed cfg slack nodes { s with now := s.now + duration } where
  fresh node member granted found := by
    have kept := List.all_eq_true.mp (Bool.and_eq_true_iff.mp calm).1 node member
    have bound := (Bool.and_eq_true_iff.mp kept).2
    rw [show s.registry node = some granted from found] at bound
    simpa using bound
  waited := timed.waited.later (Nat.le_add_right _ _)

omit [DecidableEq Node] in
theorem timely_moves {now : Nat} {found : Agents Node} {wait after : Wait Node}
    {event : Event Node} (timely : wait.Timely cfg slack now)
    (recent : ∀ entered second, entered + rounds second * cfg.ttl ≤ now →
      Recent cfg slack entered second found)
    (moves : wait.Moves cfg now found event after) : after.Timely cfg slack now := by
  cases moves with
  | enter => simp [Wait.Timely, rounds]
  | wake sleeping =>
    subst sleeping
    exact timely
  | pollProcessed polling =>
    subst polling
    exact ⟨timely, recent _ _ timely⟩
  | pollReceived answered =>
    subst answered
    exact timely_counted timely.1 timely.2
  | @pollFails entered since second polling =>
    have passed : entered + rounds second * cfg.ttl ≤ now := by
      rcases polling with rfl | ⟨_, rfl⟩
      · exact timely
      · exact timely.1
    cases second <;> simp only [rounds, if_true, Bool.false_eq_true, if_false, Wait.Timely]
      at passed ⊢ <;> omega

theorem timed_step (distinct : nodes.Nodup) (timed : Timed cfg slack nodes s) {event : Event Node}
    (taken : step cfg slack nodes s event = some t) : Timed cfg slack nodes t := by
  cases taken_of_step taken with
  | elapse calm => exact timed_elapse timed calm
  | heartbeat => exact ⟨timed.fresh, timed.waited⟩
  | @put _ node _ _ _ _ _ live =>
    have attached := timed_attach timed node live
    exact ⟨attached.fresh, attached.waited⟩
  | @late node _ _ live =>
    have attached := timed_attach timed node live
    exact ⟨attached.fresh, attached.waited⟩
  | unregistered => exact timed_removed timed
  | expire => exact timed_removed timed
  | wait moves =>
    exact ⟨timed.fresh, timely_moves timed.waited
      (fun _ _ passed => recent_allAgents distinct timed passed) moves⟩

/-- The single point mode ends only after an agent other than the master itself
was in touch with etcd: it was granted its lease when the master had served alone
for a time to live, less the time etcd takes to drop a key. -/
theorem single_point_ends_after_contact (distinct : nodes.Nodup) {start : Nat}
    (run : Run (step cfg slack nodes) (fun _ _ => True) (init start) s) {entered : Nat}
    {allAgents : Agents Node} (returned : s.wait = .returned entered allAgents) (self : Node) :
    ∃ agent ∈ allAgents, agent.1 ≠ self ∧ entered + cfg.ttl ≤ agent.2 + slack := by
  have timed : Timed cfg slack nodes s :=
    run.invariant ⟨fun _ _ _ found => by simp [init] at found, trivial⟩
      fun timed _ taken => timed_step distinct timed taken
  have waited := timed.waited
  rw [returned] at waited
  obtain ⟨several, recent⟩ := waited
  have another : ∃ agent ∈ allAgents, agent.1 ≠ self := by
    by_contra none
    push Not at none
    have same : ∀ id ∈ allAgents.map Prod.fst, id = self := by
      intro id member
      obtain ⟨agent, listed, rfl⟩ := List.mem_map.mp member
      exact none agent listed
    have single := List.eq_replicate_of_mem same
    have nodup := recent.distinct
    rw [single, List.nodup_replicate] at nodup
    simp only [List.length_map] at nodup
    omega
  obtain ⟨agent, member, ne⟩ := another
  have bound := recent.granted agent member
  simp only [rounds, if_true] at bound
  exact ⟨agent, member, ne, by omega⟩

/-! ### How long a registration lasts

A node whose registrations take at most `d` each, and of which no more than
`failures` fail in a row, begins the next one within `d` and `failures + 1`
rounds of the last grant. -/

/-- The longest time from the beginning of a registration to the next tick that
finds the goroutine in its `select`. -/
def Config.round (cfg : Config) (d : Nat) : Nat := max cfg.period d

/-- The latest time at which the next registration begins. -/
def Heartbeat.due (cfg : Config) (d granted : Nat) (h : Heartbeat) : Nat :=
  granted + d + (h.missed + 1) * cfg.round d

/-- A registration under way since `since` is within its time. -/
structure Within (d now since : Nat) : Prop where
  begun : since ≤ now
  bounded : now ≤ since + d

/-- The next tick is ahead, by a period at most. -/
structure Ahead (cfg : Config) (now next : Nat) : Prop where
  coming : now ≤ next
  soon : next ≤ now + cfg.period

/-- The goroutine in the loop of `Heartbeat`, with a lease granted at `granted`. -/
def Heartbeat.OnTime (cfg : Config) (d now granted : Nat) (h : Heartbeat) : Prop :=
  ∃ next, h.ticker = some next ∧ Ahead cfg now next ∧
    match h.position with
    | .select => h.pending = true ∧ now ≤ h.due cfg d granted ∨ next ≤ h.due cfg d granted
    | .granting since =>
      since ≤ h.due cfg d granted ∧ Within d now since ∧
        (h.pending = true ∨ next ≤ since + cfg.period)
    | .putting since granted' =>
      since ≤ h.due cfg d granted ∧ Within d now since ∧ since ≤ granted' ∧
        (h.pending = true ∨ next ≤ since + cfg.period)
    | .idle | .retry _ => False

/-- The goroutine before its first registration has succeeded. -/
def Heartbeat.First (d now : Nat) (h : Heartbeat) : Prop :=
  h.ticker = none ∧ h.pending = false ∧
    match h.position with
    | .idle | .retry _ => True
    | .granting since => Within d now since
    | .putting since granted => Within d now since ∧ since ≤ granted
    | .select => False

/-- A node that registers for the first time, or that is registered and on time. -/
def Beats (cfg : Config) (d failures now : Nat) (h : Heartbeat) (registration : Option Nat) :
    Prop :=
  h.First d now ∨ ∃ granted, registration = some granted ∧ h.missed ≤ failures ∧
    h.OnTime cfg d now granted

section OneNode
variable {d failures now granted since : Nat} {h : Heartbeat} {registration : Option Nat}

/-- The deadline of the next registration is in time for the lease. -/
theorem due_lt_ttl (granted : Nat) (bound : (failures + 1) * cfg.round d + 2 * d < cfg.ttl)
    (missed : h.missed ≤ failures) : h.due cfg d granted + d < granted + cfg.ttl := by
  have rounds : (h.missed + 1) * cfg.round d ≤ (failures + 1) * cfg.round d :=
    Nat.mul_le_mul_right _ (Nat.succ_le_succ missed)
  unfold Heartbeat.due
  omega

/-- The lease of a node that beats has not ended. -/
theorem beats_lt_ttl (bound : (failures + 1) * cfg.round d + 2 * d < cfg.ttl)
    (missed : h.missed ≤ failures) (onTime : h.OnTime cfg d now granted) :
    now < granted + cfg.ttl := by
  have inTime := due_lt_ttl granted bound missed
  obtain ⟨next, -, ahead, position⟩ := onTime
  have coming := ahead.coming
  split at position
  · omega
  · have := position.2.1.bounded
    omega
  · have := position.2.1.bounded
    omega
  · contradiction
  · contradiction

theorem Beats.first (beats : Beats cfg d failures now h registration) (none : h.ticker = none) :
    h.First d now := by
  rcases beats with first | ⟨_, -, -, _, ticker, -⟩
  · exact first
  · rw [none] at ticker
    contradiction

/-- A later lease is due later. -/
theorem Beats.newer (beats : Beats cfg d failures now h registration)
    (later : ∀ old, registration = some old → old ≤ granted) :
    Beats cfg d failures now h (some granted) := by
  rcases beats with first | ⟨old, held, missed, next, ticker, ahead, onTime⟩
  · exact .inl first
  · have due : h.due cfg d old ≤ h.due cfg d granted :=
      Nat.add_le_add_right (Nat.add_le_add_right (later old held) _) _
    refine .inr ⟨granted, rfl, missed, next, ticker, ahead, ?_⟩
    split at onTime
    · exact onTime.imp (And.imp_right (Nat.le_trans · due)) (Nat.le_trans · due)
    · exact ⟨Nat.le_trans onTime.1 due, onTime.2⟩
    · exact ⟨Nat.le_trans onTime.1 due, onTime.2⟩
    · contradiction
    · contradiction

theorem beats_elapse {duration : Nat} (beats : Beats cfg d failures now h registration)
    (calm : h.calm cfg now duration = true)
    (quick : ∀ since, h.position = .granting since ∨
      (∃ granted, h.position = .putting since granted) → now + duration ≤ since + d) :
    Beats cfg d failures (now + duration) h registration := by
  obtain ⟨ticks, ready⟩ := Bool.and_eq_true_iff.mp calm
  rcases beats with ⟨ticker, pending, first⟩ | ⟨granted, held, missed, next, ticker, ahead, onTime⟩
  · refine .inl ⟨ticker, pending, ?_⟩
    split at first <;> rename_i position
    · trivial
    · trivial
    · exact ⟨Nat.le_add_right_of_le first.begun, quick _ (.inl position)⟩
    · exact ⟨⟨Nat.le_add_right_of_le first.1.begun, quick _ (.inr ⟨_, position⟩)⟩, first.2⟩
    · contradiction
  · have coming : now + duration ≤ next := by simpa [ticker] using ticks
    have soon : next ≤ now + duration + cfg.period := by
      have := ahead.soon
      omega
    refine .inr ⟨granted, held, missed, next, ticker, ⟨coming, soon⟩, ?_⟩
    split at onTime <;> rename_i position
    · simp only [position, Bool.or_eq_true, Bool.not_eq_true', beq_iff_eq] at ready
      rcases onTime with ⟨pending, due⟩ | due
      · rcases ready with idle | rfl
        · rw [pending] at idle
          contradiction
        · exact .inl ⟨pending, due⟩
      · exact .inr due
    · exact ⟨onTime.1, ⟨Nat.le_add_right_of_le onTime.2.1.begun, quick _ (.inl position)⟩,
        onTime.2.2⟩
    · exact ⟨onTime.1, ⟨Nat.le_add_right_of_le onTime.2.1.begun, quick _ (.inr ⟨_, position⟩)⟩,
        onTime.2.2⟩
    · contradiction
    · contradiction

theorem beats_granted (beats : Beats cfg d failures now h registration)
    (position : h.position = .granting since) :
    Beats cfg d failures now { h with position := .putting since now } registration := by
  rcases beats with ⟨ticker, pending, first⟩ | ⟨granted, held, missed, next, ticker, ahead, onTime⟩
  · simp only [position] at first
    exact .inl ⟨ticker, pending, first, first.begun⟩
  · simp only [position] at onTime
    exact .inr ⟨granted, held, missed, next, ticker, ahead, onTime.1, onTime.2.1,
      onTime.2.1.begun, onTime.2.2⟩

/-- A registration that has been applied, with its lease granted at `granted`: the
next one is due in time, whether or not the answer arrived. -/
theorem onTime_applied {next : Nat} (ok : Bool) (ticker : h.ticker = some next)
    (ahead : Ahead cfg now next) (within : Within d now since) (order : since ≤ granted)
    (ticks : h.pending = true ∨ next ≤ since + cfg.period) :
    (h.registered cfg now ok).OnTime cfg d now granted := by
  have period : cfg.period ≤ cfg.round d := Nat.le_max_left ..
  have delay : d ≤ cfg.round d := Nat.le_max_right ..
  have one : cfg.round d ≤ ((h.registered cfg now ok).missed + 1) * cfg.round d :=
    Nat.le_mul_of_pos_left _ (Nat.succ_pos _)
  have bounded := within.bounded
  simp only [Heartbeat.registered, ticker] at one ⊢
  refine ⟨next, rfl, ahead, ?_⟩
  simp only [Heartbeat.due]
  rcases ticks with pending | soon
  · exact .inl ⟨pending, by omega⟩
  · exact .inr (by omega)

theorem beats_put (beats : Beats cfg d failures now h registration)
    (position : h.position = .putting since granted) :
    Beats cfg d failures now (h.registered cfg now true) (some granted) := by
  right
  rcases beats with ⟨ticker, pending, first⟩ | ⟨old, -, -, next, ticker, ahead, onTime⟩
  · simp only [position] at first
    obtain ⟨within, order⟩ := first
    have period : cfg.period ≤ cfg.round d := Nat.le_max_left ..
    have bounded := within.bounded
    refine ⟨granted, rfl, by simp [Heartbeat.registered, ticker], ?_⟩
    simp only [Heartbeat.registered, ticker, if_true]
    refine ⟨now + cfg.period, rfl, ⟨Nat.le_add_right _ _, Nat.le_refl _⟩, .inr ?_⟩
    simp only [Heartbeat.due, Nat.zero_add, Nat.one_mul]
    omega
  · simp only [position] at onTime
    obtain ⟨-, within, order, ticks⟩ := onTime
    refine ⟨granted, rfl, by simp [Heartbeat.registered, ticker], ?_⟩
    exact onTime_applied true ticker ahead within order ticks

/-- A registration that fails, and has been applied all the same or not. -/
theorem beats_failed (beats : Beats cfg d failures now h registration)
    (position : h.position = .granting since ∨ ∃ granted, h.position = .putting since granted)
    (spare : h.ticker = none ∨ h.missed < failures) {after : Option Nat}
    (applied : after = registration ∨
      ∃ granted, h.position = .putting since granted ∧ after = some granted) :
    Beats cfg d failures now (h.registered cfg now false) after := by
  rcases beats with ⟨ticker, pending, first⟩ | ⟨old, held, -, next, ticker, ahead, onTime⟩
  · left
    simp only [Heartbeat.registered, ticker, Bool.false_eq_true, if_false]
    exact ⟨rfl, pending, trivial⟩
  · right
    have missed : (h.registered cfg now false).missed ≤ failures := by
      have spare : h.missed < failures := by simpa [ticker] using spare
      simpa [Heartbeat.registered, ticker] using Nat.succ_le_of_lt spare
    rcases applied with rfl | ⟨granted, putting, rfl⟩
    · refine ⟨old, held, missed, ?_⟩
      have facts : since ≤ h.due cfg d old ∧ Within d now since ∧
          (h.pending = true ∨ next ≤ since + cfg.period) := by
        rcases position with granting | ⟨granted, putting⟩
        · simpa only [granting] using onTime
        · simp only [putting] at onTime
          exact ⟨onTime.1, onTime.2.1, onTime.2.2.2⟩
      obtain ⟨due, within, ticks⟩ := facts
      have period : cfg.period ≤ cfg.round d := Nat.le_max_left ..
      have delay : d ≤ cfg.round d := Nat.le_max_right ..
      have bounded := within.bounded
      simp only [Heartbeat.registered, ticker]
      refine ⟨next, rfl, ahead, ?_⟩
      simp only [Heartbeat.due, Bool.false_eq_true, if_false, Nat.succ_mul] at due ⊢
      rcases ticks with pending | soon
      · exact .inl ⟨pending, by omega⟩
      · exact .inr (by omega)
    · refine ⟨granted, rfl, missed, ?_⟩
      simp only [putting] at onTime
      exact onTime_applied false ticker ahead onTime.2.1 onTime.2.2.1 onTime.2.2.2

theorem beats_tick (beats : Beats cfg d failures now h registration)
    (ticker : h.ticker = some now) :
    Beats cfg d failures now { h with ticker := some (now + cfg.period), pending := true }
      registration := by
  rcases beats with ⟨none, -, -⟩ | ⟨granted, held, missed, next, found, ahead, onTime⟩
  · rw [ticker] at none
    contradiction
  · right
    obtain rfl : now = next := Option.some.inj (ticker.symm.trans found)
    refine ⟨granted, held, missed, now + cfg.period, rfl,
      ⟨Nat.le_add_right _ _, Nat.le_refl _⟩, ?_⟩
    split at onTime <;> rename_i position <;> simp only [position]
    · exact .inl ⟨trivial, onTime.elim And.right id⟩
    · exact ⟨onTime.1, onTime.2.1, .inl trivial⟩
    · exact ⟨onTime.1, onTime.2.1, onTime.2.2.1, .inl trivial⟩
    · contradiction
    · contradiction

theorem beats_beat (beats : Beats cfg d failures now h registration)
    (position : h.position = .select) :
    Beats cfg d failures now { h with position := .granting now, pending := false }
      registration := by
  rcases beats with ⟨-, -, first⟩ | ⟨granted, held, missed, next, ticker, ahead, onTime⟩
  · simp [position] at first
  · simp only [position] at onTime
    refine .inr ⟨granted, held, missed, next, ticker, ahead, ?_,
      ⟨Nat.le_refl _, Nat.le_add_right _ _⟩, .inr ahead.soon⟩
    rcases onTime with ⟨-, due⟩ | due
    · exact due
    · exact Nat.le_trans ahead.coming due

omit [DecidableEq Node] in
/-- What the heartbeat does by itself keeps it on time. -/
theorem beats_moves (beats : Beats cfg d failures now h registration) {event : Event Node}
    {after : Heartbeat} (moves : h.Moves cfg now node event after)
    (spare : event = .fails node ∨ event = .putLost node →
      h.ticker = none ∨ h.missed < failures) :
    Beats cfg d failures now after registration := by
  cases moves with
  | register => exact .inl ⟨rfl, rfl, Nat.le_refl _, Nat.le_add_right _ _⟩
  | granted position => exact beats_granted beats position
  | fails failing position => exact beats_failed beats position (spare failing) (.inl rfl)
  | retry position =>
    rcases beats with ⟨ticker, pending, -⟩ | ⟨_, -, -, _, -, -, onTime⟩
    · exact .inl ⟨ticker, pending, Nat.le_refl _, Nat.le_add_right _ _⟩
    · simp [position] at onTime
  | tick ticker => exact beats_tick beats ticker
  | beat position => exact beats_beat beats position
  | stops => exact .inl ⟨rfl, rfl, trivial⟩

end OneNode

/-- The runs in which the node's registrations are quick and fail no more than
`failures` times in a row once it is registered, nobody unregisters it while its
heartbeat goes on, and no put that it gave up then takes the key back to an older
lease. -/
def Healthy (node : Node) (d failures : Nat) (s : State Node) : Event Node → Prop
  | .elapse duration => ∀ since, (s.heartbeats node).position = .granting since ∨
      (∃ granted, (s.heartbeats node).position = .putting since granted) →
      s.now + duration ≤ since + d
  | .unregistered removed => removed = node → (s.heartbeats node).ticker = none
  | .late put => put.1 = node → (s.heartbeats node).ticker = none ∨
      ∀ granted, s.registry node = some granted → granted ≤ put.2
  | .putUnanswered failed | .putLost failed | .fails failed => failed = node →
      (s.heartbeats node).ticker = none ∨ (s.heartbeats node).missed < failures
  | _ => True

def State.Beats (cfg : Config) (d failures : Nat) (node : Node) (s : State Node) : Prop :=
  RegistrationClock.Beats cfg d failures s.now (s.heartbeats node) (s.registry node)

theorem beats_setHeartbeat {d failures : Nat} {changed : Node} {h : Heartbeat}
    (beats : s.Beats cfg d failures node)
    (own : changed = node → RegistrationClock.Beats cfg d failures s.now h (s.registry node)) :
    (s.setHeartbeat changed h).Beats cfg d failures node := by
  by_cases same : node = changed
  · subst same
    simpa [State.Beats, State.setHeartbeat] using own rfl
  · simpa [State.Beats, State.setHeartbeat, Function.update_of_ne same] using beats

theorem beats_step {d failures : Nat} (member : node ∈ nodes)
    (bound : (failures + 1) * cfg.round d + 2 * d < cfg.ttl)
    (beats : s.Beats cfg d failures node) {event : Event Node}
    (healthy : Healthy node d failures s event)
    (taken : step cfg slack nodes s event = some t) : t.Beats cfg d failures node := by
  cases taken_of_step taken with
  | elapse calm =>
    have kept := List.all_eq_true.mp (Bool.and_eq_true_iff.mp calm).1 node member
    exact beats_elapse beats (Bool.and_eq_true_iff.mp kept).1 healthy
  | @heartbeat _ changed h _ moves =>
    change (s.setHeartbeat changed h).Beats cfg d failures node
    apply beats_setHeartbeat beats
    rintro rfl
    refine beats_moves beats moves ?_
    rintro (rfl | rfl) <;> exact healthy rfl
  | @put _ changed _ _ ok made position =>
    by_cases same : node = changed
    · subst same
      suffices applied : RegistrationClock.Beats cfg d failures s.now
          ((s.heartbeats node).registered cfg s.now ok) (some _) by
        simpa [State.Beats, State.attach, State.setHeartbeat] using applied
      cases ok with
      | true => exact beats_put beats position
      | false =>
        subst made
        exact beats_failed beats (.inr ⟨_, position⟩) (healthy rfl) (.inr ⟨_, position, rfl⟩)
    · simpa [State.Beats, State.attach, State.setHeartbeat, Function.update_of_ne same] using beats
  | @late changed granted =>
    by_cases same : node = changed
    · subst same
      rcases healthy rfl with none | later
      · exact .inl (beats.first none)
      · simpa [State.Beats, State.attach] using beats.newer later
    · simpa [State.Beats, State.attach, Function.update_of_ne same] using beats
  | @unregistered removed =>
    by_cases same : node = removed
    · exact .inl (beats.first (healthy same.symm))
    · simpa [State.Beats, Function.update_of_ne same] using beats
  | @expire expired granted held ended =>
    rcases beats with first | ⟨own, found, missed, onTime⟩
    · exact .inl first
    · -- the lease of a node that is on time has not run out
      have ne : node ≠ expired := by
        rintro rfl
        obtain rfl : own = granted := Option.some.inj (found.symm.trans held)
        have := beats_lt_ttl bound missed onTime
        omega
      refine .inr ⟨own, ?_, missed, onTime⟩
      simpa [Function.update_of_ne ne] using found
  | wait => exact beats

/-- While the heartbeat of a node goes on, the node is registered: the lease of its
last registration outlives the `failures` that may follow it, when `failures + 1`
rounds and twice the time of a registration fit into the time to live. -/
theorem heartbeat_keeps_registration {d failures start : Nat} (member : node ∈ nodes)
    (bound : (failures + 1) * cfg.round d + 2 * d < cfg.ttl)
    (run : Run (step cfg slack nodes) (Healthy node d failures) (init start) s)
    (begun : (s.heartbeats node).ticker ≠ none) :
    ∃ granted, s.registry node = some granted ∧ s.now < granted + cfg.ttl := by
  have beats : s.Beats cfg d failures node :=
    run.invariant (.inl ⟨rfl, rfl, trivial⟩)
      fun beats healthy taken => beats_step member bound beats healthy taken
  rcases beats with ⟨none, -, -⟩ | ⟨granted, held, missed, onTime⟩
  · exact absurd none begun
  · exact ⟨granted, held, beats_lt_ttl bound missed onTime⟩

/-- With the default configuration a node survives without a failure whatever the
requests take, up to their timeout; with requests of three seconds it survives
every second heartbeat being lost. -/
example : 1 * defaultConfig.round defaultConfig.etcdDialTimeout +
    2 * defaultConfig.etcdDialTimeout < defaultConfig.ttl ∧
    2 * defaultConfig.round (seconds 3) + 2 * seconds 3 < defaultConfig.ttl := by decide +kernel

/-! ### How long the single point mode lasts -/

theorem ticker_registered {h : Heartbeat} (now : Nat) (ok : Bool) (begun : h.ticker ≠ none) :
    (h.registered cfg now ok).ticker ≠ none := by
  obtain ⟨next, ticker⟩ := Option.ne_none_iff_exists'.mp begun
  simp [Heartbeat.registered, ticker]

/-- The heartbeat goes on once it has begun. -/
theorem begun_step {d failures : Nat} (beats : s.Beats cfg d failures node) {event : Event Node}
    (goesOn : event ≠ .stops node)
    (taken : step cfg slack nodes s event = some t)
    (begun : (s.heartbeats node).ticker ≠ none) : (t.heartbeats node).ticker ≠ none := by
  have set : ∀ {changed : Node} {h : Heartbeat}, (changed = node → h.ticker ≠ none) →
      (Function.update s.heartbeats changed h node).ticker ≠ none := by
    intro changed h own
    by_cases same : node = changed
    · subst same
      simpa using own rfl
    · simpa [Function.update_of_ne same] using begun
  cases taken_of_step taken with
  | heartbeat moves =>
    apply set
    rintro rfl
    cases moves with
    | register idle =>
      rcases beats with ⟨none, -, -⟩ | ⟨_, -, -, _, -, -, onTime⟩
      · exact absurd none begun
      · simp [idle] at onTime
    | granted => exact begun
    | fails => exact ticker_registered s.now false begun
    | retry => exact begun
    | tick => simp
    | beat => exact begun
    | stops => exact absurd rfl goesOn
  | @put _ _ _ _ ok =>
    apply set
    rintro rfl
    exact ticker_registered s.now ok begun
  | _ => exact begun

omit [DecidableEq Node] in
/-- Two registered nodes are more than one agent. -/
theorem two_agents {first second : Node} (ne : first ≠ second)
    (members : first ∈ nodes ∧ second ∈ nodes)
    (registered : s.registry first ≠ none ∧ s.registry second ≠ none) :
    1 < (s.allAgents nodes).length := by
  have listed : ∀ node ∈ nodes, s.registry node ≠ none →
      node ∈ (s.allAgents nodes).map Prod.fst := by
    intro node member held
    obtain ⟨granted, found⟩ := Option.ne_none_iff_exists'.mp held
    refine List.mem_map.mpr ⟨(node, granted), List.mem_filterMap.mpr ⟨node, member, ?_⟩, rfl⟩
    simp [found]
  have one := listed first members.1 registered.1
  have other := listed second members.2 registered.2
  rw [← List.length_map (f := Prod.fst)]
  revert one other
  cases (s.allAgents nodes).map Prod.fst with
  | nil => simp
  | cons head rest =>
    cases rest with
    | nil =>
      simp only [List.mem_singleton]
      rintro rfl rfl
      exact absurd rfl ne
    | cons => simp

/-- The longest time from the beginning of a poll to the end of the wait, when every
poll counts several agents. -/
def Config.polls (cfg : Config) (second : Bool) : Nat :=
  if second then cfg.etcdDialTimeout
  else cfg.etcdDialTimeout + cfg.ttl + cfg.etcdDialTimeout

/-- The longest time a wait goes on after the first moment from which every poll
counts several agents: an answer with a single one may be on its way, or the
longest of the sleeps just begun. -/
def Config.patience (cfg : Config) : Nat :=
  cfg.etcdDialTimeout + max cfg.ttl (seconds 5) + cfg.polls false

/-- No sleep is longer than the longest, and no poll than its timeout. -/
def Wait.Bounded (cfg : Config) (now : Nat) : Wait Node → Prop
  | .absent | .returned .. => True
  | .sleeping _ wake _ => now ≤ wake ∧ wake ≤ now + max cfg.ttl (seconds 5)
  | .polling _ since _ | .answered _ since _ _ => Within cfg.etcdDialTimeout now since

omit [DecidableEq Node] in
theorem bounded_moves {now : Nat} {found : Agents Node} {wait after : Wait Node}
    {event : Event Node} (bounded : wait.Bounded cfg now)
    (moves : wait.Moves cfg now found event after) : after.Bounded cfg now := by
  have ttl : cfg.ttl ≤ max cfg.ttl (seconds 5) := Nat.le_max_left ..
  have pause : seconds 5 ≤ max cfg.ttl (seconds 5) := Nat.le_max_right ..
  have begins : Within cfg.etcdDialTimeout now now := ⟨Nat.le_refl _, Nat.le_add_right _ _⟩
  have sleeps : ∀ {duration : Nat}, duration ≤ max cfg.ttl (seconds 5) →
      now ≤ now + duration ∧ now + duration ≤ now + max cfg.ttl (seconds 5) :=
    fun short => ⟨Nat.le_add_right _ _, Nat.add_le_add_left short _⟩
  cases moves with
  | enter => exact sleeps ttl
  | wake => exact begins
  | pollProcessed polling =>
    subst polling
    exact bounded
  | pollReceived =>
    unfold counted
    split
    · split
      · trivial
      · exact sleeps ttl
    · exact sleeps pause
  | pollFails =>
    split
    · exact begins
    · exact sleeps pause

theorem bounded_step (bounded : s.wait.Bounded cfg s.now) {event : Event Node}
    (taken : step cfg slack nodes s event = some t) : t.wait.Bounded cfg t.now := by
  cases taken_of_step taken with
  | elapse calm =>
    have kept := (Bool.and_eq_true_iff.mp calm).2
    cases wait : s.wait <;> simp only [wait, Wait.calm, Wait.Bounded, decide_eq_true_eq] at *
    case sleeping => omega
    all_goals exact ⟨Nat.le_add_right_of_le bounded.begun, kept⟩
  | wait moves => exact bounded_moves bounded moves
  | _ => exact bounded

/-- The wait returns by the deadline when every poll from now on counts several
agents. -/
def Wait.InTime (cfg : Config) (deadline now : Nat) : Wait Node → Prop
  | .absent => False
  | .sleeping _ wake second => now ≤ wake ∧ wake + cfg.polls second ≤ deadline
  | .polling _ since second =>
    now ≤ since + cfg.etcdDialTimeout ∧ since + cfg.polls second ≤ deadline
  | .answered _ since second allAgents =>
    now ≤ since + cfg.etcdDialTimeout ∧ since + (if 1 < allAgents.length then cfg.polls second
      else cfg.etcdDialTimeout + seconds 5 + cfg.polls false) ≤ deadline
  | .returned .. => True

theorem timeout_le_polls (cfg : Config) (second : Bool) :
    cfg.etcdDialTimeout ≤ cfg.polls second := by
  cases second <;> simp only [Config.polls, if_true, Bool.false_eq_true, if_false] <;> omega

theorem polls_le_polls_false (cfg : Config) (second : Bool) :
    cfg.polls second ≤ cfg.polls false := by
  cases second <;> simp only [Config.polls, if_true, Bool.false_eq_true, if_false] <;> omega

omit [DecidableEq Node] in
/-- Wherever a wait is, it has no longer to go than its patience. -/
theorem Wait.Bounded.inTime {wait : Wait Node} {now : Nat} (bounded : wait.Bounded cfg now)
    (waiting : wait ≠ .absent) : wait.InTime cfg (now + cfg.patience) now := by
  have pause : seconds 5 ≤ max cfg.ttl (seconds 5) := Nat.le_max_right ..
  cases wait with
  | absent => exact absurd rfl waiting
  | returned => trivial
  | sleeping entered wake second =>
    have := polls_le_polls_false cfg second
    have := bounded.2
    exact ⟨bounded.1, by unfold Config.patience; omega⟩
  | polling entered since second =>
    have := polls_le_polls_false cfg second
    have := bounded.begun
    exact ⟨bounded.bounded, by unfold Config.patience; omega⟩
  | answered entered since second allAgents =>
    have := polls_le_polls_false cfg second
    have := bounded.begun
    refine ⟨bounded.bounded, ?_⟩
    unfold Config.patience
    split <;> omega

omit [DecidableEq Node] in
/-- A wait that has not returned is before its deadline. -/
theorem Wait.InTime.returned {wait : Wait Node} {deadline now : Nat}
    (inTime : wait.InTime cfg deadline now) (later : deadline < now) :
    ∃ entered allAgents, wait = .returned entered allAgents := by
  cases wait with
  | returned entered allAgents => exact ⟨entered, allAgents, rfl⟩
  | absent => exact absurd inTime id
  | sleeping entered wake second =>
    have := inTime.2
    have := inTime.1
    omega
  | polling entered since second =>
    have := timeout_le_polls cfg second
    have := inTime.2
    have := inTime.1
    omega
  | answered entered since second allAgents =>
    have := timeout_le_polls cfg second
    have inside := inTime.2
    have := inTime.1
    split at inside <;> omega

omit [DecidableEq Node] in
theorem inTime_moves {deadline now : Nat} {found : Agents Node} {wait after : Wait Node}
    {event : Event Node} (inTime : wait.InTime cfg deadline now) (several : 1 < found.length)
    (answered : event ≠ .pollFails ∧ event ≠ .enter)
    (moves : wait.Moves cfg now found event after) : after.InTime cfg deadline now := by
  cases moves with
  | enter => exact absurd rfl answered.2
  | wake sleeping =>
    subst sleeping
    exact ⟨Nat.le_add_right _ _, inTime.2⟩
  | pollProcessed polling =>
    subst polling
    exact ⟨inTime.1, by rw [if_pos several]; exact inTime.2⟩
  | @pollReceived entered since second allAgents received =>
    subst received
    obtain ⟨_, inside⟩ := inTime
    unfold counted
    -- An answer with a single agent was processed before the others were there.
    by_cases more : 1 < allAgents.length
    · rw [if_pos more] at inside ⊢
      cases second with
      | true => trivial
      | false =>
        simp only [Config.polls, Bool.false_eq_true, if_false] at inside
        exact ⟨Nat.le_add_right _ _, by simp only [Config.polls, if_true]; omega⟩
    · rw [if_neg more] at inside ⊢
      exact ⟨Nat.le_add_right _ _, by omega⟩
  | pollFails => exact absurd rfl answered.1

theorem inTime_step {deadline : Nat} (inTime : s.wait.InTime cfg deadline s.now)
    (several : 1 < (s.allAgents nodes).length) {event : Event Node}
    (answered : event ≠ .pollFails ∧ event ≠ .enter)
    (taken : step cfg slack nodes s event = some t) : t.wait.InTime cfg deadline t.now := by
  cases taken_of_step taken with
  | elapse calm =>
    have kept := (Bool.and_eq_true_iff.mp calm).2
    cases wait : s.wait <;> simp only [wait, Wait.calm, Wait.InTime, decide_eq_true_eq] at *
    all_goals exact ⟨kept, inTime.2⟩
  | wait moves => exact inTime_moves inTime several answered moves
  | _ => exact inTime

/-- A node that beats, and has begun to. -/
def State.Keeps (cfg : Config) (d failures : Nat) (node : Node) (s : State Node) : Prop :=
  s.Beats cfg d failures node ∧ (s.heartbeats node).ticker ≠ none

omit [DecidableEq Node] in
theorem State.Keeps.registered {d failures : Nat} (keeps : s.Keeps cfg d failures node) :
    s.registry node ≠ none := by
  obtain ⟨⟨none, -, -⟩ | ⟨granted, held, -⟩, begun⟩ := keeps
  · exact absurd none begun
  · simp [held]

/-- The node keeps up its registration, and its heartbeat does not end. -/
def GoesOn (node : Node) (d failures : Nat) (s : State Node) (event : Event Node) : Prop :=
  Healthy node d failures s event ∧ event ≠ .stops node

theorem keeps_step {d failures : Nat} (member : node ∈ nodes)
    (bound : (failures + 1) * cfg.round d + 2 * d < cfg.ttl)
    (keeps : s.Keeps cfg d failures node) {event : Event Node}
    (goesOn : GoesOn node d failures s event)
    (taken : step cfg slack nodes s event = some t) : t.Keeps cfg d failures node :=
  ⟨beats_step member bound keeps.1 goesOn.1 taken, begun_step keeps.1 goesOn.2 taken keeps.2⟩

/-- Both heartbeats go on, and every poll of the wait is answered. -/
def Settled (first second : Node) (d failures : Nat) (s : State Node) (event : Event Node) : Prop :=
  GoesOn first d failures s event ∧ GoesOn second d failures s event ∧
    event ≠ .pollFails ∧ event ≠ .enter

/-- The single point mode does not outlast the return of a second node: from the
moment at which the heartbeats of two nodes have begun, wherever the wait is then,
it is over when its patience has passed, if both go on and every poll is answered.
Before that moment the nodes may come and go, and polls may fail. -/
theorem single_point_ends_in_time {first second : Node} {d failures start : Nat}
    (ne : first ≠ second) (members : first ∈ nodes ∧ second ∈ nodes)
    (bound : (failures + 1) * cfg.round d + 2 * d < cfg.ttl)
    (before : Run (step cfg slack nodes) (fun s event =>
      Healthy first d failures s event ∧ Healthy second d failures s event) (init start) s)
    (beating : (s.heartbeats first).ticker ≠ none ∧ (s.heartbeats second).ticker ≠ none)
    (waiting : s.wait ≠ .absent)
    (run : Run (step cfg slack nodes) (Settled first second d failures) s t)
    (later : s.now + cfg.patience < t.now) :
    ∃ entered allAgents, t.wait = .returned entered allAgents := by
  have reached : (s.Beats cfg d failures first ∧ s.Beats cfg d failures second) ∧
      s.wait.Bounded cfg s.now := by
    refine @Run.invariant _ _ _ _ _ _ (fun s => (s.Beats cfg d failures first ∧
      s.Beats cfg d failures second) ∧ s.wait.Bounded cfg s.now) before
      ⟨⟨.inl ⟨rfl, rfl, trivial⟩, .inl ⟨rfl, rfl, trivial⟩⟩, trivial⟩
      fun held healthy taken => ⟨⟨?_, ?_⟩, bounded_step held.2 taken⟩
    · exact beats_step members.1 bound held.1.1 healthy.1 taken
    · exact beats_step members.2 bound held.1.2 healthy.2 taken
  obtain ⟨beats, bounded⟩ := reached
  have after : t.wait.InTime cfg (s.now + cfg.patience) t.now := by
    refine (@Run.invariant _ _ _ _ _ _ (fun u => (u.Keeps cfg d failures first ∧
      u.Keeps cfg d failures second) ∧ u.wait.InTime cfg (s.now + cfg.patience) u.now) run
      ⟨⟨⟨beats.1, beating.1⟩, beats.2, beating.2⟩, bounded.inTime waiting⟩
      fun held settled taken => ?_).2
    obtain ⟨⟨one, other⟩, inTime⟩ := held
    refine ⟨⟨keeps_step members.1 bound one settled.1 taken,
      keeps_step members.2 bound other settled.2.1 taken⟩, ?_⟩
    exact inTime_step inTime (two_agents ne members ⟨one.registered, other.registered⟩)
      settled.2.2 taken
  exact after.returned later

/-! ### A node that comes back -/

private def smallConfig : Config := ⟨3, seconds 1⟩

private def registers (node : Bool) : List (Event Bool) :=
  [.register node, .granted node, .put node]

private def beats (node : Bool) : List (Event Bool) :=
  [.tick node, .beat node, .granted node, .put node]

/-- Two nodes register. -/
private def joins : List (Event Bool) := registers false ++ registers true

/-- Both beat, and the polls count them twice. -/
private def waitsOut : List (Event Bool) :=
  [Event.elapse (seconds 2)] ++ beats false ++ beats true ++
  [Event.elapse (seconds 1), .wake, .pollProcessed, .pollReceived, .elapse (seconds 1)] ++
  beats false ++ beats true ++ [Event.elapse (seconds 2)] ++ beats false ++ beats true ++
  [Event.wake, .pollProcessed, .pollReceived]

/-- The single point mode of a master that another node has joined. -/
theorem single_point_ends_after_contact_of_second_node :
    ∃ s : State Bool, ∃ allAgents,
      Run (step smallConfig 0 [false, true]) (fun _ _ => True) (init 0) s ∧
      s.wait = .returned 0 allAgents ∧
      ∃ agent ∈ allAgents, agent.1 ≠ false ∧ smallConfig.ttl ≤ agent.2 := by
  have ran : (exec (restrict (step smallConfig 0 [false, true]) fun _ _ => true) (init 0)
      (joins ++ [Event.enter] ++ waitsOut)).any
      (fun s => s.wait == .returned 0 [(false, seconds 6), (true, seconds 6)]) = true := by
    decide +kernel
  obtain ⟨s, run, found⟩ := exists_run_of_exec (fun _ _ _ => trivial) ran
  have returned := eq_of_beq found
  obtain ⟨agent, member, ne, bound⟩ :=
    single_point_ends_after_contact (by decide) run returned false
  exact ⟨s, _, run, returned, agent, member, ne, by simpa using bound⟩

/-- A decidable condition under which a node is healthy: registrations take no time,
and none fails. -/
private def thrives (s : State Bool) : Event Bool → Bool
  | .elapse _ => [false, true].all fun node =>
      (s.heartbeats node).position == .select || (s.heartbeats node).position == .idle
  | .unregistered _ | .late _ | .putUnanswered _ | .putLost _ | .fails _ => false
  | _ => true

/-- A decidable condition under which both nodes are settled. -/
private def settles (s : State Bool) (event : Event Bool) : Bool :=
  thrives s event && event != .stops false && event != .stops true && event != .pollFails &&
    event != .enter

private theorem healthy_of_thrives {s : State Bool} {event : Event Bool} (node : Bool)
    (check : thrives s event = true) : Healthy node 0 0 s event := by
  cases event with
  | elapse duration =>
    have still : (s.heartbeats node).position = .select ∨ (s.heartbeats node).position = .idle := by
      cases node <;> simp_all [thrives]
    rintro since (granting | ⟨granted, putting⟩)
    · simp [granting] at still
    · simp [putting] at still
  | _ => simp_all [thrives, Healthy]

private theorem settled_of_settles {s : State Bool} {event : Event Bool}
    (check : settles s event = true) : Settled false true 0 0 s event := by
  simp only [settles, Bool.and_eq_true, bne_iff_ne] at check
  obtain ⟨⟨⟨⟨healthy, one⟩, other⟩, fails⟩, enter⟩ := check
  exact ⟨⟨healthy_of_thrives false healthy, one⟩, ⟨healthy_of_thrives true healthy, other⟩,
    fails, enter⟩

/-- Both nodes beat every two seconds, the second one after a restart. -/
private def beatsOn : List (Event Bool) :=
  joins ++ [Event.stops true] ++ registers true ++ [Event.elapse (seconds 2)] ++ beats false ++
    beats true ++ [Event.elapse (seconds 2)] ++ beats false ++ beats true ++
    [Event.elapse (seconds 2)]

/-- A node that has beaten for six seconds. -/
theorem heartbeat_keeps_registration_of_settled_node :
    ∃ s : State Bool, Run (step smallConfig 0 [false, true]) (Healthy true 0 0) (init 0) s ∧
      s.now = seconds 6 ∧
      ∃ granted, s.registry true = some granted ∧ s.now < granted + smallConfig.ttl := by
  have ran : (exec (restrict (step smallConfig 0 [false, true]) thrives) (init 0) beatsOn).any
      (fun s => s.now == seconds 6 && (s.heartbeats true).ticker.isSome) = true := by
    decide +kernel
  obtain ⟨s, run, found⟩ := exists_run_of_exec (fun _ _ => healthy_of_thrives true) ran
  obtain ⟨now, begun⟩ := Bool.and_eq_true_iff.mp found
  refine ⟨s, run, eq_of_beq now, ?_⟩
  exact heartbeat_keeps_registration (by decide) (by decide +kernel) run
    (Option.isSome_iff_ne_none.mp begun)

/-- The second node stops, the master enters the mode and counts itself alone, and the
node comes back while the wait sleeps. -/
private def comesBack : List (Event Bool) :=
  joins ++ [Event.stops true, .enter, .elapse (seconds 2)] ++ beats false ++
    [Event.elapse (seconds 1), .expire true, .wake, .pollProcessed, .pollReceived,
      .elapse (seconds 1)] ++ beats false ++ registers true

/-- Two seconds go by, and both nodes beat. -/
private def goesBy : List (Event Bool) := [Event.elapse (seconds 2)] ++ beats false ++ beats true

private def waitsLonger : List (Event Bool) :=
  goesBy ++ goesBy ++ [Event.wake, .pollProcessed, .pollReceived] ++ goesBy ++
    [Event.elapse (seconds 1), .wake, .pollProcessed, .pollReceived, .elapse (seconds 1)] ++
    beats false ++ beats true ++ goesBy ++ goesBy

/-- Twelve seconds after the second node has come back the mode is over. -/
theorem single_point_ends_in_time_of_settled_nodes :
    ∃ s t : State Bool,
      Run (step smallConfig 0 [false, true]) (fun s event =>
        Healthy false 0 0 s event ∧ Healthy true 0 0 s event) (init 0) s ∧
      s.wait = .sleeping 0 (seconds 8) false ∧
      Run (step smallConfig 0 [false, true]) (Settled false true 0 0) s t ∧
      ∃ entered allAgents, t.wait = .returned entered allAgents := by
  have ran : (exec (restrict (step smallConfig 0 [false, true]) thrives) (init 0) comesBack).any
      (fun s => s.now == seconds 4 && s.wait == .sleeping 0 (seconds 8) false &&
        (s.heartbeats false).ticker.isSome && (s.heartbeats true).ticker.isSome &&
        (exec (restrict (step smallConfig 0 [false, true]) settles) s waitsLonger).any
          fun t => t.now == seconds 16) = true := by
    decide +kernel
  obtain ⟨s, before, found⟩ := exists_run_of_exec (fun _ _ check =>
    And.intro (healthy_of_thrives false check) (healthy_of_thrives true check)) ran
  simp only [Bool.and_eq_true, beq_iff_eq] at found
  obtain ⟨⟨⟨⟨now, waits⟩, one⟩, other⟩, rest⟩ := found
  obtain ⟨t, executed, later⟩ := (Option.any_eq_true _ _).mp rest
  have run := run_of_exec_restrict (fun _ _ => settled_of_settles) executed
  refine ⟨s, t, before, waits, run, ?_⟩
  refine single_point_ends_in_time (by decide) (by decide) (by decide +kernel) before
    ⟨Option.isSome_iff_ne_none.mp one, Option.isSome_iff_ne_none.mp other⟩ (by simp [waits]) run ?_
  rw [now, eq_of_beq later]
  decide +kernel

end Moha.RegistrationClock
