import Mathlib.Data.List.Perm.Basic
import Moha.ClusterSteps
import Moha.LeaseTenure

/-! The stop channel of a leadership. `leaderLoop` makes a channel when it wins or
resumes with a lease, and closes it when the promotion fails; the HTTP handler
`http.go::ChangeMaster` closes it as well, on the strength of the `isLeader` flag
alone. Each channel is closed once as long as a request for another master comes
to a leader that waits for the end of its keep-alive loop. -/
namespace Moha.StopChannel
open KeyValueStore LeaderRecord Election LeaderLoop Cluster ClusterSteps Runs
open LeaseClock (txnLease)
open LeaseTenure (Tenured SameTenure Begins advance_same loop_of_txnLease afterRequest_same
  afterRequest_failed afterRequest_success afterGrant_same setReadOnly_eq setReadWrite_eq
  closeStopChAndLoop_open)

/-- The handler is inside `ChangeMaster`. -/
def isChange : Handler → Bool
  | .changeMasterReadOnly | .changeMasterDelete _ | .changeMasterStop => true
  | _ => false

/-- How many `ChangeMaster` handlers are in progress. -/
def changes (agent : Agent) : Nat := agent.handlers.countP isChange

/-- The stop channel exists and has not been closed. -/
def Open (agent : Agent) : Prop := ∃ ch, agent.leaderStopCh = some ch ∧ ch ∉ agent.closedChs

/-- The calls that close the stop channel. -/
inductive Closes (agent : Agent) : Call → Prop where
  | handler {index : Nat} (held : agent.handlers[index]? = some .changeMasterStop) :
      Closes agent (.handlerStop index)
  | resume {outcome : Outcome} (loop : agent.loop = .resumeReadOnly) :
      Closes agent (.service outcome)
  | promotion (loop : agent.loop = .promoteFailed) : Closes agent (.service .ok)

/-- The loop waits for its keep-alive goroutine, with the stop channel open, on a
server that is not closed. -/
structure Settled (agent : Agent) : Prop where
  barrier : ∃ lease, agent.loop = .barrier lease
  openCh : Open agent
  serving : agent.server.isClosed = false

/-- `ChangeMaster` is accepted only by a settled leader, one request at a time, and
the server is not closed while one is in progress. -/
def OneChange (agent : Agent) : Call → Prop
  | .http .changeMaster => agent.server.isLeader = true → Settled agent ∧ changes agent = 0
  | .close _ => changes agent = 0
  | _ => True

/-! ### Positions of the loop -/

/-- The lease under which the loop is, from the success of its transaction to the
end of the tenure. -/
def heldLease : Loop → Option LeaseID
  | .resumeReadWrite lease | .barrier lease | .promoteToMaster (.lease lease)
  | .uploadPromotion (.lease lease) | .uploadPromotionPut (.lease lease) _
  | .promoteReadWrite (.lease lease) => some lease
  | _ => none

/-- The loop may still close the stop channel. -/
def MayClose (loop : Loop) : Prop :=
  (∃ lease, Tenured lease loop) ∧ ∀ lease, loop ≠ .barrier lease

/-- Where the loop closes the channel, `Tenured` does not tell the lease. -/
theorem heldLease_eq_some_iff (loop : Loop) (lease : LeaseID) :
    heldLease loop = some lease ↔ Tenured lease loop ∧ ∃ other, ¬ Tenured other loop := by
  have another : ∀ held : LeaseID, ∃ other, ¬ held = other := fun held =>
    ⟨held + 1, Int.ne_of_lt (Int.lt_succ held)⟩
  cases loop
  case promoteToMaster tenure | uploadPromotion tenure | promoteReadWrite tenure =>
    cases tenure <;> simp [heldLease, Tenured, another]
  case uploadPromotionPut tenure position =>
    cases tenure <;> simp [heldLease, Tenured, another]
  all_goals simp [heldLease, Tenured, another]

theorem lease_of_held {loop : Loop} {held lease : LeaseID} (holds : heldLease loop = some held)
    (tenured : Tenured lease loop) : held = lease := by
  unfold heldLease at holds
  split at holds
  case h_7 => contradiction
  case h_1 | h_2 =>
    cases holds
    exact tenured
  all_goals
    cases holds
    cases tenured
    rfl

/-! ### The discipline -/

/-- Channels are numbered in order, and a keep-alive goroutine of the current lease
never waits on a channel of an earlier one; it goes on while the server is open and
the loop holds the lease. The channel is open wherever the loop may close it; while a
`ChangeMaster` handler is in progress it is the only one, and the loop waits for it. -/
structure Disciplined (etcd : Etcd) (agent : Agent) : Prop where
  closed : ∀ ch ∈ agent.closedChs, ch < agent.madeChs
  current : ∀ ch, agent.leaderStopCh = some ch → ch < agent.madeChs
  granted : ∀ held ∈ agent.keepAlives, etcd.leases held.lease ≠ .unused
  awaited : ∀ lease, txnLease agent.loop = some lease →
    etcd.leases lease ≠ .unused ∧ ∀ held ∈ agent.keepAlives, held.lease ≠ lease
  own : ∀ lease, heldLease agent.loop = some lease → ∀ held ∈ agent.keepAlives,
    held.lease = lease → held.waiting = none ∨ held.waiting = agent.leaderStopCh
  attended : agent.server.isClosed = false → ∀ lease, heldLease agent.loop = some lease →
    ∃ held ∈ agent.keepAlives, held.lease = lease
  openCh : MayClose agent.loop → Open agent
  single : changes agent ≤ 1
  settled : changes agent ≠ 0 → Settled agent

theorem disciplined_idle {etcd : Etcd} {agent : Agent}
    (closed : ∀ ch ∈ agent.closedChs, ch < agent.madeChs)
    (current : ∀ ch, agent.leaderStopCh = some ch → ch < agent.madeChs)
    (keepAlives : agent.keepAlives = []) (handlers : agent.handlers = [])
    (loop : agent.loop = .returned ∨ agent.loop = .getLeader) : Disciplined etcd agent where
  closed := closed
  current := current
  granted := fun _ member => nomatch keepAlives ▸ member
  awaited := by rcases loop with loop | loop <;> rw [loop] <;> exact fun _ none => nomatch none
  own := fun _ _ _ member => nomatch keepAlives ▸ member
  attended := by rcases loop with loop | loop <;> rw [loop] <;> exact fun _ _ none => nomatch none
  openCh := by
    rintro ⟨⟨_, inside⟩, _⟩
    rcases loop with loop | loop <;> rw [loop] at inside <;> cases inside
  single := by simp [changes, handlers]
  settled := fun some => absurd (by simp [changes, handlers]) some

theorem Disciplined.stopped {etcd : Etcd} {agent : Agent} (disciplined : Disciplined etcd agent)
    (writable : Bool) : Disciplined etcd { agent with writable := writable }.stopped :=
  disciplined_idle disciplined.closed disciplined.current rfl rfl (.inl rfl)

theorem Disciplined.readOnlyOrShutdown {etcd : Etcd} {agent : Agent} {outcome : Outcome}
    {continuation : Agent → Agent} (disciplined : Disciplined etcd agent)
    (goesOn : outcome = .ok → Disciplined etcd (continuation { agent with writable := false })) :
    Disciplined etcd (agent.readOnlyOrShutdown outcome continuation).after := by
  unfold Agent.readOnlyOrShutdown
  split
  · rename_i ok
    subst ok
    exact goesOn rfl
  · rw [setReadOnly_eq]
    exact disciplined.stopped _

/-- Only a loop at its barrier leaves room for a `ChangeMaster` handler. -/
theorem Disciplined.unchanged {etcd : Etcd} {agent : Agent} (disciplined : Disciplined etcd agent)
    (away : ∀ lease, agent.loop ≠ .barrier lease) : changes agent = 0 := by
  by_contra some
  obtain ⟨lease, barrier⟩ := (disciplined.settled some).barrier
  exact away lease barrier

/-- Leases are not forgotten. -/
theorem Disciplined.etcd {etcd after : Etcd} {agent : Agent}
    (disciplined : Disciplined etcd agent)
    (used : ∀ lease, etcd.leases lease ≠ .unused → after.leases lease ≠ .unused) :
    Disciplined after agent :=
  { disciplined with
    granted := fun held member => used _ (disciplined.granted held member)
    awaited := fun lease waits => (disciplined.awaited lease waits).imp_left (used lease) }

/-- The channels and their goroutines stay as they are, and the loop goes on
inside or outside the same tenure. -/
structure Keeps (before after : Agent) : Prop where
  keepAlives : after.keepAlives = before.keepAlives
  leaderStopCh : after.leaderStopCh = before.leaderStopCh
  closedChs : after.closedChs = before.closedChs
  madeChs : after.madeChs = before.madeChs
  fewer : changes after ≤ changes before
  isClosed : after.server.isClosed = before.server.isClosed ∨
    changes before = 0 ∧ after.server.isClosed = true
  barrier : ∀ lease, before.loop = .barrier lease → after.loop = .barrier lease
  txn : ∀ lease, txnLease after.loop = some lease → txnLease before.loop = some lease
  held : ∀ lease, heldLease after.loop = some lease → heldLease before.loop = some lease
  mayClose : MayClose after.loop → MayClose before.loop

theorem Keeps.openCh {before after : Agent} (keeps : Keeps before after) (openCh : Open before) :
    Open after := by
  unfold Open at *
  rwa [keeps.leaderStopCh, keeps.closedChs]

theorem Disciplined.keeps {etcd : Etcd} {before after : Agent}
    (disciplined : Disciplined etcd before) (keeps : Keeps before after) :
    Disciplined etcd after where
  closed := by
    rw [keeps.closedChs, keeps.madeChs]
    exact disciplined.closed
  current := by
    rw [keeps.leaderStopCh, keeps.madeChs]
    exact disciplined.current
  granted := by
    rw [keeps.keepAlives]
    exact disciplined.granted
  awaited := by
    rw [keeps.keepAlives]
    exact fun lease waits => disciplined.awaited lease (keeps.txn lease waits)
  own := by
    rw [keeps.keepAlives, keeps.leaderStopCh]
    exact fun lease held => disciplined.own lease (keeps.held lease held)
  attended := by
    rw [keeps.keepAlives]
    intro serving lease held
    refine disciplined.attended ?_ lease (keeps.held lease held)
    rcases keeps.isClosed with same | ⟨_, closed⟩
    · exact same.symm.trans serving
    · cases serving.symm.trans closed
  openCh := fun mayClose => keeps.openCh (disciplined.openCh (keeps.mayClose mayClose))
  single := Nat.le_trans keeps.fewer disciplined.single
  settled := by
    intro some
    have before : changes before ≠ 0 := by
      have fewer := keeps.fewer
      omega
    obtain ⟨⟨lease, barrier⟩, openCh, serving⟩ := disciplined.settled before
    exact ⟨⟨lease, keeps.barrier lease barrier⟩, keeps.openCh openCh,
      (keeps.isClosed.resolve_right fun closed => before closed.1).trans serving⟩

/-- What leaves the loop where it is. -/
theorem Keeps.of_loop {before after : Agent} (loop : after.loop = before.loop)
    (keepAlives : after.keepAlives = before.keepAlives)
    (leaderStopCh : after.leaderStopCh = before.leaderStopCh)
    (closedChs : after.closedChs = before.closedChs) (madeChs : after.madeChs = before.madeChs)
    (fewer : changes after ≤ changes before)
    (isClosed : after.server.isClosed = before.server.isClosed ∨
      changes before = 0 ∧ after.server.isClosed = true) : Keeps before after where
  keepAlives := keepAlives
  leaderStopCh := leaderStopCh
  closedChs := closedChs
  madeChs := madeChs
  fewer := fewer
  isClosed := isClosed
  barrier := fun _ barrier => loop.trans barrier
  txn := fun _ waits => loop ▸ waits
  held := fun _ held => loop ▸ held
  mayClose := fun mayClose => loop ▸ mayClose

/-- What moves the loop on from a position other than the barrier. -/
theorem Keeps.of_same {before after : Agent} (same : SameTenure before after)
    (handlers : after.handlers = before.handlers) (other : txnLease after.loop = none)
    (away : ∀ lease, before.loop ≠ .barrier lease) : Keeps before after where
  keepAlives := same.keepAlives
  leaderStopCh := same.leaderStopCh
  closedChs := same.closedChs
  madeChs := same.madeChs
  fewer := Nat.le_of_eq (congrArg (List.countP isChange) handlers)
  isClosed := .inl same.isClosed
  barrier := fun lease barrier => absurd barrier (away lease)
  txn := fun _ waits => nomatch other.symm.trans waits
  held := by
    intro lease
    simp only [heldLease_eq_some_iff, same.loop]
    exact id
  mayClose := fun ⟨⟨lease, tenured⟩, _⟩ => ⟨⟨lease, (same.loop lease).mp tenured⟩, away⟩

/-! ### Channels are made and closed -/

/-- A closed channel leaves nothing to close: the loop starts over or stays at its
barrier, and the handler is done. -/
theorem Disciplined.closing {etcd : Etcd} {before after : Agent} {ch : Nat}
    (disciplined : Disciplined etcd before) (channel : before.leaderStopCh = some ch)
    (keepAlives : after.keepAlives = before.keepAlives)
    (leaderStopCh : after.leaderStopCh = before.leaderStopCh)
    (closedChs : after.closedChs = ch :: before.closedChs)
    (madeChs : after.madeChs = before.madeChs)
    (isClosed : after.server.isClosed = before.server.isClosed) (finished : changes after = 0)
    (loop : after.loop = .getLeader ∨ ∃ lease, before.loop = .barrier lease ∧
      after.loop = .barrier lease) : Disciplined etcd after where
  closed := by
    rw [closedChs, madeChs]
    intro other member
    rcases List.mem_cons.mp member with rfl | before
    · exact disciplined.current other channel
    · exact disciplined.closed other before
  current := by
    rw [leaderStopCh, madeChs]
    exact disciplined.current
  granted := by
    rw [keepAlives]
    exact disciplined.granted
  awaited := by
    rcases loop with loop | ⟨lease, _, loop⟩ <;> rw [loop] <;> exact fun _ none => nomatch none
  own := by
    rw [keepAlives, leaderStopCh]
    rcases loop with loop | ⟨lease, barrier, loop⟩
    · rw [loop]
      exact fun _ none => nomatch none
    · rw [loop, ← barrier]
      exact disciplined.own
  attended := by
    rw [keepAlives, isClosed]
    rcases loop with loop | ⟨lease, barrier, loop⟩
    · rw [loop]
      exact fun _ _ none => nomatch none
    · rw [loop, ← barrier]
      exact disciplined.attended
  openCh := by
    rintro ⟨⟨held, inside⟩, away⟩
    rcases loop with loop | ⟨lease, _, loop⟩
    · rw [loop] at inside
      cases inside
    · exact absurd loop (away lease)
  single := by
    rw [finished]
    exact Nat.zero_le 1
  settled := fun some => absurd finished some

/-- A new leadership has a channel that nobody has closed. -/
theorem Disciplined.begin {etcd : Etcd} {before after : Agent} {lease : LeaseID}
    (disciplined : Disciplined etcd before) (waits : txnLease before.loop = some lease)
    (begins : Begins lease before after) (handlers : after.handlers = before.handlers) :
    Disciplined etcd after := by
  obtain ⟨used, apart⟩ := disciplined.awaited lease waits
  have none : changes after = 0 := by
    refine (congrArg (List.countP isChange) handlers).trans (disciplined.unchanged ?_)
    intro held barrier
    rw [barrier] at waits
    cases waits
  have fresh : before.madeChs ∉ before.closedChs := fun member =>
    Nat.lt_irrefl _ (disciplined.closed _ member)
  refine ⟨?_, ?_, ?_, ?_, ?_, ?_, fun _ => ⟨_, begins.leaderStopCh, begins.closedChs ▸ fresh⟩,
    none ▸ Nat.zero_le 1, fun some => absurd none some⟩
  · rw [begins.closedChs, begins.madeChs]
    exact fun ch member => Nat.lt_succ_of_lt (disciplined.closed ch member)
  · rw [begins.leaderStopCh, begins.madeChs]
    rintro _ ⟨⟩
    exact Nat.lt_succ_self _
  · rw [begins.keepAlives]
    intro held member
    rcases List.mem_cons.mp member with rfl | older
    · exact used
    · exact disciplined.granted held older
  · rw [begins.other]
    exact fun _ none => nomatch none
  · rw [begins.keepAlives, begins.leaderStopCh]
    intro current holds held member same
    rcases List.mem_cons.mp member with rfl | older
    · exact .inr rfl
    · exact absurd (same.trans (lease_of_held holds begins.loop)) (apart held older)
  · rw [begins.keepAlives]
    exact fun _ current holds =>
      ⟨_, List.mem_cons_self, (lease_of_held holds begins.loop).symm⟩

/-- A granted lease is no lease of a goroutine. -/
theorem Disciplined.grant {etcd : Etcd} {before after : Agent} {lease : LeaseID}
    (disciplined : Disciplined etcd before) (unused : etcd.leases lease = .unused)
    (granted : before.afterGrant lease = some after) :
    Disciplined (etcd.grant lease) after := by
  obtain ⟨same, waits⟩ := afterGrant_same granted
  have handlers : after.handlers = before.handlers ∧ ∀ held, before.loop ≠ .barrier held := by
    unfold Agent.afterGrant at granted
    split at granted <;> cases granted
    all_goals
      rename_i loop
      exact ⟨rfl, fun held barrier => by cases loop.symm.trans barrier⟩
  have used : ∀ other, etcd.leases other ≠ .unused → (etcd.grant lease).leases other ≠ .unused := by
    intro other used
    have differs : other ≠ lease := fun same => used (same ▸ unused)
    simpa [Store.grant, Function.update_of_ne differs] using used
  have none : changes after = 0 :=
    (congrArg (List.countP isChange) handlers.1).trans (disciplined.unchanged handlers.2)
  have untenured : ∀ held, ¬ Tenured held after.loop := LeaseTenure.not_tenured waits
  have outside : ¬ MayClose after.loop := by
    rintro ⟨⟨held, inside⟩, _⟩
    exact untenured held inside
  refine ⟨?_, ?_, ?_, ?_, ?_, ?_, fun inside => absurd inside outside,
    none ▸ Nat.zero_le 1, fun some => absurd none some⟩
  · rw [same.closedChs, same.madeChs]
    exact disciplined.closed
  · rw [same.leaderStopCh, same.madeChs]
    exact disciplined.current
  · rw [same.keepAlives]
    exact fun held member => used _ (disciplined.granted held member)
  · rw [waits, same.keepAlives]
    rintro _ ⟨⟩
    refine ⟨by simp [Store.grant], fun held member equal => ?_⟩
    exact disciplined.granted held member (equal ▸ unused)
  · intro held holds
    exact absurd ((heldLease_eq_some_iff _ _).mp holds).1 (untenured held)
  · intro _ held holds
    exact absurd ((heldLease_eq_some_iff _ _).mp holds).1 (untenured held)

/-! ### The goroutines -/

/-- A goroutine begins or ends its `KeepAliveOnce`. -/
theorem Disciplined.turn {etcd : Etcd} {agent : Agent} (disciplined : Disciplined etcd agent)
    (lease : LeaseID) {waiting : Option Nat}
    (current : waiting = none ∨ waiting = agent.leaderStopCh) :
    Disciplined etcd { agent with keepAlives := agent.keepAlives.map fun held =>
      if held.lease = lease then { held with waiting := waiting } else held } := by
  have turned : ∀ {P : KeepAlive → Prop}, (∀ held ∈ agent.keepAlives, P held) →
      (∀ held ∈ agent.keepAlives, P { held with waiting := waiting }) →
      ∀ held ∈ agent.keepAlives.map fun held =>
        if held.lease = lease then { held with waiting := waiting } else held, P held := by
    intro P kept turned held member
    obtain ⟨before, old, rfl⟩ := List.mem_map.mp member
    split
    · exact turned before old
    · exact kept before old
  exact { disciplined with
    granted := turned disciplined.granted disciplined.granted
    awaited := fun held waits =>
      have awaited := disciplined.awaited held waits
      ⟨awaited.1, turned awaited.2 awaited.2⟩
    own := fun held holds =>
      turned (disciplined.own held holds) fun _ _ _ => current
    attended := by
      intro serving current holds
      obtain ⟨held, member, same⟩ := disciplined.attended serving current holds
      refine ⟨_, List.mem_map_of_mem member, ?_⟩
      split <;> exact same
    settled := fun some =>
      have settled := disciplined.settled some
      ⟨settled.barrier, settled.openCh, settled.serving⟩ }

/-- The end of a goroutine releases no loop that a `ChangeMaster` handler relies on:
the goroutine of its lease still waits on the open channel. -/
theorem Disciplined.release {etcd : Etcd} {agent : Agent} {lease : LeaseID}
    (disciplined : Disciplined etcd agent) (writable : Bool)
    (exits : agent.keepAlives.any (fun held =>
      held.lease == lease && agent.released held.waiting) = true) :
    Disciplined etcd { agent with
      writable := writable
      keepAlives := agent.keepAlives.filter fun held => held.lease != lease
      loop := if agent.loop = .barrier lease then .getLeader else agent.loop } := by
  have kept : ∀ {P : KeepAlive → Prop}, (∀ held ∈ agent.keepAlives, P held) →
      ∀ held ∈ agent.keepAlives.filter fun held => held.lease != lease, P held :=
    fun all held member => all held (List.mem_filter.mp member).1
  -- a goroutine of the held lease is not released while the loop may close its channel
  have outlives : agent.server.isClosed = false → MayClose agent.loop →
      ∀ current, heldLease agent.loop = some current → current ≠ lease := by
    rintro serving mayClose current holds rfl
    obtain ⟨ch, channel, openCh⟩ := disciplined.openCh mayClose
    obtain ⟨held, member, released⟩ := List.any_eq_true.mp exits
    obtain ⟨own, released⟩ := Bool.and_eq_true_iff.mp released
    rcases disciplined.own current holds held member (eq_of_beq own) with inside | waits
    · rw [inside] at released
      cases released
    · simp [waits, channel, Agent.released, serving, openCh] at released
  refine ⟨disciplined.closed, disciplined.current, kept disciplined.granted, ?_, ?_, ?_, ?_,
    disciplined.single, ?_⟩
  · dsimp only
    split
    · exact fun _ none => nomatch none
    · intro held waits
      have awaited := disciplined.awaited held waits
      exact ⟨awaited.1, kept awaited.2⟩
  · dsimp only
    split
    · exact fun _ none => nomatch none
    · exact fun held holds => kept (disciplined.own held holds)
  · dsimp only
    split
    · exact fun _ _ none => nomatch none
    · rename_i away
      intro serving current holds
      obtain ⟨held, member, same⟩ := disciplined.attended serving current holds
      have differs : current ≠ lease := by
        by_cases barrier : ∃ other, agent.loop = .barrier other
        · obtain ⟨other, barrier⟩ := barrier
          rw [barrier] at holds away
          cases holds
          exact fun same => away (by rw [same])
        · have tenured := ((heldLease_eq_some_iff _ _).mp holds).1
          exact outlives serving ⟨⟨current, tenured⟩, fun other at' => barrier ⟨other, at'⟩⟩
            current holds
      exact ⟨held, List.mem_filter.mpr ⟨member, by simpa [same] using differs⟩, same⟩
  · dsimp only
    split
    · exact fun ⟨⟨_, inside⟩, _⟩ => nomatch inside
    · exact disciplined.openCh
  · intro some
    obtain ⟨⟨current, barrier⟩, ⟨ch, channel, openCh⟩, serving⟩ := disciplined.settled some
    have other : agent.loop ≠ .barrier lease := by
      rintro same
      obtain ⟨held, member, released⟩ := List.any_eq_true.mp exits
      obtain ⟨own, released⟩ := Bool.and_eq_true_iff.mp released
      rcases disciplined.own lease (by rw [same]; rfl) held member (eq_of_beq own) with
        inside | waits
      · rw [inside] at released
        cases released
      · simp [waits, channel, Agent.released, serving, openCh] at released
    exact ⟨⟨current, (if_neg other).trans barrier⟩, ⟨ch, channel, openCh⟩, serving⟩

/-! ### The handlers -/

theorem changes_dropHandler_le (agent : Agent) (index : Nat) :
    changes (agent.dropHandler index) ≤ changes agent :=
  (List.eraseIdx_sublist _ _).countP_le

theorem changes_dropHandler {agent : Agent} {index : Nat} {handler : Handler}
    (held : agent.handlers[index]? = some handler) (change : isChange handler = true) :
    changes (agent.dropHandler index) + 1 = changes agent := by
  obtain ⟨inside, rfl⟩ := List.getElem?_eq_some_iff.mp held
  have counted := (List.getElem_cons_eraseIdx_perm inside).countP_eq isChange
  rwa [List.countP_cons_of_pos change] at counted

theorem changes_setHandler {agent : Agent} {index : Nat} {before after : Handler}
    (held : agent.handlers[index]? = some before) (same : isChange after = isChange before) :
    changes (agent.setHandler index after) = changes agent := by
  obtain ⟨inside, rfl⟩ := List.getElem?_eq_some_iff.mp held
  simp only [changes, Agent.setHandler, List.countP_set inside, same]
  split
  · rename_i change
    have counted : 0 < agent.handlers.countP isChange :=
      List.countP_pos_iff.mpr ⟨_, List.getElem_mem inside, change⟩
    omega
  · rfl

private theorem keeps_dropHandler (agent : Agent) (index : Nat) (writable : Bool) :
    Keeps agent ({ agent with writable := writable }.dropHandler index) :=
  .of_loop rfl rfl rfl rfl rfl (changes_dropHandler_le _ index) (.inl rfl)

private theorem keeps_setHandler {agent : Agent} {index : Nat} {before after : Handler}
    (writable : Bool) (held : agent.handlers[index]? = some before)
    (same : isChange after = isChange before) :
    Keeps agent ({ agent with writable := writable }.setHandler index after) :=
  .of_loop rfl rfl rfl rfl rfl (Nat.le_of_eq (changes_setHandler held same)) (.inl rfl)

theorem Disciplined.accept {etcd : Etcd} {agent : Agent} {request : HttpRequest}
    (disciplined : Disciplined etcd agent) (allowed : OneChange agent (.http request)) :
    Disciplined etcd (agent.accept request) := by
  unfold Agent.accept
  split
  · rename_i isLeader
    cases request with
    | changeMaster =>
      obtain ⟨settled, none⟩ := allowed isLeader
      refine { disciplined with
        single := ?_
        settled := fun _ => ⟨settled.1, settled.2, settled.3⟩ }
      have counted : agent.handlers.countP isChange = 0 := none
      simp [changes, List.countP_append, counted, isChange]
    | setReadOnly =>
      exact disciplined.keeps (.of_loop rfl rfl rfl rfl rfl
        (by simp [changes, List.countP_append, isChange]) (.inl rfl))
    | setReadWrite =>
      exact disciplined.keeps (.of_loop rfl rfl rfl rfl rfl
        (by simp [changes, List.countP_append, isChange]) (.inl rfl))
  · exact disciplined

/-- The handler closes the channel of the leadership that it gives up. -/
theorem Disciplined.stop {etcd : Etcd} {agent : Agent} {index : Nat}
    (disciplined : Disciplined etcd agent)
    (held : agent.handlers[index]? = some .changeMasterStop) :
    Open agent ∧ Disciplined etcd ((agent.closeStopCh.getD agent).dropHandler index) := by
  have counted := changes_dropHandler held rfl
  obtain ⟨⟨lease, barrier⟩, ⟨ch, channel, openCh⟩, _⟩ := disciplined.settled (by omega)
  have closed : agent.closeStopCh = some { agent with closedChs := ch :: agent.closedChs } := by
    simp [Agent.closeStopCh, channel, openCh]
  refine ⟨⟨ch, channel, openCh⟩, ?_⟩
  rw [closed, Option.getD_some]
  refine disciplined.closing channel rfl rfl rfl rfl rfl ?_ (.inr ⟨lease, barrier, barrier⟩)
  have single := disciplined.single
  have finished : changes (agent.dropHandler index) = 0 := by omega
  exact finished

/-! ### The calls of the loop -/

/-- What moves the loop on from a position other than the barrier. -/
private theorem keeps_loop {agent : Agent} {server : Server} {writable : Bool} {loop : Loop}
    (away : ∀ lease, agent.loop ≠ .barrier lease)
    (isClosed : server.isClosed = agent.server.isClosed) (other : txnLease loop = none)
    (held : ∀ lease, heldLease loop = some lease → heldLease agent.loop = some lease)
    (mayClose : MayClose loop → MayClose agent.loop) :
    Keeps agent { agent with server := server, writable := writable, loop := loop } where
  keepAlives := rfl
  leaderStopCh := rfl
  closedChs := rfl
  madeChs := rfl
  fewer := Nat.le_refl _
  isClosed := .inl isClosed
  barrier := fun lease barrier => absurd barrier (away lease)
  txn := fun _ waits => nomatch other.symm.trans waits
  held := held
  mayClose := mayClose

private theorem Disciplined.closeStopCh {etcd : Etcd} {agent : Agent}
    (disciplined : Disciplined etcd agent) (mayClose : MayClose agent.loop) (writable : Bool) :
    Disciplined etcd { agent with writable := writable }.closeStopChAndLoop := by
  obtain ⟨ch, channel, openCh⟩ := disciplined.openCh mayClose
  have closed := @closeStopChAndLoop_open { agent with writable := writable } ch channel openCh
  rw [closed]
  exact disciplined.closing channel rfl rfl rfl rfl rfl (disciplined.unchanged mayClose.2)
    (.inl rfl)

theorem Disciplined.service {etcd : Etcd} {agent : Agent} {outcome : Outcome} {next : Next}
    (disciplined : Disciplined etcd agent) (moved : agent.afterService outcome = some next) :
    Disciplined etcd next.after := by
  unfold Agent.afterService at moved
  simp only [setReadWrite_eq] at moved
  split at moved
  case h_1 lease loop | h_4 lease loop =>
    cases moved
    refine disciplined.keeps (keeps_loop (by simp [loop]) rfl ?_ ?_ ?_)
    · split
      · rcases agent.awaitKeepAlive_eq lease with next | next <;> rw [next] <;> rfl
      · rfl
    · rw [loop]
      split
      · rcases agent.awaitKeepAlive_eq lease with next | next <;> rw [next]
        · exact fun _ same => same
        · exact fun _ none => nomatch none
      · exact fun _ none => nomatch none
    · exact fun _ => ⟨⟨lease, loop ▸ rfl⟩, by simp [loop]⟩
  case h_2 loop =>
    cases moved
    rw [setReadOnly_eq]
    exact disciplined.closeStopCh ⟨⟨0, loop ▸ trivial⟩, by simp [loop]⟩ _
  case h_3 tenure loop =>
    cases moved
    refine disciplined.keeps (keeps_loop (by simp [loop]) rfl rfl ?_ ?_)
    · rw [loop]
      cases tenure <;> exact fun _ same => same
    · rw [loop]
      exact fun ⟨inside, _⟩ => ⟨inside, nofun⟩
  case h_6 loop =>
    cases moved
    exact disciplined.readOnlyOrShutdown fun _ =>
      disciplined.closeStopCh ⟨⟨0, loop ▸ trivial⟩, by simp [loop]⟩ false
  case h_9 => contradiction
  all_goals
    rename_i loop
    try simp only [setReadOnly_eq] at moved
    (repeat' split at moved) <;> cases moved
    all_goals
      refine disciplined.keeps (keeps_loop (by simp [loop]) rfl ?_ ?_ ?_) <;>
        simp [loop, txnLease, heldLease, MayClose, Tenured]

private theorem advance_away {agent after : Agent} {etcd : Etcd} {nodes : List NodeID}
    {call : Call} (advanced : agent.advance etcd nodes call = some after) (lease : LeaseID) :
    agent.loop ≠ .barrier lease := by
  intro barrier
  cases call <;> simp [Agent.advance, barrier] at advanced

theorem disciplined_move {etcd : Etcd} {nodes : List NodeID} {agent : Agent} {call : Call}
    {next : Next} (disciplined : Disciplined etcd agent) (allowed : OneChange agent call)
    (moved : agent.move etcd nodes call = some next) : Disciplined etcd next.after := by
  cases Agent.moves_of_move moved with
  | service served => exact disciplined.service served
  | http => exact disciplined.accept allowed
  | @handlerService index _ _ served =>
    simp only [Agent.afterHandlerService, setReadWrite_eq] at served
    split at served
    case h_1 held =>
      cases served
      exact disciplined.readOnlyOrShutdown fun _ => disciplined.keeps (keeps_setHandler _ held rfl)
    case h_4 => contradiction
    all_goals
      cases served
      exact disciplined.keeps (keeps_dropHandler agent index _)
  | @handlerManual index _ _ manual =>
    simp only [Agent.afterManual, setReadOnly_eq] at manual
    split at manual <;> cases manual
    · exact disciplined.keeps (keeps_dropHandler agent index agent.writable)
    · exact disciplined.keeps (keeps_dropHandler agent index _)
    · rename_i held
      exact disciplined.keeps (keeps_setHandler _ held rfl)
  | handlerStop held => exact (disciplined.stop held).2
  | turn lease waiting turns =>
    exact disciplined.turn lease (turns.imp And.right And.right)
  | keepAliveExit exits =>
    unfold Agent.afterKeepAlive
    dsimp only
    split
    · exact disciplined.release agent.writable exits
    · exact disciplined.readOnlyOrShutdown fun _ => disciplined.release false exits
  | close =>
    exact disciplined.readOnlyOrShutdown fun _ => disciplined.keeps
      (.of_loop rfl rfl rfl rfl rfl (Nat.le_refl _) (.inr ⟨allowed, rfl⟩))
  | exits => exact disciplined.stopped agent.writable
  | setOnlyFollow =>
    exact disciplined.keeps (.of_loop rfl rfl rfl rfl rfl (Nat.le_refl _) (.inl rfl))
  | advance advanced =>
    obtain ⟨same, other⟩ := advance_same advanced
    exact disciplined.keeps (.of_same same (advance_handlers advanced).1 other
      (advance_away advanced))

/-! ### Runs -/

/-- Every request for another master meets the condition. -/
def Orderly (c : State) (a : Action) : Prop :=
  ∀ n call, a = .call n call → OneChange (c.agents n) call

private theorem used_step {c c' : State} {a : Action} {lease : LeaseID}
    (taken : step c a = some c') (used : c.etcd.leases lease ≠ .unused) :
    c'.etcd.leases lease ≠ .unused := by
  have updated : ∀ {granted : LeaseID} {state : LeaseState}, state ≠ .unused →
      Function.update c.etcd.leases granted state lease ≠ .unused := by
    intro granted state other
    rw [Function.update_apply]
    split
    · exact other
    · exact used
  cases step_store taken with
  | same unchanged => rwa [unchanged]
  | grant granted =>
    rw [granted]
    exact updated nofun
  | expire _ expired =>
    rw [expired]
    exact updated nofun
  | @commit request _ result =>
    have leases : (c.etcd.commit request.txn).1.leases = c.etcd.leases := by
      unfold Store.commit
      (repeat' split) <;> rfl
    rwa [result, leases]

theorem disciplined_step {c c' : State} {a : Action}
    (disciplined : ∀ n, Disciplined c.etcd (c.agents n)) (orderly : Orderly c a)
    (taken : step c a = some c') (n : NodeID) : Disciplined c'.etcd (c'.agents n) := by
  have later := (disciplined n).etcd fun _ => used_step taken
  cases step_agent taken n with
  | same agent =>
    rw [agent]
    exact later
  | called action _ moved agent etcd =>
    rw [agent, etcd]
    exact disciplined_move (disciplined n) (orderly n _ action) moved
  | granted action _ _ agent =>
    subst action
    obtain ⟨_, _, unused, after, granted, rfl⟩ := step_grant taken
    simp only [State.set, Function.update_self]
    exact (disciplined n).grant unused granted
  | @replied resolution request _ _ pending agent =>
    rw [agent]
    have handlers :=
      (afterRequest_fields (c.agents n) c'.etcd.revision (c.reply request resolution)).1
    have away : ∀ lease, (c.agents n).loop ≠ .barrier lease := by
      intro lease barrier
      simp [Agent.pending, barrier] at pending
    cases waits : txnLease (c.agents n).loop with
    | none =>
      obtain ⟨same, other⟩ := afterRequest_same waits
      exact later.keeps (.of_same same handlers other away)
    | some lease =>
      by_cases succeeded : c.reply request resolution = .done true
      · rw [succeeded] at handlers ⊢
        exact later.begin waits (afterRequest_success waits) handlers
      · obtain ⟨same, other⟩ := afterRequest_failed waits succeeded
        exact later.keeps (.of_same same handlers other away)
  | handled action _ agent =>
    subst action
    obtain ⟨_, issued, held, _⟩ := step_handlerEtcd taken
    rw [agent]
    exact later.keeps (keeps_setHandler _ held rfl)
  | started _ _ _ agent =>
    rw [agent]
    exact disciplined_idle (by rintro _ ⟨⟩) (by rintro _ ⟨⟩) rfl rfl (.inr rfl)
  | serviceStopped _ agent =>
    rw [agent]
    exact later.keeps (.of_loop rfl rfl rfl rfl rfl (Nat.le_refl _) (.inl rfl))
  | reported _ agent =>
    rw [agent]
    exact later.keeps (.of_loop rfl rfl rfl rfl rfl (Nat.le_refl _) (.inl rfl))

/-- In every interleaving in which requests for another master are orderly, a call
that closes the stop channel finds it made and not yet closed. -/
theorem stop_channel_closed_once {nodes : List NodeID} {named : "" ∉ nodes}
    {cfg : NodeID → Config} {c : State} (run : Run step Orderly (init nodes named cfg) c)
    {n : NodeID} {call : Call} (closes : Closes (c.agents n) call) : Open (c.agents n) := by
  have disciplined : ∀ n, Disciplined c.etcd (c.agents n) := by
    refine run.invariant (fun m => ?_) disciplined_step
    exact disciplined_idle (by rintro _ ⟨⟩) (by rintro _ ⟨⟩) rfl rfl (.inl rfl)
  cases closes with
  | handler held => exact ((disciplined n).stop held).1
  | resume loop => exact (disciplined n).openCh ⟨⟨0, loop ▸ trivial⟩, by simp [loop]⟩
  | promotion loop => exact (disciplined n).openCh ⟨⟨0, loop ▸ trivial⟩, by simp [loop]⟩

private def isOpen (agent : Agent) : Bool :=
  agent.leaderStopCh.any fun ch => !agent.closedChs.contains ch

private theorem isOpen_iff (agent : Agent) : isOpen agent = true ↔ Open agent := by
  cases channel : agent.leaderStopCh <;> simp [isOpen, Open, channel]

private def oneChange (agent : Agent) : Call → Bool
  | .http .changeMaster => !agent.server.isLeader ||
      ((agent.loop matches .barrier _) && isOpen agent && !agent.server.isClosed &&
        changes agent == 0)
  | .close _ => changes agent == 0
  | _ => true

private theorem oneChange_of_check {agent : Agent} {call : Call}
    (check : oneChange agent call = true) : OneChange agent call := by
  cases call with
  | http request =>
    cases request with
    | changeMaster =>
      intro isLeader
      simp only [oneChange, isLeader, Bool.not_true, Bool.false_or, Bool.and_eq_true,
        Bool.not_eq_true', beq_iff_eq] at check
      obtain ⟨⟨⟨barrier, openCh⟩, serving⟩, none⟩ := check
      refine ⟨⟨?_, (isOpen_iff agent).mp openCh, serving⟩, none⟩
      cases loop : agent.loop <;> rw [loop] at barrier <;> first | contradiction | exact ⟨_, rfl⟩
    | setReadOnly => trivial
    | setReadWrite => trivial
  | close outcome => exact eq_of_beq check
  | _ => trivial

private def orderly (c : State) : Action → Bool
  | .call n call => oneChange (c.agents n) call
  | _ => true

private theorem orderly_of_check {c : State} {a : Action} (check : orderly c a = true) :
    Orderly c a := by
  rintro n call rfl
  exact oneChange_of_check check

/-- A leader at its barrier gives up its leadership. -/
theorem stop_channel_closed_once_at_barrier :
    ∃ c, Run step Orderly (init ["a"] (by decide) sampleCfg) c ∧
      Closes (c.agents "a") (.handlerStop 0) ∧ Open (c.agents "a") := by
  have ran : (exec (restrict step orderly) (init ["a"] (by decide) sampleCfg)
      [.start "a" "u", .call "a" .read, .grant "a" 1, .etcd "a" .answered,
        .call "a" (.service .ok), .call "a" .loadPromotion, .call "a" (.service .ok),
        .call "a" (.http .changeMaster), .call "a" (.handlerService 0 .ok),
        .handlerEtcd "a" 0 .answered]).any
      (fun c => (c.agents "a").handlers[0]? == some .changeMasterStop) = true := by
    decide +kernel
  obtain ⟨c, run, found⟩ := exists_run_of_exec (fun _ _ => orderly_of_check) ran
  have closes : Closes (c.agents "a") (.handlerStop 0) := .handler (eq_of_beq found)
  exact ⟨c, run, closes, stop_channel_closed_once run closes⟩

/-- A single point master has no stop channel, and its `ChangeMaster` closes it. -/
theorem closes_no_channel :
    ∃ c, Run step InTime (init ["a"] (by decide) sampleCfg) c ∧
      (c.agents "a").running = true ∧ Closes (c.agents "a") (.handlerStop 0) ∧
      (c.agents "a").leaderStopCh = none := by
  have ran : (exec (restrict step fun _ a => !isLate a) (init ["a"] (by decide) sampleCfg)
      (becomesSinglePoint ++ [.call "a" (.http .changeMaster), .call "a" (.handlerService 0 .ok),
        .handlerEtcd "a" 0 .answered])).any
      (fun c => (c.agents "a").running && (c.agents "a").handlers[0]? == some .changeMasterStop &&
        (c.agents "a").leaderStopCh == none) = true := by
    decide +kernel
  obtain ⟨c, run, found⟩ := exists_run_of_exec (fun _ _ => inTime_of_not_isLate) ran
  obtain ⟨found, channel⟩ := Bool.and_eq_true_iff.mp found
  obtain ⟨running, held⟩ := Bool.and_eq_true_iff.mp found
  exact ⟨c, run, running, .handler (eq_of_beq held), eq_of_beq channel⟩

end Moha.StopChannel
