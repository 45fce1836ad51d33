import Moha.LeaseClock

/-! The tenures of one agent on the clock: what each function of the leader loop
does to the tenure it is called in, and the stamps on leases, renewals and stop
channels that every run keeps. -/
namespace Moha.LeaseTenure
open KeyValueStore LeaderRecord Election LeaderLoop LeaseClock Runs

/-- The positions of the loop from the success of a leader transaction to the
end of the tenure. -/
def Tenured (lease : LeaseID) : Loop → Prop
  | .resumeReadWrite held | .barrier held => held = lease
  | .promoteToMaster tenure | .uploadPromotion tenure | .uploadPromotionPut tenure _
  | .promoteReadWrite tenure => tenure = .lease lease
  | .resumeReadOnly | .promoteFailed => True
  | _ => False

/-- The positions of the loop in single point mode. -/
def SinglePoint : Loop → Prop
  | .promoteToMaster tenure | .uploadPromotion tenure | .uploadPromotionPut tenure _
  | .promoteReadWrite tenure => tenure = .singlePoint
  | .singlePointTxn _ | .singlePointFailed | .waitUntilSlaveAppears | .singlePointReadOnly
  | .removeSPM => True
  | _ => False

instance (loop : Loop) : Decidable (SinglePoint loop) := by
  cases loop <;> unfold SinglePoint <;> infer_instance

/-- No HTTP request and no single point mode. -/
def Plain (t : State) (event : Event) : Prop :=
  ¬ SinglePoint t.agent.loop ∧ ∀ etcd nodes call, event = .call etcd nodes call →
    isHttp call = false

/-- The answer of a successful leader transaction arrives within two seconds of the
grant of its lease. When the loop closes the stop channel after a failed
`SetReadWrite`, no `KeepAliveOnce` is under way, and none begins on a closed
channel. Every call to the service manager of a closed server fails. -/
def Timely (t : State) (event : Event) : Prop :=
  Plain t event ∧
  match event with
  | .call _ _ (.service outcome) =>
      (t.agent.loop = .resumeReadOnly ∨ t.agent.loop = .promoteFailed →
        ∀ held ∈ t.agent.keepAlives, held.waiting ≠ none) ∧
      (t.agent.server.isClosed = true → outcome = .failed)
  | .txnReceived _ => t.flight = some (.txn true) → ∀ lease held,
      txnLease t.agent.loop = some lease → t.leases lease = some held →
        t.now < held.granted + seconds 2
  | .keepAliveTick lease => ∀ held ∈ t.agent.keepAlives, held.lease = lease →
      t.agent.released held.waiting = false
  | _ => True

/-! ### What the functions of the loop leave alone -/

/-- The agent differs only in its memory and in where its loop stands outside or
inside the same tenure. -/
structure SameTenure (before after : Agent) : Prop where
  running : after.running = before.running
  writable : after.writable = before.writable
  isClosed : after.server.isClosed = before.server.isClosed
  keepAlives : after.keepAlives = before.keepAlives
  leaderStopCh : after.leaderStopCh = before.leaderStopCh
  closedChs : after.closedChs = before.closedChs
  madeChs : after.madeChs = before.madeChs
  loop : ∀ lease, Tenured lease after.loop ↔ Tenured lease before.loop

theorem SameTenure.refl (agent : Agent) : SameTenure agent agent :=
  ⟨rfl, rfl, rfl, rfl, rfl, rfl, rfl, fun _ => .rfl⟩

private theorem sameTenure_loop {agent : Agent} {loop : Loop}
    (same : ∀ lease, Tenured lease loop ↔ Tenured lease agent.loop) :
    SameTenure agent { agent with loop := loop } :=
  ⟨rfl, rfl, rfl, rfl, rfl, rfl, rfl, same⟩

private theorem afterReadError_same {agent : Agent} (notValid : Bool)
    (loop : agent.loop = .getLeader) :
    SameTenure agent (agent.afterReadError notValid) ∧
      txnLease (agent.afterReadError notValid).loop = none := by
  unfold Agent.afterReadError
  split
  · exact ⟨sameTenure_loop (by simp [Tenured, loop]), rfl⟩
  · split <;> exact ⟨sameTenure_loop (by simp [Tenured, loop]), rfl⟩

private theorem afterRead_same {agent : Agent} (leader : Leader) (myTerm : UInt64)
    (loop : agent.loop = .getLeader) :
    SameTenure agent (agent.afterRead leader myTerm) ∧
      txnLease (agent.afterRead leader myTerm).loop = none := by
  unfold Agent.afterRead
  dsimp only
  (repeat' split) <;>
    exact ⟨⟨rfl, rfl, rfl, rfl, rfl, rfl, rfl, fun lease => by simp [Tenured, loop]⟩, rfl⟩

private theorem preWatch_isClosed (s : Server) (reports : Reports) (leader : Leader) :
    (preWatch s reports leader).1.isClosed = s.isClosed := by
  obtain ⟨loaded, rfl | ⟨info, rfl⟩, after | after⟩ := preWatch_fst s reports leader <;>
    rw [after] <;> rfl

theorem advance_same {agent after : Agent} {etcd : Etcd} {nodes : List NodeID} {call : Call}
    (moved : agent.advance etcd nodes call = some after) :
    SameTenure agent after ∧ txnLease after.loop = none := by
  cases call
  case preWatch =>
    simp only [Agent.advance] at moved
    split at moved
    · rename_i leader loop
      cases moved
      refine ⟨⟨rfl, rfl, preWatch_isClosed _ _ _, rfl, rfl, rfl, rfl, fun lease => ?_⟩, ?_⟩
      all_goals
        dsimp only
        split <;> simp [Tenured, txnLease, loop]
    · contradiction
  case upload =>
    simp only [Agent.advance] at moved
    split at moved
    · rename_i loop
      cases moved
      exact ⟨⟨rfl, rfl, rfl, rfl, rfl, rfl, rfl, by simp [Tenured, loop]⟩, rfl⟩
    · rename_i loop
      split at moved
      · cases moved
        exact ⟨sameTenure_loop (by simp [Tenured, loop]), rfl⟩
      · rename_i uploaded
        obtain ⟨info, _, built⟩ := Option.map_eq_some_iff.mp uploaded
        cases built
        cases moved
        exact ⟨⟨rfl, rfl, rfl, rfl, rfl, rfl, rfl, by simp [Tenured, loop]⟩, rfl⟩
    · contradiction
  all_goals simp only [Agent.advance] at moved
  all_goals (repeat' split at moved)
  all_goals first
    | contradiction
    | (cases moved; exact afterReadError_same _ ‹_›)
    | (cases moved; exact afterRead_same _ _ ‹_›)
    | (cases moved
       refine ⟨⟨rfl, rfl, rfl, rfl, rfl, rfl, rfl, fun lease => ?_⟩, ?_⟩
       all_goals simp_all [Tenured, txnLease])

private theorem promote_same {agent : Agent} (outside : ∀ lease, ¬ Tenured lease agent.loop) :
    SameTenure agent (agent.promote .singlePoint) ∧
      txnLease (agent.promote .singlePoint).loop = none := by
  unfold Agent.promote
  split
  all_goals exact ⟨⟨rfl, rfl, rfl, rfl, rfl, rfl, rfl, fun lease =>
    iff_of_false nofun (outside lease)⟩, rfl⟩

theorem afterRequest_same {agent : Agent} {revision : Nat} {reply : Reply}
    (other : txnLease agent.loop = none) :
    SameTenure agent (agent.afterRequest revision reply) ∧
      txnLease (agent.afterRequest revision reply).loop = none := by
  unfold Agent.afterRequest
  split
  case h_7 loop => exact promote_same (by simp [Tenured, loop])
  case h_14 => exact ⟨sameTenure_loop (by simp), other⟩
  case h_6 loop | h_8 loop | h_9 loop | h_10 loop | h_11 loop | h_12 loop | h_13 loop =>
    exact ⟨sameTenure_loop (by simp [Tenured, loop]), rfl⟩
  all_goals simp_all [txnLease]

theorem loop_of_txnLease {loop : Loop} {lease : LeaseID} (waits : txnLease loop = some lease) :
    loop = .resumeTxn lease ∨ loop = .campaignTxn lease := by
  cases loop <;> cases waits
  · exact .inl rfl
  · exact .inr rfl

theorem not_tenured {loop : Loop} {lease : LeaseID} (waits : txnLease loop = some lease)
    (held : LeaseID) : ¬ Tenured held loop := by
  rcases loop_of_txnLease waits with rfl | rfl <;> exact id

/-- A leader transaction without success leaves the tenure as it is. -/
theorem afterRequest_failed {agent : Agent} {revision : Nat} {reply : Reply} {lease : LeaseID}
    (waits : txnLease agent.loop = some lease) (failed : reply ≠ .done true) :
    SameTenure agent (agent.afterRequest revision reply) ∧
      txnLease (agent.afterRequest revision reply).loop = none := by
  have result : ∃ loop, agent.afterRequest revision reply = { agent with loop := loop } ∧
      (∀ held, ¬ Tenured held loop) ∧ txnLease loop = none := by
    rcases loop_of_txnLease waits with loop | loop <;> rcases reply with _ | _ | _
    · exact ⟨.getLeader, by simp [Agent.afterRequest, loop], fun _ => id, rfl⟩
    · exact ⟨.getLeader, by simp [Agent.afterRequest, loop], fun _ => id, rfl⟩
    · exact absurd rfl failed
    · exact ⟨.campaignCleanup revision, by simp [Agent.afterRequest, loop], fun _ => id, rfl⟩
    · exact ⟨.getLeader, by simp [Agent.afterRequest, loop], fun _ => id, rfl⟩
    · exact absurd rfl failed
  obtain ⟨loop, result, outside, none⟩ := result
  rw [result]
  exact ⟨sameTenure_loop fun held => iff_of_false (outside held) (not_tenured waits held), none⟩

/-- The success of a leader transaction begins a tenure with a stop channel and a
keep-alive goroutine of its own. -/
structure Begins (lease : LeaseID) (before after : Agent) : Prop where
  running : after.running = before.running
  writable : after.writable = before.writable
  isClosed : after.server.isClosed = before.server.isClosed
  keepAlives : after.keepAlives = ⟨lease, some before.madeChs⟩ :: before.keepAlives
  leaderStopCh : after.leaderStopCh = some before.madeChs
  closedChs : after.closedChs = before.closedChs
  madeChs : after.madeChs = before.madeChs + 1
  loop : Tenured lease after.loop
  other : txnLease after.loop = none

theorem afterRequest_success {agent : Agent} {revision : Nat} {lease : LeaseID}
    (waits : txnLease agent.loop = some lease) :
    Begins lease agent (agent.afterRequest revision (.done true)) := by
  rcases loop_of_txnLease waits with loop | loop
  · simp only [Agent.afterRequest, loop]
    exact ⟨rfl, rfl, rfl, rfl, rfl, rfl, rfl, rfl, rfl⟩
  · simp only [Agent.afterRequest, loop, Agent.promote]
    split <;> exact ⟨rfl, rfl, rfl, rfl, rfl, rfl, rfl, rfl, rfl⟩

theorem afterGrant_same {agent after : Agent} {lease : LeaseID}
    (granted : agent.afterGrant lease = some after) :
    SameTenure agent after ∧ txnLease after.loop = some lease := by
  unfold Agent.afterGrant at granted
  split at granted
  · rename_i loop
    cases granted
    exact ⟨sameTenure_loop (by simp [Tenured, loop]), rfl⟩
  · rename_i loop
    cases granted
    exact ⟨sameTenure_loop (by simp [Tenured, loop]), rfl⟩
  · contradiction

/-! ### The service calls of a tenure -/

/-- What a service call does in a tenure whose stop channel is `ch`: the loop goes
on, or closes the channel and starts over, or the process exits. -/
inductive Serviced (agent : Agent) (lease : LeaseID) (ch : Nat) : Next → Prop where
  | goesOn {after : Agent} (running : after.running = agent.running)
      (isClosed : after.server.isClosed = agent.server.isClosed)
      (keepAlives : after.keepAlives = agent.keepAlives)
      (leaderStopCh : after.leaderStopCh = agent.leaderStopCh)
      (closedChs : after.closedChs = agent.closedChs) (madeChs : after.madeChs = agent.madeChs)
      (loop : Tenured lease after.loop) (other : txnLease after.loop = none) :
      Serviced agent lease ch (.continues after)
  | closes {after : Agent} (running : after.running = agent.running)
      (isClosed : after.server.isClosed = agent.server.isClosed)
      (keepAlives : after.keepAlives = agent.keepAlives)
      (leaderStopCh : after.leaderStopCh = agent.leaderStopCh)
      (closedChs : after.closedChs = ch :: agent.closedChs)
      (madeChs : after.madeChs = agent.madeChs) (loop : after.loop = .getLeader)
      (writable : after.writable = true → agent.writable = true)
      (failed : agent.loop = .resumeReadOnly ∨ agent.loop = .promoteFailed) :
      Serviced agent lease ch (.continues after)
  | exits {after : Agent} (writable : after.writable = true → agent.writable = true) :
      Serviced agent lease ch (.exits after)

theorem setReadOnly_eq (agent : Agent) (outcome : Outcome) :
    agent.setReadOnly outcome =
      { agent with writable := if outcome = .failed then agent.writable else false } := by
  unfold Agent.setReadOnly
  split <;> rfl

theorem setReadWrite_eq (agent : Agent) (outcome : Outcome) :
    agent.setReadWrite outcome =
      { agent with writable := if outcome = .failed then agent.writable else true } := by
  unfold Agent.setReadWrite
  split <;> rfl

/-- A stop channel that is open is closed without a panic. -/
theorem closeStopChAndLoop_open {agent : Agent} {ch : Nat}
    (channel : agent.leaderStopCh = some ch) (openCh : ch ∉ agent.closedChs) :
    agent.closeStopChAndLoop =
      { agent with closedChs := ch :: agent.closedChs, loop := .getLeader } := by
  simp [Agent.closeStopChAndLoop, Agent.closeStopCh, channel, openCh]

private theorem serviced_close {agent : Agent} {lease : LeaseID} {ch : Nat} {outcome : Outcome}
    (channel : agent.leaderStopCh = some ch) (openCh : ch ∉ agent.closedChs)
    (failed : agent.loop = .resumeReadOnly ∨ agent.loop = .promoteFailed) :
    Serviced agent lease ch (.continues (agent.setReadOnly outcome).closeStopChAndLoop) := by
  have same : (agent.setReadOnly outcome).leaderStopCh = some ch ∧
      ch ∉ (agent.setReadOnly outcome).closedChs := by
    rw [setReadOnly_eq]
    exact ⟨channel, openCh⟩
  have writable : (agent.setReadOnly outcome).writable = true → agent.writable = true :=
    Agent.writable_of_setReadOnly
  rw [closeStopChAndLoop_open same.1 same.2]
  rw [setReadOnly_eq] at writable ⊢
  exact .closes rfl rfl rfl rfl rfl rfl rfl writable failed

theorem serviced {agent : Agent} {lease : LeaseID} {ch : Nat} {outcome : Outcome} {next : Next}
    (tenured : Tenured lease agent.loop) (channel : agent.leaderStopCh = some ch)
    (openCh : ch ∉ agent.closedChs) (kept : ∃ held ∈ agent.keepAlives, held.lease = lease)
    (moved : agent.afterService outcome = some next) : Serviced agent lease ch next := by
  have opened : ∀ {loop : Loop}, Tenured lease loop → txnLease loop = none →
      Serviced agent lease ch (.continues { agent.setReadWrite outcome with loop := loop }) := by
    intro loop inside other
    unfold Agent.setReadWrite
    split <;> exact .goesOn rfl rfl rfl rfl rfl rfl inside other
  unfold Agent.afterService at moved
  split at moved
  case h_1 held loop =>
    cases moved
    rw [loop] at tenured
    cases tenured
    rw [Agent.awaitKeepAlive_kept kept]
    split
    · exact opened rfl rfl
    · exact opened trivial rfl
  case h_2 loop =>
    cases moved
    exact serviced_close channel openCh (.inl loop)
  case h_3 tenure loop =>
    cases moved
    rw [loop] at tenured
    exact .goesOn rfl rfl rfl rfl rfl rfl tenured rfl
  case h_4 held loop =>
    cases moved
    rw [loop] at tenured
    cases tenured
    rw [Agent.awaitKeepAlive_kept kept]
    split
    · exact opened rfl rfl
    · exact opened trivial rfl
  case h_5 loop =>
    rw [loop] at tenured
    cases tenured
  case h_6 loop =>
    cases moved
    unfold Agent.readOnlyOrShutdown
    split
    · exact serviced_close channel openCh (.inr loop)
    · exact .exits Agent.writable_of_setReadOnly
  case h_7 loop =>
    rw [loop] at tenured
    cases tenured
  case h_8 loop =>
    rw [loop] at tenured
    cases tenured
  case h_9 => contradiction

/-- Outside a tenure and outside single point mode the loop calls no service. -/
theorem afterService_outside {agent : Agent} {outcome : Outcome}
    (untenured : ∀ lease, ¬ Tenured lease agent.loop) (outside : ¬ SinglePoint agent.loop) :
    agent.afterService outcome = none := by
  unfold Agent.afterService
  split
  case h_1 held loop => exact absurd (by simp [loop, Tenured]) (untenured held)
  case h_2 loop => exact absurd (by simp [loop, Tenured]) (untenured 0)
  case h_3 tenure loop =>
    cases tenure with
    | lease held => exact absurd (by simp [loop, Tenured]) (untenured held)
    | singlePoint => exact absurd (by simp [loop, SinglePoint]) outside
  case h_4 held loop => exact absurd (by simp [loop, Tenured]) (untenured held)
  case h_5 loop => exact absurd (by simp [loop, SinglePoint]) outside
  case h_6 loop => exact absurd (by simp [loop, Tenured]) (untenured 0)
  case h_7 loop => exact absurd (by simp [loop, SinglePoint]) outside
  case h_8 loop => exact absurd (by simp [loop, SinglePoint]) outside
  case h_9 => rfl

/-- On a closed server a service call fails and leaves the service as it is. -/
theorem afterService_failed {agent : Agent} {next : Next}
    (moved : agent.afterService .failed = some next) :
    next.after.writable = agent.writable ∧
      ∀ after, next = .continues after → after.running = agent.running ∧
        after.server.isClosed = agent.server.isClosed := by
  have readOnly : agent.setReadOnly .failed = agent := rfl
  have readWrite : agent.setReadWrite .failed = agent := rfl
  have restarted : agent.closeStopChAndLoop.writable = agent.writable ∧
      agent.closeStopChAndLoop.running = agent.running ∧
      agent.closeStopChAndLoop.server = agent.server := by
    unfold Agent.closeStopChAndLoop Agent.closeStopCh
    cases agent.leaderStopCh with
    | none => exact ⟨rfl, rfl, rfl⟩
    | some ch =>
      by_cases closed : ch ∈ agent.closedChs
      · simp [closed]
      · simp [closed]
  unfold Agent.afterService at moved
  simp only [readOnly, readWrite, reduceCtorEq, ↓reduceIte, Agent.readOnlyOrShutdown] at moved
  split at moved
  case h_2 =>
    cases moved
    refine ⟨restarted.1, ?_⟩
    rintro after same
    cases same
    exact ⟨restarted.2.1, by rw [restarted.2.2]⟩
  case h_6 =>
    cases moved
    exact ⟨rfl, fun after same => nomatch same⟩
  case h_9 => contradiction
  all_goals
    cases moved
    refine ⟨rfl, ?_⟩
    rintro after same
    cases same
    exact ⟨rfl, rfl⟩

/-! ### Channels and keep-alive goroutines are numbered in order -/

/-- No call but the leader transactions makes a channel, a goroutine or a lease. -/
structure Follows (before after : Agent) : Prop where
  keepAlives : ∀ held ∈ after.keepAlives, ∃ k ∈ before.keepAlives, k.lease = held.lease
  leaderStopCh : after.leaderStopCh = before.leaderStopCh
  madeChs : after.madeChs = before.madeChs
  closedChs : ∀ ch ∈ after.closedChs, ch ∈ before.closedChs ∨ before.leaderStopCh = some ch
  waits : ∀ lease, txnLease after.loop = some lease → txnLease before.loop = some lease

theorem SameTenure.follows {before after : Agent} (same : SameTenure before after)
    (other : txnLease after.loop = none) : Follows before after where
  keepAlives := fun held member => ⟨held, same.keepAlives ▸ member, rfl⟩
  leaderStopCh := same.leaderStopCh
  madeChs := same.madeChs
  closedChs := fun _ member => .inl (same.closedChs ▸ member)
  waits := fun _ waits => nomatch other.symm.trans waits

private theorem follows_of_fields {before after : Agent}
    (keepAlives : after.keepAlives = before.keepAlives)
    (leaderStopCh : after.leaderStopCh = before.leaderStopCh)
    (madeChs : after.madeChs = before.madeChs) (closedChs : after.closedChs = before.closedChs)
    (loop : txnLease after.loop = none ∨ after.loop = before.loop) : Follows before after where
  keepAlives := fun held member => ⟨held, keepAlives ▸ member, rfl⟩
  leaderStopCh := leaderStopCh
  madeChs := madeChs
  closedChs := fun _ member => .inl (closedChs ▸ member)
  waits := by
    intro lease waits
    rcases loop with other | same
    · cases other.symm.trans waits
    · rwa [same] at waits

private theorem closeStopChAndLoop_follows (agent : Agent) (writable : Bool) :
    Follows agent { agent with writable := writable }.closeStopChAndLoop := by
  unfold Agent.closeStopChAndLoop Agent.closeStopCh
  dsimp only
  cases channel : agent.leaderStopCh with
  | none => exact follows_of_fields rfl channel.symm rfl rfl (.inl rfl)
  | some ch =>
    by_cases closed : ch ∈ agent.closedChs
    · simp only [closed, ↓reduceIte]
      exact follows_of_fields rfl channel.symm rfl rfl (.inl rfl)
    · simp only [closed, ↓reduceIte]
      refine ⟨fun held member => ⟨held, member, rfl⟩, channel.symm, rfl, ?_,
        fun _ none => nomatch none⟩
      intro other member
      rcases List.mem_cons.mp member with rfl | before
      · exact .inr channel
      · exact .inl before

private theorem stopped_follows (agent : Agent) (writable : Bool) :
    Follows agent { agent with writable := writable }.stopped where
  keepAlives := fun _ member => nomatch member
  leaderStopCh := rfl
  madeChs := rfl
  closedChs := fun _ member => .inl member
  waits := fun _ none => nomatch none

private theorem afterService_follows {agent : Agent} {outcome : Outcome} {next : Next}
    (moved : agent.afterService outcome = some next) : Follows agent next.after := by
  unfold Agent.afterService at moved
  simp only [setReadOnly_eq, setReadWrite_eq, Agent.readOnlyOrShutdown] at moved
  split at moved
  case h_2 =>
    cases moved
    exact closeStopChAndLoop_follows agent _
  case h_6 =>
    cases moved
    split
    · exact closeStopChAndLoop_follows agent _
    · exact stopped_follows agent _
  case h_1 lease _ | h_4 lease _ =>
    cases moved
    refine follows_of_fields rfl rfl rfl rfl (.inl ?_)
    dsimp only [Next.after]
    split
    · rcases agent.awaitKeepAlive_eq lease with loop | loop <;> rw [loop] <;> rfl
    · rfl
  case h_9 => contradiction
  all_goals (repeat' split at moved)
  all_goals cases moved
  all_goals exact follows_of_fields rfl rfl rfl rfl (by first | exact .inl rfl | exact .inr rfl)

private theorem afterKeepAlive_follows (agent : Agent) (lease : LeaseID) (outcome : Outcome) :
    Follows agent (agent.afterKeepAlive lease outcome).after := by
  have released : ∀ writable, Follows agent { agent with
      writable := writable
      keepAlives := agent.keepAlives.filter fun held => held.lease != lease
      loop := if agent.loop = .barrier lease then .getLeader else agent.loop } := by
    intro writable
    refine ⟨fun held member => ⟨held, (List.mem_filter.mp member).1, rfl⟩, rfl, rfl,
      fun _ member => .inl member, ?_⟩
    intro waited waits
    dsimp only at waits
    split at waits
    · cases waits
    · exact waits
  unfold Agent.afterKeepAlive
  simp only [Agent.readOnlyOrShutdown, setReadOnly_eq]
  split
  · exact released agent.writable
  · split
    · exact released _
    · exact stopped_follows agent _

theorem move_follows {agent : Agent} {etcd : Etcd} {nodes : List NodeID} {call : Call}
    {next : Next} (noHttp : isHttp call = false)
    (moved : agent.move etcd nodes call = some next) : Follows agent next.after := by
  cases Agent.moves_of_move moved with
  | service served => exact afterService_follows served
  | turn =>
    refine ⟨?_, rfl, rfl, fun _ member => .inl member, fun _ waits => waits⟩
    intro held member
    obtain ⟨k, before, rfl⟩ := List.mem_map.mp member
    refine ⟨k, before, ?_⟩
    split <;> rfl
  | @keepAliveExit lease outcome => exact afterKeepAlive_follows agent lease outcome
  | close =>
    simp only [Agent.readOnlyOrShutdown, setReadOnly_eq]
    split
    · exact follows_of_fields rfl rfl rfl rfl (.inr rfl)
    · exact stopped_follows agent _
  | exits => exact stopped_follows agent agent.writable
  | advance advanced => exact (advance_same advanced).1.follows (advance_same advanced).2
  | http | handlerService | handlerManual | handlerStop | setOnlyFollow => cases noHttp

/-! ### Times and numbers -/

/-- The loop is about to run for leader with the lease. -/
def Awaits (t : State) (lease : LeaseID) : Prop :=
  t.flight = some (.grant lease) ∨ txnLease t.agent.loop = some lease

/-- The stamps of the leases and of the renewals agree, and a lease belongs to one
tenure only. -/
structure Stamped (cfg : Config) (t : State) : Prop where
  granted : ∀ lease held, t.leases lease = some held →
    held.granted ≤ t.now ∧ held.granted + seconds cfg.leaderLeaseTTL ≤ held.deadline ∧
      held.deadline ≤ t.now + seconds cfg.leaderLeaseTTL
  attempted : ∀ lease attempt, t.attempts lease = some attempt → attempt.since ≤ t.now ∧
    ∀ renewed, attempt.processed = some renewed → attempt.since ≤ renewed ∧
      ∃ held, t.leases lease = some held ∧ renewed + seconds cfg.leaderLeaseTTL ≤ held.deadline
  closedChs : ∀ ch ∈ t.agent.closedChs, ch < t.agent.madeChs
  leaderStopCh : ∀ ch, t.agent.leaderStopCh = some ch → ch < t.agent.madeChs
  awaited : ∀ lease, Awaits t lease →
    t.leases lease ≠ none ∧ ∀ k ∈ t.agent.keepAlives, k.lease ≠ lease
  kept : ∀ k ∈ t.agent.keepAlives, t.leases k.lease ≠ none

theorem stamped_init (id : NodeID) (cfg : Config) (now : Nat) : Stamped cfg (init id cfg now) where
  granted := fun _ _ none => nomatch none
  attempted := fun _ _ none => nomatch none
  closedChs := fun _ member => nomatch member
  leaderStopCh := fun _ none => nomatch none
  awaited := by
    rintro lease (none | none) <;> cases none
  kept := fun _ member => nomatch member

/-- Steps that make no channel and no goroutine and stamp nothing. -/
private theorem Stamped.carry {cfg : Config} {t t' : State} (stamped : Stamped cfg t)
    (follows : Follows t.agent t'.agent) (now : t'.now = t.now) (leases : t'.leases = t.leases)
    (attempts : t'.attempts = t.attempts)
    (flight : t'.flight = t.flight ∨ ∀ lease, t'.flight ≠ some (.grant lease)) :
    Stamped cfg t' where
  granted := by
    rw [leases, now]
    exact stamped.granted
  attempted := by
    rw [leases, attempts, now]
    exact stamped.attempted
  closedChs := by
    intro ch member
    rw [follows.madeChs]
    rcases follows.closedChs ch member with before | channel
    · exact stamped.closedChs ch before
    · exact stamped.leaderStopCh ch channel
  leaderStopCh := by
    rw [follows.leaderStopCh, follows.madeChs]
    exact stamped.leaderStopCh
  awaited := by
    intro lease awaits
    have before : Awaits t lease := by
      rcases awaits with grant | waits
      · rcases flight with same | none
        · exact .inl (same ▸ grant)
        · exact absurd grant (none lease)
      · exact .inr (follows.waits lease waits)
    rw [leases]
    refine ⟨(stamped.awaited lease before).1, ?_⟩
    intro held member
    obtain ⟨k, member, same⟩ := follows.keepAlives held member
    rw [← same]
    exact (stamped.awaited lease before).2 k member
  kept := by
    intro held member
    obtain ⟨k, member, same⟩ := follows.keepAlives held member
    rw [leases, ← same]
    exact stamped.kept k member

private theorem Follows.refl (agent : Agent) : Follows agent agent :=
  follows_of_fields rfl rfl rfl rfl (.inr rfl)

/-- A new stamp on one renewal. -/
private theorem Stamped.attempt {cfg : Config} {t : State} (stamped : Stamped cfg t)
    (lease : LeaseID) :
    Stamped cfg { t with attempts := Function.update t.attempts lease (some ⟨t.now, none⟩) } :=
  { stamped with
    attempted := by
      intro other attempt made
      by_cases same : other = lease
      · subst same
        simp only [Function.update_self, Option.some.injEq] at made
        subst made
        exact ⟨Nat.le_refl _, fun _ none => nomatch none⟩
      · exact stamped.attempted other attempt (by simpa [Function.update_of_ne same] using made) }

/-- A grant that etcd processes now. -/
private theorem Stamped.grant {cfg : Config} {t : State} {lease : LeaseID}
    (stamped : Stamped cfg t) (fresh : t.leases lease = none)
    (loop : txnLease t.agent.loop = none) :
    Stamped cfg { t with
      leases := Function.update t.leases lease (some ⟨t.now, t.now + seconds cfg.leaderLeaseTTL⟩)
      flight := some (.grant lease) } where
  granted := by
    intro other held made
    by_cases same : other = lease
    · subst same
      simp only [Function.update_self, Option.some.injEq] at made
      subst made
      exact ⟨Nat.le_refl _, Nat.le_refl _, Nat.le_refl _⟩
    · exact stamped.granted other held (by simpa [Function.update_of_ne same] using made)
  attempted := by
    intro other attempt made
    refine ⟨(stamped.attempted other attempt made).1, fun renewed processed => ?_⟩
    obtain ⟨since, held, leased, within⟩ :=
      (stamped.attempted other attempt made).2 renewed processed
    have differs : other ≠ lease := by
      rintro rfl
      cases fresh.symm.trans leased
    exact ⟨since, held, by simpa [Function.update_of_ne differs] using leased, within⟩
  closedChs := stamped.closedChs
  leaderStopCh := stamped.leaderStopCh
  awaited := by
    rintro other (grant | waits)
    · cases grant
      refine ⟨by simp, fun k member same => ?_⟩
      exact stamped.kept k member (same ▸ fresh)
    · cases loop.symm.trans waits
  kept := by
    intro k member
    have before := stamped.kept k member
    have differs : k.lease ≠ lease := by
      rintro same
      exact before (same ▸ fresh)
    simpa [Function.update_of_ne differs] using before

/-- The answer of a grant arrives. -/
private theorem Stamped.granting {cfg : Config} {t : State} {lease : LeaseID} {agent : Agent}
    (stamped : Stamped cfg t) (flight : t.flight = some (.grant lease))
    (granted : t.agent.afterGrant lease = some agent) :
    Stamped cfg { t with agent := agent, flight := none } := by
  obtain ⟨same, waits⟩ := afterGrant_same granted
  exact
    { granted := stamped.granted
      attempted := stamped.attempted
      closedChs := by
        change ∀ ch ∈ agent.closedChs, ch < agent.madeChs
        rw [same.closedChs, same.madeChs]
        exact stamped.closedChs
      leaderStopCh := by
        change ∀ ch, agent.leaderStopCh = some ch → ch < agent.madeChs
        rw [same.leaderStopCh, same.madeChs]
        exact stamped.leaderStopCh
      awaited := by
        rintro other (none | waited)
        · cases none
        · cases waits.symm.trans waited
          change _ ∧ ∀ k ∈ agent.keepAlives, k.lease ≠ lease
          rw [same.keepAlives]
          exact stamped.awaited lease (.inl flight)
      kept := by
        change ∀ k ∈ agent.keepAlives, t.leases k.lease ≠ none
        rw [same.keepAlives]
        exact stamped.kept }

/-- A tenure begins. -/
private theorem Stamped.begin {cfg : Config} {t t' : State} {lease : LeaseID}
    (stamped : Stamped cfg t) (waits : txnLease t.agent.loop = some lease)
    (begins : Begins lease t.agent t'.agent) (now : t'.now = t.now)
    (leases : t'.leases = t.leases) (attempts : t'.attempts = t.attempts)
    (flight : t'.flight = none) : Stamped cfg t' where
  granted := by
    rw [leases, now]
    exact stamped.granted
  attempted := by
    rw [leases, attempts, now]
    exact stamped.attempted
  closedChs := by
    rw [begins.closedChs, begins.madeChs]
    intro ch member
    have := stamped.closedChs ch member
    omega
  leaderStopCh := by
    rw [begins.leaderStopCh, begins.madeChs]
    rintro ch same
    cases same
    omega
  awaited := by
    rintro other (grant | waited)
    · cases flight.symm.trans grant
    · cases begins.other.symm.trans waited
  kept := by
    rw [begins.keepAlives, leases]
    intro k member
    rcases List.mem_cons.mp member with rfl | before
    · exact (stamped.awaited lease (.inr waits)).1
    · exact stamped.kept k before

/-- A renewal that etcd processes now. -/
private theorem Stamped.renew {cfg : Config} {t : State} {lease : LeaseID} {held : Lease}
    {attempt : Attempt} (stamped : Stamped cfg t) (leased : t.leases lease = some held)
    (attempts : t.attempts lease = some attempt) :
    Stamped cfg { t with
      leases := Function.update t.leases lease
        (some { held with deadline := t.now + seconds cfg.leaderLeaseTTL })
      attempts := Function.update t.attempts lease
        (some { attempt with processed := some t.now }) } := by
  have present : ∀ other, t.leases other ≠ none →
      Function.update t.leases lease
        (some { held with deadline := t.now + seconds cfg.leaderLeaseTTL }) other ≠ none := by
    intro other before
    by_cases same : other = lease
    · simp [same]
    · simpa [Function.update_of_ne same] using before
  exact
    { granted := by
        intro other renewed made
        by_cases same : other = lease
        · subst same
          simp only [Function.update_self, Option.some.injEq] at made
          subst made
          have before := (stamped.granted other held leased).1
          exact ⟨before, by dsimp only; omega, Nat.le_refl _⟩
        · exact stamped.granted other renewed (by simpa [Function.update_of_ne same] using made)
      attempted := by
        intro other made recorded
        by_cases same : other = lease
        · subst same
          simp only [Function.update_self, Option.some.injEq] at recorded
          subst recorded
          have since := (stamped.attempted other attempt attempts).1
          refine ⟨since, ?_⟩
          rintro renewed processed
          cases processed
          exact ⟨since, _, Function.update_self .., Nat.le_refl _⟩
        · simp only [Function.update_of_ne same] at recorded ⊢
          exact stamped.attempted other made recorded
      closedChs := stamped.closedChs
      leaderStopCh := stamped.leaderStopCh
      awaited := fun other awaits =>
        ⟨present other (stamped.awaited other awaits).1, (stamped.awaited other awaits).2⟩
      kept := fun k member => present k.lease (stamped.kept k member) }

private theorem proceed_fields (cfg : Config) (t : State) (next : Next) :
    (t.proceed cfg next).agent = next.after ∧ (t.proceed cfg next).now = t.now ∧
      (t.proceed cfg next).leases = t.leases ∧ (t.proceed cfg next).attempts = t.attempts ∧
      (t.proceed cfg next).obtained = t.obtained ∧
      ((t.proceed cfg next).flight = t.flight ∨ (t.proceed cfg next).flight = none) := by
  cases next with
  | continues agent => exact ⟨rfl, rfl, rfl, rfl, rfl, .inl rfl⟩
  | exits agent => exact ⟨rfl, rfl, rfl, rfl, rfl, .inr rfl⟩

private theorem Stamped.moved {cfg : Config} {t : State} {etcd : Etcd} {nodes : List NodeID}
    {call : Call} {next : Next} (stamped : Stamped cfg t) (noHttp : isHttp call = false)
    (called : t.agent.move etcd nodes call = some next) : Stamped cfg (t.proceed cfg next) := by
  obtain ⟨agent, now, leases, attempts, _, flight⟩ := proceed_fields cfg t next
  refine stamped.carry (agent ▸ move_follows noHttp called) now leases attempts ?_
  exact flight.imp_right fun none lease => by simp [none]

private theorem Stamped.elapsed {cfg : Config} {t : State} (stamped : Stamped cfg t)
    (duration : Nat) : Stamped cfg { t with now := t.now + duration } :=
  { stamped with
    granted := fun lease held made => by
      have := stamped.granted lease held made
      dsimp only
      omega
    attempted := fun lease attempt made => by
      refine ⟨?_, (stamped.attempted lease attempt made).2⟩
      have := (stamped.attempted lease attempt made).1
      dsimp only
      omega }

theorem stamped_step {cfg : Config} {t t' : State} {event : Event} (stamped : Stamped cfg t)
    (plain : Plain t event) (taken : step cfg t event = some t') : Stamped cfg t' := by
  obtain ⟨outside, noHttp⟩ := plain
  have fields : ∀ {agent : Agent}, Follows t.agent agent → Stamped cfg { t with agent := agent } :=
    fun follows => stamped.carry follows rfl rfl rfl (.inl rfl)
  have landed : ∀ {agent : Agent}, Follows t.agent agent →
      Stamped cfg { t with agent := agent, flight := none } := fun follows =>
    stamped.carry follows rfl rfl rfl (.inr fun _ none => nomatch none)
  cases taken_of_step taken with
  | elapse => exact stamped.elapsed _
  | start =>
    exact
      { granted := stamped.granted
        attempted := stamped.attempted
        closedChs := fun _ member => nomatch member
        leaderStopCh := fun _ none => nomatch none
        awaited := by
          rintro lease (none | none) <;> cases none
        kept := fun _ member => nomatch member }
  | serviceStop | report => exact fields (follows_of_fields rfl rfl rfl rfl (.inr rfl))
  | call running free called =>
    refine (stamped.moved (noHttp _ _ _ rfl) called).carry (.refl _) rfl rfl rfl ?_
    dsimp only
    split
    · exact .inr fun lease none => nomatch none
    · exact .inl rfl
  | reply other =>
    obtain ⟨same, loop⟩ := afterRequest_same other
    exact fields (same.follows loop)
  | grantProcessed granting fresh =>
    refine stamped.grant fresh ?_
    rcases granting with loop | loop <;> rw [loop] <;> rfl
  | grantReceived flight granted => exact stamped.granting flight granted
  | txnProcessed =>
    exact stamped.carry (.refl _) rfl rfl rfl (.inr fun lease none => nomatch none)
  | @txnReceived revision lease succeeded running waits flight =>
    cases succeeded with
    | true => exact stamped.begin waits (afterRequest_success waits) rfl rfl rfl rfl
    | false =>
      obtain ⟨same, loop⟩ := @afterRequest_failed t.agent revision (.done false) lease waits
        (by simp)
      exact landed (same.follows loop)
  | @txnLost revision lease waits =>
    obtain ⟨same, loop⟩ := @afterRequest_failed t.agent revision .error lease waits (by simp)
    exact landed (same.follows loop)
  | @keepAliveTick lease next running called =>
    obtain ⟨_, now, _, attempts, _⟩ := proceed_fields cfg t next
    have stamped := (stamped.moved rfl called).attempt lease
    rw [now, attempts] at stamped
    dsimp only
    rwa [now]
  | keepAliveRetry => exact stamped.attempt _
  | renewProcessed leased attempts => exact stamped.renew leased attempts
  | keepAliveRenewed attempt answered running called =>
    exact (stamped.moved rfl called).carry (.refl _) rfl rfl rfl (.inl rfl)
  | monitorFires =>
    unfold State.fire
    dsimp only
    split
    · exact stamped.carry (stopped_follows t.agent t.agent.writable) rfl rfl rfl
        (.inr fun lease none => nomatch none)
    · exact stamped.carry (.refl _) rfl rfl rfl (.inl rfl)
  | monitorExits => exact stamped.carry (.refl _) rfl rfl rfl (.inl rfl)

end Moha.LeaseTenure
