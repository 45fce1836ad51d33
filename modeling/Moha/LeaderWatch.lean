import Moha.LeaderLoop
import Moha.Runs

/-! A follower in `leader.go::watchLeader`: the history of the leader key, its
compaction, and the watch through which the follower sees it. `leaderLoop` first
watches from the revision at which it read the leader and, after an error, a
second time without a revision. A watch that is cut off is opened again with the
same argument. A watch without a revision begins after its creation, so what
happened to the leader key before is lost to it. -/
namespace Moha.LeaderWatch
open LeaderRecord LeaderLoop Runs

inductive EventType where
  | put
  | delete
  deriving DecidableEq, Repr

/-- An event on the leader key. -/
structure Event where
  type : EventType
  modRevision : Nat
  deriving DecidableEq, Repr

/-- The watch of one call: not yet open, or open with every event from `next` on
still to be delivered. -/
inductive Watch where
  | opening
  | live (next : Nat)
  deriving DecidableEq, Repr

/-- Where the follower stands after it has read the leader: before the watch, in
the first or the second call of `watchLeader`, or back at the start of the loop. -/
inductive Follower where
  | changing
  | watching (fallback : Bool) (watch : Watch)
  | returned
  deriving DecidableEq, Repr

/-- etcd's revision, all events on the leader key with the oldest first, the
revision up to which they are compacted, and the follower with the `ModRevision`
of the leader it read. -/
structure State where
  revision : Nat
  history : List Event
  compacted : Nat := 0
  read : Nat
  follower : Follower := .changing
  deriving DecidableEq, Repr

/-- The argument of `watchLeader`. -/
def State.watchRevision (s : State) (fallback : Bool) : Nat := if fallback then 0 else s.read

/-- The first event a new watch delivers. -/
def State.firstRevision (s : State) (fallback : Bool) : Nat :=
  if s.watchRevision fallback = 0 then s.revision + 1 else s.watchRevision fallback

def State.append (s : State) (type : EventType) : State :=
  { s with revision := s.revision + 1, history := s.history ++ [⟨type, s.revision + 1⟩] }

inductive Action where
  | put
  | delete
  | otherKey
  | compact (revision : Nat)
  | changeMaster (succeeded : Bool)
  | create
  | deliver
  | fail
  | cancel
  | disconnect
  deriving DecidableEq, Repr

/-- `leaderLoop` after an error of `watchLeader`: the first call is followed by the
second, whose own error is ignored. -/
def afterError (fallback : Bool) : Follower :=
  if fallback then .returned else .watching true .opening

/-- `watchLeader` on an event: only a deletion ends it. -/
def afterEvent (fallback : Bool) (event : Event) : Follower :=
  match event.type with
  | .delete => .returned
  | .put => .watching fallback (.live (event.modRevision + 1))

/-- A step of etcd, of the watch or of the follower; `none` when it is not enabled. -/
def step (s : State) : Action → Option State
  | .put => some (s.append .put)
  | .delete =>
    if s.history.getLast?.any (fun event => event.type == .put) then some (s.append .delete)
    else none
  | .otherKey => some { s with revision := s.revision + 1 }
  | .compact revision =>
    if revision ≤ s.revision then some { s with compacted := max s.compacted revision } else none
  | .changeMaster succeeded =>
    if s.follower = .changing then
      some { s with follower := if succeeded then .watching false .opening else .returned }
    else none
  | .create =>
    match s.follower with
    | .watching fallback .opening =>
      some { s with follower := .watching fallback (.live (s.firstRevision fallback)) }
    | _ => none
  | .deliver =>
    match s.follower with
    | .watching fallback (.live next) =>
      -- a watch that is behind the compaction can only fail
      if s.compacted ≤ next then
        (s.history.find? fun event => decide (next ≤ event.modRevision)).map fun event =>
          { s with follower := afterEvent fallback event }
      else none
    | _ => none
  | .fail =>
    match s.follower with
    | .watching fallback (.live _) => some { s with follower := afterError fallback }
    | _ => none
  | .cancel =>
    match s.follower with
    | .watching _ _ => some { s with follower := .returned }
    | _ => none
  | .disconnect =>
    match s.follower with
    | .watching fallback (.live _) => some { s with follower := .watching fallback .opening }
    | _ => none

/-- The position of the leader loop that the follower's watch is the inside of. -/
def Follower.loop (leader : Leader) : Follower → Option Loop
  | .changing => none
  | .watching fallback _ => some (.watchLeader leader fallback)
  | .returned => some .getLeader

/-- From outside, the watch either goes on or ends as the leader loop has it. -/
theorem watch_refines_loop {s s' : State} {a : Action} {leader : Leader} {agent : Agent}
    {fallback : Bool} {watch : Watch} (stands : s.follower = .watching fallback watch)
    (loop : agent.loop = .watchLeader leader fallback) (taken : step s a = some s') :
    s'.follower.loop leader = some agent.loop ∨
      ∃ failed after, agent.advance .empty [] (.watchEnds failed) = some after ∧
        s'.follower.loop leader = some after.loop := by
  have ends : ∀ failed, ∃ after, agent.advance .empty [] (.watchEnds failed) = some after ∧
      after.loop = if failed ∧ fallback = false then .watchLeader leader true else .getLeader := by
    intro failed
    simp only [Agent.advance, loop]
    split <;> exact ⟨_, rfl, rfl⟩
  cases a with
  | put | otherKey =>
    cases taken
    exact .inl (by simp [State.append, stands, loop, Follower.loop])
  | delete | compact revision =>
    simp only [step] at taken
    split at taken <;> cases taken
    exact .inl (by simp [State.append, stands, loop, Follower.loop])
  | changeMaster => simp [step, stands] at taken
  | create | disconnect =>
    simp only [step, stands] at taken
    split at taken <;> cases taken
    rename_i same
    cases same
    exact .inl (by simp [loop, Follower.loop])
  | deliver =>
    simp only [step, stands] at taken
    split at taken
    · rename_i same
      cases same
      split at taken
      · obtain ⟨event, _, rfl⟩ := Option.map_eq_some_iff.mp taken
        dsimp only [afterEvent]
        split
        · obtain ⟨after, advanced, result⟩ := ends false
          exact .inr ⟨false, after, advanced, by simp [result, Follower.loop]⟩
        · exact .inl (by simp [loop, Follower.loop])
      · contradiction
    · contradiction
  | fail =>
    simp only [step, stands] at taken
    split at taken <;> cases taken
    rename_i same
    cases same
    obtain ⟨after, advanced, result⟩ := ends true
    refine .inr ⟨true, after, advanced, ?_⟩
    rw [result]
    cases fallback <;> rfl
  | cancel =>
    simp only [step, stands] at taken
    cases taken
    obtain ⟨after, advanced, result⟩ := ends false
    exact .inr ⟨false, after, advanced, by simp [result, Follower.loop]⟩

/-! ### What the follower has not seen -/

/-- The leader key has been deleted since the follower read it. -/
def Deleted (s : State) : Prop :=
  ∃ event ∈ s.history, event.type = .delete ∧ s.read ≤ event.modRevision

instance (s : State) : Decidable (Deleted s) := inferInstanceAs (Decidable (∃ _ ∈ _, _))

/-- The follower has just read the leader: the last event on its key is a put, and
what is stored has its revision. -/
structure JustRead (s : State) : Prop where
  follower : s.follower = .changing
  ordered : s.history.Pairwise fun earlier later => earlier.modRevision < later.modRevision
  bounded : ∀ event ∈ s.history, event.modRevision ≤ s.revision
  stored : s.history.getLast? = some ⟨.put, s.read⟩

/-- A watch without a revision is created only while the leader key has not been
deleted since it was read. -/
def Unmissed (s : State) (a : Action) : Prop :=
  a = .create → ∀ fallback, s.follower = .watching fallback .opening →
    s.watchRevision fallback = 0 → ¬ Deleted s

/-- No deletion since the read is behind the watch. -/
structure Ahead (s : State) : Prop where
  ordered : s.history.Pairwise fun earlier later => earlier.modRevision < later.modRevision
  bounded : ∀ event ∈ s.history, event.modRevision ≤ s.revision
  read : s.read ≤ s.revision
  pending : ∀ fallback next, s.follower = .watching fallback (.live next) →
    next ≤ s.revision + 1 ∧ ∀ event ∈ s.history, event.type = .delete →
      s.read ≤ event.modRevision → next ≤ event.modRevision

theorem JustRead.ahead {s : State} (fresh : JustRead s) : Ahead s where
  ordered := fresh.ordered
  bounded := fresh.bounded
  read := fresh.bounded _ (List.mem_of_getLast? fresh.stored)
  pending := by
    intro fallback next watching
    cases fresh.follower.symm.trans watching

/-- The history grows beyond every open watch. -/
private theorem Ahead.append {s : State} (ahead : Ahead s) (type : EventType) :
    Ahead (s.append type) where
  ordered := by
    refine List.pairwise_append.mpr ⟨ahead.ordered, List.pairwise_singleton _ _, ?_⟩
    intro earlier member later appended
    rw [List.mem_singleton.mp appended]
    exact Nat.lt_succ_of_le (ahead.bounded earlier member)
  bounded := by
    intro event member
    rcases List.mem_append.mp member with before | appended
    · exact Nat.le_succ_of_le (ahead.bounded event before)
    · rw [List.mem_singleton.mp appended]
      exact Nat.le_refl _
  read := Nat.le_succ_of_le ahead.read
  pending := by
    intro fallback next watching
    obtain ⟨atMost, unseen⟩ := ahead.pending fallback next watching
    refine ⟨Nat.le_succ_of_le atMost, ?_⟩
    intro event member deleted since
    rcases List.mem_append.mp member with before | appended
    · exact unseen event before deleted since
    · rw [List.mem_singleton.mp appended]
      exact atMost

/-- The follower moves to a place without an open watch. -/
private theorem Ahead.leave {s : State} (ahead : Ahead s) {follower : Follower}
    (closed : ∀ fallback next, follower ≠ .watching fallback (.live next)) :
    Ahead { s with follower := follower } :=
  { ahead with pending := fun fallback next watching => absurd watching (closed fallback next) }

private theorem Ahead.create {s : State} (ahead : Ahead s) {fallback : Bool}
    (unmissed : s.watchRevision fallback = 0 → ¬ Deleted s) :
    Ahead { s with follower := .watching fallback (.live (s.firstRevision fallback)) } :=
  { ahead with
    pending := by
      rintro _ _ watching
      cases watching
      dsimp only
      unfold State.firstRevision
      split
      · rename_i latest
        refine ⟨Nat.le_refl _, fun event member deleted since => ?_⟩
        exact absurd ⟨event, member, deleted, since⟩ (unmissed latest)
      · rename_i given
        have first : s.watchRevision fallback = s.read := by
          cases fallback with
          | false => rfl
          | true => exact absurd rfl given
        rw [first]
        exact ⟨Nat.le_succ_of_le ahead.read, fun _ _ _ since => since⟩ }

/-- Delivery goes through the history in order, so no deletion is skipped. -/
private theorem Ahead.deliver {s : State} (ahead : Ahead s) {fallback : Bool} {next : Nat}
    {event : Event} (watching : s.follower = .watching fallback (.live next))
    (found : s.history.find? (fun event => decide (next ≤ event.modRevision)) = some event) :
    Ahead { s with follower := afterEvent fallback event } := by
  have first : ∀ later ∈ s.history, next ≤ later.modRevision → later ≠ event →
      event.modRevision < later.modRevision := by
    intro later member since differs
    obtain ⟨_, before, after, split, skipped⟩ := List.find?_eq_some_iff_append.mp found
    have ordered := ahead.ordered
    rw [split] at ordered member
    rcases List.mem_append.mp member with earlier | rest
    · have behind := skipped later earlier
      simp only [Bool.not_eq_true', decide_eq_false_iff_not] at behind
      exact absurd since behind
    · rcases List.mem_cons.mp rest with same | later'
      · exact absurd same differs
      · exact (List.pairwise_cons.mp (List.pairwise_append.mp ordered).2.1).1 later later'
  have member : event ∈ s.history := List.mem_of_find?_eq_some found
  cases kind : event.type with
  | delete =>
    have returns : afterEvent fallback event = .returned := by simp [afterEvent, kind]
    rw [returns]
    exact ahead.leave fun _ _ => Follower.noConfusion
  | put =>
    have goesOn : afterEvent fallback event =
        .watching fallback (.live (event.modRevision + 1)) := by
      simp [afterEvent, kind]
    rw [goesOn]
    exact { ahead with
      pending := by
        rintro _ _ live
        cases live
        refine ⟨Nat.succ_le_succ (ahead.bounded event member), ?_⟩
        intro later present deleted since
        refine first later present ((ahead.pending _ _ watching).2 later present deleted since) ?_
        rintro rfl
        cases kind.symm.trans deleted }

theorem ahead_step {s s' : State} {a : Action} (ahead : Ahead s) (unmissed : Unmissed s a)
    (taken : step s a = some s') : Ahead s' := by
  cases a with
  | put =>
    cases taken
    exact ahead.append .put
  | delete =>
    simp only [step] at taken
    split at taken <;> cases taken
    exact ahead.append .delete
  | otherKey =>
    cases taken
    exact
      { ordered := ahead.ordered
        bounded := fun event member => Nat.le_succ_of_le (ahead.bounded event member)
        read := Nat.le_succ_of_le ahead.read
        pending := fun fallback next watching =>
          (ahead.pending fallback next watching).imp_left Nat.le_succ_of_le }
  | compact revision =>
    simp only [step] at taken
    split at taken <;> cases taken
    exact ⟨ahead.ordered, ahead.bounded, ahead.read, ahead.pending⟩
  | changeMaster succeeded =>
    simp only [step] at taken
    split at taken <;> cases taken
    refine ahead.leave fun _ _ => ?_
    cases succeeded <;> simp
  | create =>
    simp only [step] at taken
    split at taken <;> cases taken
    rename_i fallback opening
    exact ahead.create (unmissed rfl fallback opening)
  | deliver =>
    simp only [step] at taken
    split at taken
    · rename_i fallback next watching
      split at taken
      · obtain ⟨event, found, rfl⟩ := Option.map_eq_some_iff.mp taken
        exact ahead.deliver watching found
      · contradiction
    · contradiction
  | fail =>
    simp only [step] at taken
    split at taken <;> cases taken
    rename_i fallback _ _
    refine ahead.leave fun _ _ => ?_
    cases fallback <;> simp [afterError]
  | cancel =>
    simp only [step] at taken
    split at taken <;> cases taken
    exact ahead.leave fun _ _ => Follower.noConfusion
  | disconnect =>
    simp only [step] at taken
    split at taken <;> cases taken
    exact ahead.leave fun _ _ => by simp

/-- In every run in which no watch without a revision is created after a deletion,
a follower that is blocked in an open watch whose events have all been delivered
still follows the leader it read. -/
theorem blocked_follower_has_leader {s t : State} (fresh : JustRead s) (run : Run step Unmissed s t)
    {fallback : Bool} {next : Nat} (blocked : t.follower = .watching fallback (.live next))
    (delivered : ∀ event ∈ t.history, event.modRevision < next) : ¬ Deleted t := by
  have ahead : Ahead t := run.invariant fresh.ahead fun ahead unmissed taken =>
    ahead_step ahead unmissed taken
  rintro ⟨event, member, deleted, since⟩
  have unseen := (ahead.pending fallback next blocked).2 event member deleted since
  exact absurd (delivered event member) (Nat.not_lt.mpr unseen)

/-- The key was put at revision one and has just been read. -/
def sampleRead : State := { revision := 1, history := [⟨.put, 1⟩], read := 1 }

private theorem sampleRead_fresh : JustRead sampleRead where
  follower := rfl
  ordered := by decide
  bounded := by decide
  stored := rfl

private def unmissed (s : State) (a : Action) : Bool := a != .create || !decide (Deleted s)

private theorem unmissed_of_check {s : State} {a : Action} (check : unmissed s a = true) :
    Unmissed s a := by
  rintro rfl fallback _ _
  simpa [unmissed] using check

/-- The first watch is cut off, opened again and fails; the second one is blocked
while the leader puts its key again. -/
theorem blocked_follower_has_leader_after_errors :
    ∃ t, Run step Unmissed sampleRead t ∧ t.follower = .watching true (.live 4) ∧ ¬ Deleted t := by
  have ran : (exec (restrict step unmissed) sampleRead
      [.changeMaster true, .create, .deliver, .disconnect, .create, .put, .deliver, .deliver, .fail,
        .create, .put, .deliver]).any (fun t => t.follower == .watching true (.live 4) &&
          t.history.all fun event => decide (event.modRevision < 4)) = true := by
    decide +kernel
  obtain ⟨t, run, found⟩ := exists_run_of_exec (fun _ _ => unmissed_of_check) ran
  simp only [Bool.and_eq_true, beq_iff_eq, List.all_eq_true, decide_eq_true_eq] at found
  exact ⟨t, run, found.1, blocked_follower_has_leader sampleRead_fresh run found.1 found.2⟩

/-- The leader key is deleted, put by another node and compacted before the first
watch is opened. The watch fails, and the second one begins after the deletion. -/
theorem failover_missed_after_compaction :
    ∃ t, Run step (fun _ _ => True) sampleRead t ∧ t.follower = .watching true (.live 4) ∧
      (∀ event ∈ t.history, event.modRevision < 4) ∧ Deleted t := by
  have ran : (exec (restrict step fun _ _ => true) sampleRead
      [.delete, .put, .compact 3, .changeMaster true, .create, .fail, .create]).any
      (fun t => t.follower == .watching true (.live 4) && decide (Deleted t) &&
        t.history.all fun event => decide (event.modRevision < 4)) = true := by
    decide +kernel
  obtain ⟨t, run, found⟩ := exists_run_of_exec (fun _ _ _ => trivial) ran
  simp only [Bool.and_eq_true, beq_iff_eq, List.all_eq_true, decide_eq_true_eq] at found
  exact ⟨t, run, found.1.1, found.2, found.1.2⟩

end Moha.LeaderWatch
