import Moha.KeyValueStore
import Moha.Runs
import Mathlib.Data.List.MinMax

/-! The lock that a PostgreSQL node takes around a promotion and around a
redirection to a new master. Every call opens a session of its own, so the key it
queues with, the lock's prefix followed by the session's lease, belongs to that
call alone; a key is therefore named by its lease. The oldest key under the
prefix holds the lock. A call that finds an older key waits for the youngest of
the older ones to be deleted and looks again.

Two things take a node past the lock without it: when no session can be opened
the error is only logged and the work is done all the same, and nothing tells a
node that works that its lease has run out meanwhile. -/
namespace Moha.DistributedLock

open KeyValueStore Runs

/-- The two operations of the service manager that take the lock. -/
inductive Work where
  | promoteToMaster
  | redirectMaster
  deriving DecidableEq, Repr

/-- Where a node is in such a call. `inside` carries the session's lease, or
nothing when `NewLocker` failed. -/
inductive Position where
  | idle
  | lock (work : Work) (lease : LeaseID)
  | waitDeletes (work : Work) (lease : LeaseID) (myRev : Nat)
  | waitDelete (work : Work) (lease : LeaseID) (myRev : Nat) (lastKey : LeaseID)
  | inside (work : Work) (locker : Option LeaseID)
  | panicked
  deriving DecidableEq, Repr

def Position.session : Position → Option LeaseID
  | .lock _ lease | .waitDeletes _ lease _ | .waitDelete _ lease _ _ => some lease
  | .inside _ locker => locker
  | .idle | .panicked => none

/-- The transaction of `Lock`; its other branch only reads. -/
def put (lease : LeaseID) : Txn LeaseID Unit :=
  ⟨[.createRevision lease 0], [.put lease () (some lease)]⟩

/-- The request of `Unlock`. -/
def delete (lease : LeaseID) : Txn LeaseID Unit := ⟨[], [.delete lease]⟩

/-- What becomes of a request. The client sees an error in all cases but the
first; a request that is `late` may still be applied at any time. -/
inductive Delivery where
  | answered
  | unanswered
  | late
  | lost
  deriving DecidableEq, Repr

structure State (Node : Type) where
  etcd : Store LeaseID Unit
  sessions : List LeaseID
  limbo : List (Txn LeaseID Unit)
  nodes : Node → Position

inductive Action (Node : Type) where
  | newLocker (node : Node) (work : Work) (session : Option LeaseID)
  | lock (node : Node) (delivery : Delivery)
  | get (node : Node)
  | deleted (node : Node)
  | fails (node : Node)
  | unlock (node : Node) (delivery : Delivery)
  | crash (node : Node) (inFlight : Bool)
  | arrives (txn : Txn LeaseID Unit)
  | expire (lease : LeaseID)
  deriving DecidableEq, Repr

variable {Node : Type}

/-- The keys under the lock's prefix with their creation revisions. -/
def State.keys (s : State Node) : List (LeaseID × Nat) :=
  s.sessions.filterMap fun lease =>
    (s.etcd.entries lease).map fun entry => (lease, entry.createRevision)

/-- What a get of the prefix with `WithFirstCreate` returns. -/
def State.firstCreate (s : State Node) : Option (LeaseID × Nat) := s.keys.argmin Prod.snd

/-- The keys that `WithMaxCreateRev` lets through. -/
def State.older (s : State Node) (maxCreateRev : Nat) : List (LeaseID × Nat) :=
  s.keys.filter fun key => key.2 ≤ maxCreateRev

/-- What a get of the prefix with `WithLastCreate` and `WithMaxCreateRev` returns. -/
def State.lastCreate (s : State Node) (maxCreateRev : Nat) : Option (LeaseID × Nat) :=
  (s.older maxCreateRev).argmax Prod.snd

def State.send (s : State Node) (txn : Txn LeaseID Unit) : Delivery → State Node × Option Reply
  | .answered => ({ s with etcd := (s.etcd.commit txn).1 }, some (s.etcd.commit txn).2)
  | .unanswered => ({ s with etcd := (s.etcd.commit txn).1 }, none)
  | .late => ({ s with limbo := txn :: s.limbo }, none)
  | .lost => (s, none)

/-- How `Lock` goes on after its transaction: the reply carries the oldest key of
the prefix, read after the put. -/
def State.locked (s : State Node) (work : Work) (lease : LeaseID) : Option Reply → Position
  | some (.done succeeded) =>
    let myRev := if succeeded then s.etcd.revision else s.etcd.createRevision lease
    if s.firstCreate.all fun owner => owner.2 = myRev then .inside work (some lease)
    else .waitDeletes work lease myRev
  | _ => .panicked

/-- The request a node may have on its way to etcd. -/
def Position.request : Position → Option (Txn LeaseID Unit)
  | .lock _ lease => some (put lease)
  | .inside _ (some lease) => some (delete lease)
  | _ => none

variable [DecidableEq Node]

def State.move (s : State Node) (node : Node) (position : Position) : State Node :=
  { s with nodes := Function.update s.nodes node position }

def step (s : State Node) : Action Node → Option (State Node)
  | .newLocker node work session =>
    if s.nodes node = .idle then
      match session with
      | none => some (s.move node (.inside work none))
      | some lease =>
        if s.etcd.leases lease = .unused then
          some { s.move node (.lock work lease) with
            etcd := s.etcd.grant lease, sessions := lease :: s.sessions }
        else none
    else none
  | .lock node delivery =>
    match s.nodes node with
    | .lock work lease =>
      let sent := s.send (put lease) delivery
      some (sent.1.move node (sent.1.locked work lease sent.2))
    | _ => none
  | .get node =>
    match s.nodes node with
    | .waitDeletes work lease myRev =>
      match s.lastCreate (myRev - 1) with
      | none => some (s.move node (.inside work (some lease)))
      | some last => some (s.move node (.waitDelete work lease myRev last.1))
    | _ => none
  -- A lock key is never put a second time, so a deleted one stays away.
  | .deleted node =>
    match s.nodes node with
    | .waitDelete work lease myRev lastKey =>
      if s.etcd.entries lastKey = none then some (s.move node (.waitDeletes work lease myRev))
      else none
    | _ => none
  -- An error of the get or of the watch makes `Lock` return it, and the locker panics.
  | .fails node =>
    match s.nodes node with
    | .waitDeletes .. | .waitDelete .. => some (s.move node .panicked)
    | _ => none
  | .unlock node delivery =>
    match s.nodes node with
    | .inside _ none => some (s.move node .idle)
    | .inside _ (some lease) =>
      let sent := s.send (delete lease) delivery
      some (sent.1.move node (if sent.2 = some (.done true) then .idle else .panicked))
    | _ => none
  -- The session's lease outlives the process until it runs out.
  | .crash node inFlight =>
    match inFlight, (s.nodes node).request with
    | true, some txn => some { s.move node .idle with limbo := txn :: s.limbo }
    | true, none => none
    | false, _ => some (s.move node .idle)
  | .arrives txn =>
    if txn ∈ s.limbo then
      some { s with etcd := (s.etcd.commit txn).1, limbo := s.limbo.erase txn }
    else none
  | .expire lease =>
    if s.etcd.leases lease = .live then some { s with etcd := s.etcd.expire lease } else none

def init : State Node := ⟨Store.empty, [], [], fun _ => .idle⟩

/-! ### What a request does to the store

Every change of the store concerns one lease and its key. -/

/-- From `before` to `after` only `lease` and its key changed, and what is new
under the key was created after everything else. -/
structure Touches (lease : LeaseID) (before after : Store LeaseID Unit) : Prop where
  entries : ∀ other, other ≠ lease → after.entries other = before.entries other
  leases : ∀ other, other ≠ lease → after.leases other = before.leases other
  created : ∀ entry, after.entries lease = some entry → before.entries lease = some entry ∨
    entry.lease = some lease ∧ before.revision < entry.createRevision
  granted : before.leases lease ≠ .unused → after.leases lease ≠ .unused
  alive : ∀ entry, after.entries lease = some entry → after.leases lease = .live

variable {store : Store LeaseID Unit} {lease other : LeaseID}

/-- Every key is attached to its own lease, which is live. -/
def Attached (store : Store LeaseID Unit) : Prop :=
  ∀ lease entry, store.entries lease = some entry →
    entry.lease = some lease ∧ store.leases lease = .live

/-- The three outcomes of the transaction: the key is there already, the lease is
gone, or the key is created. -/
theorem commit_put_cases (store : Store LeaseID Unit) (lease : LeaseID) :
    (∃ entry, store.entries lease = some entry ∧ store.commit (put lease) = (store, .done false)) ∨
    (store.entries lease = none ∧ store.leases lease ≠ .live ∧
      store.commit (put lease) = (store, .error)) ∨
    (store.entries lease = none ∧ store.leases lease = .live ∧
      store.commit (put lease) = (store.write [.put lease () (some lease)], .done true)) := by
  cases found : store.entries lease with
  | some entry =>
    have created : entry.createRevision ≠ 0 :=
      Nat.ne_of_gt (store.stamped lease entry found).1
    exact .inl ⟨entry, rfl, by simp [Store.commit, put, Cmp.holds, Store.createRevision, found,
      created]⟩
  | none =>
    by_cases live : store.leases lease = .live
    · exact .inr (.inr ⟨rfl, live, by simp [Store.commit, put, Cmp.holds, Store.createRevision,
        found, Op.leaseLive, Op.changes, live]⟩)
    · exact .inr (.inl ⟨rfl, live, by simp [Store.commit, put, Cmp.holds, Store.createRevision,
        found, Op.leaseLive, live]⟩)

theorem commit_delete_entries (store : Store LeaseID Unit) (lease : LeaseID) :
    (store.commit (delete lease)).1.entries = Function.update store.entries lease none ∧
      (store.commit (delete lease)).1.leases = store.leases := by
  constructor
  · exact (Store.commit_succeeded (by simp [Store.commit, delete, Op.leaseLive])).2
  · unfold Store.commit
    split <;> (try split) <;> (try split) <;> rfl

theorem touches_refl (attached : Attached store) : Touches lease store store where
  entries _ _ := rfl
  leases _ _ := rfl
  created _ found := .inl found
  granted := id
  alive entry found := (attached lease entry found).2

theorem touches_put (attached : Attached store) :
    Touches lease store (store.commit (put lease)).1 := by
  rcases commit_put_cases store lease with
    ⟨_, -, same⟩ | ⟨-, -, same⟩ | ⟨absent, live, written⟩
  · rw [same]
    exact touches_refl attached
  · rw [same]
    exact touches_refl attached
  · rw [written]
    refine ⟨fun other ne => ?_, fun _ _ => rfl, fun entry found => .inr ?_, id, fun _ _ => live⟩
    · simp [Store.write, applyOps, Op.apply, Function.update_of_ne ne]
    · simp only [Store.write, applyOps, List.foldl_cons, List.foldl_nil, Op.apply,
        Function.update_self, absent, Option.map_none, Option.getD_none, Option.some.injEq] at found
      subst found
      exact ⟨rfl, Nat.lt_succ_self _⟩

theorem touches_delete : Touches lease store (store.commit (delete lease)).1 := by
  obtain ⟨entries, leases⟩ := commit_delete_entries store lease
  refine ⟨fun other ne => ?_, fun _ _ => by rw [leases], fun entry found => ?_,
    fun used => by rwa [leases], fun entry found => ?_⟩
  · rw [entries, Function.update_of_ne ne]
  · rw [entries, Function.update_self] at found
    contradiction
  · rw [entries, Function.update_self] at found
    contradiction

theorem touches_grant : Touches lease store (store.grant lease) where
  entries _ _ := rfl
  leases other ne := Function.update_of_ne ne _ _
  created _ found := .inl found
  granted _ := by simp [Store.grant]
  alive _ _ := by simp [Store.grant]

theorem expire_entries_self (attached : Attached store) :
    (store.expire lease).entries lease = none := by
  simp only [Store.expire, Option.filter_eq_none_iff]
  intro entry found
  simp [Entry.attachedTo, (attached lease entry found).1]

theorem touches_expire (attached : Attached store) :
    Touches lease store (store.expire lease) := by
  have gone : (store.expire lease).entries lease = none := expire_entries_self attached
  refine ⟨fun other ne => ?_, fun other ne => Function.update_of_ne ne _ _,
    fun entry found => ?_, fun _ => by simp [Store.expire], fun entry found => ?_⟩
  · cases found : store.entries other with
    | none => simp [Store.expire, found]
    | some entry =>
      have distinct : lease ≠ other := Ne.symm ne
      simp [Store.expire, found, Entry.attachedTo, (attached other entry found).1, Ne.symm distinct]
  · rw [gone] at found
    contradiction
  · rw [gone] at found
    contradiction

/-! ### The queue of keys -/

/-- Keys are attached to their leases, and no two were created at once. -/
structure Queue (store : Store LeaseID Unit) : Prop where
  attached : Attached store
  distinct : ∀ first second entry entry', store.entries first = some entry →
    store.entries second = some entry' → entry.createRevision = entry'.createRevision →
      first = second

/-- The key of `lease` exists and is the oldest. -/
def Oldest (store : Store LeaseID Unit) (lease : LeaseID) : Prop :=
  ∃ entry, store.entries lease = some entry ∧ ∀ other entry',
    store.entries other = some entry' → entry.createRevision ≤ entry'.createRevision

/-- What a node's position says about the store as long as its lease lives: a
waiting node's key is there with the revision it remembers, the key it watches is
another one, and the key of a node inside is the oldest. -/
def Position.Sound (store : Store LeaseID Unit) : Position → Prop
  | .waitDeletes _ lease myRev =>
    store.leases lease = .live → ∃ entry, store.entries lease = some entry ∧
      entry.createRevision = myRev
  | .waitDelete _ lease myRev lastKey =>
    store.leases lease = .live → lastKey ≠ lease ∧ ∃ entry, store.entries lease = some entry ∧
      entry.createRevision = myRev
  | .inside _ (some lease) => store.leases lease = .live → Oldest store lease
  | .idle | .lock .. | .inside _ none | .panicked => True

variable {before after : Store LeaseID Unit}

/-- A key of the later store was there before or is younger than every key that
was. -/
theorem Touches.key (touches : Touches lease before after) {entry : Entry Unit}
    (found : after.entries other = some entry) :
    before.entries other = some entry ∨
      other = lease ∧ entry.lease = some lease ∧ before.revision < entry.createRevision := by
  by_cases same : other = lease
  · subst same
    exact (touches.created entry found).imp id fun fresh => ⟨rfl, fresh⟩
  · rw [touches.entries other same] at found
    exact .inl found

theorem created_le_revision {entry : Entry Unit} (found : store.entries lease = some entry) :
    entry.createRevision ≤ store.revision :=
  let ⟨_, ordered, past⟩ := store.stamped lease entry found
  Nat.le_trans ordered past

theorem Queue.touch (queue : Queue before) (touches : Touches lease before after) :
    Queue after where
  attached other entry found := by
    have own : entry.lease = some other := by
      rcases touches.key found with old | ⟨rfl, own, -⟩
      · exact (queue.attached other entry old).1
      · exact own
    refine ⟨own, ?_⟩
    by_cases same : other = lease
    · subst same
      exact touches.alive entry found
    · rw [touches.leases other same]
      rw [touches.entries other same] at found
      exact (queue.attached other entry found).2
  distinct first second entry entry' found found' equal := by
    rcases touches.key found with old | ⟨rfl, -, fresh⟩
    · rcases touches.key found' with old' | ⟨rfl, -, fresh'⟩
      · exact queue.distinct first second entry entry' old old' equal
      · have := created_le_revision old
        omega
    · rcases touches.key found' with old' | ⟨rfl, -, -⟩
      · have := created_le_revision old'
        omega
      · rfl

/-- A change to another node's key leaves the position sound: keys only go away
or join at the young end. -/
theorem Position.Sound.touch {position : Position} (sound : position.Sound before)
    (touches : Touches lease before after) (others : position.session ≠ some lease) :
    position.Sound after := by
  cases position with
  | idle | lock | panicked => trivial
  | waitDeletes work own myRev | waitDelete work own myRev lastKey =>
    have ne : own ≠ lease := fun same => others (congrArg some same)
    simpa only [Position.Sound, touches.leases own ne, touches.entries own ne] using sound
  | inside work locker =>
    cases locker with
    | none => trivial
    | some own =>
      have ne : own ≠ lease := fun same => others (congrArg some same)
      intro live
      rw [touches.leases own ne] at live
      obtain ⟨entry, found, oldest⟩ := sound live
      refine ⟨entry, by rw [touches.entries own ne, found], fun other entry' found' => ?_⟩
      rcases touches.key found' with old | ⟨-, -, fresh⟩
      · exact oldest other entry' old
      · exact Nat.le_of_lt (Nat.lt_of_le_of_lt (created_le_revision found) fresh)

/-- With the lease gone the position promises nothing. -/
theorem Position.Sound.of_lapsed {position : Position} (session : position.session = some lease)
    (lapsed : store.leases lease ≠ .live) : position.Sound store := by
  cases position with
  | idle | lock | panicked => trivial
  | waitDeletes | waitDelete =>
    cases session
    exact fun live => absurd live lapsed
  | inside work locker =>
    cases session
    exact fun live => absurd live lapsed

/-! ### The invariant of the protocol -/

structure Orderly (s : State Node) : Prop where
  apart : ∀ node node' lease, (s.nodes node).session = some lease →
    (s.nodes node').session = some lease → node = node'
  granted : ∀ node lease, (s.nodes node).session = some lease → s.etcd.leases lease ≠ .unused
  limbo : ∀ txn ∈ s.limbo, ∃ lease, (txn = put lease ∨ txn = delete lease) ∧
    s.etcd.leases lease ≠ .unused ∧ ∀ node, (s.nodes node).session ≠ some lease
  recorded : ∀ lease, s.etcd.leases lease ≠ .unused → lease ∈ s.sessions
  queue : Queue s.etcd
  sound : ∀ node, (s.nodes node).Sound s.etcd

omit [DecidableEq Node] in
theorem init_orderly : Orderly (init : State Node) where
  apart _ _ _ session := by simp [init, Position.session] at session
  granted _ _ session := by simp [init, Position.session] at session
  limbo _ member := by simp [init] at member
  recorded _ used := by simp [init, Store.empty] at used
  queue := ⟨fun _ _ found => by simp [init, Store.empty] at found,
    fun _ _ _ _ found => by simp [init, Store.empty] at found⟩
  sound _ := trivial

variable {s t : State Node} {node node' : Node} {position : Position}

omit [DecidableEq Node] in
/-- A change of the store that no node's position suffers from. -/
theorem Orderly.touch (orderly : Orderly s) (touches : Touches lease s.etcd after)
    (used : s.etcd.leases lease ≠ .unused)
    (owner : ∀ node, (s.nodes node).session = some lease → (s.nodes node).Sound after) :
    Orderly { s with etcd := after } := by
  have kept : ∀ other, s.etcd.leases other ≠ .unused ↔ after.leases other ≠ .unused := by
    intro other
    by_cases same : other = lease
    · subst same
      exact ⟨touches.granted, fun _ => used⟩
    · rw [touches.leases other same]
  refine ⟨orderly.apart, fun node other session => ?_, fun txn member => ?_,
    fun other held => ?_, orderly.queue.touch touches, fun node => ?_⟩
  · exact (kept other).mp (orderly.granted node other session)
  · obtain ⟨other, shape, granted, free⟩ := orderly.limbo txn member
    exact ⟨other, shape, (kept other).mp granted, free⟩
  · exact orderly.recorded other ((kept other).mpr held)
  · by_cases session : (s.nodes node).session = some lease
    · exact owner node session
    · exact (orderly.sound node).touch touches session

@[simp]
theorem move_nodes_self : (s.move node position).nodes node = position :=
  Function.update_self ..

theorem move_nodes_of_ne (ne : node' ≠ node) :
    (s.move node position).nodes node' = s.nodes node' :=
  Function.update_of_ne ne ..

/-- A node may always give up its session, or go on with it to a position that is
sound. -/
theorem Orderly.move (orderly : Orderly s)
    (session : position.session = none ∨ position.session = (s.nodes node).session)
    (sound : position.Sound s.etcd) : Orderly (s.move node position) := by
  have kept : ∀ other lease, ((s.move node position).nodes other).session = some lease →
      (s.nodes other).session = some lease := by
    intro other lease held
    by_cases same : other = node
    · subst same
      rw [move_nodes_self] at held
      rcases session with none | own
      · rw [none] at held
        contradiction
      · rwa [← own]
    · rwa [move_nodes_of_ne same] at held
  refine ⟨fun first second lease held held' => ?_, fun other lease held => ?_,
    fun txn member => ?_, orderly.recorded, orderly.queue, fun other => ?_⟩
  · exact orderly.apart first second lease (kept first lease held) (kept second lease held')
  · exact orderly.granted other lease (kept other lease held)
  · obtain ⟨lease, shape, granted, free⟩ := orderly.limbo txn member
    exact ⟨lease, shape, granted, fun other held => free other (kept other lease held)⟩
  · by_cases same : other = node
    · subst same
      rw [move_nodes_self]
      exact sound
    · rw [move_nodes_of_ne same]
      exact orderly.sound other

omit [DecidableEq Node] in
/-- A request about a session that no node uses. -/
theorem Orderly.send (orderly : Orderly s) {txn : Txn LeaseID Unit}
    (shape : txn = put lease ∨ txn = delete lease) (used : s.etcd.leases lease ≠ .unused)
    (free : ∀ node, (s.nodes node).session ≠ some lease) (delivery : Delivery) :
    Orderly (s.send txn delivery).1 := by
  have touches : Touches lease s.etcd (s.etcd.commit txn).1 := by
    rcases shape with rfl | rfl
    · exact touches_put orderly.queue.attached
    · exact touches_delete
  have applied := orderly.touch touches used fun node session => absurd session (free node)
  cases delivery with
  | answered | unanswered => exact applied
  | late =>
    refine { orderly with limbo := fun waiting member => ?_ }
    rcases List.mem_cons.mp member with rfl | member
    · exact ⟨lease, shape, used, free⟩
    · exact orderly.limbo waiting member
  | lost => exact orderly

theorem session_free (orderly : Orderly s) (session : (s.nodes node).session = some lease)
    (released : position.session = none) (other : Node) :
    ((s.move node position).nodes other).session ≠ some lease := by
  by_cases same : other = node
  · subst same
    simp [released]
  · rw [move_nodes_of_ne same]
    exact fun held => same (orderly.apart other node lease held session)

theorem send_move (txn : Txn LeaseID Unit) (delivery : Delivery) :
    (s.send txn delivery).1.move node position = ((s.move node position).send txn delivery).1 := by
  cases delivery <;> rfl

/-- A node leaves its session behind with a last request about its key. -/
theorem Orderly.leave (orderly : Orderly s) (position : Position)
    (session : (s.nodes node).session = some lease) (released : position.session = none)
    (sound : position.Sound s.etcd) {txn : Txn LeaseID Unit}
    (shape : txn = put lease ∨ txn = delete lease) (delivery : Delivery) :
    Orderly ((s.send txn delivery).1.move node position) := by
  rw [send_move]
  exact (orderly.move (.inl released) sound).send shape (orderly.granted node lease session)
    (session_free orderly session released) delivery

/-! ### What the reads find -/

omit [DecidableEq Node] in
theorem mem_keys {key : LeaseID × Nat} :
    key ∈ s.keys ↔ key.1 ∈ s.sessions ∧
      ∃ entry, s.etcd.entries key.1 = some entry ∧ entry.createRevision = key.2 := by
  obtain ⟨lease, revision⟩ := key
  simp only [State.keys, List.mem_filterMap, Option.map_eq_some_iff, Prod.mk.injEq]
  constructor
  · rintro ⟨own, member, entry, found, rfl, created⟩
    exact ⟨member, entry, found, created⟩
  · rintro ⟨member, entry, found, created⟩
    exact ⟨lease, member, entry, found, rfl, created⟩

omit [DecidableEq Node] in
/-- Every stored key is listed. -/
theorem Orderly.listed (orderly : Orderly s) {entry : Entry Unit}
    (found : s.etcd.entries lease = some entry) : (lease, entry.createRevision) ∈ s.keys := by
  have live := (orderly.queue.attached lease entry found).2
  exact mem_keys.mpr ⟨orderly.recorded lease (by simp [live]), entry, found, rfl⟩

omit [DecidableEq Node] in
/-- The node whose revision the oldest key carries has the oldest key. -/
theorem oldest_of_firstCreate (orderly : Orderly s) {entry : Entry Unit}
    (found : s.etcd.entries lease = some entry)
    (first : (s.firstCreate.all fun owner => owner.2 = entry.createRevision) = true) :
    Oldest s.etcd lease := by
  refine ⟨entry, found, fun other entry' found' => ?_⟩
  cases owner : s.firstCreate with
  | none =>
    have empty := List.argmin_eq_none.mp owner
    simpa [empty] using orderly.listed found
  | some key =>
    have created : key.2 = entry.createRevision := by simpa [owner] using first
    rw [← created]
    exact List.le_of_mem_argmin (orderly.listed found') owner

omit [DecidableEq Node] in
/-- A node that finds no key older than its own has the oldest. -/
theorem oldest_of_lastCreate (orderly : Orderly s) {entry : Entry Unit}
    (found : s.etcd.entries lease = some entry)
    (last : s.lastCreate (entry.createRevision - 1) = none) : Oldest s.etcd lease := by
  refine ⟨entry, found, fun other entry' found' => ?_⟩
  have none_older := List.argmax_eq_none.mp last
  have younger : ¬ entry'.createRevision ≤ entry.createRevision - 1 := by
    simpa using List.filter_eq_nil_iff.mp none_older _ (orderly.listed found')
  omega

/-- Whatever the comparison said, the key is there after the transaction of
`Lock`, created at the revision the node takes for its own. -/
theorem locked_key {succeeded : Bool}
    (reply : (store.commit (put lease)).2 = .done succeeded) :
    ∃ entry, (store.commit (put lease)).1.entries lease = some entry ∧
      entry.createRevision = if succeeded then (store.commit (put lease)).1.revision
        else (store.commit (put lease)).1.createRevision lease := by
  rcases commit_put_cases store lease with
    ⟨entry, found, same⟩ | ⟨-, -, same⟩ | ⟨absent, -, written⟩
  · rw [same] at reply ⊢
    cases reply
    exact ⟨entry, found, by simp [Store.createRevision, found]⟩
  · rw [same] at reply
    contradiction
  · rw [written] at reply ⊢
    cases reply
    exact ⟨⟨(), some lease, store.revision + 1, store.revision + 1⟩,
      by simp [Store.write, applyOps, Op.apply, absent], by simp [Store.write]⟩

/-! ### Every step keeps the invariant -/

omit [DecidableEq Node] in
theorem locked_sound (orderly : Orderly s) (work : Work) (reply : Option Reply)
    (key : ∀ succeeded, reply = some (.done succeeded) →
      ∃ entry, s.etcd.entries lease = some entry ∧ entry.createRevision =
        if succeeded then s.etcd.revision else s.etcd.createRevision lease) :
    (s.locked work lease reply).Sound s.etcd ∧
      ((s.locked work lease reply).session = none ∨
        (s.locked work lease reply).session = some lease) := by
  unfold State.locked
  split
  · rename_i succeeded
    obtain ⟨entry, found, created⟩ := key succeeded rfl
    rw [← created]
    dsimp only
    split
    · rename_i first
      exact ⟨fun _ => oldest_of_firstCreate orderly found first, .inr rfl⟩
    · exact ⟨fun _ => ⟨entry, found, rfl⟩, .inr rfl⟩
  · exact ⟨trivial, .inl rfl⟩

theorem lock_orderly (orderly : Orderly s) {work : Work}
    (at_lock : s.nodes node = .lock work lease) (delivery : Delivery) :
    Orderly ((s.send (put lease) delivery).1.move node
      ((s.send (put lease) delivery).1.locked work lease (s.send (put lease) delivery).2)) := by
  have session : (s.nodes node).session = some lease := by rw [at_lock]; rfl
  cases delivery with
  | answered =>
    -- The node's own position promises nothing yet, so its key may change first.
    have applied : Orderly { s with etcd := (s.etcd.commit (put lease)).1 } := by
      apply orderly.touch (touches_put orderly.queue.attached)
        (orderly.granted node lease session)
      intro other held
      obtain rfl := orderly.apart other node lease held session
      rw [at_lock]
      trivial
    obtain ⟨sound, held⟩ := locked_sound applied work (some (s.etcd.commit (put lease)).2)
      fun succeeded reply => locked_key (Option.some.inj reply)
    exact applied.move (held.imp id fun own => own.trans session.symm) sound
  | unanswered => exact orderly.leave .panicked session rfl trivial (.inl rfl) .unanswered
  | late => exact orderly.leave .panicked session rfl trivial (.inl rfl) .late
  | lost => exact orderly.leave .panicked session rfl trivial (.inl rfl) .lost

omit [DecidableEq Node] in
/-- The key a waiting node is told to watch is live and older than its own. -/
theorem lastCreate_older (orderly : Orderly s) {myRev : Nat} {last : LeaseID × Nat}
    (found : s.lastCreate myRev = some last) :
    last ∈ s.older myRev ∧ s.etcd.leases last.1 = .live ∧
      ∃ entry, s.etcd.entries last.1 = some entry ∧ entry.createRevision ≤ myRev := by
  have member : last ∈ s.older myRev := List.argmax_mem found
  obtain ⟨listed, bound⟩ := List.mem_filter.mp member
  obtain ⟨-, entry, stored, created⟩ := mem_keys.mp listed
  refine ⟨member, (orderly.queue.attached last.1 entry stored).2, entry, stored, ?_⟩
  rw [created]
  exact of_decide_eq_true bound

theorem get_orderly (orderly : Orderly s) {work : Work} {myRev : Nat}
    (waiting : s.nodes node = .waitDeletes work lease myRev)
    (taken : step s (.get node) = some t) : Orderly t := by
  have own : ∀ position : Position, position.session = some lease →
      position.session = (s.nodes node).session := by
    intro position held
    rw [held, waiting]
    rfl
  have sound := orderly.sound node
  simp only [step, waiting] at taken sound
  split at taken <;> cases taken
  · rename_i last
    refine orderly.move (.inr (own _ rfl)) fun live => ?_
    obtain ⟨entry, found, rfl⟩ := sound live
    exact oldest_of_lastCreate orderly found last
  · rename_i last
    refine orderly.move (.inr (own _ rfl)) fun live => ⟨?_, sound live⟩
    obtain ⟨entry, found, rfl⟩ := sound live
    obtain ⟨-, -, entry', found', older⟩ := lastCreate_older orderly last
    rintro rfl
    have positive := (s.etcd.stamped _ entry found).1
    obtain rfl : entry = entry' := Option.some.inj (found.symm.trans found')
    omega

theorem newLocker_orderly (orderly : Orderly s) (work : Work)
    (unused : s.etcd.leases lease = .unused) :
    Orderly { s.move node (.lock work lease) with
      etcd := s.etcd.grant lease, sessions := lease :: s.sessions } := by
  have fresh : ∀ other, (s.nodes other).session ≠ some lease := fun other held =>
    orderly.granted other lease held unused
  have touches : Touches lease s.etcd (s.etcd.grant lease) := touches_grant
  refine ⟨fun first second own held held' => ?_, fun other own held => ?_,
    fun txn member => ?_, fun own used => ?_, orderly.queue.touch touches, fun other => ?_⟩
  · by_cases same : first = node <;> by_cases same' : second = node
    · rw [same, same']
    · subst same
      rw [move_nodes_self] at held
      rw [move_nodes_of_ne same', ← held] at held'
      exact absurd held' (fresh second)
    · subst same'
      rw [move_nodes_self] at held'
      rw [move_nodes_of_ne same, ← held'] at held
      exact absurd held (fresh first)
    · rw [move_nodes_of_ne same] at held
      rw [move_nodes_of_ne same'] at held'
      exact orderly.apart first second own held held'
  · by_cases same : own = lease
    · subst same
      simp [Store.grant]
    · rw [touches.leases own same]
      by_cases self : other = node
      · subst self
        rw [move_nodes_self] at held
        exact absurd (Option.some.inj held).symm same
      · rw [move_nodes_of_ne self] at held
        exact orderly.granted other own held
  · obtain ⟨own, shape, granted, free⟩ := orderly.limbo txn member
    have ne : own ≠ lease := fun same => granted (same ▸ unused)
    refine ⟨own, shape, by rwa [touches.leases own ne], fun other held => ?_⟩
    by_cases self : other = node
    · subst self
      rw [move_nodes_self] at held
      exact ne (Option.some.inj held).symm
    · rw [move_nodes_of_ne self] at held
      exact free other held
  · by_cases same : own = lease
    · exact same ▸ List.mem_cons_self
    · rw [touches.leases own same] at used
      exact List.mem_cons_of_mem _ (orderly.recorded own used)
  · by_cases self : other = node
    · subst self
      rw [move_nodes_self]
      trivial
    · rw [move_nodes_of_ne self]
      exact (orderly.sound other).touch touches (fresh other)

/-- A process that dies with a request on its way leaves it in limbo. -/
theorem crash_orderly (orderly : Orderly s) {txn : Txn LeaseID Unit}
    (request : (s.nodes node).request = some txn) :
    Orderly { s.move node .idle with limbo := txn :: s.limbo } := by
  have own : ∃ lease, (s.nodes node).session = some lease ∧
      (txn = put lease ∨ txn = delete lease) := by
    unfold Position.request at request
    split at request <;> cases request
    · rename_i lease at_lock
      exact ⟨lease, congrArg Position.session at_lock, .inl rfl⟩
    · rename_i lease inside
      exact ⟨lease, congrArg Position.session inside, .inr rfl⟩
  obtain ⟨lease, session, shape⟩ := own
  exact orderly.leave .idle session rfl trivial shape .late

omit [DecidableEq Node] in
theorem arrives_orderly (orderly : Orderly s) {txn : Txn LeaseID Unit} (member : txn ∈ s.limbo) :
    Orderly { s with etcd := (s.etcd.commit txn).1, limbo := s.limbo.erase txn } := by
  obtain ⟨lease, shape, used, free⟩ := orderly.limbo txn member
  have applied := orderly.send shape used free .unanswered
  exact { applied with limbo := fun txn member => applied.limbo txn (List.mem_of_mem_erase member) }

theorem step_orderly {action : Action Node} (orderly : Orderly s)
    (taken : step s action = some t) : Orderly t := by
  cases action with
  | newLocker node work session =>
    simp only [step] at taken
    split at taken <;> try contradiction
    cases session with
    | none =>
      cases taken
      exact orderly.move (.inl rfl) trivial
    | some lease =>
      obtain ⟨unused, equal⟩ := Option.ite_none_right_eq_some.mp taken
      cases equal
      exact newLocker_orderly orderly work unused
  | lock node delivery =>
    simp only [step] at taken
    split at taken <;> try contradiction
    rename_i at_lock
    cases taken
    exact lock_orderly orderly at_lock delivery
  | get node =>
    cases waiting : s.nodes node with
    | waitDeletes => exact get_orderly orderly waiting taken
    | idle | lock | waitDelete | inside | panicked => simp [step, waiting] at taken
  | deleted node =>
    simp only [step] at taken
    split at taken <;> try contradiction
    rename_i watching
    obtain ⟨-, equal⟩ := Option.ite_none_right_eq_some.mp taken
    cases equal
    have sound := orderly.sound node
    rw [watching] at sound
    exact orderly.move (.inr (by rw [watching]; rfl)) fun live => (sound live).2
  | fails node =>
    simp only [step] at taken
    split at taken <;> cases taken <;> exact orderly.move (.inl rfl) trivial
  | unlock node delivery =>
    simp only [step] at taken
    split at taken <;> try contradiction
    · cases taken
      exact orderly.move (.inl rfl) trivial
    · rename_i inside
      cases taken
      have session := congrArg Position.session inside
      split
      · exact orderly.leave .idle session rfl trivial (.inr rfl) delivery
      · exact orderly.leave .panicked session rfl trivial (.inr rfl) delivery
  | crash node inFlight =>
    simp only [step] at taken
    split at taken <;> cases taken
    · rename_i request
      exact crash_orderly orderly request
    · exact orderly.move (.inl rfl) trivial
  | arrives txn =>
    obtain ⟨member, equal⟩ := Option.ite_none_right_eq_some.mp taken
    cases equal
    exact arrives_orderly orderly member
  | expire lease =>
    obtain ⟨live, equal⟩ := Option.ite_none_right_eq_some.mp taken
    cases equal
    refine orderly.touch (touches_expire orderly.queue.attached) (by simp [live]) ?_
    intro node session
    exact .of_lapsed session (by simp [Store.expire])

theorem run_orderly {Allowed : State Node → Action Node → Prop}
    (run : Run step Allowed init s) : Orderly s :=
  run.invariant init_orderly fun orderly _ taken => step_orderly orderly taken

/-! ### Exclusion, order and progress -/

/-- The lease and the revision a node queues with. -/
def Position.place : Position → Option (Work × LeaseID × Nat)
  | .waitDeletes work lease myRev | .waitDelete work lease myRev _ => some (work, lease, myRev)
  | .idle | .lock .. | .inside .. | .panicked => none

omit [DecidableEq Node] in
theorem Orderly.waiting_key (orderly : Orderly s) {work : Work} {myRev : Nat}
    (waits : (s.nodes node).place = some (work, lease, myRev))
    (live : s.etcd.leases lease = .live) :
    ∃ entry, s.etcd.entries lease = some entry ∧ entry.createRevision = myRev := by
  have sound := orderly.sound node
  unfold Position.place at waits
  split at waits <;> cases waits
  · rename_i waiting
    rw [waiting] at sound
    exact sound live
  · rename_i watching
    rw [watching] at sound
    exact (sound live).2

omit [DecidableEq Node] in
theorem Orderly.inside_oldest (orderly : Orderly s) {work : Work}
    (inside : s.nodes node = .inside work (some lease)) (live : s.etcd.leases lease = .live) :
    Oldest s.etcd lease := by
  have sound := orderly.sound node
  rw [inside] at sound
  exact sound live

/-- While a node does its work under a lease that lives, no other node does so,
and every node that waits under a live lease queued after it. -/
theorem lock_excludes_and_orders {s : State Node} {node : Node} {work : Work} {lease : LeaseID}
    (run : Run step (fun _ _ => True) init s)
    (inside : s.nodes node = .inside work (some lease)) (live : s.etcd.leases lease = .live) :
    (∀ node' work' lease', s.nodes node' = .inside work' (some lease') →
      s.etcd.leases lease' = .live → node' = node) ∧
    ∀ node' work' lease' myRev, (s.nodes node').place = some (work', lease', myRev) →
      s.etcd.leases lease' = .live → s.etcd.createRevision lease < myRev := by
  have orderly := run_orderly run
  obtain ⟨entry, found, oldest⟩ := orderly.inside_oldest inside live
  constructor
  · intro node' work' lease' inside' live'
    obtain ⟨entry', found', oldest'⟩ := orderly.inside_oldest inside' live'
    have equal : entry'.createRevision = entry.createRevision :=
      Nat.le_antisymm (oldest' lease entry found) (oldest lease' entry' found')
    have same := orderly.queue.distinct lease' lease entry' entry found' found equal
    refine orderly.apart node' node lease ?_ (congrArg Position.session inside)
    rw [inside', ← same]
    rfl
  · intro node' work' lease' myRev waits live'
    obtain ⟨entry', found', rfl⟩ := orderly.waiting_key waits live'
    have created : s.etcd.createRevision lease = entry.createRevision := by
      simp [Store.createRevision, found]
    rw [created]
    refine Nat.lt_of_le_of_ne (oldest lease' entry' found') fun equal => ?_
    -- Keys of one age are one key, but a node is not inside and waiting at once.
    have same := orderly.queue.distinct lease lease' entry entry' found found' equal
    subst same
    have session : (s.nodes node').session = some lease := by
      unfold Position.place at waits
      split at waits <;> cases waits <;> rename_i position <;> rw [position] <;> rfl
    obtain rfl := orderly.apart node' node lease session (congrArg Position.session inside)
    rw [inside] at waits
    contradiction

/-- A node opens its session first and queues second. -/
def contended : List (Action Bool) :=
  [.newLocker true .redirectMaster (some 5), .newLocker false .promoteToMaster (some 7),
    .lock false .answered, .lock true .answered, .get true]

/-- One node promotes under the lock while another waits to be redirected. -/
theorem lock_excludes_and_orders_contended :
    ∃ s : State Bool, Run step (fun _ _ => True) init s ∧
      s.nodes false = .inside .promoteToMaster (some 7) ∧ s.etcd.leases 7 = .live ∧
      s.nodes true = .waitDelete .redirectMaster 5 3 7 ∧ s.etcd.createRevision 7 < 3 := by
  have ran : (exec (restrict step fun _ _ => true) init contended).any
      (fun s => s.nodes false == .inside .promoteToMaster (some 7) && s.etcd.leases 7 == .live &&
        s.nodes true == .waitDelete .redirectMaster 5 3 7 && s.etcd.leases 5 == .live) = true := by
    decide +kernel
  obtain ⟨s, run, found⟩ := exists_run_of_exec (fun _ _ _ => trivial) ran
  simp only [Bool.and_eq_true, beq_iff_eq] at found
  obtain ⟨⟨⟨inside, live⟩, waits⟩, live'⟩ := found
  have order := (lock_excludes_and_orders run inside live).2
  exact ⟨s, run, inside, live, waits, order true .redirectMaster 5 3 (by rw [waits]; rfl) live'⟩

/-- The steps by which a waiting node gets in whatever the other nodes do: its
own reads, and the ends of other sessions' leases. -/
def Unaided (node : Node) (lease : LeaseID) (_ : State Node) (action : Action Node) : Prop :=
  action = .get node ∨ action = .deleted node ∨ ∃ other, other ≠ lease ∧ action = .expire other

/-- The state after the lease's session has ended. -/
def State.without (s : State Node) (lease : LeaseID) : State Node :=
  { s with etcd := s.etcd.expire lease }

omit [DecidableEq Node] in
theorem without_keys (orderly : Orderly s) (lease : LeaseID) :
    (s.without lease).keys = s.keys.filter fun key => key.1 ≠ lease := by
  have touches : Touches lease s.etcd (s.etcd.expire lease) :=
    touches_expire orderly.queue.attached
  unfold State.keys
  rw [List.filter_filterMap]
  refine List.filterMap_congr fun other _ => ?_
  by_cases same : other = lease
  · subst same
    simp only [State.without, expire_entries_self orderly.queue.attached]
    cases s.etcd.entries other <;> simp [Option.filter]
  · simp only [State.without, touches.entries other same]
    cases s.etcd.entries other <;> simp [Option.filter, same]

omit [DecidableEq Node] in
/-- The end of an older session leaves fewer keys to wait for. -/
theorem older_without_lt (orderly : Orderly s) {last : LeaseID × Nat} {myRev : Nat}
    (member : last ∈ s.older myRev) :
    ((s.without last.1).older myRev).length < (s.older myRev).length := by
  have fewer : (s.without last.1).older myRev =
      (s.older myRev).filter fun key => key.1 ≠ last.1 := by
    unfold State.older
    rw [without_keys orderly, List.filter_filter, List.filter_filter]
    simp only [Bool.and_comm]
  rw [fewer]
  exact List.length_filter_lt_length_iff_exists.mpr ⟨last, member, by simp⟩

/-- Once the key it watches is gone, a waiting node is back at its get with fewer
keys before it. -/
theorem passes_key (orderly : Orderly s) {work : Work} {myRev : Nat} {last : LeaseID × Nat}
    (waiting : s.nodes node = .waitDeletes work lease myRev)
    (live : s.etcd.leases lease = .live) (found : s.lastCreate (myRev - 1) = some last) :
    ∃ t, Run step (Unaided node lease) s t ∧ t.nodes node = .waitDeletes work lease myRev ∧
      t.etcd.leases lease = .live ∧
      (t.older (myRev - 1)).length < (s.older (myRev - 1)).length := by
  obtain ⟨member, lastLive, entry, stored, older⟩ := lastCreate_older orderly found
  have ne : last.1 ≠ lease := by
    rintro same
    obtain ⟨own, held, rfl⟩ := orderly.waiting_key (by rw [waiting]; rfl) live
    have positive := (s.etcd.stamped lease own held).1
    obtain rfl : own = entry := Option.some.inj (held.symm.trans (same ▸ stored))
    omega
  let watching := s.move node (.waitDelete work lease myRev last.1)
  let ended := watching.without last.1
  let back := ended.move node (.waitDeletes work lease myRev)
  have gone : ended.etcd.entries last.1 = none := expire_entries_self orderly.queue.attached
  have first : step s (.get node) = some watching := by simp [step, waiting, found, watching]
  have second : step watching (.expire last.1) = some ended := if_pos lastLive
  have third : step ended (.deleted node) = some back := by
    have position : ended.nodes node = .waitDelete work lease myRev last.1 := move_nodes_self
    simp [step, position, gone, back]
  refine ⟨back, ?_, move_nodes_self, ?_, older_without_lt orderly member⟩
  · exact (Run.single (.inl rfl) first).snoc (.inr (.inr ⟨last.1, ne, rfl⟩)) second
      |>.snoc (.inr (.inl rfl)) third
  · exact (Function.update_of_ne (Ne.symm ne) _ _).trans live

/-- By induction on the number of older keys. -/
theorem enters_of_waitDeletes (keys : Nat) (orderly : Orderly s) {work : Work} {myRev : Nat}
    (waiting : s.nodes node = .waitDeletes work lease myRev)
    (live : s.etcd.leases lease = .live) (bound : (s.older (myRev - 1)).length ≤ keys) :
    ∃ t, Run step (Unaided node lease) s t ∧ t.nodes node = .inside work (some lease) ∧
      t.etcd.leases lease = .live := by
  induction keys generalizing s with
  | zero =>
    have none_older : s.lastCreate (myRev - 1) = none :=
      List.argmax_eq_none.mpr (List.length_eq_zero_iff.mp (Nat.le_zero.mp bound))
    exact ⟨s.move node (.inside work (some lease)), Run.single (.inl rfl)
      (by simp [step, waiting, none_older]), move_nodes_self, live⟩
  | succ keys ih =>
    cases found : s.lastCreate (myRev - 1) with
    | none =>
      exact ⟨s.move node (.inside work (some lease)), Run.single (.inl rfl)
        (by simp [step, waiting, found]), move_nodes_self, live⟩
    | some last =>
      obtain ⟨t, run, waiting', live', fewer⟩ := passes_key orderly waiting live found
      have orderly' : Orderly t := run.invariant orderly fun orderly _ taken =>
        step_orderly orderly taken
      obtain ⟨u, rest, inside, live''⟩ := ih orderly' waiting' live' (by omega)
      exact ⟨u, run.trans rest, inside, live''⟩

/-- A waiting node is never stuck behind the others: when the sessions before it
come to their end, its own reads take it inside, with its lease still live. -/
theorem waiting_node_gets_in {s : State Node} {node : Node} {work : Work} {lease : LeaseID}
    {myRev : Nat} (run : Run step (fun _ _ => True) init s)
    (waits : (s.nodes node).place = some (work, lease, myRev))
    (live : s.etcd.leases lease = .live) :
    ∃ t, Run step (Unaided node lease) s t ∧ t.nodes node = .inside work (some lease) ∧
      t.etcd.leases lease = .live := by
  have orderly := run_orderly run
  unfold Position.place at waits
  split at waits <;> cases waits
  · rename_i waiting
    exact enters_of_waitDeletes _ orderly waiting live (Nat.le_refl _)
  · rename_i lastKey watching
    have sound := orderly.sound node
    rw [watching] at sound
    obtain ⟨ne, -⟩ := sound live
    -- The watched key is gone already, or its session has to end first.
    have gone : ∃ t, Run step (Unaided node lease) s t ∧ t.etcd.entries lastKey = none ∧
        t.nodes node = .waitDelete work lease myRev lastKey ∧ t.etcd.leases lease = .live := by
      cases stored : s.etcd.entries lastKey with
      | none => exact ⟨s, .refl s, stored, watching, live⟩
      | some entry =>
        have lastLive := (orderly.queue.attached lastKey entry stored).2
        refine ⟨s.without lastKey, Run.single (.inr (.inr ⟨lastKey, ne, rfl⟩)) (if_pos lastLive),
          expire_entries_self orderly.queue.attached, watching, ?_⟩
        exact (Function.update_of_ne (Ne.symm ne) _ _).trans live
    obtain ⟨t, ended, absent, watching', live'⟩ := gone
    have deleted : step t (.deleted node) = some (t.move node (.waitDeletes work lease myRev)) := by
      simp [step, watching', absent]
    have back := ended.snoc (.inr (.inl rfl)) deleted
    have orderly' := back.invariant orderly fun orderly _ taken => step_orderly orderly taken
    obtain ⟨u, rest, inside, live''⟩ :=
      enters_of_waitDeletes _ orderly' move_nodes_self live' (Nat.le_refl _)
    exact ⟨u, back.trans rest, inside, live''⟩

/-- The node that waits behind a promotion gets in after it. -/
theorem waiting_node_gets_in_behind_promotion :
    ∃ s t : State Bool, Run step (fun _ _ => True) init s ∧
      s.nodes false = .inside .promoteToMaster (some 7) ∧
      s.nodes true = .waitDelete .redirectMaster 5 3 7 ∧ Run step (Unaided true 5) s t ∧
      t.nodes true = .inside .redirectMaster (some 5) := by
  have ran : (exec (restrict step fun _ _ => true) init contended).any
      (fun s => s.nodes false == .inside .promoteToMaster (some 7) &&
        s.nodes true == .waitDelete .redirectMaster 5 3 7 && s.etcd.leases 5 == .live) = true := by
    decide +kernel
  obtain ⟨s, run, found⟩ := exists_run_of_exec (fun _ _ _ => trivial) ran
  simp only [Bool.and_eq_true, beq_iff_eq] at found
  obtain ⟨⟨inside, waits⟩, live⟩ := found
  have place : (s.nodes true).place = some (.redirectMaster, 5, 3) := by rw [waits]; rfl
  obtain ⟨t, unaided, enters, -⟩ := waiting_node_gets_in run place live
  exact ⟨s, t, run, inside, waits, unaided, enters⟩

end Moha.DistributedLock
