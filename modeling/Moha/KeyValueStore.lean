import Mathlib.Logic.Function.Basic

/-! A revisioned key-value store with leases and guarded transactions, over
arbitrary keys and values. A transaction compares, and when every comparison
holds applies its operations as one write with one revision. Every stored entry
is stamped: it was created at a positive revision, not after it was last
written, and nothing is written in the future. -/
namespace Moha.KeyValueStore

abbrev LeaseID := Int

/-- A lease is granted once, lives, and expires for good. -/
inductive LeaseState where
  | unused
  | live
  | expired
  deriving DecidableEq, Repr

structure Entry (V : Type) where
  value : V
  lease : Option LeaseID
  createRevision : Nat
  modRevision : Nat
  deriving DecidableEq, Repr

/-- An entry's revisions are ordered and lie in the past of `revision`. -/
def Entry.Stamped {V : Type} (revision : Nat) (entry : Entry V) : Prop :=
  0 < entry.createRevision ∧ entry.createRevision ≤ entry.modRevision ∧
    entry.modRevision ≤ revision

structure Store (K V : Type) where
  revision : Nat
  entries : K → Option (Entry V)
  leases : LeaseID → LeaseState
  stamped : ∀ key entry, entries key = some entry → entry.Stamped revision

inductive Op (K V : Type) where
  | put (key : K) (value : V) (lease : Option LeaseID)
  | delete (key : K)
  deriving DecidableEq, Repr

inductive Cmp (K V : Type) where
  | value (key : K) (expected : V)
  | createRevision (key : K) (expected : Nat)
  deriving DecidableEq, Repr

structure Txn (K V : Type) where
  cmps : List (Cmp K V)
  thenOps : List (Op K V)
  deriving DecidableEq, Repr

/-- An error leaves the store alone; otherwise the reply says whether the
comparisons held. -/
inductive Reply where
  | error
  | done (succeeded : Bool)
  deriving DecidableEq, Repr

variable {K V : Type}

/-- Revisions start at one, and nothing is stored. -/
def Store.empty : Store K V where
  revision := 1
  entries := fun _ => none
  leases := fun _ => .unused
  stamped := by simp

def Store.value (store : Store K V) (key : K) : Option V := (store.entries key).map Entry.value

/-- Zero for a key that does not exist. -/
def Store.createRevision (store : Store K V) (key : K) : Nat :=
  ((store.entries key).map Entry.createRevision).getD 0

/-- A value comparison on an absent key fails. -/
def Cmp.holds [DecidableEq V] (store : Store K V) : Cmp K V → Bool
  | .value key expected => store.value key == some expected
  | .createRevision key expected => store.createRevision key == expected

def Op.leaseLive (store : Store K V) : Op K V → Bool
  | .put _ _ (some lease) => store.leases lease == .live
  | _ => true

def Op.changes (store : Store K V) : Op K V → Bool
  | .put .. => true
  | .delete key => (store.entries key).isSome

variable [DecidableEq K]

def Op.apply (revision : Nat) (entries : K → Option (Entry V)) : Op K V → K → Option (Entry V)
  | .put key value lease => Function.update entries key <| some
      { value, lease, modRevision := revision
        createRevision := ((entries key).map Entry.createRevision).getD revision }
  | .delete key => Function.update entries key none

def applyOps (revision : Nat) (entries : K → Option (Entry V)) (ops : List (Op K V)) :
    K → Option (Entry V) :=
  ops.foldl (Op.apply revision) entries

theorem Op.apply_stamped {revision : Nat} {entries : K → Option (Entry V)} (op : Op K V)
    (positive : 0 < revision)
    (stamped : ∀ key entry, entries key = some entry → entry.Stamped revision) :
    ∀ key entry, op.apply revision entries key = some entry → entry.Stamped revision := by
  intro key entry found
  cases op with
  | put written value lease =>
    by_cases same : key = written
    · subst same
      simp only [Op.apply, Function.update_self, Option.some.injEq] at found
      subst found
      cases held : entries key with
      | none => exact ⟨positive, Nat.le_refl _, Nat.le_refl _⟩
      | some old =>
        obtain ⟨created, ordered, past⟩ := stamped key old held
        exact ⟨created, Nat.le_trans ordered past, Nat.le_refl _⟩
    · simp only [Op.apply, Function.update_of_ne same] at found
      exact stamped key entry found
  | delete deleted =>
    by_cases same : key = deleted
    · simp [Op.apply, same] at found
    · simp only [Op.apply, Function.update_of_ne same] at found
      exact stamped key entry found

theorem applyOps_stamped {revision : Nat} {entries : K → Option (Entry V)} (ops : List (Op K V))
    (positive : 0 < revision)
    (stamped : ∀ key entry, entries key = some entry → entry.Stamped revision) :
    ∀ key entry, applyOps revision entries ops key = some entry → entry.Stamped revision := by
  induction ops generalizing entries with
  | nil => exact stamped
  | cons op rest ih => exact ih (op.apply_stamped positive stamped)

/-- One write: every operation happens at the same new revision. -/
def Store.write (store : Store K V) (ops : List (Op K V)) : Store K V where
  revision := store.revision + 1
  entries := applyOps (store.revision + 1) store.entries ops
  leases := store.leases
  stamped := applyOps_stamped ops (Nat.succ_pos _) fun key entry found => by
    obtain ⟨created, ordered, past⟩ := store.stamped key entry found
    exact ⟨created, ordered, Nat.le_succ_of_le past⟩

/-- The reply is an error, with nothing written, when an operation of the
chosen branch attaches a lease that is not live. -/
def Store.commit [DecidableEq V] (store : Store K V) (txn : Txn K V) : Store K V × Reply :=
  if txn.cmps.all (Cmp.holds store) then
    if txn.thenOps.all (Op.leaseLive store) then
      (if txn.thenOps.any (Op.changes store) then store.write txn.thenOps else store, .done true)
    else (store, .error)
  else (store, .done false)

def Store.grant (store : Store K V) (lease : LeaseID) : Store K V where
  revision := store.revision
  entries := store.entries
  leases := Function.update store.leases lease .live
  stamped := store.stamped

def Entry.attachedTo (lease : LeaseID) (entry : Entry V) : Bool := entry.lease == some lease

/-- Expiry removes every key attached to the lease in one write. -/
def Store.expire (store : Store K V) (lease : LeaseID) : Store K V where
  revision := store.revision + 1
  entries := fun key => (store.entries key).filter fun entry => !entry.attachedTo lease
  leases := Function.update store.leases lease .expired
  stamped := fun key entry found => by
    obtain ⟨created, ordered, past⟩ :=
      store.stamped key entry (Option.eq_some_of_filter_eq_some found)
    exact ⟨created, ordered, Nat.le_succ_of_le past⟩

/-- A deletion of a range of keys in one write. -/
def Store.deleteWhere (store : Store K V) (matched : K → Bool) : Store K V where
  revision := store.revision + 1
  entries := fun key => if matched key then none else store.entries key
  leases := store.leases
  stamped := fun key entry found => by
    obtain ⟨_, kept⟩ := Option.ite_none_left_eq_some.mp found
    obtain ⟨created, ordered, past⟩ := store.stamped key entry kept
    exact ⟨created, ordered, Nat.le_succ_of_le past⟩

/-! ### What a commit leaves -/

theorem applyOps_of_not_changes {store : Store K V} {revision : Nat} {ops : List (Op K V)}
    (unchanged : ops.any (Op.changes store) = false) :
    applyOps revision store.entries ops = store.entries := by
  induction ops with
  | nil => rfl
  | cons op rest ih =>
    simp only [List.any_cons, Bool.or_eq_false_iff] at unchanged
    obtain ⟨head, tail⟩ := unchanged
    cases op with
    | put => simp [Op.changes] at head
    | delete key =>
      have absent : store.entries key = none := by simpa [Op.changes] using head
      have same : Function.update store.entries key none = store.entries :=
        Function.update_eq_self_iff.mpr absent.symm
      simpa only [applyOps, List.foldl_cons, Op.apply, same] using ih tail

section Commit
variable [DecidableEq V] {store : Store K V} {txn : Txn K V}

/-- A commit that succeeds found its comparisons true and leaves what its
operations leave; whether it took a new revision does not show in the entries. -/
theorem Store.commit_succeeded (succeeded : (store.commit txn).2 = .done true) :
    (∀ cmp ∈ txn.cmps, cmp.holds store = true) ∧
      (store.commit txn).1.entries = applyOps (store.revision + 1) store.entries txn.thenOps := by
  unfold Store.commit at succeeded ⊢
  split at succeeded
  · rename_i compared
    split at succeeded
    · rename_i live
      refine ⟨List.all_eq_true.mp compared, ?_⟩
      rw [if_pos compared, if_pos live]
      split
      · rfl
      · rename_i unchanged
        exact (applyOps_of_not_changes (by simpa using unchanged)).symm
    · contradiction
  · simp at succeeded

/-- A put without comparisons, whose lease is live. -/
theorem Store.commit_put {key : K} {value : V} {lease : LeaseID}
    (live : store.leases lease = .live) :
    (store.commit ⟨[], [.put key value (some lease)]⟩).1 =
      store.write [.put key value (some lease)] := by
  simp [Store.commit, Op.leaseLive, Op.changes, live]

theorem Store.commit_failed (failed : (store.commit txn).2 ≠ .done true) :
    (store.commit txn).1 = store := by
  unfold Store.commit at failed ⊢
  split <;> rename_i compared
  · rw [if_pos compared] at failed
    split <;> rename_i live
    · rw [if_pos live] at failed
      exact absurd rfl failed
    · rfl
  · rfl

end Commit

end Moha.KeyValueStore
