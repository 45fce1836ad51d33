import Moha.KeyValueStore

/-! A store seen through names for its keys and a reading of its values. A
transaction on names is rendered to one on the keys, and committing the rendered
one looks through the names like committing the other, as long as the names that
are involved stand for different keys and the values written are read back. -/
namespace Moha.KeyValueStore

variable {K L V W : Type}

def Entry.map (read : W → V) (entry : Entry W) : Entry V where
  value := read entry.value
  lease := entry.lease
  createRevision := entry.createRevision
  modRevision := entry.modRevision

/-- The store seen through the names. -/
def Store.through (name : K → L) (read : W → V) (store : Store L W) : Store K V where
  revision := store.revision
  entries := fun key => (store.entries (name key)).map (Entry.map read)
  leases := store.leases
  stamped := by
    intro key entry found
    obtain ⟨held, stored, rfl⟩ := Option.map_eq_some_iff.mp found
    exact store.stamped _ held stored

def Op.key : Op K V → K
  | .put key _ _ => key
  | .delete key => key

def Op.render (name : K → L) (write : V → W) : Op K V → Op L W
  | .put key value lease => .put (name key) (write value) lease
  | .delete key => .delete (name key)

def Cmp.render (name : K → L) (write : V → W) : Cmp K V → Cmp L W
  | .value key expected => .value (name key) (write expected)
  | .createRevision key expected => .createRevision (name key) expected

def Txn.render (name : K → L) (write : V → W) (txn : Txn K V) : Txn L W where
  cmps := txn.cmps.map (Cmp.render name write)
  thenOps := txn.thenOps.map (Op.render name write)

/-- The value of an operation is read back as it was. -/
def Op.ReadBack (read : W → V) (write : V → W) : Op K V → Prop
  | .put _ value _ => read (write value) = value
  | .delete _ => True

def Cmp.ReadBack (read : W → V) (write : V → W) : Cmp K V → Prop
  | .value _ expected => read (write expected) = expected
  | .createRevision _ _ => True

section Through
variable {name : K → L} {read : W → V} {write : V → W} {store : Store L W}

theorem Store.through_entries (key : K) : (store.through name read).entries key =
    (store.entries (name key)).map (Entry.map read) := rfl

section Ops
variable [DecidableEq K] [DecidableEq L]

/-- One operation, at a name that no other name of the operation hides. -/
theorem Op.apply_render {revision : Nat} {entries : L → Option (Entry W)}
    {held : K → Option (Entry V)} {key : K} (op : Op K V)
    (same : (entries (name key)).map (Entry.map read) = held key)
    (apart : name op.key = name key → op.key = key) (readBack : op.ReadBack read write) :
    ((op.render name write).apply revision entries (name key)).map (Entry.map read) =
      op.apply revision held key := by
  by_cases hit : op.key = key
  · subst hit
    cases op with
    | put written value lease =>
      have created : ((entries (name written)).map Entry.createRevision).getD revision =
          ((held written).map Entry.createRevision).getD revision := by
        rw [← show _ = held written from same, Option.map_map]
        rfl
      simp only [Op.ReadBack] at readBack
      simp [Op.render, Op.apply, Op.key, Entry.map, created, readBack]
    | delete deleted => simp [Op.render, Op.apply, Op.key]
  · have missed : name key ≠ name op.key := fun hits => hit (apart hits.symm)
    cases op with
    | put written value lease =>
      simp only [Op.render, Op.apply, Op.key] at hit missed ⊢
      rw [Function.update_of_ne missed, Function.update_of_ne (Ne.symm hit), same]
    | delete deleted =>
      simp only [Op.render, Op.apply, Op.key] at hit missed ⊢
      rw [Function.update_of_ne missed, Function.update_of_ne (Ne.symm hit), same]

theorem applyOps_render {revision : Nat} {entries : L → Option (Entry W)}
    {held : K → Option (Entry V)} {key : K} {ops : List (Op K V)}
    (same : (entries (name key)).map (Entry.map read) = held key)
    (apart : ∀ op ∈ ops, name op.key = name key → op.key = key)
    (readBack : ∀ op ∈ ops, op.ReadBack read write) :
    (applyOps revision entries (ops.map (Op.render name write)) (name key)).map
        (Entry.map read) = applyOps revision held ops key := by
  induction ops generalizing entries held with
  | nil => exact same
  | cons op rest ih =>
    obtain ⟨headApart, tailApart⟩ := List.forall_mem_cons.mp apart
    obtain ⟨headBack, tailBack⟩ := List.forall_mem_cons.mp readBack
    exact ih (op.apply_render same headApart headBack) tailApart tailBack

end Ops

section Cmps
variable [DecidableEq V] [DecidableEq W]

theorem Cmp.holds_render {cmp : Cmp K V} (injective : Function.Injective read)
    (readBack : cmp.ReadBack read write) :
    (cmp.render name write).holds store = cmp.holds (store.through name read) := by
  cases cmp with
  | value key expected =>
    simp only [Cmp.ReadBack] at readBack
    rw [Bool.eq_iff_iff]
    simp only [Cmp.render, Cmp.holds, Store.value, Store.through, Option.map_map, beq_iff_eq,
      Option.map_eq_some_iff]
    refine exists_congr fun entry => and_congr_right fun _ => ?_
    constructor
    · intro value
      exact (congrArg read value).trans readBack
    · intro value
      exact injective (value.trans readBack.symm)
  | createRevision key expected =>
    simp only [Cmp.render, Cmp.holds, Store.createRevision, Store.through, Option.map_map]
    rfl

end Cmps

variable [DecidableEq K] [DecidableEq L] [DecidableEq V] [DecidableEq W]

/-- The reply of the rendered transaction. -/
theorem Store.commit_render_reply {txn : Txn K V} (injective : Function.Injective read)
    (readBack : ∀ cmp ∈ txn.cmps, cmp.ReadBack read write) :
    (store.commit (txn.render name write)).2 = ((store.through name read).commit txn).2 := by
  have compared : (txn.render name write).cmps.all (Cmp.holds store) =
      txn.cmps.all (Cmp.holds (store.through name read)) := by
    rw [Txn.render, List.all_map, Bool.eq_iff_iff, List.all_eq_true, List.all_eq_true]
    refine forall₂_congr fun cmp member => ?_
    rw [Function.comp_apply, Cmp.holds_render injective (readBack cmp member)]
  have live : (txn.render name write).thenOps.all (Op.leaseLive store) =
      txn.thenOps.all (Op.leaseLive (store.through name read)) := by
    rw [Txn.render, List.all_map]
    congr 1
    funext op
    cases op with
    | put _ _ lease => cases lease <;> rfl
    | delete => rfl
  unfold Store.commit
  rw [compared, live]
  split
  · split <;> rfl
  · rfl

/-- What the rendered transaction leaves, at a name that hides no other. -/
theorem Store.commit_render_entries {txn : Txn K V} {key : K}
    (injective : Function.Injective read)
    (apart : ∀ op ∈ txn.thenOps, name op.key = name key → op.key = key)
    (cmpsBack : ∀ cmp ∈ txn.cmps, cmp.ReadBack read write)
    (opsBack : ∀ op ∈ txn.thenOps, op.ReadBack read write) :
    ((store.commit (txn.render name write)).1.through name read).entries key =
      ((store.through name read).commit txn).1.entries key := by
  have reply : (store.commit (txn.render name write)).2 =
      ((store.through name read).commit txn).2 := Store.commit_render_reply injective cmpsBack
  by_cases succeeded : (store.commit (txn.render name write)).2 = .done true
  · have entries := (Store.commit_succeeded succeeded).2
    have seen := (Store.commit_succeeded (reply ▸ succeeded)).2
    rw [Store.through_entries, entries, seen]
    exact applyOps_render rfl apart opsBack
  · rw [Store.commit_failed succeeded, Store.commit_failed (reply ▸ succeeded)]

end Through

end Moha.KeyValueStore
