import Moha.LeaderRecord

/-! What the leader election sees of etcd: the leader key, the record published
with it, the single-point flag and the stored term of every node. Each request
acts on this view as a function, and the transactions of the source refine it:
`view_commit` and `view_expire` are the only results below that look at the
transactions themselves. -/
namespace Moha.LeaderView
open KeyValueStore DecimalText LeaderRecord

/-- The permanent fields of the leader record, as they are stored. -/
structure Record where
  id : Option String
  term : Option String
  lastTxnID : Option String
  lastUUID : Option String
  lastGTID : Option String
  deriving DecidableEq, Repr

structure View where
  leader : Option (Entry Value)
  version : Option (Entry Value)
  record : Record
  spm : Option String
  terms : NodeID → Option String

def viewOf (entries : Key → Option (Entry Value)) : View where
  leader := entries .leaderPath
  version := entries .metaVersionPath
  record :=
    { id := asText (entries .idPath)
      term := asText (entries .termPath)
      lastTxnID := asText (entries .lastTxnIDPath)
      lastUUID := asText (entries .lastUUIDPath)
      lastGTID := asText (entries .lastGTIDPath) }
  spm := asText (entries .spmPath)
  terms := fun n => asText (entries (.myTermPath n))

def view (etcd : Etcd) : View := viewOf etcd.entries

/-- The leader key names `n`. -/
def View.LedBy (v : View) (n : NodeID) : Prop :=
  ∃ entry, v.leader = some entry ∧ entry.value = .text n

theorem View.LedBy.unique {v : View} {n m : NodeID} (first : v.LedBy n) (second : v.LedBy m) :
    n = m := by
  obtain ⟨entry, held, value⟩ := first
  obtain ⟨other, held', value'⟩ := second
  cases held.symm.trans held'
  cases value.symm.trans value'
  rfl

/-- The record a server publishes under a term. -/
def publishedBy (s : Server) (term : UInt64) : Record where
  id := some s.id
  term := some (sprint term)
  lastTxnID := some (sprint s.lastTxnID)
  lastUUID := some s.lastUUID
  lastGTID := some s.lastGTID

/-! ### Requests on the view -/

/-- A put at the given revision over what is stored. -/
def overwrite (revision : Nat) (stored : Option (Entry Value)) (value : Value)
    (lease : Option LeaseID) : Entry Value where
  value := value
  lease := lease
  createRevision := (stored.map Entry.createRevision).getD revision
  modRevision := revision

/-- The effect of `leader.go::leaderPutOps`. -/
def View.publish (v : View) (revision : Nat) (s : Server) (lease : Option LeaseID)
    (term : UInt64) : View :=
  { v with
    leader := some (overwrite revision v.leader (.text s.id) lease)
    version := some (overwrite revision v.version (number globalSchemaVersion) lease)
    record := publishedBy s term }

def View.setTerm (v : View) (n : NodeID) (term : UInt64) : View :=
  { v with terms := Function.update v.terms n (some (sprint term)) }

def leaseOf (leaseID : LeaseID) : Option LeaseID := if leaseID < 0 then none else some leaseID

/-- What a request does to the view when it takes effect at a revision. -/
def act (revision : Nat) (v : View) : Request → View
  | .campaignLeader s lease =>
    (v.publish revision s (leaseOf lease) (s.term + 1)).setTerm s.id (s.term + 1)
  | .resumeLeader s lease => v.publish revision s (leaseOf lease) s.term
  | .campaignLeaderAsSinglePoint s =>
    { (v.publish revision s none (s.term + 1)).setTerm s.id (s.term + 1) with spm := some s.id }
  | .resumeLeaderAsSinglePoint s =>
    { (v.publish revision s none s.term).setTerm s.id 0 with spm := some s.id }
  | .deleteLeaderKey _ _ => { v with leader := none, version := none }
  | .startClean _ _ => { v with leader := none }
  | .persistMyTerm s => v.setTerm s.id s.term
  | .removeSPM _ => { v with spm := none }
  | .uploadLogForElection _ _ | .uploadPromotionBinlog _ _ => v

/-- When a request can take effect. -/
def Guard (v : View) : Request → Prop
  | .campaignLeader _ _ | .campaignLeaderAsSinglePoint _ => v.leader = none
  | .resumeLeader s _ | .resumeLeaderAsSinglePoint s => v.LedBy s.id
  | .deleteLeaderKey id _ | .startClean id _ => v.LedBy id
  | _ => True

/-! The effects by kind of request. -/

section Kinds
variable {revision : Nat} {v : View} {request : Request} {s : Server} {id : NodeID}

/-- The leader key and the meta version are put together, under one lease. -/
theorem leader_act (publishes : request.campaigner = some s ∨ request.resumer = some s) :
    ∃ lease, (act revision v request).leader =
        some (overwrite revision v.leader (.text s.id) lease) ∧
      (act revision v request).version =
        some (overwrite revision v.version (number globalSchemaVersion) lease) ∧
      (request.asSinglePoint = true → lease = none) := by
  rcases publishes with publishes | publishes <;> cases request <;> cases publishes
  all_goals exact ⟨_, rfl, rfl, by simp [Request.asSinglePoint]⟩

theorem record_act_campaigner (campaigns : request.campaigner = some s) :
    (act revision v request).record = publishedBy s (s.term + 1) := by
  cases request <;> cases campaigns <;> rfl

theorem terms_act_campaigner (campaigns : request.campaigner = some s) :
    (act revision v request).terms = Function.update v.terms s.id (some (sprint (s.term + 1))) := by
  cases request <;> cases campaigns <;> rfl

/-- A resume under a lease leaves every stored term alone. -/
theorem terms_act_resumer (resumes : request.resumer = some s)
    (leased : request.asSinglePoint = false) : (act revision v request).terms = v.terms := by
  cases request <;> cases resumes <;> cases leased
  rfl

theorem record_act_resumer (resumes : request.resumer = some s) :
    (act revision v request).record = publishedBy s s.term := by
  cases request <;> cases resumes <;> rfl

theorem act_remover (removes : request.remover = some id) :
    (act revision v request).leader = none ∧ (act revision v request).record = v.record ∧
      (act revision v request).terms = v.terms ∧ (act revision v request).spm = v.spm := by
  cases request <;> cases removes <;> exact ⟨rfl, rfl, rfl, rfl⟩

/-- Requests of the other kinds leave the leader and its record alone. -/
theorem act_other (campaigns : request.campaigner = none) (resumes : request.resumer = none)
    (removes : request.remover = none) :
    (act revision v request).leader = v.leader ∧ (act revision v request).version = v.version ∧
      (act revision v request).record = v.record := by
  cases request <;> simp_all [Request.campaigner, Request.resumer, Request.remover, act,
    View.setTerm]

theorem spm_act (publishes : request.campaigner = some s ∨ request.resumer = some s) :
    (act revision v request).spm = if request.asSinglePoint then some s.id else v.spm := by
  rcases publishes with publishes | publishes <;> cases request <;> cases publishes <;> rfl

theorem spm_act_other (campaigns : request.campaigner = none) (resumes : request.resumer = none)
    {n : NodeID} (flag : (act revision v request).spm = some n) : v.spm = some n := by
  cases request with
  | campaignLeader | campaignLeaderAsSinglePoint => cases campaigns
  | resumeLeader | resumeLeaderAsSinglePoint => cases resumes
  | removeSPM => cases flag
  | deleteLeaderKey | startClean | persistMyTerm | uploadLogForElection
  | uploadPromotionBinlog => exact flag

/-- The stored term of a node is only put by the node itself. -/
theorem terms_act_kept {n : NodeID}
    (foreign : ∀ s, request.campaigner = some s ∨ request.resumer = some s ∨
      request = .persistMyTerm s → s.id ≠ n) :
    (act revision v request).terms n = v.terms n := by
  cases request with
  | campaignLeader s | campaignLeaderAsSinglePoint s =>
    exact Function.update_of_ne (foreign s (.inl rfl)).symm _ _
  | resumeLeaderAsSinglePoint s =>
    exact Function.update_of_ne (foreign s (.inr (.inl rfl))).symm _ _
  | persistMyTerm s => exact Function.update_of_ne (foreign s (.inr (.inr rfl))).symm _ _
  | resumeLeader | deleteLeaderKey | startClean | removeSPM | uploadLogForElection
  | uploadPromotionBinlog => rfl

theorem guard_campaigner (campaigns : request.campaigner = some s) (guard : Guard v request) :
    v.leader = none := by
  cases request <;> cases campaigns <;> exact guard

theorem guard_resumer (resumes : request.resumer = some s) (guard : Guard v request) :
    v.LedBy s.id := by
  cases request <;> cases resumes <;> exact guard

theorem guard_remover (removes : request.remover = some id) (guard : Guard v request) :
    v.LedBy id := by
  cases request <;> cases removes <;> exact guard

/-- Every request runs for leader, resumes, removes, or does none of it. -/
theorem request_kinds (request : Request) :
    (∃ s, request.campaigner = some s) ∨ (∃ s, request.resumer = some s) ∨
      (∃ id, request.remover = some id) ∨
      (request.campaigner = none ∧ request.resumer = none ∧ request.remover = none) := by
  cases request <;> simp [Request.campaigner, Request.resumer, Request.remover]

theorem ledBy_act (publishes : request.campaigner = some s ∨ request.resumer = some s) :
    (act revision v request).LedBy s.id := by
  obtain ⟨lease, leader, _⟩ := @leader_act revision v request s publishes
  exact ⟨_, leader, rfl⟩

theorem led_act {n : NodeID}
    (publishes : request.campaigner = some s ∨ request.resumer = some s)
    (led : (act revision v request).LedBy n) : s.id = n :=
  (ledBy_act publishes).unique led

theorem led_act_remover {n : NodeID}
    (removes : request.remover = some id) : ¬ (act revision v request).LedBy n := by
  rintro ⟨entry, held, _⟩
  rw [(act_remover removes).1] at held
  cases held

theorem led_act_other {n : NodeID}
    (other : request.campaigner = none ∧ request.resumer = none ∧ request.remover = none) :
    (act revision v request).LedBy n ↔ v.LedBy n := by
  rw [View.LedBy, (act_other other.1 other.2.1 other.2.2).1, View.LedBy]

end Kinds

theorem ledBy_iff {etcd : Etcd} {n : NodeID} :
    (view etcd).LedBy n ↔ etcd.value .leaderPath = some (.text n) := by
  simp [View.LedBy, view, viewOf, Store.value]

private theorem guard_of_holds {etcd : Etcd} {request : Request}
    (compared : ∀ cmp ∈ request.txn.cmps, cmp.holds etcd = true) :
    Guard (view etcd) request := by
  cases request with
  | campaignLeader s lease | campaignLeaderAsSinglePoint s =>
    have absent : etcd.createRevision .leaderPath = 0 := by
      simpa [Request.txn, noLeaderCmp, Cmp.holds] using compared
    cases held : etcd.entries .leaderPath with
    | none => exact held
    | some entry =>
      have positive := (etcd.stamped _ _ held).1
      simp only [Store.createRevision, held, Option.map_some, Option.getD_some] at absent
      omega
  | resumeLeader s lease | resumeLeaderAsSinglePoint s =>
    exact ledBy_iff.mpr (by simpa [Request.txn, Server.leaderCmp, Cmp.holds] using compared)
  | deleteLeaderKey id issued | startClean id issued =>
    exact ledBy_iff.mpr (by simpa [Request.txn, Cmp.holds] using compared)
  | persistMyTerm | removeSPM | uploadLogForElection | uploadPromotionBinlog => trivial

@[simp] private theorem asText_some {stored : String} {lease : Option LeaseID}
    {created modified : Nat} :
    asText (some ⟨.text stored, lease, created, modified⟩) = some stored := rfl

@[simp] private theorem asText_none : asText none = none := rfl

private theorem terms_update {entries : Key → Option (Entry Value)} {id : NodeID}
    {entry : Entry Value} :
    (fun n => asText (if n = id then some entry else entries (.myTermPath n))) =
      Function.update (fun n => asText (entries (.myTermPath n))) id (asText (some entry)) := by
  funext n
  by_cases same : n = id <;> simp [same]

private theorem viewOf_applyOps {entries : Key → Option (Entry Value)} {revision : Nat}
    (request : Request) :
    viewOf (applyOps revision entries request.txn.thenOps) =
      act revision (viewOf entries) request := by
  cases request <;>
    simp [viewOf, act, Request.txn, applyOps, Op.apply, Server.leaderPutOps, Server.myTermPutOps,
      Server.spmPutOps, Function.update_apply, View.publish, View.setTerm, leaseOf, publishedBy,
      overwrite, number, terms_update]

/-- A request that takes effect found its guard true and acts on the view. -/
theorem view_commit {etcd : Etcd} {request : Request}
    (succeeded : (etcd.commit request.txn).2 = .done true) :
    Guard (view etcd) request ∧
      view (etcd.commit request.txn).1 = act (etcd.revision + 1) (view etcd) request := by
  obtain ⟨compared, entries⟩ := Store.commit_succeeded succeeded
  refine ⟨guard_of_holds compared, ?_⟩
  rw [view, entries, viewOf_applyOps, view]

/-! ### Leases -/

/-- Only the leader key and the meta version are attached to leases. -/
def Permanent (etcd : Etcd) : Prop :=
  ∀ key entry, key ≠ .leaderPath → key ≠ .metaVersionPath →
    etcd.entries key = some entry → entry.lease = none

private def leasable (op : Op Key Value) : Prop :=
  ∀ key value lease, op = .put key value (some lease) →
    key = .leaderPath ∨ key = .metaVersionPath

private theorem leasable_of_mem {request : Request} {op : Op Key Value}
    (member : op ∈ request.txn.thenOps) : leasable op := by
  rintro key value lease rfl
  cases request <;>
    simp_all [Request.txn, Server.leaderPutOps, Server.myTermPutOps, Server.spmPutOps]
  all_goals exact member.imp And.left And.left

private theorem applyOps_permanent {entries : Key → Option (Entry Value)} {revision : Nat}
    {ops : List (Op Key Value)} (allowed : ∀ op ∈ ops, leasable op)
    (permanent : ∀ key entry, key ≠ .leaderPath → key ≠ .metaVersionPath →
      entries key = some entry → entry.lease = none) :
    ∀ key entry, key ≠ .leaderPath → key ≠ .metaVersionPath →
      applyOps revision entries ops key = some entry → entry.lease = none := by
  induction ops generalizing entries with
  | nil => exact permanent
  | cons op rest ih =>
    refine ih (fun other member => allowed other (List.mem_cons_of_mem _ member)) ?_
    intro key entry notLeader notVersion found
    cases op with
    | delete deleted =>
      by_cases same : key = deleted
      · simp [Op.apply, same] at found
      · exact permanent key entry notLeader notVersion
          (by simpa [Op.apply, Function.update_of_ne same] using found)
    | put written value lease =>
      by_cases same : key = written
      · subst same
        simp only [Op.apply, Function.update_self, Option.some.injEq] at found
        subst found
        cases lease with
        | none => rfl
        | some lease =>
          rcases allowed _ List.mem_cons_self key value lease rfl with leader | version
          · exact absurd leader notLeader
          · exact absurd version notVersion
      · exact permanent key entry notLeader notVersion
          (by simpa [Op.apply, Function.update_of_ne same] using found)

theorem permanent_commit {etcd : Etcd} (permanent : Permanent etcd) (request : Request) :
    Permanent (etcd.commit request.txn).1 := by
  by_cases succeeded : (etcd.commit request.txn).2 = .done true
  · intro key entry notLeader notVersion found
    rw [(Store.commit_succeeded succeeded).2] at found
    exact applyOps_permanent (fun _ member => leasable_of_mem member) permanent key entry
      notLeader notVersion found
  · rwa [Store.commit_failed succeeded]

theorem permanent_expire {etcd : Etcd} (permanent : Permanent etcd) (lease : LeaseID) :
    Permanent (etcd.expire lease) := fun key entry notLeader notVersion found =>
  permanent key entry notLeader notVersion (Option.eq_some_of_filter_eq_some found)

/-- Expiry as the view sees it: the record outlives the lease. -/
def View.expire (v : View) (lease : LeaseID) : View :=
  { v with
    leader := v.leader.filter fun entry => !entry.attachedTo lease
    version := v.version.filter fun entry => !entry.attachedTo lease }

theorem view_expire {etcd : Etcd} (permanent : Permanent etcd) (lease : LeaseID) :
    view (etcd.expire lease) = (view etcd).expire lease := by
  have kept : ∀ key, key ≠ .leaderPath → key ≠ .metaVersionPath →
      (etcd.expire lease).entries key = etcd.entries key := by
    intro key notLeader notVersion
    cases found : etcd.entries key with
    | none => simp [Store.expire, found]
    | some entry =>
      simp [Store.expire, found, Entry.attachedTo,
        permanent key entry notLeader notVersion found]
  simp only [view, viewOf, View.expire, kept, ne_eq, reduceCtorEq, not_false_eq_true]
  rfl

theorem View.LedBy.of_expire {v : View} {lease : LeaseID} {n : NodeID}
    (led : (v.expire lease).LedBy n) : v.LedBy n := by
  obtain ⟨entry, found, value⟩ := led
  exact ⟨entry, Option.eq_some_of_filter_eq_some found, value⟩

/-! ### Reading back -/

section Read
variable {s publisher : Server} {etcd : Etcd} {leader : Leader} {myTerm term : UInt64}

theorem ledBy_iff_asText {v : View} {n : NodeID} : v.LedBy n ↔ asText v.leader = some n := by
  unfold View.LedBy asText
  split
  · rename_i stored _ _ _ held
    simp [held]
  · rename_i other
    simp only [reduceCtorEq, iff_false, not_exists, not_and]
    rintro ⟨value, lease, created, modified⟩ held rfl
    exact other n lease created modified held

theorem readLeader_name {n : NodeID} (led : (view etcd).LedBy n) :
    (readLeader etcd term).name = n := by
  have stored : text etcd .leaderPath = some n := ledBy_iff_asText.mp led
  simp [readLeader, stored]

/-- A name that is read is the one the leader key holds. -/
theorem ledBy_of_readLeader (present : (readLeader etcd term).name ≠ "") :
    (view etcd).LedBy (readLeader etcd term).name := by
  cases stored : text etcd .leaderPath with
  | none => simp [readLeader, stored] at present
  | some n =>
    have led : (view etcd).LedBy n := ledBy_iff_asText.mpr stored
    rwa [readLeader_name led]

theorem readTerm_of_stored (held : (view etcd).record.term = some (sprint term))
    (small : term.toNat < 2 ^ 63) : readTerm etcd = .ok term := by
  have stored : text etcd .termPath = some (sprint term) := held
  rw [readTerm, stored]
  simp only [atoi_sprint small, Except.ok.injEq]
  apply UInt64.toNat_inj.mp
  simp only [UInt64.ofInt, UInt64.toNat_ofNat']
  omega

theorem readTerm_stored (held : (view etcd).record.term = some (sprint term))
    {read : UInt64} (parsed : readTerm etcd = .ok read) : read = term ∧ term.toNat < 2 ^ 63 := by
  by_cases small : term.toNat < 2 ^ 63
  · rw [readTerm_of_stored held small] at parsed
    exact ⟨(Except.ok.inj parsed).symm, small⟩
  · have stored : text etcd .termPath = some (sprint term) := held
    rw [readTerm, stored] at parsed
    simp [atoi_sprint_large (Nat.le_of_not_lt small)] at parsed

theorem readTerm_absent (record : (view etcd).record.term = none) {read : UInt64}
    (parsed : readTerm etcd = .ok read) : read = 0 := by
  have stored : text etcd .termPath = none := record
  simpa [readTerm, stored] using parsed.symm

theorem readMyTerm_of_stored {id : NodeID} (held : (view etcd).terms id = some (sprint term)) :
    readMyTerm id etcd = .ok term := by
  have stored : text etcd (.myTermPath id) = some (sprint term) := held
  simp [readMyTerm, stored]

theorem readMyTerm_stored {id : NodeID} (held : (view etcd).terms id = some (sprint term))
    (parsed : readMyTerm id etcd = .ok myTerm) : myTerm = term := by
  rw [readMyTerm_of_stored held] at parsed
  exact (Except.ok.inj parsed).symm

theorem readMyTerm_absent {id : NodeID} (held : (view etcd).terms id = none)
    (parsed : readMyTerm id etcd = .ok myTerm) : myTerm = 0 := by
  have stored : text etcd (.myTermPath id) = none := held
  simpa [readMyTerm, stored] using parsed.symm

/-- What is published is read back as it was in the server's memory. -/
theorem readLeader_published (record : (view etcd).record = publishedBy publisher term) :
    (readLeader etcd term).leaderMeta =
      { name := publisher.id
        term := term
        lastUUID := publisher.lastUUID
        lastGTID := publisher.lastGTID
        lastTxnID := publisher.lastTxnID
        version := ((asText (view etcd).version).bind atoi).getD 0 } := by
  have id : text etcd .idPath = some publisher.id := congrArg Record.id record
  have uuid : text etcd .lastUUIDPath = some publisher.lastUUID := congrArg Record.lastUUID record
  have gtid : text etcd .lastGTIDPath = some publisher.lastGTID := congrArg Record.lastGTID record
  have txnID : text etcd .lastTxnIDPath = some (sprint publisher.lastTxnID) :=
    congrArg Record.lastTxnID record
  simp only [readLeader, id, uuid, gtid, txnID, Option.getD_some, Option.bind_some,
    parseUint_sprint]
  rfl

end Read

end Moha.LeaderView
