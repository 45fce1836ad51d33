import Moha.Admission

/-! The terms that `server.go::preWatch` leaves in memory and in etcd. A node
that is admitted takes over the leader's term and persists it in the deferred
`persistMyTerm`, whose error is dropped; a node whose term is ahead of the
leader's is admitted as well, when its log passes, and keeps its own term. -/
namespace Moha.AdmissionTerm
open KeyValueStore DecimalText GtidText LeaderRecord Election Cluster ClusterSteps

structure PreWatched where
  error : Option PreWatchError
  server : Server
  etcd : Etcd

/-- `server.go::preWatch` with its deferred `persistMyTerm`, given what becomes
of the write. -/
def preWatchAndPersist (s : Server) (reports : Reports) (leader : Leader) (etcd : Etcd)
    (write : Resolution) : PreWatched :=
  let (server, error) := preWatch s reports leader
  { error := error
    server := server
    etcd :=
      if error = none ∧ write ≠ .lost then (etcd.commit (Request.persistMyTerm server).txn).1
      else etcd }

/-- The log that is compared with the leader's: the one the server remembers, or
else the one that is loaded. -/
def comparedLog (s : Server) (reports : Reports) (leader : Leader) : Option ReplicationInfo :=
  if s.lastUUID = "" then reports.choose (isPreviousMaster s leader)
  else some ⟨s.lastUUID, s.lastGTID, s.lastTxnID⟩

/-- The leader has every transaction of the log, by transaction ID or, for a
leader of the older version, by UUID and GTID text. -/
def Covers (leader : LeaderMeta) (log : ReplicationInfo) : Prop :=
  if 2 ≤ leader.version then log.endTxnID ≤ leader.lastTxnID
  else log.masterUUID = leader.lastUUID ∧ ∃ mine latest,
    getTxnIDFromGTIDStr log.executedGTID log.masterUUID = .ok mine ∧
    getTxnIDFromGTIDStr leader.lastGTID leader.lastUUID = .ok latest ∧ mine ≤ latest

/-- A new node, a node of the leader's term, or a node at most one term behind
whose log the leader covers. -/
def Admissible (s : Server) (reports : Reports) (leader : Leader) : Prop :=
  s.term = 0 ∨ s.term = leader.leaderMeta.term ∨
    leader.leaderMeta.term - 1 ≤ s.term ∧
      ∃ log, comparedLog s reports leader = some log ∧ Covers leader.leaderMeta log

theorem loadLogIfUnknown_eq (s : Server) (reports : Reports) (leader : Leader) :
    loadLogIfUnknown s reports leader = (comparedLog s reports leader).map (loadLog s) := by
  unfold loadLogIfUnknown comparedLog
  split <;> rfl

theorem checkLogIndex_loadLog (s : Server) (log : ReplicationInfo) (leader : LeaderMeta) :
    checkLogIndex (loadLog s log) leader = none ↔ Covers leader log := by
  unfold checkLogIndex Covers
  split
  · by_cases later : leader.lastTxnID < log.endTxnID <;> simp [loadLog, later, ← UInt64.not_lt]
  · by_cases same : log.masterUUID = leader.lastUUID
    · simp only [loadLog, same, ne_eq, not_true_eq_false, ↓reduceIte, true_and]
      cases mine : getTxnIDFromGTIDStr log.executedGTID leader.lastUUID <;>
        cases latest : getTxnIDFromGTIDStr leader.lastGTID leader.lastUUID <;> simp
    · simp [loadLog, same]

section PreWatch
variable {s : Server} {reports : Reports} {leader : Leader}

private theorem taken_over_iff {mine term : UInt64} (positive : 1 ≤ term)
    (within : term - 1 ≤ mine) (differs : mine ≠ term) :
    (if mine = term - 1 then term else mine) = term ↔ mine ≤ term := by
  have pred : (term - 1).toNat = term.toNat - 1 := UInt64.toNat_sub_of_le _ _ positive
  simp only [UInt64.le_iff_toNat_le, ne_eq, ← UInt64.toNat_inj, pred] at positive within differs ⊢
  split
  · simp only [true_iff]
    omega
  · omega

/-- An admissible node is admitted, and then takes over the leader's term unless
it is ahead; any other node is refused and keeps its term. -/
theorem preWatch_admits (positive : 1 ≤ leader.leaderMeta.term) :
    Admissible s reports leader ∧ (preWatch s reports leader).2 = none ∧
        ((preWatch s reports leader).1.term = leader.leaderMeta.term ↔
          s.term ≤ leader.leaderMeta.term) ∨
      ¬ Admissible s reports leader ∧ (preWatch s reports leader).2 ≠ none ∧
        (preWatch s reports leader).1.term = s.term := by
  unfold preWatch Admissible
  by_cases new : s.term = 0
  · left
    simp [new]
  by_cases earlier : s.term < leader.leaderMeta.term - 1
  · right
    have notSame : s.term ≠ leader.leaderMeta.term := by
      intro same
      rw [same, UInt64.lt_iff_toNat_lt, UInt64.toNat_sub_of_le _ _ positive] at earlier
      omega
    simp [new, notSame, if_pos earlier, UInt64.not_le.mpr earlier]
  by_cases same : s.term = leader.leaderMeta.term
  · left
    rw [if_neg new, if_neg earlier, if_pos same]
    simp [same]
  have within := UInt64.not_lt.mp earlier
  rw [if_neg new, if_neg earlier, if_neg same, loadLogIfUnknown_eq]
  cases compared : comparedLog s reports leader with
  | none =>
    right
    simp [new, same]
  | some log =>
    simp only [Option.map_some, new, same, within, Option.some.injEq, exists_eq_left', false_or,
      true_and, ← checkLogIndex_loadLog s log]
    cases checkLogIndex (loadLog s log) leader.leaderMeta with
    | some error =>
      right
      simp [loadLog]
    | none =>
      left
      refine ⟨rfl, ?_⟩
      rw [← taken_over_iff positive within same]
      have kept : (loadLog s log).term = s.term := rfl
      by_cases behind : s.term = leader.leaderMeta.term - 1
      · rw [if_pos behind, if_pos (kept.trans behind)]
        exact ⟨rfl, .rfl⟩
      · rw [if_neg behind, if_neg (by rwa [kept])]
        exact ⟨rfl, .rfl⟩

end PreWatch

theorem text_persistMyTerm (etcd : Etcd) (s : Server) :
    text (etcd.commit (Request.persistMyTerm s).txn).1 (.myTermPath s.id) =
      some (sprint s.term) := by
  have succeeded : (etcd.commit (Request.persistMyTerm s).txn).2 = .done true := by
    simp [Store.commit, Request.txn, Op.leaseLive]
  rw [text, (Store.commit_succeeded succeeded).2]
  simp [Request.txn, applyOps, Op.apply, number, asText]

/-- `preWatch` leaves the leader's term in memory and in etcd when it returns nil,
and leaves both alone when it returns an error, exactly if an admissible node is
not ahead of the leader and its write is applied or has nothing to change. -/
theorem preWatch_consistent_iff {s : Server} {reports : Reports} {leader : Leader} {etcd : Etcd}
    {write : Resolution} (positive : 1 ≤ leader.leaderMeta.term) :
    (((preWatchAndPersist s reports leader etcd write).error = none →
        (preWatchAndPersist s reports leader etcd write).server.term = leader.leaderMeta.term ∧
        text (preWatchAndPersist s reports leader etcd write).etcd (.myTermPath s.id) =
          some (sprint leader.leaderMeta.term)) ∧
      ((preWatchAndPersist s reports leader etcd write).error ≠ none →
        (preWatchAndPersist s reports leader etcd write).server.term = s.term ∧
        text (preWatchAndPersist s reports leader etcd write).etcd (.myTermPath s.id) =
          text etcd (.myTermPath s.id))) ↔
    (Admissible s reports leader → s.term ≤ leader.leaderMeta.term ∧
      (write ≠ .lost ∨ text etcd (.myTermPath s.id) = some (sprint leader.leaderMeta.term))) := by
  have id := preWatch_id s reports leader
  simp only [preWatchAndPersist]
  rcases @preWatch_admits s reports leader positive with
    ⟨admissible, admitted, taken⟩ | ⟨refused, error, kept⟩
  · have persisted := text_persistMyTerm etcd (preWatch s reports leader).1
    rw [id] at persisted
    simp only [admitted, taken, admissible, true_and, forall_const, ne_eq, not_true_eq_false,
      false_imp_iff, and_true]
    refine and_congr_right fun most => ?_
    by_cases lost : write = .lost
    · simp [lost]
    · simp [lost, persisted, taken.mpr most]
  · simp [error, kept, refused]

private def follower (term : UInt64) : Server where
  id := "b"
  cfg := ⟨false, 10, 5⟩
  term := term
  lastUUID := "u"
  lastTxnID := 6

private def successor : Leader where
  name := "a"
  leaderMeta := { name := "a", term := 5, lastUUID := "u", lastTxnID := 9, version := 2 }

/-- What etcd holds of a node that has persisted its term before. -/
private def persisted (s : Server) : Etcd :=
  (Store.empty.commit (Request.persistMyTerm s).txn).1

/-- A follower one term behind is admitted, and its write goes unanswered. -/
theorem preWatch_consistent_iff_of_follower :
    (preWatchAndPersist (follower 4) {} successor (persisted (follower 4)) .unanswered).error =
        none ∧
      (preWatchAndPersist (follower 4) {} successor (persisted (follower 4))
        .unanswered).server.term = 5 ∧
      text (preWatchAndPersist (follower 4) {} successor (persisted (follower 4))
        .unanswered).etcd (.myTermPath "b") = some (sprint 5) := by
  have admitted : (preWatchAndPersist (follower 4) {} successor (persisted (follower 4))
      .unanswered).error = none := by decide +kernel
  have positive : 1 ≤ successor.leaderMeta.term := by decide
  refine ⟨admitted, ((preWatch_consistent_iff positive).mpr ?_).1 admitted⟩
  exact fun _ => ⟨by decide, .inl (by decide)⟩

/-- The write of an admitted follower is lost, and nobody notices; a node that is
ahead of the leader is admitted and persists its own term. -/
theorem preWatch_leaves_other_terms :
    ((preWatchAndPersist (follower 4) {} successor (persisted (follower 4)) .lost).error = none ∧
      (preWatchAndPersist (follower 4) {} successor (persisted (follower 4)) .lost).server.term =
        5 ∧
      text (preWatchAndPersist (follower 4) {} successor (persisted (follower 4)) .lost).etcd
        (.myTermPath "b") = some (sprint 4)) ∧
    (preWatchAndPersist (follower 7) {} successor (persisted (follower 7)) .answered).error =
        none ∧
      (preWatchAndPersist (follower 7) {} successor (persisted (follower 7))
        .answered).server.term = 7 ∧
      text (preWatchAndPersist (follower 7) {} successor (persisted (follower 7)) .answered).etcd
        (.myTermPath "b") = some (sprint 7) := by
  decide +kernel

end Moha.AdmissionTerm
