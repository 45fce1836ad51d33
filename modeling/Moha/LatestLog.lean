import Moha.Election
import Moha.EntryMap
import Mathlib.Data.Finset.Max
import Mathlib.Data.Prod.Lex

/-! The verdicts of `campaign.go::isLatestLog` across the nodes of one round.
Every node runs the loop over the same map, each in an order of its own. The
verdict depends only on the map: a node is the latest when no other log beats it,
and a single point when every other log is of a lower term. -/
namespace Moha.LatestLog
open EntryMap LeaderRecord GtidText Election

/-- The log does not beat a node of this term and transaction ID. -/
def Concedes (term endTxnID : UInt64) (log : LogForElection) : Prop :=
  log.term < term ∨ (log.term = term ∧ ∀ another, logTxnID log = some another → another ≤ endTxnID)

theorem compareLogs_fst (id : NodeID) (term endTxnID : UInt64) (isSinglePoint : Bool)
    (logs : Logs) :
    (compareLogs id term endTxnID isSinglePoint logs).1 = true ↔
      ∀ entry ∈ logs, entry.1 ≠ id → Concedes term endTxnID entry.2 := by
  induction logs generalizing isSinglePoint with
  | nil => simp [compareLogs]
  | cons entry rest ih =>
    obtain ⟨serverID, log⟩ := entry
    simp only [compareLogs, List.forall_mem_cons]
    split
    · rename_i own
      rw [ih]
      simp [own]
    · rename_i other
      rw [Eq.comm] at other
      have beaten : (Concedes term endTxnID log → False) →
          (False ↔ (serverID ≠ id → Concedes term endTxnID log) ∧
            ∀ entry ∈ rest, entry.1 ≠ id → Concedes term endTxnID entry.2) :=
        fun beats => ⟨False.elim, fun all => beats (all.1 other)⟩
      have passed : Concedes term endTxnID log → ∀ single,
          ((compareLogs id term endTxnID single rest).1 = true ↔
            (serverID ≠ id → Concedes term endTxnID log) ∧
              ∀ entry ∈ rest, entry.1 ≠ id → Concedes term endTxnID entry.2) :=
        fun concedes single => (ih single).trans ⟨fun all => ⟨fun _ => concedes, all⟩, And.right⟩
      split
      · rename_i higher
        simpa using beaten (by rintro (lower | ⟨same, _⟩) <;> grind)
      · split
        · rename_i lower
          exact passed (.inl lower) _
        · rename_i notHigher notLower
          have same : log.term = term := by grind
          cases read : logTxnID log with
          | none => exact passed (.inr ⟨same, by simp [read]⟩) _
          | some another =>
            dsimp only
            split
            · rename_i later
              simpa using beaten (by
                rintro (lower | ⟨_, bounded⟩)
                · exact notLower lower
                · exact absurd later (by simpa using bounded another read))
            · rename_i notLater
              refine passed (.inr ⟨same, ?_⟩) _
              intro held sameRead
              cases read.symm.trans sameRead
              simpa using notLater

theorem compareLogs_snd (id : NodeID) (term endTxnID : UInt64) (isSinglePoint : Bool)
    (logs : Logs) :
    (compareLogs id term endTxnID isSinglePoint logs).2 = true ↔
      isSinglePoint = true ∧ ∀ entry ∈ logs, entry.1 ≠ id → entry.2.term < term := by
  induction logs generalizing isSinglePoint with
  | nil => simp [compareLogs]
  | cons entry rest ih =>
    obtain ⟨serverID, log⟩ := entry
    simp only [compareLogs, List.forall_mem_cons]
    split
    · rename_i own
      rw [ih]
      simp [own]
    · rename_i other
      rw [Eq.comm] at other
      split
      · rename_i higher
        simp only [Bool.false_eq_true, false_iff]
        rintro ⟨_, lower, _⟩
        have := lower other
        grind
      · split
        · rename_i lower
          rw [ih]
          simp [lower]
        · rename_i notHigher notLower
          have notAlone : ∀ single : Prop, ¬ (single ∧ (serverID ≠ id → log.term < term) ∧
              ∀ entry ∈ rest, entry.1 ≠ id → entry.2.term < term) :=
            fun _ all => notLower (all.2.1 other)
          split
          · rw [ih]
            simpa using notAlone _
          · split
            · simpa using notAlone _
            · rw [ih]
              simpa using notAlone _

/-! ### The verdict of one node -/

/-- The node's own log stands against all the others. -/
structure Stands (logs : Logs) (id : NodeID) (log : LogForElection) (endTxnID : UInt64) :
    Prop where
  member : (id, log) ∈ logs
  read : logTxnID log = some endTxnID
  unbeaten : ∀ entry ∈ logs, entry.1 ≠ id → Concedes log.term endTxnID entry.2

theorem isLatestLog_fst (s : Server) {logs : Logs} (distinct : (logs.map Prod.fst).Nodup) :
    (isLatestLog s logs).1 = true ↔ ∃ log endTxnID, Stands logs s.id log endTxnID := by
  unfold isLatestLog
  split
  · rename_i absent
    simp only [Bool.false_eq_true, false_iff]
    rintro ⟨log, _, stands⟩
    cases absent.symm.trans (lookup_of_mem distinct stands.member)
  · rename_i log found
    split
    · rename_i unread
      simp only [Bool.false_eq_true, false_iff]
      rintro ⟨other, _, stands⟩
      cases found.symm.trans (lookup_of_mem distinct stands.member)
      cases unread.symm.trans stands.read
    · rename_i endTxnID read
      rw [compareLogs_fst]
      constructor
      · exact fun unbeaten => ⟨log, endTxnID, mem_of_lookup found, read, unbeaten⟩
      · rintro ⟨other, _, stands⟩
        cases found.symm.trans (lookup_of_mem distinct stands.member)
        cases read.symm.trans stands.read
        exact stands.unbeaten

/-- The only node of its term, and no term above it. -/
structure Alone (logs : Logs) (id : NodeID) (log : LogForElection) : Prop where
  member : (id, log) ∈ logs
  read : logTxnID log ≠ none
  highest : ∀ entry ∈ logs, entry.1 ≠ id → entry.2.term < log.term

theorem isLatestLog_snd (s : Server) {logs : Logs} (distinct : (logs.map Prod.fst).Nodup) :
    (isLatestLog s logs).2 = true ↔ ∃ log, Alone logs s.id log := by
  unfold isLatestLog
  split
  · rename_i absent
    simp only [Bool.false_eq_true, false_iff]
    rintro ⟨log, alone⟩
    cases absent.symm.trans (lookup_of_mem distinct alone.member)
  · rename_i log found
    split
    · rename_i unread
      simp only [Bool.false_eq_true, false_iff]
      rintro ⟨other, alone⟩
      cases found.symm.trans (lookup_of_mem distinct alone.member)
      exact alone.read unread
    · rename_i endTxnID read
      rw [compareLogs_snd]
      constructor
      · exact fun single => ⟨log, mem_of_lookup found, by simp [read], single.2⟩
      · rintro ⟨other, alone⟩
        cases found.symm.trans (lookup_of_mem distinct alone.member)
        exact ⟨rfl, alone.highest⟩

theorem Stands.perm {seen logs : Logs} {id : NodeID} {log : LogForElection} {endTxnID : UInt64}
    (stands : Stands seen id log endTxnID) (same : seen.Perm logs) :
    Stands logs id log endTxnID where
  member := same.mem_iff.mp stands.member
  read := stands.read
  unbeaten := fun entry member => stands.unbeaten entry (same.mem_iff.mpr member)

theorem Alone.perm {seen logs : Logs} {id : NodeID} {log : LogForElection}
    (alone : Alone seen id log) (same : seen.Perm logs) : Alone logs id log where
  member := same.mem_iff.mp alone.member
  read := alone.read
  highest := fun entry member => alone.highest entry (same.mem_iff.mpr member)

/-- The order in which a node visits the map does not matter. -/
theorem isLatestLog_perm (s : Server) {seen logs : Logs} (distinct : (logs.map Prod.fst).Nodup)
    (same : seen.Perm logs) : isLatestLog s seen = isLatestLog s logs := by
  have distinct' : (seen.map Prod.fst).Nodup := (same.map Prod.fst).nodup_iff.mpr distinct
  refine Prod.ext (Bool.eq_iff_iff.mpr ?_) (Bool.eq_iff_iff.mpr ?_)
  · rw [isLatestLog_fst s distinct', isLatestLog_fst s distinct]
    exact ⟨fun ⟨log, endTxnID, stands⟩ => ⟨log, endTxnID, stands.perm same⟩,
      fun ⟨log, endTxnID, stands⟩ => ⟨log, endTxnID, stands.perm same.symm⟩⟩
  · rw [isLatestLog_snd s distinct', isLatestLog_snd s distinct]
    exact ⟨fun ⟨log, alone⟩ => ⟨log, alone.perm same⟩,
      fun ⟨log, alone⟩ => ⟨log, alone.perm same.symm⟩⟩

/-! ### When the transaction ID of a log is computable -/

/-- The log has a counter of its own, or a GTID text that parses and contains its UUID. -/
def Computable (log : LogForElection) : Prop :=
  2 ≤ log.version ∨ ∃ sets, parseMysqlGTIDSet log.lastGTID = some sets ∧
    log.lastUUID.toList ∈ sets.map Prod.fst

/-- The transaction ID of a computable log. -/
def txnID (log : LogForElection) : UInt64 := (logTxnID log).getD 0

theorem mergeIntervals_ne_nil (last : Interval) (rest : List Interval) :
    mergeIntervals last rest ≠ [] := by
  induction rest generalizing last with
  | nil => simp [mergeIntervals]
  | cons next rest ih =>
    unfold mergeIntervals
    split
    · simp
    · exact ih _

theorem normalize_ne_nil {intervals : List Interval} (nonempty : intervals ≠ []) :
    GtidText.normalize intervals ≠ [] := by
  unfold GtidText.normalize
  split
  · rename_i sorted
    have same := @List.length_mergeSort _ Interval.atMost intervals
    rw [sorted] at same
    exact absurd (List.length_eq_zero_iff.mp same.symm) nonempty
  · exact mergeIntervals_ne_nil _ _

/-- Every set of a parsed text has an interval. -/
def Filled (sets : GTIDSet) : Prop := ∀ set ∈ sets, set.2 ≠ []

theorem parseUUIDSet_filled {text : List Char} {set : List Char × List Interval}
    (parsed : parseUUIDSet text = some set) : set.2 ≠ [] := by
  unfold parseUUIDSet at parsed
  split at parsed
  · rename_i first rest _
    simp only [Option.pure_def, Option.bind_eq_bind, Option.bind_eq_some_iff, List.mapM_cons,
      Option.some.injEq] at parsed
    obtain ⟨uuid, _, intervals, ⟨interval, _, others, _, rfl⟩, rfl⟩ := parsed
    exact normalize_ne_nil (by simp)
  · contradiction

theorem addSet_filled {sets : GTIDSet} {set : List Char × List Interval} (filled : Filled sets)
    (nonempty : set.2 ≠ []) : Filled (addSet sets set) := by
  intro entry member
  unfold addSet at member
  split at member
  · rcases List.mem_append.mp member with member | member
    · exact filled entry member
    · rw [List.mem_singleton.mp member]
      exact nonempty
  · obtain ⟨held, inside, rfl⟩ := List.mem_map.mp member
    split
    · exact normalize_ne_nil (by simp [nonempty])
    · exact filled held inside

theorem parseMysqlGTIDSet_filled {text : String} {sets : GTIDSet}
    (parsed : parseMysqlGTIDSet text = some sets) : Filled sets := by
  have fold : ∀ (parts : List (List Char)) (start : GTIDSet), Filled start →
      parts.foldlM (fun sets part => (parseUUIDSet part).map (addSet sets)) start = some sets →
      Filled sets := by
    intro parts
    induction parts with
    | nil =>
      intro start filled folded
      cases folded
      exact filled
    | cons part rest ih =>
      intro start filled folded
      rw [List.foldlM_cons] at folded
      obtain ⟨next, added, folded⟩ := Option.bind_eq_some_iff.mp folded
      obtain ⟨set, read, rfl⟩ := Option.map_eq_some_iff.mp added
      exact ih _ (addSet_filled filled (parseUUIDSet_filled read)) folded
  unfold parseMysqlGTIDSet at parsed
  split at parsed
  · cases parsed
    simp [Filled]
  · exact fold _ [] (by simp [Filled]) parsed

theorem logTxnID_isSome_iff (log : LogForElection) :
    (logTxnID log).isSome = true ↔ Computable log := by
  unfold logTxnID Computable
  split
  · rename_i stored
    simp [stored]
  · rename_i older
    simp only [older, false_or, getTxnIDFromGTIDStr]
    cases parsed : parseMysqlGTIDSet log.lastGTID with
    | none => simp
    | some sets =>
      have filled := parseMysqlGTIDSet_filled parsed
      cases found : sets.lookup log.lastUUID.toList with
      | none =>
        have unknown : log.lastUUID.toList ∉ sets.map Prod.fst := by
          intro inside
          obtain ⟨set, member, named⟩ := List.mem_map.mp inside
          have differs := List.lookup_eq_none_iff.mp found set member
          simp [named] at differs
        simpa [found] using unknown
      | some intervals =>
        obtain ⟨before, after, same, _⟩ := List.lookup_eq_some_iff.mp found
        have member : (log.lastUUID.toList, intervals) ∈ sets := by simp [same]
        have ends := List.getLast?_eq_some_getLast (filled _ member)
        have known : log.lastUUID.toList ∈ sets.map Prod.fst := List.mem_map.mpr ⟨_, member, rfl⟩
        simpa [found, ends] using known

theorem logTxnID_of_computable {log : LogForElection} (computable : Computable log) :
    logTxnID log = some (txnID log) := by
  obtain ⟨endTxnID, read⟩ := Option.isSome_iff_exists.mp ((logTxnID_isSome_iff log).mpr computable)
  simp [txnID, read]

theorem computable_of_logTxnID {log : LogForElection} {endTxnID : UInt64}
    (read : logTxnID log = some endTxnID) : Computable log ∧ txnID log = endTxnID :=
  ⟨(logTxnID_isSome_iff log).mp (by simp [read]), by simp [txnID, read]⟩

/-- No other log is of a greater term, and none of the same term whose
transaction ID is computable has a greater one. -/
structure Latest (logs : Logs) (id : NodeID) (mine : LogForElection) : Prop where
  member : (id, mine) ∈ logs
  computable : Computable mine
  term_le : ∀ entry ∈ logs, entry.1 ≠ id → entry.2.term ≤ mine.term
  txnID_le : ∀ entry ∈ logs, entry.1 ≠ id → entry.2.term = mine.term → Computable entry.2 →
    txnID entry.2 ≤ txnID mine

theorem concedes_iff {term endTxnID : UInt64} {log : LogForElection} :
    Concedes term endTxnID log ↔
      log.term ≤ term ∧ (log.term = term → Computable log → txnID log ≤ endTxnID) := by
  constructor
  · rintro (lower | ⟨same, bounded⟩)
    · exact ⟨UInt64.le_of_lt lower, fun same => absurd same (UInt64.ne_of_lt lower)⟩
    · exact ⟨same ▸ UInt64.le_refl _,
        fun _ computable => bounded _ (logTxnID_of_computable computable)⟩
  · rintro ⟨most, bounded⟩
    by_cases same : log.term = term
    · refine .inr ⟨same, fun another read => ?_⟩
      obtain ⟨computable, rfl⟩ := computable_of_logTxnID read
      exact bounded same computable
    · exact .inl (UInt64.lt_of_le_of_ne most same)

theorem stands_iff_latest {logs : Logs} {id : NodeID} {mine : LogForElection} :
    (∃ endTxnID, Stands logs id mine endTxnID) ↔ Latest logs id mine := by
  constructor
  · rintro ⟨endTxnID, member, read, unbeaten⟩
    obtain ⟨computable, rfl⟩ := computable_of_logTxnID read
    have concedes := fun entry inside other => concedes_iff.mp (unbeaten entry inside other)
    exact ⟨member, computable, fun entry inside other => (concedes entry inside other).1,
      fun entry inside other => (concedes entry inside other).2⟩
  · rintro ⟨member, computable, term_le, txnID_le⟩
    refine ⟨txnID mine, member, logTxnID_of_computable computable, fun entry inside other => ?_⟩
    exact concedes_iff.mpr ⟨term_le entry inside other, txnID_le entry inside other⟩

theorem alone_iff {logs : Logs} {id : NodeID} {mine : LogForElection} :
    Alone logs id mine ↔
      Latest logs id mine ∧ ∀ entry ∈ logs, entry.1 ≠ id → entry.2.term < mine.term := by
  constructor
  · rintro ⟨member, read, highest⟩
    have computable := (logTxnID_isSome_iff mine).mp (Option.isSome_iff_ne_none.mpr read)
    exact ⟨⟨member, computable, fun entry inside other => UInt64.le_of_lt (highest _ inside other),
      fun entry inside other same => absurd same (UInt64.ne_of_lt (highest _ inside other))⟩,
      highest⟩
  · rintro ⟨latest, highest⟩
    refine ⟨latest.member, ?_, highest⟩
    rw [logTxnID_of_computable latest.computable]
    exact Option.some_ne_none _

/-- The verdict of a node over a map of logs, in whatever order the map is
visited: the latest log, and the only one of the greatest term. -/
theorem isLatestLog_specification (s : Server) {logs seen : Logs}
    (distinct : (logs.map Prod.fst).Nodup) (visited : seen.Perm logs) :
    ((isLatestLog s seen).1 = true ↔ ∃ mine, Latest logs s.id mine) ∧
    ((isLatestLog s seen).2 = true ↔ (isLatestLog s seen).1 = true ∧
      ∃ mine, (s.id, mine) ∈ logs ∧
        ∀ entry ∈ logs, entry.1 ≠ s.id → entry.2.term < mine.term) := by
  rw [isLatestLog_perm s distinct visited]
  have latest : (isLatestLog s logs).1 = true ↔ ∃ mine, Latest logs s.id mine := by
    rw [isLatestLog_fst s distinct]
    exact exists_congr fun mine => stands_iff_latest
  refine ⟨latest, ?_⟩
  rw [latest, isLatestLog_snd s distinct]
  constructor
  · rintro ⟨mine, alone⟩
    obtain ⟨stands, highest⟩ := alone_iff.mp alone
    exact ⟨⟨mine, stands⟩, mine, stands.member, highest⟩
  · rintro ⟨⟨mine, stands⟩, own, member, highest⟩
    cases (lookup_of_mem distinct stands.member).symm.trans (lookup_of_mem distinct member)
    exact ⟨mine, alone_iff.mpr ⟨stands, highest⟩⟩

private def mixedLogs : Logs :=
  [("a", ⟨3, "3e11fa47-71ca-11e1-9e33-c80aa9429562", "3e11fa47-71ca-11e1-9e33-c80aa9429562:1-5",
      0, 1⟩),
    ("z", ⟨2, "w", "w:1-9", 10, 2⟩), ("b", ⟨3, "u", "?", 9, 1⟩)]

/-- An own log of version 1, another of its term whose text does not parse, and one
that is behind, visited the other way round. -/
theorem isLatestLog_specification_of_three :
    isLatestLog { id := "a", cfg := ⟨false, 10, 5⟩ } mixedLogs.reverse = (true, false) ∧
      ∃ mine, Latest mixedLogs "a" mine := by
  have verdict : isLatestLog { id := "a", cfg := ⟨false, 10, 5⟩ } mixedLogs.reverse =
      (true, false) := by
    decide +kernel
  refine ⟨verdict, ?_⟩
  exact (isLatestLog_specification { id := "a", cfg := ⟨false, 10, 5⟩ } (by decide)
    (List.reverse_perm mixedLogs)).1.mp (congrArg Prod.fst verdict)

/-! ### The verdicts of a round -/

/-- The pair that a round compares, lexicographically. -/
def rank (log : LogForElection) : ℕ ×ₗ ℕ := toLex (log.term.toNat, log.endTxnID.toNat)

private theorem logTxnID_of_version {log : LogForElection} (version : log.version = 2) :
    logTxnID log = some log.endTxnID := by
  simp [logTxnID, version]

theorem concedes_iff_rank_le {mine other : LogForElection} (version : other.version = 2) :
    Concedes mine.term mine.endTxnID other ↔ rank other ≤ rank mine := by
  have read := logTxnID_of_version version
  have bounded : (∀ another, some other.endTxnID = some another → another ≤ mine.endTxnID) ↔
      other.endTxnID ≤ mine.endTxnID := by simp
  unfold Concedes
  rw [read, bounded]
  simp only [rank, Prod.Lex.toLex_le_toLex, UInt64.lt_iff_toNat_lt, UInt64.le_iff_toNat_le,
    ← UInt64.toNat_inj]

section Round
variable {logs : Logs} (distinct : (logs.map Prod.fst).Nodup)
  (version : ∀ entry ∈ logs, entry.2.version = 2) (s : Server)
include distinct version

private theorem latest_iff {log : LogForElection} (member : (s.id, log) ∈ logs) :
    (isLatestLog s logs).1 = true ↔ ∀ entry ∈ logs, rank entry.2 ≤ rank log := by
  have read := logTxnID_of_version (version _ member)
  have own : ∀ other, (s.id, other) ∈ logs → other = log := fun other inside =>
    Option.some.inj ((lookup_of_mem distinct inside).symm.trans (lookup_of_mem distinct member))
  rw [isLatestLog_fst s distinct]
  constructor
  · rintro ⟨mine, endTxnID, stands⟩ ⟨id, other⟩ inside
    cases own mine stands.member
    cases read.symm.trans stands.read
    by_cases same : id = s.id
    · subst same
      exact (own other inside) ▸ le_rfl
    · exact (concedes_iff_rank_le (version _ inside)).mp (stands.unbeaten _ inside same)
  · intro greatest
    exact ⟨log, log.endTxnID, member, read, fun entry inside _ =>
      (concedes_iff_rank_le (version _ inside)).mpr (greatest entry inside)⟩

end Round

/-- Every node of a round runs `isLatestLog` over the same logs of version 2, in
an order of its own. Some node is the latest, and whoever is has the greatest term
and transaction ID; at most one node is a single point, and beside it nobody is
the latest. -/
theorem round_has_latest_and_one_single_point {logs : Logs} (some : logs ≠ [])
    (distinct : (logs.map Prod.fst).Nodup) (version : ∀ entry ∈ logs, entry.2.version = 2)
    {server : NodeID → Server} (named : ∀ n, (server n).id = n) {seen : NodeID → Logs}
    (same : ∀ n, (seen n).Perm logs) :
    (∃ entry ∈ logs, (isLatestLog (server entry.1) (seen entry.1)).1 = true) ∧
    (∀ entry ∈ logs, (isLatestLog (server entry.1) (seen entry.1)).1 = true →
      ∀ other ∈ logs, rank other.2 ≤ rank entry.2) ∧
    (∀ n m, (isLatestLog (server n) (seen n)).2 = true →
      (isLatestLog (server m) (seen m)).2 = true → n = m) ∧
    (∀ n m, (isLatestLog (server n) (seen n)).2 = true → m ≠ n →
      (isLatestLog (server m) (seen m)).1 = false) := by
  have verdict : ∀ n, isLatestLog (server n) (seen n) = isLatestLog (server n) logs :=
    fun n => isLatestLog_perm _ distinct (same n)
  have member : ∀ entry ∈ logs, ((server entry.1).id, entry.2) ∈ logs := by
    intro entry inside
    rwa [named]
  -- beside a single point nobody is the latest, so nobody else is a single point
  have excluded : ∀ n m, (isLatestLog (server n) logs).2 = true → m ≠ n →
      (isLatestLog (server m) logs).1 = false := by
    intro n m single differs
    obtain ⟨log, alone⟩ := (isLatestLog_snd _ distinct).mp single
    rw [Bool.eq_false_iff]
    intro latest
    obtain ⟨mine, endTxnID, stands⟩ := (isLatestLog_fst _ distinct).mp latest
    rw [named] at alone stands
    have lower : mine.term < log.term := alone.highest _ stands.member differs
    rcases stands.unbeaten _ alone.member (Ne.symm differs) with higher | ⟨equal, _⟩
    · exact absurd lower (by simpa using UInt64.le_of_lt higher)
    · exact absurd equal (UInt64.ne_of_lt lower).symm
  simp only [verdict]
  refine ⟨?_, ?_, ?_, excluded⟩
  · obtain ⟨greatest, inside, max⟩ :=
      logs.toFinset.exists_max_image (fun entry => rank entry.2) (by simpa using some)
    rw [List.mem_toFinset] at inside
    refine ⟨greatest, inside, (latest_iff distinct version _ (member _ inside)).mpr ?_⟩
    exact fun entry present => max entry (List.mem_toFinset.mpr present)
  · intro entry inside latest
    exact (latest_iff distinct version _ (member _ inside)).mp latest
  · intro n m first second
    by_contra differs
    have unbeaten := excluded n m first (Ne.symm differs)
    obtain ⟨log, alone⟩ := (isLatestLog_snd _ distinct).mp second
    rw [Bool.eq_false_iff, ne_eq, isLatestLog_fst _ distinct] at unbeaten
    obtain ⟨endTxnID, read⟩ := Option.ne_none_iff_exists'.mp alone.read
    exact unbeaten ⟨log, endTxnID, alone.member, read,
      fun entry inside other => .inl (alone.highest entry inside other)⟩

/-- Two candidates of one term and one that is behind. -/
theorem round_has_latest_and_one_single_point_of_three :
    ∃ entry ∈ ([("a", ⟨3, "u", "u:1-5", 6, 2⟩), ("b", ⟨3, "u", "u:1-7", 8, 2⟩),
      ("z", ⟨2, "w", "w:1-9", 10, 2⟩)] : Logs),
      (isLatestLog { id := entry.1, cfg := ⟨false, 10, 5⟩ }
        [("a", ⟨3, "u", "u:1-5", 6, 2⟩), ("b", ⟨3, "u", "u:1-7", 8, 2⟩),
          ("z", ⟨2, "w", "w:1-9", 10, 2⟩)]).1 = true :=
  (@round_has_latest_and_one_single_point
    [("a", ⟨3, "u", "u:1-5", 6, 2⟩), ("b", ⟨3, "u", "u:1-7", 8, 2⟩),
      ("z", ⟨2, "w", "w:1-9", 10, 2⟩)] (by simp) (by decide) (by decide)
    (fun n => { id := n, cfg := ⟨false, 10, 5⟩ }) (fun _ => rfl) (fun _ => _)
    (fun _ => .refl _)).1

/-! ### Schema versions -/

/-- The columns of the slave status that `LoadReplicationInfoOfSlave` reads. -/
structure SlaveStatus where
  masterUUID : String
  executedGtidSet : String

def replicationInfo (masterUUID executedGTID : String) : Option ReplicationInfo :=
  match getTxnIDFromGTIDStr executedGTID masterUUID with
  | .error _ => none
  | .ok endTxnID => some ⟨masterUUID, executedGTID, endTxnID.toUInt64⟩

/-- `service_manager.go::LoadReplicationInfoOfSlave` on the answer of the query;
a node without a master UUID was never a slave. -/
def loadReplicationInfoOfSlave (status : Option SlaveStatus) : Option ReplicationInfo :=
  status.bind fun rSet =>
    if rSet.masterUUID = "" then none else replicationInfo rSet.masterUUID rSet.executedGtidSet

/-- `service_manager.go::LoadReplicationInfoOfMaster` on the answers of its two
queries. -/
def loadReplicationInfoOfMaster (gtidSet serverUUID : Option String) : Option ReplicationInfo :=
  gtidSet.bind fun gtid => serverUUID.bind fun uuid => replicationInfo uuid gtid

/-- The log was uploaded after a successful load, by an agent of any schema version. -/
def Loaded (log : LogForElection) : Prop :=
  ∃ s info version, ((∃ status, loadReplicationInfoOfSlave status = some info) ∨
      ∃ gtidSet serverUUID, loadReplicationInfoOfMaster gtidSet serverUUID = some info) ∧
    log = { electionLogOf s info with version := version }

private theorem replicationInfo_txnID {uuid gtid : String} {info : ReplicationInfo}
    (loaded : replicationInfo uuid gtid = some info) :
    ∃ txnID, getTxnIDFromGTIDStr info.executedGTID info.masterUUID = .ok txnID ∧
      info.endTxnID = txnID.toUInt64 := by
  unfold replicationInfo at loaded
  split at loaded
  · contradiction
  · rename_i txnID read
    cases loaded
    exact ⟨txnID, read, rfl⟩

/-- After a successful load the stored counter and the GTID text agree, so the
version of the log decides nothing. -/
theorem logTxnID_of_loaded {log : LogForElection} (loaded : Loaded log) (version : Int) :
    logTxnID { log with version := version } = some log.endTxnID := by
  obtain ⟨s, info, _, load, rfl⟩ := loaded
  obtain ⟨txnID, read, counter⟩ : ∃ txnID,
      getTxnIDFromGTIDStr info.executedGTID info.masterUUID = .ok txnID ∧
        info.endTxnID = txnID.toUInt64 := by
    rcases load with ⟨status, load⟩ | ⟨gtidSet, serverUUID, load⟩
    · obtain ⟨rSet, _, load⟩ := Option.bind_eq_some_iff.mp load
      split at load
      · contradiction
      · exact replicationInfo_txnID load
    · obtain ⟨gtid, _, load⟩ := Option.bind_eq_some_iff.mp load
      obtain ⟨uuid, _, load⟩ := Option.bind_eq_some_iff.mp load
      exact replicationInfo_txnID load
  simp only [logTxnID, electionLogOf, read, counter, ite_self]

/-- The logs with the given schema versions. -/
def withVersions (versions : NodeID → Int) (logs : Logs) : Logs :=
  logs.map fun entry => (entry.1, { entry.2 with version := versions entry.1 })

private theorem compareLogs_withVersions {logs : Logs} (loaded : ∀ entry ∈ logs, Loaded entry.2)
    (versions versions' : NodeID → Int) (id : NodeID) (term endTxnID : UInt64)
    (isSinglePoint : Bool) :
    compareLogs id term endTxnID isSinglePoint (withVersions versions logs) =
      compareLogs id term endTxnID isSinglePoint (withVersions versions' logs) := by
  induction logs generalizing isSinglePoint with
  | nil => rfl
  | cons entry rest ih =>
    have rest' := ih fun other member => loaded other (List.mem_cons_of_mem _ member)
    have read := logTxnID_of_loaded (loaded entry (List.mem_cons_self ..))
    simp only [withVersions, List.map_cons, compareLogs] at rest' ⊢
    simp only [read, rest']

private theorem lookup_withVersions (versions : NodeID → Int) (logs : Logs) (id : NodeID) :
    (withVersions versions logs).lookup id =
      (logs.lookup id).map fun log => { log with version := versions id } := by
  induction logs with
  | nil => rfl
  | cons entry rest ih =>
    obtain ⟨serverID, log⟩ := entry
    by_cases own : id = serverID
    · subst own
      simp [withVersions]
    · simp only [withVersions, List.map_cons, List.lookup_cons, beq_false_of_ne own] at ih ⊢
      exact ih

private theorem distinct_withVersions (versions : NodeID → Int) {logs : Logs}
    (distinct : (logs.map Prod.fst).Nodup) :
    ((withVersions versions logs).map Prod.fst).Nodup := by
  simpa [withVersions, Function.comp_def] using distinct

/-- In a cluster of mixed schema versions every node comes to the same verdict
over the logs of successful loads, whatever version each log carries and in
whatever order the map is visited. -/
theorem schema_versions_agree {logs : Logs} (distinct : (logs.map Prod.fst).Nodup)
    (loaded : ∀ entry ∈ logs, Loaded entry.2) {versions versions' : NodeID → Int}
    {seen seen' : Logs} (same : seen.Perm (withVersions versions logs))
    (same' : seen'.Perm (withVersions versions' logs)) (s : Server) :
    isLatestLog s seen = isLatestLog s seen' := by
  rw [isLatestLog_perm s (distinct_withVersions versions distinct) same,
    isLatestLog_perm s (distinct_withVersions versions' distinct) same']
  unfold isLatestLog
  rw [lookup_withVersions, lookup_withVersions]
  cases found : logs.lookup s.id with
  | none => rfl
  | some log =>
    have read := logTxnID_of_loaded (loaded _ (mem_of_lookup found))
    simp only [Option.map_some, read]
    exact compareLogs_withVersions loaded versions versions' _ _ _ _

private def sampleServer (id : NodeID) : Server := { id := id, cfg := ⟨false, 10, 5⟩, term := 4 }

private def shortInfo : ReplicationInfo where
  masterUUID := "3e11fa47-71ca-11e1-9e33-c80aa9429562"
  executedGTID := "3e11fa47-71ca-11e1-9e33-c80aa9429562:1-5"
  endTxnID := 6

private def longInfo : ReplicationInfo where
  masterUUID := "3e11fa47-71ca-11e1-9e33-c80aa9429562"
  executedGTID := "3e11fa47-71ca-11e1-9e33-c80aa9429562:1-9"
  endTxnID := 10

private def sampleLogs : Logs :=
  [("a", electionLogOf (sampleServer "a") shortInfo),
    ("b", electionLogOf (sampleServer "b") longInfo)]

/-- A cluster of version 1, and the same cluster half upgraded, visited the other
way round. -/
theorem schema_versions_agree_half_upgraded :
    isLatestLog (sampleServer "b") (withVersions (fun _ => 1) sampleLogs) =
      isLatestLog (sampleServer "b")
        (withVersions (fun n => if n = "a" then 2 else 1) sampleLogs).reverse := by
  refine schema_versions_agree (by decide) ?_ (.refl _) (List.reverse_perm _) _
  intro entry member
  rcases List.mem_pair.mp member with rfl | rfl
  · exact ⟨_, shortInfo, 2, .inl ⟨some ⟨shortInfo.masterUUID, shortInfo.executedGTID⟩,
      by decide +kernel⟩, rfl⟩
  · exact ⟨_, longInfo, 2, .inr ⟨some longInfo.executedGTID, some longInfo.masterUUID,
      by decide +kernel⟩, rfl⟩

end Moha.LatestLog
