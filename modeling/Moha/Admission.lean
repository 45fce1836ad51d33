import Moha.ClusterSteps

/-! Admission by a new leader. A node that is one term behind compares its log
with the leader's before it follows, so that a node with more data stays out.
The log it compares is the one the process remembers, and it was loaded at its
last upload, its last resume or an earlier admission: the check is right exactly
for a process that remembers nothing, or nothing less than its database holds. -/
namespace Moha.Admission
open KeyValueStore LeaderRecord LeaderView Election LeaderLoop Cluster ClusterSteps Runs

/-- The node has a term, the leader the next one, and the logs are compared by
transaction ID. -/
structure OneBehind (s : Server) (leader : Leader) : Prop where
  positive : 1 ≤ s.term
  next : s.term = leader.leaderMeta.term - 1
  version : 2 ≤ leader.leaderMeta.version

/-- What the server remembers of its log is nothing, or not less than what its
service manager would report. -/
def UpToDate (s : Server) (reports : Reports) (leader : Leader) : Prop :=
  s.lastUUID = "" ∨ ∀ info, reports.choose (isPreviousMaster s leader) = some info →
    info.endTxnID ≤ s.lastTxnID

/-! ### One admission -/

private theorem sub_one_ne (term : UInt64) : term - 1 ≠ term := by
  intro same
  have := congrArg UInt64.toNat same
  simp [UInt64.toNat_sub] at this
  have := term.toNat_lt
  omega

theorem loadLogIfUnknown_term {s loaded : Server} {reports : Reports} {leader : Leader}
    (known : loadLogIfUnknown s reports leader = some loaded) : loaded.term = s.term := by
  obtain rfl | ⟨info, rfl⟩ := loadLogIfUnknown_some known
  · rfl
  · rfl

/-- For a node that is one term behind, only the loaded log counts. -/
theorem preWatch_oneBehind {s : Server} {reports : Reports} {leader : Leader}
    (behind : OneBehind s leader) :
    preWatch s reports leader =
      match loadLogIfUnknown s reports leader with
      | none => (s, some .loadLog)
      | some loaded =>
        if leader.leaderMeta.lastTxnID < loaded.lastTxnID then (loaded, some .laterTxnID)
        else ({ loaded with term := leader.leaderMeta.term }, none) := by
  have nonzero : s.term ≠ 0 := by
    intro zero
    have positive := behind.positive
    rw [zero] at positive
    exact absurd positive (by decide)
  have notEarlier : ¬ s.term < leader.leaderMeta.term - 1 := by
    rw [behind.next]
    exact UInt64.lt_irrefl _
  have notSame : s.term ≠ leader.leaderMeta.term := by
    rw [behind.next]
    exact sub_one_ne _
  rw [preWatch, if_neg nonzero, if_neg notEarlier, if_neg notSame]
  cases known : loadLogIfUnknown s reports leader with
  | none => rfl
  | some loaded =>
    have term := (loadLogIfUnknown_term known).trans behind.next
    simp only [checkLogIndex, if_pos behind.version]
    by_cases later : leader.leaderMeta.lastTxnID < loaded.lastTxnID
    · simp [later]
    · simp [later, term]

/-- A process that remembers a log is admitted exactly when that log is not
later than the leader's, and then it has the leader's term. -/
theorem preWatch_remembered {s : Server} {reports : Reports} {leader : Leader}
    (behind : OneBehind s leader) (remembers : s.lastUUID ≠ "") :
    ((preWatch s reports leader).2 = none ↔ s.lastTxnID ≤ leader.leaderMeta.lastTxnID) ∧
      ((preWatch s reports leader).2 = none →
        (preWatch s reports leader).1.term = leader.leaderMeta.term) := by
  rw [preWatch_oneBehind behind, loadLogIfUnknown, if_neg remembers]
  dsimp only
  split
  · rename_i later
    simpa using later
  · rename_i notLater
    simpa using notLater

/-- An up-to-date process is admitted only when its database reports no more
than the leader published. -/
theorem reported_le_of_admitted {s : Server} {reports : Reports} {leader : Leader}
    {info : ReplicationInfo} (behind : OneBehind s leader) (current : UpToDate s reports leader)
    (admitted : (preWatch s reports leader).2 = none)
    (reported : reports.choose (isPreviousMaster s leader) = some info) :
    info.endTxnID ≤ leader.leaderMeta.lastTxnID := by
  by_cases unknown : s.lastUUID = ""
  · rw [preWatch_oneBehind behind, loadLogIfUnknown, if_pos unknown, reported] at admitted
    dsimp only [Option.map_some] at admitted
    split at admitted
    · cases admitted
    · rename_i notLater
      exact UInt64.not_lt.mp notLater
  · have remembered := ((preWatch_remembered behind unknown).1.mp admitted)
    rcases current with empty | covers
    · exact absurd empty unknown
    · exact UInt64.le_trans (covers info reported) remembered

/-- The condition is exact: a process that is not up to date is admitted by a
leader that published exactly what the process remembers. -/
theorem admitted_with_more_of_not_upToDate {s : Server} {reports : Reports} {leader : Leader}
    (behind : OneBehind s leader) (stale : ¬ UpToDate s reports leader)
    (published : leader.leaderMeta.lastTxnID = s.lastTxnID) :
    (preWatch s reports leader).2 = none ∧
      ∃ info, reports.choose (isPreviousMaster s leader) = some info ∧
        leader.leaderMeta.lastTxnID < info.endTxnID := by
  obtain ⟨remembers, more⟩ := not_or.mp stale
  refine ⟨(preWatch_remembered behind remembers).1.mpr ?_, ?_⟩
  · rw [published]
    exact UInt64.le_refl _
  · simp only [not_forall] at more
    obtain ⟨info, reported, later⟩ := more
    exact ⟨info, reported, by rwa [published, ← UInt64.not_le]⟩

/-! ### Every run -/

/-- A node that reads a leader one term ahead is up to date then, and stays so
while its database goes on until the check. -/
def Refreshed (c : State) : Action → Prop
  | .call n .read => ∀ leader myTerm,
      (c.agents n).server.getLeaderAndMyTerm c.etcd = .ok (leader, myTerm) →
      leader.name ≠ "" → leader.name ≠ n →
      OneBehind { (c.agents n).server with term := myTerm } leader →
      UpToDate { (c.agents n).server with term := myTerm } (c.agents n).reports leader
  | .report n reports => ∀ leader, (c.agents n).loop = .preWatch leader →
      OneBehind (c.agents n).server leader → UpToDate (c.agents n).server reports leader
  | _ => True

/-- Every node at the check is up to date. -/
structure Checked (c : State) : Prop where
  formed : WellFormed c
  current : ∀ n leader, (c.agents n).running = true → (c.agents n).loop = .preWatch leader →
    OneBehind (c.agents n).server leader →
    UpToDate (c.agents n).server (c.agents n).reports leader

theorem checked_init (nodes : List NodeID) (named : "" ∉ nodes) (cfg : NodeID → Config) :
    Checked (init nodes named cfg) where
  formed := wellFormed_init nodes named cfg
  current := by
    intro n leader running
    cases running

theorem preWatch_of_phase {loop : Loop} {leader : Leader}
    (checking : phase loop = .checking leader) : loop = .preWatch leader := by
  unfold phase at checking
  split at checking <;> cases checking
  rfl

theorem OneBehind.of_memory {before after : Server} {leader : Leader}
    (memory : SameMemory before after) (behind : OneBehind after leader) :
    OneBehind before leader where
  positive := memory.term ▸ behind.positive
  next := memory.term ▸ behind.next
  version := behind.version

theorem UpToDate.of_memory {before after : Server} {reports : Reports} {leader : Leader}
    (memory : SameMemory before after) (current : UpToDate before reports leader) :
    UpToDate after reports leader := by
  have former : isPreviousMaster after leader = isPreviousMaster before leader := by
    simp [isPreviousMaster, memory.term, memory.id, memory.uuid]
  rw [UpToDate, former, memory.lastUUID, memory.lastTxnID]
  exact current

/-- A node at the check was there before, with the same memory, or has just read
the leader. -/
theorem at_check_step {c c' : State} {a : Action} (formed : WellFormed c)
    (taken : step c a = some c') {n : NodeID} {leader : Leader}
    (running : (c'.agents n).running = true) (loop : (c'.agents n).loop = .preWatch leader) :
    (c.agents n).running = true ∧
      ((c.agents n).loop = .preWatch leader ∧
          SameMemory (c.agents n).server (c'.agents n).server ∨
        ∃ myTerm, a = .call n .read ∧
          (c.agents n).server.getLeaderAndMyTerm c.etcd = .ok (leader, myTerm) ∧
          leader.name ≠ "" ∧ leader.name ≠ n ∧
          SameMemory { (c.agents n).server with term := myTerm } (c'.agents n).server) := by
  have checking : phase (c'.agents n).loop = .checking leader := by rw [loop]; rfl
  cases step_move taken n with
  | kept same memory kept =>
    rcases kept with kept | idle
    · exact ⟨same ▸ running, .inl ⟨preWatch_of_phase (kept ▸ checking), memory⟩⟩
    · cases idle.symm.trans checking
  | stopped _ stopped => cases stopped.symm.trans running
  | started _ _ _ result =>
    rw [result] at loop
    cases loop
  | @read found myTerm was action _ read result =>
    rw [result] at loop checking
    cases afterRead_move (c.agents n) found myTerm with
    | itself _ _ resuming => cases resuming.symm.trans checking
    | another present other checks memory =>
      cases checks.symm.trans loop
      rw [formed.id n] at other
      exact ⟨was, .inr ⟨myTerm, action, read, present, other, by rwa [result]⟩⟩
    | vacant _ vacant => rcases vacant with vacant | vacant <;> cases vacant.symm.trans checking
  | preWatched _ _ _ result =>
    rw [result] at loop
    dsimp only at loop
    split at loop <;> cases loop
  | uploaded _ _ _ result =>
    rw [result] at loop
    cases loop
  | won _ _ _ _ _ _ promoting => cases promoting.symm.trans checking

theorem checked_step {c c' : State} {a : Action} (checked : Checked c) (refreshed : Refreshed c a)
    (taken : step c a = some c') : Checked c' where
  formed := wellFormed_step checked.formed taken
  current := by
    intro n leader running loop behind
    obtain ⟨was, ⟨before, memory⟩ | ⟨myTerm, action, read, present, other, memory⟩⟩ :=
      at_check_step checked.formed taken running loop
    · refine UpToDate.of_memory memory ?_
      rcases step_reports taken n with same | reported
      · rw [same]
        exact checked.current n leader was before (behind.of_memory memory)
      · rw [reported] at refreshed
        exact refreshed leader before (behind.of_memory memory)
    · refine UpToDate.of_memory memory ?_
      rcases step_reports taken n with same | reported
      · subst action
        rw [same]
        exact refreshed leader myTerm read present other (behind.of_memory memory)
      · cases action.symm.trans reported

/-- In every run in which the nodes that check are up to date, a node that is
admitted one term behind has no more transactions than the leader published. -/
theorem admitted_has_no_more {nodes : List NodeID} {named : "" ∉ nodes} {cfg : NodeID → Config}
    {c c' : State} {n : NodeID} {leader : Leader} {info : ReplicationInfo}
    (run : Run step Refreshed (init nodes named cfg) c)
    (taken : step c (.call n .preWatch) = some c')
    (loop : (c.agents n).loop = .preWatch leader) (positive : 1 ≤ (c.agents n).server.term)
    (next : (c.agents n).server.term = leader.leaderMeta.term - 1)
    (version : 2 ≤ leader.leaderMeta.version)
    (admitted : (preWatch (c.agents n).server (c.agents n).reports leader).2 = none)
    (reported : (c.agents n).reports.choose (isPreviousMaster (c.agents n).server leader) =
      some info) :
    info.endTxnID ≤ leader.leaderMeta.lastTxnID := by
  have checked := run.invariant (checked_init nodes named cfg) checked_step
  have behind : OneBehind (c.agents n).server leader := ⟨positive, next, version⟩
  have current := checked.current n leader (step_call taken).1 loop behind
  exact reported_le_of_admitted behind current admitted reported

private def refreshed (c : State) : Action → Bool
  | .call n .read =>
    let covers (info : ReplicationInfo) : Bool :=
      decide (info.endTxnID ≤ (c.agents n).server.lastTxnID)
    (c.agents n).server.lastUUID == "" ||
      (c.agents n).reports.master.all covers && (c.agents n).reports.slave.all covers
  | .report n _ => !((c.agents n).loop matches .preWatch _)
  | _ => true

private theorem refreshed_of_check {c : State} {a : Action} (check : refreshed c a = true) :
    Refreshed c a := by
  unfold refreshed at check
  split at check
  · intro leader myTerm _ _ _ _
    simp only [Bool.or_eq_true, Bool.and_eq_true, beq_iff_eq] at check
    rcases check with empty | ⟨master, slave⟩
    · exact .inl empty
    · refine .inr fun info reported => ?_
      unfold Reports.choose at reported
      split at reported
      · simpa [reported] using master
      · simpa [reported] using slave
  · intro leader loop
    simp [loop] at check
  · unfold Refreshed
    split <;> simp_all

/-- A node loses an election for which it uploaded its log, and is admitted by
the winner. -/
theorem admitted_has_no_more_after_upload :
    ∃ c c' leader, Run step Refreshed (init ["a", "b"] (by decide) sampleCfg) c ∧
      step c (.call "b" .preWatch) = some c' ∧ (c.agents "b").loop = .preWatch leader ∧
      (c'.agents "b").loop = .persistMyTerm leader ∧ 6 ≤ leader.leaderMeta.lastTxnID := by
  have ran : (exec (restrict step refreshed) (init ["a", "b"] (by decide) sampleCfg)
      [.start "a" "u", .call "a" .read, .grant "a" 1, .etcd "a" .answered,
        .start "b" "v", .call "b" .read, .call "b" .preWatch, .etcd "b" .answered,
        .call "b" (.nodeStatus true), .call "b" (.redirectMaster true),
        .call "a" .crash, .expire 1, .report "b" { slave := some ⟨"u", "u:1-5", 6⟩ },
        .call "b" (.watchEnds false), .call "b" .read, .call "b" .upload, .etcd "b" .answered,
        .start "a" "u", .report "a" { master := some ⟨"u", "u:1-8", 9⟩ }, .call "a" .read,
        .call "a" .upload, .etcd "a" .answered, .call "a" (.download ["a", "b"]), .grant "a" 2,
        .etcd "a" .answered, .call "b" (.download ["b", "a"]), .grant "b" 3, .etcd "b" .answered,
        .call "b" .read]).any (fun c =>
      match (c.agents "b").loop with
      | .preWatch leader =>
        (step c (.call "b" .preWatch)).any (fun c' => (c'.agents "b").loop == .persistMyTerm leader)
          && (1 ≤ (c.agents "b").server.term : Bool)
          && (c.agents "b").server.term == leader.leaderMeta.term - 1
          && (2 ≤ leader.leaderMeta.version : Bool)
          && (preWatch (c.agents "b").server (c.agents "b").reports leader).2 == none
          && (c.agents "b").reports.choose (isPreviousMaster (c.agents "b").server leader) ==
            some ⟨"u", "u:1-5", 6⟩
      | _ => false) = true := by
    decide +kernel
  obtain ⟨c, run, found⟩ := exists_run_of_exec (fun _ _ => refreshed_of_check) ran
  split at found
  · rename_i leader loop
    simp only [Bool.and_eq_true, decide_eq_true_eq, beq_iff_eq] at found
    obtain ⟨⟨⟨⟨⟨follows, positive⟩, next⟩, version⟩, admitted⟩, reported⟩ := found
    cases taken : step c (.call "b" .preWatch) with
    | none => simp [taken] at follows
    | some c' =>
      refine ⟨c, c', leader, run, taken, loop, by simpa [taken] using follows, ?_⟩
      exact admitted_has_no_more run taken loop positive next version admitted reported
  · cases found

/-- A node remembers a log of five transactions from its admission by the leader
of term two and goes on to replicate. Another follower, with ten transactions,
becomes the leader of term three before the node has seen the key vacant, and
admits the node with its twenty. -/
theorem admitted_with_stale_log :
    ∃ c leader info, Run step InTime (init ["a", "b", "z"] (by decide) sampleCfg) c ∧
      (c.agents "b").running = true ∧ (c.agents "b").loop = .preWatch leader ∧
      1 ≤ (c.agents "b").server.term ∧
      (c.agents "b").server.term = leader.leaderMeta.term - 1 ∧
      2 ≤ leader.leaderMeta.version ∧
      (preWatch (c.agents "b").server (c.agents "b").reports leader).2 = none ∧
      (c.agents "b").reports.choose (isPreviousMaster (c.agents "b").server leader) = some info ∧
      leader.leaderMeta.lastTxnID < info.endTxnID := by
  have ran : (exec (restrict step fun _ a => !isLate a)
      (init ["a", "b", "z"] (by decide) sampleCfg)
      [.start "a" "u", .call "a" .read, .grant "a" 1, .etcd "a" .answered,
        .start "b" "v", .call "b" .read, .call "b" .preWatch, .etcd "b" .answered,
        .call "b" (.nodeStatus true), .call "b" (.redirectMaster true),
        .call "a" .crash, .expire 1, .start "a" "u",
        .report "a" { master := some ⟨"u", "u:1-5", 6⟩ }, .call "a" .read, .call "a" .upload,
        .etcd "a" .answered, .call "a" (.download ["a", "b", "z"]), .etcd "a" .answered,
        .report "b" { slave := some ⟨"u", "u:1-5", 6⟩ }, .call "b" (.watchEnds false),
        .call "b" .read, .call "b" .preWatch, .etcd "b" .answered,
        .call "b" (.nodeStatus true), .call "b" (.redirectMaster true),
        .start "z" "w", .call "z" .read, .call "z" .preWatch, .etcd "z" .answered,
        .call "z" (.nodeStatus true), .call "z" (.redirectMaster true),
        .report "b" { slave := some ⟨"u", "u:1-20", 21⟩ },
        .report "z" { slave := some ⟨"u", "u:1-10", 11⟩ },
        .call "a" .crash, .clean "a" .answered, .call "z" (.watchEnds false), .call "z" .read,
        .call "z" .upload, .etcd "z" .answered, .call "z" (.download ["a", "b", "z"]),
        .etcd "z" .answered, .call "b" (.watchEnds false), .call "b" .read]).any (fun c =>
      match (c.agents "b").loop with
      | .preWatch leader =>
        (c.agents "b").running && (1 ≤ (c.agents "b").server.term : Bool)
          && (c.agents "b").server.term == leader.leaderMeta.term - 1
          && (2 ≤ leader.leaderMeta.version : Bool)
          && (preWatch (c.agents "b").server (c.agents "b").reports leader).2 == none
          && (c.agents "b").reports.choose (isPreviousMaster (c.agents "b").server leader) ==
            some ⟨"u", "u:1-20", 21⟩
          && (leader.leaderMeta.lastTxnID < 21 : Bool)
      | _ => false) = true := by
    decide +kernel
  obtain ⟨c, run, found⟩ := exists_run_of_exec (fun _ _ => inTime_of_not_isLate) ran
  split at found
  · rename_i leader loop
    simp only [Bool.and_eq_true, decide_eq_true_eq, beq_iff_eq] at found
    obtain ⟨⟨⟨⟨⟨⟨running, positive⟩, next⟩, version⟩, admitted⟩, reported⟩, later⟩ := found
    exact ⟨c, leader, _, run, running, loop, positive, next, version, admitted, reported, later⟩
  · cases found

end Moha.Admission
