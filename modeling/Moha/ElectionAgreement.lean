import Moha.Admission
import Moha.LatestLog

/-! The election and the admission that follows it. A loser of an election
compares its log with the winner's a second time, through the winner's record in
etcd: what it uploaded is still in its memory, what the winner uploaded is what
the winner published, and the comparison comes out as it would have come out
between the two logs. -/
namespace Moha.ElectionAgreement
open KeyValueStore DecimalText LeaderRecord LeaderView Election LeaderLoop Cluster ClusterSteps
open Admission Runs

/-- A node of the stored term takes the upload step of `preCampaign` with a
successful load. -/
structure Uploads (c c' : State) (n : NodeID) (term : UInt64) (info : ReplicationInfo) :
    Prop where
  taken : step c (.call n .upload) = some c'
  loaded : ∃ former, (c.agents n).loop = .upload former ∧
    (c.agents n).reports.choose former = some info
  memory : (c.agents n).server.term = term
  stored : (view c.etcd).terms n = some (sprint term)
  known : info.masterUUID ≠ ""

/-- The node goes on from its upload to the end of its campaign, or from a read
to the check: it is not restarted, and it neither reads, nor checks, nor uploads. -/
def Stays (n : NodeID) (_ : State) (a : Action) : Prop :=
  (∀ uuid, a ≠ .start n uuid) ∧ a ≠ .call n .read ∧ a ≠ .call n .preWatch ∧ a ≠ .call n .upload

/-- The node has lost: it is not restarted, and no request of its own that puts
its term takes effect. Until the next check it does not upload again, and what
it reads is not itself. -/
def Loses (n : NodeID) (c : State) (a : Action) : Prop :=
  (∀ uuid, a ≠ .start n uuid) ∧ (a = .call n .read → ¬ (view c.etcd).LedBy n) ∧
    a ≠ .call n .preWatch ∧ a ≠ .call n .upload ∧
    ∀ request s, TakesEffect c a request → request.campaigner = some s ∨
      request.resumer = some s ∨ request = .persistMyTerm s → s.id ≠ n

/-- The published record stands: nobody wins, and who resumes publishes the same
record again. -/
def Stands (c : State) (a : Action) : Prop :=
  ∀ request s, TakesEffect c a request → request.campaigner ≠ some s ∧
    (request.resumer = some s → publishedBy s s.term = (view c.etcd).record)

/-! ### The uploaded log stays in memory -/

theorem upload_fields {c c' : State} {n : NodeID} {term : UInt64} {info : ReplicationInfo}
    (uploads : Uploads c c' n term info) :
    (c.agents n).running = true ∧
      c'.agents n = { c.agents n with
        server := loadLog (c.agents n).server info
        loop := .uploadPut (electionLogOf (c.agents n).server info) } ∧
      c'.etcd = c.etcd := by
  obtain ⟨running, advanced, etcd⟩ := step_advance uploads.taken rfl
  obtain ⟨former, loop, chosen⟩ := uploads.loaded
  refine ⟨running, ?_, etcd⟩
  cases former with
  | false =>
    have slave : (c.agents n).reports.slave = some info := chosen
    simp only [Agent.advance, loop, uploadLogForElectionAsSlave, slave, Option.getD_some,
      Option.some.injEq] at advanced
    exact advanced.symm
  | true =>
    have master : (c.agents n).reports.master = some info := chosen
    simp only [Agent.advance, loop, uploadLogForElectionAsFormerMaster, master, Option.map_some,
      Option.some.injEq] at advanced
    exact advanced.symm

/-- The node remembers the log it uploaded, and its term is stored. -/
structure Holds (n : NodeID) (term : UInt64) (info : ReplicationInfo) (c : State) : Prop where
  formed : WellFormed c
  lastUUID : (c.agents n).server.lastUUID = info.masterUUID
  lastTxnID : (c.agents n).server.lastTxnID = info.endTxnID
  stored : (view c.etcd).terms n = some (sprint term)

theorem holds_upload {c c' : State} {n : NodeID} {term : UInt64} {info : ReplicationInfo}
    (formed : WellFormed c) (uploads : Uploads c c' n term info) : Holds n term info c' := by
  obtain ⟨_, agent, etcd⟩ := upload_fields uploads
  exact
    { formed := wellFormed_step formed uploads.taken
      lastUUID := by rw [agent]; rfl
      lastTxnID := by rw [agent]; rfl
      stored := by rw [etcd]; exact uploads.stored }

theorem holds_step {c c' : State} {a : Action} {n : NodeID} {term : UInt64}
    {info : ReplicationInfo} (holds : Holds n term info c) (loses : Loses n c a)
    (taken : step c a = some c') : Holds n term info c' := by
  obtain ⟨noStart, notLeader, noCheck, noUpload, foreign⟩ := loses
  have kept : (c'.agents n).server.lastUUID = (c.agents n).server.lastUUID ∧
      (c'.agents n).server.lastTxnID = (c.agents n).server.lastTxnID := by
    cases step_move taken n with
    | kept _ memory => exact ⟨memory.lastUUID, memory.lastTxnID⟩
    | stopped _ _ memory => exact ⟨memory.lastUUID, memory.lastTxnID⟩
    | started _ _ action => exact absurd action (noStart _)
    | @read leader myTerm _ action _ found result =>
      rw [result]
      cases afterRead_move (c.agents n) leader myTerm with
      | itself present name =>
        obtain ⟨read, _, _, rfl⟩ := Server.getLeaderAndMyTerm_eq_ok found
        rw [holds.formed.id n] at name
        exact absurd (name ▸ ledBy_of_readLeader present) (notLeader action)
      | another _ _ _ memory => exact ⟨memory.lastUUID, memory.lastTxnID⟩
      | vacant _ _ memory => exact ⟨memory.lastUUID, memory.lastTxnID⟩
    | preWatched _ action => exact absurd action noCheck
    | uploaded _ action => exact absurd action noUpload
    | won _ _ _ _ _ _ _ memory => exact ⟨memory.lastUUID, memory.lastTxnID⟩
  have stored : (view c'.etcd).terms n = (view c.etcd).terms n := by
    cases step_view holds.formed taken with
    | same unchanged => rw [unchanged]
    | expire _ expired => rw [expired]; rfl
    | effect effect _ acted =>
      rw [acted]
      exact terms_act_kept fun s puts => foreign _ s effect puts
  exact
    { formed := wellFormed_step holds.formed taken
      lastUUID := kept.1.trans holds.lastUUID
      lastTxnID := kept.2.trans holds.lastTxnID
      stored := stored.trans holds.stored }

/-! ### The winner publishes what it uploaded -/

/-- While the campaign that followed the upload lasts, the memory is that of the
upload. -/
structure Campaigns (n : NodeID) (uploaded : Server) (c : State) : Prop where
  formed : WellFormed c
  memory : (c.agents n).running = true → phase (c.agents n).loop = .campaigning →
    SameMemory uploaded (c.agents n).server

theorem campaigns_step {c c' : State} {a : Action} {n : NodeID} {uploaded : Server}
    (campaigns : Campaigns n uploaded c) (stays : Stays n c a) (taken : step c a = some c') :
    Campaigns n uploaded c' where
  formed := wellFormed_step campaigns.formed taken
  memory := by
    intro running campaigning
    obtain ⟨noStart, noRead, noCheck, noUpload⟩ := stays
    cases step_move taken n with
    | kept same memory loop =>
      rcases loop with loop | idle
      · exact (campaigns.memory (same ▸ running) (loop ▸ campaigning)).trans memory
      · cases idle.symm.trans campaigning
    | stopped _ stopped => cases stopped.symm.trans running
    | started _ _ action => exact absurd action (noStart _)
    | read _ action => exact absurd action noRead
    | preWatched _ action => exact absurd action noCheck
    | uploaded _ action => exact absurd action noUpload
    | won _ _ _ _ _ _ promoting => cases promoting.symm.trans campaigning

/-- The record is the winner's, and as long as its key is there the meta version
is there too, under the same lease. -/
structure Published (winner : Server) (c : State) : Prop where
  formed : WellFormed c
  record : (view c.etcd).record = publishedBy winner (winner.term + 1)
  led : ∀ entry, (view c.etcd).leader = some entry → entry.value = .text winner.id ∧
    ∃ version, (view c.etcd).version = some version ∧
      version.value = number globalSchemaVersion ∧ version.lease = entry.lease

theorem published_win {c c' : State} {a : Action} {request : Request} {winner : Server}
    (formed : WellFormed c) (taken : step c a = some c') (effect : TakesEffect c a request)
    (campaigns : request.campaigner = some winner) : Published winner c' where
  formed := wellFormed_step formed taken
  record := by
    rw [etcd_of_applied taken effect.1, (view_commit effect.2).2, record_act_campaigner campaigns]
  led := by
    obtain ⟨lease, leader, version, _⟩ :=
      @leader_act (c.etcd.revision + 1) (view c.etcd) request winner (.inl campaigns)
    intro entry held
    rw [etcd_of_applied taken effect.1, (view_commit effect.2).2] at held ⊢
    cases leader.symm.trans held
    exact ⟨rfl, _, version, rfl, rfl⟩

theorem published_step {c c' : State} {a : Action} {winner : Server}
    (published : Published winner c) (stands : Stands c a) (taken : step c a = some c') :
    Published winner c' := by
  have formed := wellFormed_step published.formed taken
  cases step_view published.formed taken with
  | same unchanged =>
    exact ⟨formed, by rw [unchanged]; exact published.record,
      by rw [unchanged]; exact published.led⟩
  | @expire lease _ expired =>
    refine ⟨formed, by rw [expired]; exact published.record, ?_⟩
    intro entry held
    rw [expired] at held ⊢
    obtain ⟨before, attached⟩ := Option.filter_eq_some_iff.mp held
    obtain ⟨names, version, stored, value, same⟩ := published.led entry before
    refine ⟨names, version, ?_, value, same⟩
    simpa [View.expire, stored, Entry.attachedTo, same] using attached
  | @effect request effect guard acted =>
    rcases request_kinds request with ⟨s, campaigns⟩ | ⟨s, resumes⟩ | ⟨id, removes⟩ | other
    · exact absurd campaigns (stands request s effect).1
    · obtain ⟨entry, held, name⟩ := guard_resumer resumes guard
      obtain ⟨lease, leader, version, _⟩ :=
        @leader_act (c.etcd.revision + 1) (view c.etcd) request s (.inr resumes)
      refine ⟨formed, ?_, ?_⟩
      · rw [acted, record_act_resumer resumes, (stands request s effect).2 resumes]
        exact published.record
      · intro after put
        rw [acted] at put ⊢
        cases leader.symm.trans put
        exact ⟨name.symm.trans (published.led entry held).1, _, version, rfl, rfl⟩
    · refine ⟨formed, ?_, ?_⟩
      · rw [acted, (act_remover removes).2.1]
        exact published.record
      · intro entry held
        rw [acted, (act_remover removes).1] at held
        cases held
    · obtain ⟨leader, version, record⟩ := @act_other (c.etcd.revision + 1) (view c.etcd) request
        other.1 other.2.1 other.2.2
      refine ⟨formed, by rw [acted, record]; exact published.record, ?_⟩
      rw [acted, leader, version]
      exact published.led

/-! ### Reading the record back -/

theorem step_read {c c' : State} {n : NodeID} (taken : step c (.call n .read) = some c') :
    (c.agents n).loop = .getLeader := by
  obtain ⟨_, advanced, _⟩ := step_advance taken rfl
  simp only [Agent.advance] at advanced
  split at advanced
  · assumption
  · contradiction

theorem step_preWatch {c c' : State} {n : NodeID} {leader : Leader}
    (taken : step c (.call n .preWatch) = some c') (loop : (c.agents n).loop = .preWatch leader) :
    (c'.agents n).server = (preWatch (c.agents n).server (c.agents n).reports leader).1 := by
  obtain ⟨_, advanced, _⟩ := step_advance taken rfl
  simp only [Agent.advance, loop, Option.some.injEq] at advanced
  rw [← advanced]

/-- What a loser reads: the winner one term ahead, with the log it published. -/
theorem read_published {c : State} {n : NodeID} {term : UInt64} {info : ReplicationInfo}
    {winner : Server} {leader : Leader} {myTerm : UInt64} (published : Published winner c)
    (holds : Holds n term info c) (first : 1 ≤ term) (winnerTerm : winner.term = term)
    (found : (c.agents n).server.getLeaderAndMyTerm c.etcd = .ok (leader, myTerm))
    (present : leader.name ≠ "") :
    OneBehind { (c.agents n).server with term := myTerm } leader ∧
      leader.leaderMeta.lastTxnID = winner.lastTxnID ∧
      leader.leaderMeta.term = term + 1 := by
  obtain ⟨read, termRead, mine, rfl⟩ := Server.getLeaderAndMyTerm_eq_ok found
  have stored : (view c.etcd).record.term = some (sprint (winner.term + 1)) := by
    rw [published.record]
    rfl
  obtain ⟨rfl, _⟩ := readTerm_stored stored termRead
  rw [holds.formed.id n] at mine
  have same := readMyTerm_stored holds.stored mine
  subst same
  have fields := readLeader_published published.record
  obtain ⟨entry, held, _⟩ := ledBy_of_readLeader present
  obtain ⟨_, version, versionHeld, value, _⟩ := published.led entry held
  have versionText : asText (view c.etcd).version = some (sprint globalSchemaVersion) := by
    rw [versionHeld]
    cases version
    cases value
    rfl
  have parsed : atoi (sprint globalSchemaVersion) = some 2 := by
    rw [atoi_sprint (by decide)]
    rfl
  rw [fields]
  refine ⟨⟨first, ?_, ?_⟩, rfl, by rw [winnerTerm]⟩
  · rw [fields]
    simp [winnerTerm]
  · rw [fields]
    simp [versionText, parsed]

/-! ### The two comparisons -/

theorem logTxnID_electionLogOf (s : Server) (info : ReplicationInfo) :
    logTxnID (electionLogOf s info) = some info.endTxnID := by
  simp [logTxnID, electionLogOf, globalSchemaVersion]

theorem isLatestLog_uploaded {s winner loser : Server} {infoW infoF : ReplicationInfo}
    {logs : Logs} {serverID : String}
    (mine : logs.lookup s.id = some (electionLogOf winner infoW))
    (member : (serverID, electionLogOf loser infoF) ∈ logs) (other : s.id ≠ serverID)
    (sameTerm : loser.term = winner.term) (latest : (isLatestLog s logs).1 = true) :
    infoF.endTxnID ≤ infoW.endTxnID := by
  simp only [isLatestLog, mine, logTxnID_electionLogOf, LatestLog.compareLogs_fst] at latest
  rcases latest _ member (Ne.symm other) with lower | ⟨_, bounded⟩
  · exact absurd (by simp [electionLogOf, sameTerm]) (UInt64.ne_of_lt lower)
  · exact bounded _ (logTxnID_electionLogOf loser infoF)

/-! ### Agreement -/

/-- A node at the check that goes on there remembers what it read with. -/
private theorem at_check_run {c c' : State} {n : NodeID} {leader : Leader}
    (run : Run step (Stays n) c c') (formed : WellFormed c)
    (running : (c'.agents n).running = true) (loop : (c'.agents n).loop = .preWatch leader) :
    (c.agents n).running = true ∧ (c.agents n).loop = .preWatch leader ∧
      SameMemory (c.agents n).server (c'.agents n).server := by
  induction run with
  | refl => exact ⟨running, loop, .refl _⟩
  | snoc earlier stays taken ih =>
    have before := earlier.invariant formed fun formed _ taken => wellFormed_step formed taken
    obtain ⟨was, ⟨loop, memory⟩ | ⟨_, action, _⟩⟩ := at_check_step before taken running loop
    · obtain ⟨first, loop, same⟩ := ih was loop
      exact ⟨first, loop, same.trans memory⟩
    · exact absurd action stays.2.1

/-- The winner campaigns with the log it uploaded. -/
private theorem winner_memory {c c' win won : State} {W : NodeID} {term : UInt64}
    {info : ReplicationInfo} {lease : LeaseID} (formed : WellFormed c)
    (uploads : Uploads c c' W term info) (campaign : Run step (Stays W) c' win)
    (wins : step win (.etcd W .answered) = some won)
    (effect : TakesEffect win (.etcd W .answered) (.campaignLeader (win.agents W).server lease)) :
    WellFormed win ∧ (win.agents W).server.term = term ∧
      (win.agents W).server.lastTxnID = info.endTxnID := by
  obtain ⟨_, agent, _⟩ := upload_fields uploads
  have initial : Campaigns W (c'.agents W).server c' :=
    ⟨wellFormed_step formed uploads.taken, fun _ _ => .refl _⟩
  have campaigns := campaign.invariant initial campaigns_step
  have pending : (win.agents W).pending = some (.campaignLeader (win.agents W).server lease) :=
    effect.1
  have memory := campaigns.memory (step_etcd wins).1 (pending_campaigner pending rfl).2
  rw [agent] at memory
  exact ⟨campaigns.formed, memory.term.trans uploads.memory, memory.lastTxnID⟩

/-- `F` and `W` upload their logs with the same stored term, `W` wins with the
campaign its upload began, and `F`, which has lost, reads the record while it
stands. The check of `F` then passes exactly when the log that `F` uploaded is
not later than the log that `W` uploaded. In particular it passes, and `F` has
the next term, when `W` found its log the latest on some map with both logs. -/
theorem election_and_admission_agree {nodes : List NodeID} {named : "" ∉ nodes}
    {cfg : NodeID → Config} {F W : NodeID} {term : UInt64} {infoF infoW : ReplicationInfo}
    {uploadF uploadedF uploadW uploadedW win won reads read checks checked : State}
    {lease : LeaseID} {leader : Leader}
    (reachF : Run step (fun _ _ => True) (init nodes named cfg) uploadF)
    (reachW : Run step (fun _ _ => True) (init nodes named cfg) uploadW)
    (first : 1 ≤ term)
    (uploadsF : Uploads uploadF uploadedF F term infoF)
    (uploadsW : Uploads uploadW uploadedW W term infoW)
    (campaign : Run step (Stays W) uploadedW win)
    (wins : step win (.etcd W .answered) = some won)
    (effect : TakesEffect win (.etcd W .answered)
      (.campaignLeader (win.agents W).server lease))
    (stands : Run step Stands won reads)
    (loses : Run step (Loses F) uploadedF reads)
    (readsRecord : step reads (.call F .read) = some read)
    (waits : Run step (Stays F) read checks)
    (loop : (checks.agents F).loop = .preWatch leader)
    (taken : step checks (.call F .preWatch) = some checked) :
    ((preWatch (checks.agents F).server (checks.agents F).reports leader).2 = none ↔
        infoF.endTxnID ≤ infoW.endTxnID) ∧
      ∀ (logs : Logs) (serverID : String),
        logs.lookup W = some (electionLogOf (uploadW.agents W).server infoW) →
        (serverID, electionLogOf (uploadF.agents F).server infoF) ∈ logs → W ≠ serverID →
        (isLatestLog (win.agents W).server logs).1 = true →
        (preWatch (checks.agents F).server (checks.agents F).reports leader).2 = none ∧
          (checked.agents F).server.term = term + 1 := by
  have formedOf : ∀ {c : State}, Run step (fun _ _ => True) (init nodes named cfg) c →
      WellFormed c := fun reach =>
    reach.invariant (wellFormed_init nodes named cfg) fun formed _ taken =>
      wellFormed_step formed taken
  obtain ⟨formedWin, winnerTerm, winnerTxnID⟩ :=
    winner_memory (formedOf reachW) uploadsW campaign wins effect
  have published := stands.invariant (published_win formedWin wins effect rfl) published_step
  have holds := loses.invariant (holds_upload (formedOf reachF) uploadsF) holds_step
  have formedRead := wellFormed_step holds.formed readsRecord
  obtain ⟨running, atCheck, memory⟩ :=
    at_check_run waits formedRead (step_call taken).1 loop
  obtain ⟨_, ⟨before, _⟩ | ⟨myTerm, _, found, present, _, readMemory⟩⟩ :=
    at_check_step holds.formed readsRecord running atCheck
  · cases (step_read readsRecord).symm.trans before
  have same := readMemory.trans memory
  obtain ⟨behindRead, leaderTxnID, leaderTerm⟩ :=
    read_published published holds first winnerTerm found present
  have behind : OneBehind (checks.agents F).server leader :=
    ⟨same.term ▸ behindRead.positive, same.term ▸ behindRead.next, behindRead.version⟩
  have remembers : (checks.agents F).server.lastUUID ≠ "" := by
    rw [same.lastUUID, holds.lastUUID]
    exact uploadsF.known
  obtain ⟨admitted, admittedTerm⟩ :=
    @preWatch_remembered (checks.agents F).server (checks.agents F).reports leader behind remembers
  rw [same.lastTxnID, holds.lastTxnID, leaderTxnID, winnerTxnID] at admitted
  refine ⟨admitted, ?_⟩
  intro logs serverID mine member other latest
  have passes := admitted.mpr (isLatestLog_uploaded (by rwa [formedWin.id W]) member
    (by rwa [formedWin.id W]) (uploadsF.memory.trans uploadsW.memory.symm) latest)
  exact ⟨passes, by rw [step_preWatch taken loop, admittedTerm passes, leaderTerm]⟩

private def stays (n : NodeID) (_ : State) : Action → Bool
  | .start m _ | .call m .read | .call m .preWatch | .call m .upload => m != n
  | _ => true

private theorem stays_of_check {n : NodeID} {c : State} {a : Action}
    (check : stays n c a = true) : Stays n c a := by
  refine ⟨?_, ?_, ?_, ?_⟩
  · rintro uuid rfl
    simp [stays] at check
  all_goals
    rintro rfl
    simp [stays] at check

private def loses (n : NodeID) (c : State) (a : Action) : Bool :=
  (match a with
    | .start m _ | .call m .preWatch | .call m .upload => m != n
    | .call m .read => m != n || c.etcd.value .leaderPath != some (.text n)
    | _ => true) &&
  (applied c a).all fun request =>
    match request with
    | .campaignLeader s _ | .campaignLeaderAsSinglePoint s | .resumeLeader s _
    | .resumeLeaderAsSinglePoint s | .persistMyTerm s =>
      s.id != n || (c.etcd.commit request.txn).2 != .done true
    | _ => true

private theorem loses_of_check {n : NodeID} {c : State} {a : Action}
    (check : loses n c a = true) : Loses n c a := by
  obtain ⟨own, requests⟩ := Bool.and_eq_true_iff.mp check
  refine ⟨?_, ?_, ?_, ?_, ?_⟩
  · rintro uuid rfl
    simp at own
  · rintro rfl led
    simp [ledBy_iff.mp led] at own
  · rintro rfl
    simp at own
  · rintro rfl
    simp at own
  · rintro request s ⟨applies, done⟩ puts rfl
    rw [applies] at requests
    cases request <;>
      simp_all [Request.campaigner, Request.resumer]

private def stands (c : State) (a : Action) : Bool :=
  (applied c a).all fun request =>
    (c.etcd.commit request.txn).2 != .done true ||
      request.campaigner.isNone && request.resumer.isNone

private theorem stands_of_check {c : State} {a : Action} (check : stands c a = true) :
    Stands c a := by
  rintro request s ⟨applies, done⟩
  simp_all [stands]

private def uploads (c : State) (n : NodeID) (term : UInt64) (info : ReplicationInfo) : Bool :=
  (match (c.agents n).loop with
    | .upload former => (c.agents n).reports.choose former == some info
    | _ => false) &&
  (c.agents n).server.term == term && text c.etcd (.myTermPath n) == some (sprint term) &&
  info.masterUUID != ""

private theorem uploads_of_check {c c' : State} {n : NodeID} {term : UInt64}
    {info : ReplicationInfo} (taken : step c (.call n .upload) = some c')
    (check : uploads c n term info = true) : Uploads c c' n term info := by
  simp only [uploads, Bool.and_eq_true, beq_iff_eq, bne_iff_ne] at check
  obtain ⟨⟨⟨loaded, memory⟩, stored⟩, known⟩ := check
  refine ⟨taken, ?_, memory, stored, known⟩
  split at loaded
  · rename_i former loop
    exact ⟨former, loop, by simpa using loaded⟩
  · cases loaded

private def checkedLeader : Loop → Option Leader
  | .preWatch leader => some leader
  | _ => none

private theorem loop_of_checkedLeader {loop : Loop} {leader : Leader}
    (checks : checkedLeader loop = some leader) : loop = .preWatch leader := by
  unfold checkedLeader at checks
  split at checks <;> cases checks
  rfl

/-- A follower with five transactions and the former master with eight upload
their logs. The master wins the next term and admits the follower. -/
theorem election_and_admission_agree_former_master :
    ∃ checks checked leader,
      (checks.agents "b").loop = .preWatch leader ∧
      step checks (.call "b" .preWatch) = some checked ∧
      (preWatch (checks.agents "b").server (checks.agents "b").reports leader).2 = none := by
  have ran : (exec (restrict step fun _ _ => true) (init ["a", "b"] (by decide) sampleCfg)
      [.start "a" "u", .call "a" .read, .grant "a" 1, .etcd "a" .answered,
        .start "b" "v", .call "b" .read, .call "b" .preWatch, .etcd "b" .answered,
        .call "b" (.nodeStatus true), .call "b" (.redirectMaster true),
        .call "a" .crash, .expire 1, .report "b" { slave := some ⟨"u", "u:1-5", 6⟩ },
        .call "b" (.watchEnds false), .call "b" .read]).any (fun uploadF =>
      uploads uploadF "b" 1 ⟨"u", "u:1-5", 6⟩ &&
      (step uploadF (.call "b" .upload)).any fun uploadedF =>
      (exec (restrict step (loses "b")) uploadedF
        [.etcd "b" .answered, .start "a" "u",
          .report "a" { master := some ⟨"u", "u:1-8", 9⟩ }, .call "a" .read]).any fun uploadW =>
      uploads uploadW "a" 1 ⟨"u", "u:1-8", 9⟩ && loses "b" uploadW (.call "a" .upload) &&
      (step uploadW (.call "a" .upload)).any fun uploadedW =>
      (exec (restrict step fun c a => stays "a" c a && loses "b" c a) uploadedW
        [.etcd "a" .answered, .call "a" (.download ["a", "b"]), .grant "a" 2]).any fun win =>
      decide (TakesEffect win (.etcd "a" .answered)
        (.campaignLeader (win.agents "a").server 2)) && loses "b" win (.etcd "a" .answered) &&
      (step win (.etcd "a" .answered)).any fun won =>
      (exec (restrict step fun c a => stands c a && loses "b" c a) won
        [.call "b" (.download ["b", "a"]), .grant "b" 3, .etcd "b" .answered]).any fun reads =>
      (step reads (.call "b" .read)).any fun read =>
      (checkedLeader (read.agents "b").loop).isSome &&
        (step read (.call "b" .preWatch)).isSome) = true := by
    decide +kernel
  obtain ⟨uploadF, reachF, found⟩ :
      ∃ c, Run step (fun _ _ => True) (init ["a", "b"] (by decide) sampleCfg) c ∧ _ :=
    exists_run_of_exec (fun _ _ _ => trivial) ran
  obtain ⟨checkF, found⟩ := Bool.and_eq_true_iff.mp found
  obtain ⟨uploadedF, takenF, found⟩ := (Option.any_eq_true _ _).mp found
  obtain ⟨uploadW, lost, found⟩ := exists_run_of_exec (fun _ _ => loses_of_check) found
  simp only [Bool.and_eq_true] at found
  obtain ⟨⟨checkW, lostUpload⟩, found⟩ := found
  obtain ⟨uploadedW, takenW, found⟩ := (Option.any_eq_true _ _).mp found
  obtain ⟨win, campaign, found⟩ :
      ∃ c, Run step (fun c a => Stays "a" c a ∧ Loses "b" c a) uploadedW c ∧ _ :=
    exists_run_of_exec (fun _ _ held => (Bool.and_eq_true_iff.mp held).imp stays_of_check
      loses_of_check) found
  simp only [Bool.and_eq_true, decide_eq_true_eq] at found
  obtain ⟨⟨effect, lostWin⟩, found⟩ := found
  obtain ⟨won, wins, found⟩ := (Option.any_eq_true _ _).mp found
  obtain ⟨reads, stood, found⟩ : ∃ c, Run step (fun c a => Stands c a ∧ Loses "b" c a) won c ∧ _ :=
    exists_run_of_exec (fun _ _ held => (Bool.and_eq_true_iff.mp held).imp stands_of_check
      loses_of_check) found
  obtain ⟨read, readsRecord, found⟩ := (Option.any_eq_true _ _).mp found
  obtain ⟨atCheck, enabled⟩ := Bool.and_eq_true_iff.mp found
  obtain ⟨checked, taken⟩ := Option.isSome_iff_exists.mp enabled
  obtain ⟨leader, checks⟩ := Option.isSome_iff_exists.mp atCheck
  have loop := loop_of_checkedLeader checks
  have reachW : Run step (fun _ _ => True) (init ["a", "b"] (by decide) sampleCfg) uploadW :=
    (reachF.snoc trivial takenF).trans (lost.weaken fun _ _ _ => trivial)
  have loses : Run step (Loses "b") uploadedF reads :=
    (((lost.snoc (loses_of_check lostUpload) takenW).trans
      (campaign.weaken fun _ _ held => held.2)).snoc (loses_of_check lostWin) wins).trans
      (stood.weaken fun _ _ held => held.2)
  have agree := election_and_admission_agree reachF reachW (by decide)
    (uploads_of_check takenF checkF) (uploads_of_check takenW checkW)
    (campaign.weaken fun _ _ held => held.1) wins effect (stood.weaken fun _ _ held => held.1)
    loses readsRecord (.refl read) loop taken
  exact ⟨read, checked, leader, loop, taken, agree.1.mpr (by decide)⟩

/-! ### What a restart or a late request changes -/

/-- Until its next check the node does not upload again, and what it reads is not itself. -/
def Waits (n : NodeID) (c : State) (a : Action) : Prop :=
  (a = .call n .read → ¬ (view c.etcd).LedBy n) ∧ a ≠ .call n .preWatch ∧ a ≠ .call n .upload

/-- `F` and then `W` have uploaded, `W` has won, and `F` is at its next check, on the record of
`W`. Whether `F` was restarted after its upload, or an earlier request of its own took effect,
is left open. -/
inductive Elected (F W : NodeID) (term : UInt64) (infoF infoW : ReplicationInfo) (checks : State)
    (leader : Leader) : Prop where
  | intro {nodes : List NodeID} {named : "" ∉ nodes} {cfg : NodeID → Config}
      {uploadF uploadedF uploadW uploadedW win won : State} {lease : LeaseID}
      (reach : Run step (fun _ _ => True) (init nodes named cfg) uploadF)
      (uploadsF : Uploads uploadF uploadedF F term infoF)
      (waits : Run step (Waits F) uploadedF uploadW)
      (uploadsW : Uploads uploadW uploadedW W term infoW)
      (campaign : Run step (fun c a => Stays W c a ∧ Waits F c a) uploadedW win)
      (wins : step win (.etcd W .answered) = some won)
      (effect : TakesEffect win (.etcd W .answered)
        (.campaignLeader (win.agents W).server lease))
      (stands : Run step (fun c a => Stands c a ∧ Waits F c a) won checks)
      (loop : (checks.agents F).loop = .preWatch leader)

private def waits (n : NodeID) (c : State) : Action → Bool
  | .call m .preWatch | .call m .upload => m != n
  | .call m .read => m != n || c.etcd.value .leaderPath != some (.text n)
  | _ => true

private theorem waits_of_check {n : NodeID} {c : State} {a : Action}
    (check : waits n c a = true) : Waits n c a := by
  refine ⟨?_, ?_, ?_⟩
  · rintro rfl led
    simp [waits, ledBy_iff.mp led] at check
  all_goals
    rintro rfl
    simp [waits] at check

/-- An election along given actions: up to the upload of `F`, to that of `W`, to the campaign of
`W` and to the check of `F`, with what the check is to say. -/
private def elects (F W : NodeID) (infoF infoW : ReplicationInfo) (lease : LeaseID)
    (toF toW toWin toCheck : List Action) (verdict : Option PreWatchError → Bool) : Bool :=
  (exec (restrict step fun _ _ => true) (init ["a", "b"] (by decide) sampleCfg) toF).any
    fun uploadF => uploads uploadF F 1 infoF &&
      (step uploadF (.call F .upload)).any fun uploadedF =>
  (exec (restrict step (waits F)) uploadedF toW).any
    fun uploadW => uploads uploadW W 1 infoW &&
      (step uploadW (.call W .upload)).any fun uploadedW =>
  (exec (restrict step fun c a => stays W c a && waits F c a) uploadedW toWin).any
    fun win => decide (TakesEffect win (.etcd W .answered)
        (.campaignLeader (win.agents W).server lease)) &&
      (step win (.etcd W .answered)).any fun won =>
  (exec (restrict step fun c a => stands c a && waits F c a) won toCheck).any
    fun checks => (checkedLeader (checks.agents F).loop).any fun leader =>
      verdict (preWatch (checks.agents F).server (checks.agents F).reports leader).2

private theorem elected_of_elects {F W : NodeID} {infoF infoW : ReplicationInfo} {lease : LeaseID}
    {toF toW toWin toCheck : List Action} {verdict : Option PreWatchError → Bool}
    (ran : elects F W infoF infoW lease toF toW toWin toCheck verdict = true) :
    ∃ checks leader, Elected F W 1 infoF infoW checks leader ∧
      verdict (preWatch (checks.agents F).server (checks.agents F).reports leader).2 = true := by
  obtain ⟨uploadF, reach, found⟩ :
      ∃ c, Run step (fun _ _ => True) (init ["a", "b"] (by decide) sampleCfg) c ∧ _ :=
    exists_run_of_exec (fun _ _ _ => trivial) ran
  obtain ⟨checkF, found⟩ := Bool.and_eq_true_iff.mp found
  obtain ⟨uploadedF, takenF, found⟩ := (Option.any_eq_true _ _).mp found
  obtain ⟨uploadW, waited, found⟩ := exists_run_of_exec (fun _ _ => waits_of_check) found
  obtain ⟨checkW, found⟩ := Bool.and_eq_true_iff.mp found
  obtain ⟨uploadedW, takenW, found⟩ := (Option.any_eq_true _ _).mp found
  obtain ⟨win, campaign, found⟩ :
      ∃ c, Run step (fun c a => Stays W c a ∧ Waits F c a) uploadedW c ∧ _ :=
    exists_run_of_exec (fun _ _ held => (Bool.and_eq_true_iff.mp held).imp stays_of_check
      waits_of_check) found
  obtain ⟨effect, found⟩ := Bool.and_eq_true_iff.mp found
  obtain ⟨won, wins, found⟩ := (Option.any_eq_true _ _).mp found
  obtain ⟨checks, stood, found⟩ :
      ∃ c, Run step (fun c a => Stands c a ∧ Waits F c a) won c ∧ _ :=
    exists_run_of_exec (fun _ _ held => (Bool.and_eq_true_iff.mp held).imp stands_of_check
      waits_of_check) found
  obtain ⟨leader, atCheck, said⟩ := (Option.any_eq_true _ _).mp found
  exact ⟨checks, leader, .intro reach (uploads_of_check takenF checkF) waited
    (uploads_of_check takenW checkW) campaign wins (of_decide_eq_true effect) stood
    (loop_of_checkedLeader atCheck), said⟩

/-- A follower of a lost master, up to its next upload. -/
private def loseMaster : List Action :=
  [Action.start "a" "u", .call "a" .read, .grant "a" 1, .etcd "a" .answered,
    .start "b" "v", .call "b" .read, .call "b" .preWatch, .etcd "b" .answered,
    .call "b" (.nodeStatus true), .call "b" (.redirectMaster true),
    .call "a" .crash, .expire 1, .report "b" { slave := some ⟨"u", "u:1-5", 6⟩ },
    .call "b" (.watchEnds false), .call "b" .read]

/-- The follower uploads; the campaign of the former master times out, and it tries again. -/
private def timeOut : List Action :=
  [Action.call "b" .upload, .etcd "b" .answered, .start "a" "u",
    .report "a" { master := some ⟨"u", "u:1-8", 9⟩ }, .call "a" .read, .call "a" .upload,
    .etcd "a" .answered, .call "a" (.download ["a", "b"]), .grant "a" 2, .etcd "a" .lost,
    .etcd "a" .answered, .call "a" .read]

/-- A master is lost. In one run its follower uploads, the former master wins, and the follower
is restarted and refused, since its log cannot be loaded anew. In another a campaign of the
former master times out and it uploads again; the campaign takes effect late and its lease
expires, the follower wins with less, and the former master is admitted as a node of the new
term. -/
theorem election_and_admission_disagree :
    (∃ checks leader, Elected "b" "a" 1 ⟨"u", "u:1-5", 6⟩ ⟨"u", "u:1-8", 9⟩ checks leader ∧
      (preWatch (checks.agents "b").server (checks.agents "b").reports leader).2 ≠ none) ∧
    ∃ checks leader, Elected "a" "b" 1 ⟨"u", "u:1-8", 9⟩ ⟨"u", "u:1-5", 6⟩ checks leader ∧
      (preWatch (checks.agents "a").server (checks.agents "a").reports leader).2 = none := by
  constructor
  · obtain ⟨checks, leader, elected, refused⟩ := @elected_of_elects "b" "a" ⟨"u", "u:1-5", 6⟩
      ⟨"u", "u:1-8", 9⟩ 2 loseMaster
      [Action.etcd "b" .answered, .start "a" "u",
        .report "a" { master := some ⟨"u", "u:1-8", 9⟩ }, .call "a" .read]
      [Action.etcd "a" .answered, .call "a" (.download ["a", "b"]), .grant "a" 2]
      [Action.call "b" .crash, .report "b" {}, .start "b" "v", .call "b" .read]
      (fun error => error != none) (by decide +kernel)
    exact ⟨checks, leader, elected, by simpa using refused⟩
  · obtain ⟨checks, leader, elected, admitted⟩ := @elected_of_elects "a" "b" ⟨"u", "u:1-8", 9⟩
      ⟨"u", "u:1-5", 6⟩ 4 (loseMaster ++ timeOut)
      [Action.etcd "a" .answered, .late 0, .call "b" (.download ["a", "b"]), .grant "b" 3,
        .etcd "b" .answered, .expire 2, .call "b" .read]
      [Action.etcd "b" .answered, .call "b" (.download ["a", "b"]), .grant "b" 4]
      [Action.call "a" (.download ["a", "b"]), .grant "a" 5, .etcd "a" .answered,
        .call "a" .read]
      (fun error => error == none) (by decide +kernel)
    exact ⟨checks, leader, elected, by simpa using admitted⟩

end Moha.ElectionAgreement
