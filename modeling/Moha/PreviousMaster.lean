import Moha.CampaignLog
import Moha.LatestLog

/-! The UUID of the previous master. A slave that wins an election publishes as
`last_uuid` what its service manager loaded, and `server.go::isPreviousMaster`
compares that text on every other node with the UUID of its own database. MySQL
answers with the UUID of the replication source; the PostgreSQL manager answers
with the ID of the slave itself. -/
namespace Moha.PreviousMaster
open KeyValueStore DecimalText LeaderRecord LeaderView Election LeaderLoop Cluster ClusterSteps Runs
  CampaignLog

/-- The service managers that `server.go::Start` chooses from. -/
inductive ServiceType where
  | mysql
  | postgresql
  deriving DecidableEq, Repr

/-- The database of a slave: the node it replicates from, and the answers of the
queries of the two managers, `none` for an error. -/
structure Slave where
  source : NodeID
  executedGtidSet : Option String
  lastReplayLSN : Option UInt64

section Managers
variable (type : ServiceType) (serverUUID : NodeID → String)

/-- `GetServerUUID` of a node. The unique ID of the PostgreSQL manager is the ID of
its node. -/
def getServerUUID (n : NodeID) : String :=
  match type with
  | .mysql => serverUUID n
  | .postgresql => n

/-- `LoadReplicationInfoOfSlave` of a node. -/
def loadReplicationInfoOfSlave (n : NodeID) (slave : Slave) : Option ReplicationInfo :=
  match type with
  | .mysql => LatestLog.loadReplicationInfoOfSlave
      (slave.executedGtidSet.map fun gtid => ⟨serverUUID slave.source, gtid⟩)
  | .postgresql => slave.lastReplayLSN.map fun lsn => ⟨getServerUUID type serverUUID n, "", lsn⟩

/-- The record of a term tells who the master of the term before was. -/
structure Identifies (etcd : Etcd) (before : UInt64) (m : NodeID) : Prop where
  lastUUID : text etcd .lastUUIDPath = some (getServerUUID type serverUUID m)
  isPreviousMaster : ∀ p : Server, p.term = before →
    p.uuid = getServerUUID type serverUUID p.id →
      (isPreviousMaster p (readLeader etcd (before + 1)) = true ↔ p.id = m)

end Managers

theorem masterUUID_of_load {type : ServiceType} {serverUUID : NodeID → String} {n : NodeID}
    {slave : Slave} {info : ReplicationInfo}
    (loaded : loadReplicationInfoOfSlave type serverUUID n slave = some info) :
    info.masterUUID = match type with
      | .mysql => serverUUID slave.source
      | .postgresql => n := by
  cases type with
  | mysql =>
    obtain ⟨status, asked, answered⟩ := Option.bind_eq_some_iff.mp loaded
    obtain ⟨gtid, _, rfl⟩ := Option.map_eq_some_iff.mp asked
    dsimp only at answered
    split at answered
    · cases answered
    · unfold LatestLog.replicationInfo at answered
      split at answered <;> cases answered
      rfl
  | postgresql =>
    obtain ⟨lsn, _, rfl⟩ := Option.map_eq_some_iff.mp loaded
    rfl

/-- A published UUID is compared only by the nodes one term behind. -/
theorem isPreviousMaster_iff {etcd : Etcd} {publisher p : Server}
    (record : (view etcd).record = publishedBy publisher (publisher.term + 1))
    (term : p.term = publisher.term) :
    isPreviousMaster p (readLeader etcd (publisher.term + 1)) = true ↔
      p.uuid = publisher.lastUUID := by
  simp [isPreviousMaster, readLeader_published record, term]

/-- A node with the term of a record that names another one is no former master. -/
theorem isPreviousMaster_of_other {s : Server} {leader : Leader}
    (term : s.term = leader.leaderMeta.term) (other : s.id ≠ leader.leaderMeta.name) :
    isPreviousMaster s leader = false := by
  have apart : leader.leaderMeta.term ≠ leader.leaderMeta.term - 1 := by grind
  simp [isPreviousMaster, term, other, apart]

/-! ### One iteration of the winner -/

/-- A campaign with the term of the record uploads its log as a slave. -/
def AsSlave (w : NodeID) (term : UInt64) (c : State) : Prop :=
  (c.agents w).running = true → (c.agents w).server.term = term →
    ∀ former, (c.agents w).loop = .upload former → former = false

private theorem afterRead_upload {agent : Agent} {leader : Leader} {myTerm : UInt64}
    {former : Bool} (loop : (agent.afterRead leader myTerm).loop = .upload former) :
    former = isPreviousMaster (agent.afterRead leader myTerm).server leader := by
  unfold Agent.afterRead at loop ⊢
  dsimp only at loop ⊢
  (repeat' split at loop) <;> cases loop
  rename_i absent follows known
  rw [if_neg absent, if_neg follows, if_pos known]

theorem asSlave_read {c c' : State} {w m : NodeID} {term : UInt64} (formed : WellFormed c)
    (id : text c.etcd .idPath = some m) (stored : text c.etcd .termPath = some (sprint term))
    (other : m ≠ w) (taken : step c (.call w .read) = some c') : AsSlave w term c' := by
  have formed' := wellFormed_step formed taken
  obtain ⟨_, advanced, _⟩ := step_advance taken rfl
  intro _ current former loop
  have name := formed'.id w
  generalize c'.agents w = after at advanced current loop name ⊢
  simp only [Agent.advance] at advanced
  split at advanced
  · split at advanced
    · cases advanced
      unfold Agent.afterReadError at loop
      (repeat' split at loop) <;> cases loop
    · rename_i leader myTerm found
      cases advanced
      obtain ⟨read, parsed, _, rfl⟩ := Server.getLeaderAndMyTerm_eq_ok found
      obtain ⟨rfl, _⟩ := readTerm_stored stored parsed
      rw [afterRead_upload loop]
      refine isPreviousMaster_of_other current ?_
      rw [name]
      simpa [readLeader, id] using other.symm
  · contradiction

theorem asSlave_step {c c' : State} {a : Action} {w : NodeID} {term : UInt64}
    (asSlave : AsSlave w term c) (noRead : SameIteration w a) (taken : step c a = some c') :
    AsSlave w term c' := by
  intro running current former loop
  have campaigning : phase (c'.agents w).loop = .campaigning := by
    rw [loop]
    rfl
  obtain ⟨was, _, memory⟩ := campaign_before noRead taken running campaigning
  refine asSlave was ?_ former (loop_of_upload noRead taken running loop)
  rcases memory with memory | ⟨info, _, _, loaded⟩
  · exact memory.term ▸ current
  · rw [loaded] at current
    exact current

/-- A campaign past its upload has the term and the UUID that it had then. -/
def Carries (w : NodeID) (term : UInt64) (uuid : String) (c : State) : Prop :=
  (c.agents w).running = true → phase (c.agents w).loop = .campaigning →
    (∀ former, (c.agents w).loop ≠ .upload former) ∧ (c.agents w).server.term = term ∧
      (c.agents w).server.lastUUID = uuid

theorem carries_step {c c' : State} {a : Action} {w : NodeID} {term : UInt64} {uuid : String}
    (carries : Carries w term uuid c) (noRead : SameIteration w a)
    (taken : step c a = some c') : Carries w term uuid c' := by
  intro running campaigning
  obtain ⟨was, before, memory⟩ := campaign_before noRead taken running campaigning
  obtain ⟨past, current, last⟩ := carries was before
  have memory := memory.resolve_right fun ⟨_, former, loop, _⟩ => past former loop
  refine ⟨fun former loop => ?_, memory.term.trans current, memory.lastUUID.trans last⟩
  exact past former (loop_of_upload noRead taken running loop)

/-- What the upload of a campaign leaves in memory. -/
theorem carries_upload {c c' : State} {w : NodeID}
    (taken : step c (.call w .upload) = some c') :
    ∃ former, (c.agents w).loop = .upload former ∧
      Carries w (c.agents w).server.term (c'.agents w).server.lastUUID c' ∧
      (former = false → ∀ info, (c.agents w).reports.slave = some info →
        (c'.agents w).server.lastUUID = info.masterUUID) := by
  obtain ⟨_, advanced, _⟩ := step_advance taken rfl
  have uploading : ∃ former, (c.agents w).loop = .upload former := by
    simp only [Agent.advance] at advanced
    split at advanced
    · exact ⟨_, ‹_›⟩
    · exact ⟨_, ‹_›⟩
    · contradiction
  obtain ⟨former, loop⟩ := uploading
  have past := advance_upload loop advanced
  unfold Carries
  generalize c'.agents w = after at advanced past ⊢
  cases former with
  | false =>
    simp only [Agent.advance, loop] at advanced
    cases advanced
    refine ⟨false, loop, fun _ _ => ⟨past, rfl, rfl⟩, fun _ info slave => ?_⟩
    simp [uploadLogForElectionAsSlave, slave, loadLog]
  | true =>
    simp only [Agent.advance, loop] at advanced
    refine ⟨true, loop, fun _ _ => ⟨past, ?_, rfl⟩, by simp⟩
    split at advanced
    · cases advanced
      rfl
    · rename_i loaded
      obtain ⟨info, _, built⟩ := Option.map_eq_some_iff.mp loaded
      cases built
      cases advanced
      rfl

/-- A node reads the record of the master `m` of a term, with no leader, and goes on
to win the next term in the same iteration of its loop, after a successful load as a
slave of `m`. The record it publishes identifies `m` exactly when the service manager
is the one for MySQL. -/
theorem last_uuid_identifies_master_iff {nodes : List NodeID} {named : "" ∉ nodes}
    {cfg : NodeID → Config} {type : ServiceType} {serverUUID : NodeID → String}
    (distinct : ∀ n m, serverUUID n = serverUUID m → n = m)
    {reads begins uploads uploaded campaigns won : State} {w m : NodeID} {term : UInt64}
    {slave : Slave} {resolution : Resolution} {request : Request} {s : Server}
    (reached : Run step (fun _ _ => True) (init nodes named cfg) reads)
    (master : text reads.etcd .idPath = some m)
    (published : text reads.etcd .termPath = some (sprint term))
    (read : step reads (.call w .read) = some begins)
    (before : Run step (fun _ a => SameIteration w a) begins uploads)
    (upload : step uploads (.call w .upload) = some uploaded)
    (replicates : slave.source = m) (other : m ≠ w)
    (load : (uploads.agents w).reports.slave = loadReplicationInfoOfSlave type serverUUID w slave)
    (loaded : (uploads.agents w).reports.slave ≠ none)
    (after : Run step (fun _ a => SameIteration w a) uploaded campaigns)
    (wins : step campaigns (.etcd w resolution) = some won)
    (effect : TakesEffect campaigns (.etcd w resolution) request)
    (campaign : request.campaigner = some s) (consecutive : s.term = term) :
    Identifies type serverUUID won.etcd term m ↔ type = .mysql := by
  subst consecutive
  have asSlave := before.invariant
    (asSlave_read (wellFormed_of_run reached) master published other read) asSlave_step
  obtain ⟨former, loop, carries, memory⟩ := carries_upload upload
  obtain ⟨_, pending⟩ := pending_of_applied effect.1
  obtain ⟨rfl, campaigning⟩ := pending_campaigner pending campaign
  obtain ⟨_, current, last⟩ := after.invariant carries carries_step (step_etcd wins).1 campaigning
  obtain ⟨info, slaveLoad⟩ := Option.ne_none_iff_exists'.mp loaded
  have uuid : (campaigns.agents w).server.lastUUID = info.masterUUID :=
    last.trans (memory (asSlave (step_call upload).1 current.symm former loop) info slaveLoad)
  have record : (view won.etcd).record = publishedBy (campaigns.agents w).server
      ((campaigns.agents w).server.term + 1) := by
    rw [etcd_of_applied wins effect.1, (view_commit effect.2).2, record_act_campaigner campaign]
  have lastUUID : text won.etcd .lastUUIDPath = some info.masterUUID :=
    (congrArg Record.lastUUID record).trans (congrArg some uuid)
  have source := masterUUID_of_load (load ▸ slaveLoad)
  rw [replicates] at source
  constructor
  · intro identifies
    cases type with
    | mysql => rfl
    | postgresql =>
      have same : info.masterUUID = m := Option.some.inj (lastUUID.symm.trans identifies.lastUUID)
      exact absurd (same.symm.trans source) other
  · rintro rfl
    refine ⟨lastUUID.trans (congrArg some source), fun p behind own => ?_⟩
    rw [isPreviousMaster_iff record behind, own, uuid, source]
    exact ⟨distinct p.id m, congrArg serverUUID⟩

/-- The server UUIDs of a and b, to start concrete runs from. -/
def sampleUUID (n : NodeID) : String := "3e11fa47-71ca-11e1-9e33-c80aa942956" ++ n

private theorem sampleUUID_distinct (n m : NodeID) (same : sampleUUID n = sampleUUID m) :
    n = m :=
  (String.append_right_inj _).mp same

/-- Node a is the master of term one and b has followed it, until the lease of a
expires. -/
private def loses (reports : Reports) : List Action :=
  [.start "a" "ua", .call "a" .read, .grant "a" 1, .etcd "a" .answered,
    .start "b" "ub", .call "b" .read, .call "b" .preWatch, .etcd "b" .answered,
    .call "b" (.nodeStatus true), .call "b" (.redirectMaster true), .call "a" .crash, .expire 1,
    .call "b" (.watchEnds false), .report "b" reports]

def sampleSlave : Slave := ⟨"a", some "3e11fa47-71ca-11e1-9e33-c80aa942956a:1-5", some 9⟩

def loads (type : ServiceType) : Reports where
  slave := loadReplicationInfoOfSlave type sampleUUID "b" sampleSlave

private def sameIteration (a : Action) : Bool := a != .call "b" .read

/-- The iteration of b that begins with the read and ends with the election. -/
private def winsNext (type : ServiceType) (won : State → Bool) (reads : State) : Bool :=
  text reads.etcd .idPath == some "a" && text reads.etcd .termPath == some (sprint 1) &&
  (step reads (.call "b" .read)).any fun uploads =>
  (uploads.agents "b").reports == loads type &&
  (step uploads (.call "b" .upload)).any fun uploaded =>
  (exec (restrict step fun _ a => sameIteration a) uploaded
    [.etcd "b" .answered, .call "b" (.download ["a", "b"])]).any fun campaigns =>
  decide (TakesEffect campaigns (.etcd "b" .answered)
    (.campaignLeaderAsSinglePoint (campaigns.agents "b").server)) &&
  (campaigns.agents "b").server.term == 1 &&
  (step campaigns (.etcd "b" .answered)).any won

/-- The hypotheses of an election that b wins as a slave of a. -/
structure Wins (type : ServiceType) (won : State) : Prop where
  wins : ∃ reads uploads uploaded campaigns,
    Run step (fun _ _ => True) (init ["a", "b"] (by decide) sampleCfg) reads ∧
    text reads.etcd .idPath = some "a" ∧ text reads.etcd .termPath = some (sprint 1) ∧
    step reads (.call "b" .read) = some uploads ∧
    (uploads.agents "b").reports = loads type ∧
    step uploads (.call "b" .upload) = some uploaded ∧
    Run step (fun _ a => SameIteration "b" a) uploaded campaigns ∧
    TakesEffect campaigns (.etcd "b" .answered)
      (.campaignLeaderAsSinglePoint (campaigns.agents "b").server) ∧
    (campaigns.agents "b").server.term = 1 ∧
    step campaigns (.etcd "b" .answered) = some won

private theorem wins_of_check {type : ServiceType} {check : State → Bool} {reads : State}
    (reached : Run step (fun _ _ => True) (init ["a", "b"] (by decide) sampleCfg) reads)
    (found : winsNext type check reads = true) : ∃ won, Wins type won ∧ check won = true := by
  obtain ⟨record, found⟩ := Bool.and_eq_true_iff.mp found
  obtain ⟨id, term⟩ := Bool.and_eq_true_iff.mp record
  obtain ⟨uploads, read, found⟩ := (Option.any_eq_true _ _).mp found
  obtain ⟨reports, found⟩ := Bool.and_eq_true_iff.mp found
  obtain ⟨uploaded, upload, found⟩ := (Option.any_eq_true _ _).mp found
  obtain ⟨campaigns, after, found⟩ :
      ∃ c, Run step (fun _ a => SameIteration "b" a) uploaded c ∧ _ :=
    exists_run_of_exec (fun _ _ same => bne_iff_ne.mp same) found
  obtain ⟨campaign, found⟩ := Bool.and_eq_true_iff.mp found
  obtain ⟨effect, current⟩ := Bool.and_eq_true_iff.mp campaign
  obtain ⟨won, wins, found⟩ := (Option.any_eq_true _ _).mp found
  exact ⟨won, ⟨reads, uploads, uploaded, campaigns, reached, eq_of_beq id, eq_of_beq term, read,
    eq_of_beq reports, upload, after, decide_eq_true_eq.mp effect, eq_of_beq current, wins⟩, found⟩

/-- With MySQL, the slave b of a wins and its record identifies a. -/
theorem last_uuid_identifies_master_iff_mysql :
    ∃ won : State, text won.etcd .termPath = some (sprint 2) ∧
      Identifies .mysql sampleUUID won.etcd 1 "a" := by
  have ran : (exec (restrict step fun _ _ => true) (init ["a", "b"] (by decide) sampleCfg)
      (loses (loads .mysql))).any
      (winsNext .mysql fun won => text won.etcd .termPath == some (sprint 2)) = true := by
    decide +kernel
  obtain ⟨reads, reached, found⟩ :
      ∃ c, Run step (fun _ _ => True) (init ["a", "b"] (by decide) sampleCfg) c ∧ _ :=
    exists_run_of_exec (fun _ _ _ => trivial) ran
  obtain ⟨won, ⟨reads, uploads, uploaded, campaigns, reached, id, term, read, reports, upload,
    after, effect, current, wins⟩, found⟩ := wins_of_check reached found
  have load : (uploads.agents "b").reports.slave =
      loadReplicationInfoOfSlave .mysql sampleUUID "b" sampleSlave := by
    rw [reports]
    rfl
  refine ⟨won, eq_of_beq found, ?_⟩
  exact (last_uuid_identifies_master_iff sampleUUID_distinct reached id term read (.refl _) upload
    rfl (by decide) load (by rw [reports]; decide +kernel) after wins effect rfl current).mpr rfl

/-- With PostgreSQL, the slave b of a wins and publishes its own ID, and a is not
recognised as the previous master. -/
theorem last_uuid_of_postgresql_slave :
    ∃ won : State, Wins .postgresql won ∧
      text won.etcd .lastUUIDPath = some "b" ∧ getServerUUID .postgresql sampleUUID "a" = "a" ∧
      isPreviousMaster { id := "a", cfg := sampleCfg "a", uuid := "a", term := 1 }
        (readLeader won.etcd 2) = false := by
  have ran : (exec (restrict step fun _ _ => true) (init ["a", "b"] (by decide) sampleCfg)
      (loses (loads .postgresql))).any
      (winsNext .postgresql fun won => text won.etcd .lastUUIDPath == some "b" &&
        !isPreviousMaster { id := "a", cfg := sampleCfg "a", uuid := "a", term := 1 }
          (readLeader won.etcd 2)) = true := by
    decide +kernel
  obtain ⟨reads, reached, found⟩ :
      ∃ c, Run step (fun _ _ => True) (init ["a", "b"] (by decide) sampleCfg) c ∧ _ :=
    exists_run_of_exec (fun _ _ _ => trivial) ran
  obtain ⟨won, wins, found⟩ := wins_of_check reached found
  obtain ⟨lastUUID, unknown⟩ := Bool.and_eq_true_iff.mp found
  exact ⟨won, wins, eq_of_beq lastUUID, rfl, Bool.not_eq_true' _ ▸ unknown⟩

end Moha.PreviousMaster
