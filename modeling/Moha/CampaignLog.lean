import Moha.ClusterSteps

/-! The log of the winner. A candidate uploads its log in `server.go::preCampaign`,
and the campaign of the same iteration of `leaderLoop` publishes the fields it was
built from. The two agree as long as the upload is really made: a former master
whose load fails uploads nothing and goes on, and the error of the put is dropped
in both uploads. -/
namespace Moha.CampaignLog
open KeyValueStore DecimalText LeaderRecord LeaderView Election LeaderLoop Cluster ClusterSteps Runs

/-- The log of the fields that a server campaigns with. -/
def campaignLog (s : Server) : LogForElection where
  term := s.term + 1
  lastUUID := s.lastUUID
  lastGTID := s.lastGTID
  endTxnID := s.lastTxnID
  version := globalSchemaVersion.toNat

theorem campaignLog_of_memory {before after : Server} (memory : SameMemory before after) :
    campaignLog after = campaignLog before := by
  simp [campaignLog, memory.term, memory.lastUUID, memory.lastGTID, memory.lastTxnID]

/-- The iteration of `leaderLoop` goes on: the node does not read the leader again. -/
def SameIteration (n : NodeID) (a : Action) : Prop := a ≠ .call n .read

/-- The put of the node's log is not lost, and no earlier put of its log is applied
late. -/
def UploadKept (n : NodeID) (c : State) (a : Action) : Prop :=
  (∀ log, (c.agents n).loop = .uploadPut log → a ≠ .etcd n .lost) ∧
    ∀ index log, a = .late index → c.limbo[index]? ≠ some (.uploadLogForElection n log)

/-- The positions of a campaign after the upload. -/
def Uploaded : Loop → Prop
  | .download | .campaignGrant | .campaignTxn _ | .campaignCleanup _ | .singlePointTxn false => True
  | _ => False

/-! ### The stages of a campaign -/

theorem advance_upload {agent after : Agent} {etcd : Etcd} {nodes : List NodeID}
    {call : Call} {former : Bool} (loop : agent.loop = .upload former)
    (advanced : agent.advance etcd nodes call = some after) (again : Bool) :
    after.loop ≠ .upload again := by
  cases call <;> simp only [Agent.advance, loop, reduceCtorEq, ↓reduceIte, false_and] at advanced
  case upload =>
    split at advanced
    · cases advanced
      simp
    · split at advanced <;> cases advanced <;> simp
    · cases advanced

private theorem advance_stage {agent after : Agent} {etcd : Etcd} {nodes : List NodeID}
    {call : Call} (advanced : agent.advance etcd nodes call = some after)
    (was : phase agent.loop = .campaigning) :
    Uploaded after.loop ∨ phase after.loop ≠ .campaigning ∨
      (∃ former, agent.loop = .upload former) ∧ ∀ again, after.loop ≠ .upload again := by
  cases loop : agent.loop <;> rw [loop] at was <;> try cases was
  case upload former => exact .inr (.inr ⟨⟨former, rfl⟩, advance_upload loop advanced⟩)
  case download =>
    left
    cases call <;> simp only [Agent.advance, loop, reduceCtorEq, ↓reduceIte, true_and] at advanced
    case download order =>
      split at advanced
      · cases advanced
        dsimp only
        split <;> trivial
      · cases advanced
  case campaignGrant =>
    left
    cases call <;> simp only [Agent.advance, loop, reduceCtorEq, ↓reduceIte, false_and] at advanced
    case grantLost =>
      cases advanced
      trivial
  all_goals
    cases call <;> simp [Agent.advance, loop] at advanced

private theorem afterRequest_stage {agent : Agent} {request : Request} {revision : Nat}
    {reply : Reply} (pending : agent.pending = some request) :
    Uploaded (agent.afterRequest revision reply).loop ∨
      phase (agent.afterRequest revision reply).loop ≠ .campaigning := by
  have promoted : ∀ (agent : Agent) (tenure : Tenure),
      phase (agent.promote tenure).loop ≠ .campaigning := by
    intro agent tenure
    unfold Agent.promote
    split <;> exact nofun
  cases loop : agent.loop
  case resumeTxn lease =>
    cases reply with
    | error => exact .inr (by simp [Agent.afterRequest, loop, phase])
    | done succeeded => cases succeeded <;> exact .inr (by simp [Agent.afterRequest, loop, phase])
  case campaignTxn lease =>
    cases reply with
    | error => exact .inl (by simp [Agent.afterRequest, loop, Uploaded])
    | done succeeded =>
      right
      cases succeeded
      · simp [Agent.afterRequest, loop, phase]
      · simp only [Agent.afterRequest, loop]
        exact promoted _ _
  case singlePointTxn resume =>
    cases reply with
    | error =>
      cases resume
      · exact .inl (by simp [Agent.afterRequest, loop, Uploaded])
      · exact .inr (by simp [Agent.afterRequest, loop, phase])
    | done succeeded =>
      right
      cases succeeded
      · simp [Agent.afterRequest, loop, phase]
      · simp only [Agent.afterRequest, loop]
        exact promoted _ _
  case uploadPut log => exact .inl (by simp [Agent.afterRequest, loop, Uploaded])
  case campaignCleanup | persistMyTerm | uploadPromotionPut | removeSPM =>
    exact .inr (by simp [Agent.afterRequest, loop, phase])
  all_goals simp [Agent.pending, loop] at pending

private theorem afterService_of_campaigning {agent : Agent} {outcome : Outcome}
    (campaigning : phase agent.loop = .campaigning) : agent.afterService outcome = none := by
  unfold Agent.afterService
  cases loop : agent.loop <;> rw [loop] at campaigning <;> cases campaigning

/-- A campaign stays where it is, or is past its upload, or is about to upload. -/
theorem campaign_stage {c c' : State} {a : Action} {n : NodeID} (taken : step c a = some c')
    (running : (c'.agents n).running = true) (was : phase (c.agents n).loop = .campaigning)
    (campaigning : phase (c'.agents n).loop = .campaigning)
    (notEtcd : ∀ resolution, a ≠ .etcd n resolution) :
    (c'.agents n).loop = (c.agents n).loop ∨ Uploaded (c'.agents n).loop ∨
      (∃ former, (c.agents n).loop = .upload former) ∧
        ∀ again, (c'.agents n).loop ≠ .upload again := by
  cases step_agent taken n with
  | same agent => exact .inl (by rw [agent])
  | called _ _ moved agent =>
    rw [agent] at running campaigning ⊢
    rcases move_loop_kept moved running with same | ⟨lease, barrier⟩ | ⟨outcome, _, serviced⟩ |
      ⟨after, advanced, rfl⟩
    · exact .inl same
    · rw [barrier] at was
      cases was
    · rw [afterService_of_campaigning was] at serviced
      cases serviced
    · rcases advance_stage advanced was with uploaded | left | upload
      · exact .inr (.inl uploaded)
      · exact absurd campaigning left
      · exact .inr (.inr upload)
  | granted _ _ granted agent =>
    rw [agent] at campaigning ⊢
    unfold Agent.afterGrant at granted
    split at granted <;> cases granted
    · cases campaigning
    · exact .inr (.inl trivial)
  | replied action => exact absurd action (notEtcd _)
  | handled _ _ agent => exact .inl (by rw [agent]; rfl)
  | started _ _ _ agent =>
    rw [agent] at campaigning
    cases campaigning
  | serviceStopped _ agent => exact .inl (by rw [agent])
  | reported _ agent => exact .inl (by rw [agent])

/-- What a reply leaves of a campaign is past the upload. -/
theorem uploaded_of_etcd {c c' : State} {n : NodeID} {resolution : Resolution}
    (taken : step c (.etcd n resolution) = some c')
    (campaigning : phase (c'.agents n).loop = .campaigning) : Uploaded (c'.agents n).loop := by
  obtain ⟨_, request, pending, rfl⟩ := step_etcd taken
  simp only [State.set, Function.update_self] at campaigning ⊢
  exact (afterRequest_stage pending).resolve_right fun left => left campaigning

/-! ### The stored log -/

/-- The log stored for a node. -/
def storedLog (etcd : Etcd) (n : NodeID) : Option Value := etcd.value (.nodesPath n)

theorem storedLog_upload (etcd : Etcd) (n : NodeID) (log : LogForElection) :
    storedLog (etcd.commit (Request.uploadLogForElection n log).txn).1 n =
      some (.electionLog log) := by
  have succeeded : (etcd.commit (Request.uploadLogForElection n log).txn).2 = .done true := by
    simp [Store.commit, Request.txn, Op.leaseLive]
  rw [storedLog, Store.value, (Store.commit_succeeded succeeded).2]
  simp [Request.txn, applyOps, Op.apply]

/-- Only an upload of the node changes its log. -/
theorem storedLog_commit {etcd : Etcd} {request : Request} {n : NodeID}
    (other : ∀ log, request ≠ .uploadLogForElection n log) :
    storedLog (etcd.commit request.txn).1 n = storedLog etcd n := by
  by_cases succeeded : (etcd.commit request.txn).2 = .done true
  · rw [storedLog, Store.value, (Store.commit_succeeded succeeded).2]
    cases request with
    | uploadLogForElection id log =>
      have differs : Key.nodesPath n ≠ .nodesPath id := by
        rintro ⟨⟩
        exact other log rfl
      simp [Request.txn, applyOps, Op.apply, Function.update_of_ne differs, storedLog, Store.value]
    | _ =>
      simp [Request.txn, applyOps, Op.apply, Server.leaderPutOps, Server.myTermPutOps,
        Server.spmPutOps, storedLog, Store.value]
  · rw [Store.commit_failed succeeded]

theorem storedLog_step {c c' : State} {a : Action} {n : NodeID} (formed : WellFormed c)
    (taken : step c a = some c')
    (other : ∀ log, ¬ TakesEffect c a (.uploadLogForElection n log)) :
    storedLog c'.etcd n = storedLog c.etcd n := by
  cases step_store taken with
  | same unchanged => rw [unchanged]
  | grant granted =>
    rw [granted]
    rfl
  | @expire lease _ expired =>
    have kept : (c.etcd.expire lease).entries (.nodesPath n) = c.etcd.entries (.nodesPath n) := by
      cases held : c.etcd.entries (.nodesPath n) with
      | none => simp [Store.expire, held]
      | some entry =>
        have permanent := formed.permanent _ entry (by simp) (by simp) held
        simp [Store.expire, held, Entry.attachedTo, permanent]
    rw [expired, storedLog, Store.value, kept]
    rfl
  | @commit request effect result =>
    rw [result]
    refine storedLog_commit ?_
    rintro log rfl
    exact other log effect

/-- A campaign is putting the log it was built from, or that log is stored. -/
structure Prepared (n : NodeID) (c : State) : Prop where
  formed : WellFormed c
  ready : (c.agents n).running = true → phase (c.agents n).loop = .campaigning →
    (c.agents n).loop = .uploadPut (campaignLog (c.agents n).server) ∨
      Uploaded (c.agents n).loop ∧
        storedLog c.etcd n = some (.electionLog (campaignLog (c.agents n).server))

/-- The upload of a slave, and of a former master whose load succeeds. -/
theorem prepared_upload {c c' : State} {n : NodeID} (formed : WellFormed c)
    (taken : step c (.call n .upload) = some c')
    (loaded : (c.agents n).loop = .upload true → (c.agents n).reports.master ≠ none) :
    Prepared n c' where
  formed := wellFormed_step formed taken
  ready := by
    intro _ _
    left
    obtain ⟨_, advanced, _⟩ := step_advance taken rfl
    generalize c'.agents n = after at advanced ⊢
    simp only [Agent.advance] at advanced
    split at advanced
    · cases advanced
      rfl
    · rename_i former
      obtain ⟨info, master⟩ := Option.ne_none_iff_exists'.mp (loaded former)
      simp only [uploadLogForElectionAsFormerMaster, master, Option.map_some,
        Option.some.injEq] at advanced
      cases advanced
      rfl
    · cases advanced

/-- A campaign without another read was a campaign before, with the same memory but
for what its upload loads. -/
theorem campaign_before {c c' : State} {a : Action} {n : NodeID} (noRead : SameIteration n a)
    (taken : step c a = some c') (running : (c'.agents n).running = true)
    (campaigning : phase (c'.agents n).loop = .campaigning) :
    (c.agents n).running = true ∧ phase (c.agents n).loop = .campaigning ∧
      (SameMemory (c.agents n).server (c'.agents n).server ∨
        ∃ info former, (c.agents n).loop = .upload former ∧
          (c'.agents n).server = loadLog (c.agents n).server info) := by
  cases step_move taken n with
  | kept same memory loop =>
    rcases loop with loop | idle
    · exact ⟨same ▸ running, loop ▸ campaigning, .inl memory⟩
    · cases idle.symm.trans campaigning
  | stopped _ stopped => cases stopped.symm.trans running
  | started _ _ _ result =>
    rw [result] at campaigning
    cases campaigning
  | read _ action => exact absurd action noRead
  | preWatched _ _ _ result =>
    rw [result] at campaigning
    dsimp only at campaigning
    split at campaigning <;> cases campaigning
  | @uploaded info former was _ loop result =>
    exact ⟨was, by rw [loop]; rfl, .inr ⟨info, former, loop, by rw [result]⟩⟩
  | won _ _ _ _ _ _ promoting => cases promoting.symm.trans campaigning

/-- A campaign without another read that is not past the upload stands where it
stood. -/
theorem loop_of_upload {c c' : State} {a : Action} {n : NodeID} {former : Bool}
    (noRead : SameIteration n a) (taken : step c a = some c')
    (running : (c'.agents n).running = true) (loop : (c'.agents n).loop = .upload former) :
    (c.agents n).loop = .upload former := by
  have campaigning : phase (c'.agents n).loop = .campaigning := by
    rw [loop]
    rfl
  have before := (campaign_before noRead taken running campaigning).2.1
  by_cases replied : ∃ resolution, a = .etcd n resolution
  · obtain ⟨resolution, rfl⟩ := replied
    have past := uploaded_of_etcd taken campaigning
    rw [loop] at past
    cases past
  · rcases campaign_stage taken running before campaigning
      fun resolution action => replied ⟨resolution, action⟩ with same | past | ⟨_, left⟩
    · exact same ▸ loop
    · rw [loop] at past
      cases past
    · exact absurd loop (left former)

private theorem pending_uploadPut {agent : Agent} {log : LogForElection}
    (loop : agent.loop = .uploadPut log) :
    agent.pending = some (.uploadLogForElection agent.server.id log) := by
  simp [Agent.pending, loop]

/-- No upload of the node takes effect when its campaign is past it. -/
private theorem no_upload {c c' : State} {a : Action} {n : NodeID} (formed : WellFormed c)
    (taken : step c a = some c') (uploaded : Uploaded (c.agents n).loop)
    (kept : UploadKept n c a) (log : LogForElection) :
    ¬ TakesEffect c a (.uploadLogForElection n log) := by
  rintro ⟨applies, _⟩
  cases applier taken applies with
  | @loop m _ _ _ pending =>
    unfold Agent.pending at pending
    split at pending <;> cases pending
    rename_i loop
    have same := formed.id m
    rw [same, loop] at uploaded
    cases uploaded
  | handler _ _ _ removal => cases removal
  | cleaner _ removal => cases removal
  | late action held => exact kept.2 _ log action held

theorem prepared_step {c c' : State} {a : Action} {n : NodeID} (prepared : Prepared n c)
    (allowed : SameIteration n a ∧ UploadKept n c a) (taken : step c a = some c') :
    Prepared n c' where
  formed := wellFormed_step prepared.formed taken
  ready := by
    intro running campaigning
    obtain ⟨noRead, kept⟩ := allowed
    obtain ⟨was, before, memory⟩ := campaign_before noRead taken running campaigning
    have notUpload : ∀ former, (c.agents n).loop ≠ .upload former := by
      intro former loop
      rcases prepared.ready was before with put | ⟨uploaded, _⟩
      · cases loop.symm.trans put
      · rw [loop] at uploaded
        cases uploaded
    have memory := memory.resolve_right fun ⟨_, former, loop, _⟩ => notUpload former loop
    rw [campaignLog_of_memory memory]
    rcases prepared.ready was before with put | ⟨uploaded, stored⟩
    · by_cases replied : ∃ resolution, a = .etcd n resolution
      · obtain ⟨resolution, rfl⟩ := replied
        have applies : applied c (.etcd n resolution) =
            some (.uploadLogForElection n (campaignLog (c.agents n).server)) := by
          have notLost : resolution ≠ .lost := fun lost => kept.1 _ put (by rw [lost])
          rw [applied, if_neg notLost, pending_uploadPut put, prepared.formed.id n]
        refine .inr ⟨uploaded_of_etcd taken campaigning, ?_⟩
        rw [etcd_of_applied taken applies]
        exact storedLog_upload _ _ _
      · left
        rw [loop_of_pending taken was (pending_uploadPut put) running
          fun resolution action => replied ⟨resolution, action⟩]
        exact put
    · right
      refine ⟨?_, ?_⟩
      · by_cases replied : ∃ resolution, a = .etcd n resolution
        · obtain ⟨resolution, rfl⟩ := replied
          exact uploaded_of_etcd taken campaigning
        · rcases campaign_stage taken running before campaigning
            fun resolution action => replied ⟨resolution, action⟩ with
            same | after | ⟨⟨former, loop⟩, _⟩
          · rw [same]
            exact uploaded
          · exact after
          · exact absurd loop (notUpload former)
      · rw [storedLog_step prepared.formed taken (no_upload prepared.formed taken uploaded kept)]
        exact stored

/-- The published record has the fields of the log. -/
structure Publishes (etcd : Etcd) (log : LogForElection) : Prop where
  term : text etcd .termPath = some (sprint log.term)
  lastUUID : text etcd .lastUUIDPath = some log.lastUUID
  lastGTID : text etcd .lastGTIDPath = some log.lastGTID
  lastTxnID : text etcd .lastTxnIDPath = some (sprint log.endTxnID)

/-- A candidate that took the upload step, where the load of a former master
succeeded, wins in the same iteration of its loop. If its put was not lost and no
earlier put of its log is applied late, then its stored log is the record that it
publishes. -/
theorem winner_publishes_its_log {nodes : List NodeID} {named : "" ∉ nodes}
    {cfg : NodeID → Config} {uploads uploaded campaigns won : State} {n : NodeID}
    {resolution : Resolution} {request : Request} {s : Server}
    (reached : Run step (fun _ _ => True) (init nodes named cfg) uploads)
    (upload : step uploads (.call n .upload) = some uploaded)
    (loaded : (uploads.agents n).loop = .upload true → (uploads.agents n).reports.master ≠ none)
    (iteration : Run step (fun c a => SameIteration n a ∧ UploadKept n c a) uploaded campaigns)
    (wins : step campaigns (.etcd n resolution) = some won)
    (effect : TakesEffect campaigns (.etcd n resolution) request)
    (campaign : request.campaigner = some s) :
    ∃ log, won.etcd.value (.nodesPath n) = some (.electionLog log) ∧ Publishes won.etcd log := by
  have formed := wellFormed_of_run reached
  have prepared := iteration.invariant (prepared_upload formed upload loaded) prepared_step
  obtain ⟨_, pending⟩ := pending_of_applied effect.1
  obtain ⟨rfl, campaigning⟩ := pending_campaigner pending campaign
  have stored : storedLog campaigns.etcd n =
      some (.electionLog (campaignLog (campaigns.agents n).server)) := by
    rcases prepared.ready (step_etcd wins).1 campaigning with put | ⟨_, stored⟩
    · rw [pending_uploadPut put] at pending
      cases pending
      cases campaign
    · exact stored
  have record : (view won.etcd).record = publishedBy (campaigns.agents n).server
      ((campaigns.agents n).server.term + 1) := by
    rw [etcd_of_applied wins effect.1, (view_commit effect.2).2, record_act_campaigner campaign]
  refine ⟨campaignLog (campaigns.agents n).server, ?_, ?_⟩
  · refine Eq.trans ?_ stored
    rw [etcd_of_applied wins effect.1]
    refine storedLog_commit ?_
    rintro log rfl
    cases campaign
  · exact ⟨congrArg Record.term record, congrArg Record.lastUUID record,
      congrArg Record.lastGTID record, congrArg Record.lastTxnID record⟩

private def sameIteration (n : NodeID) (a : Action) : Bool := a != .call n .read

private def uploadKept (n : NodeID) (c : State) : Action → Bool
  | .etcd m .lost => m != n || !((c.agents n).loop matches .uploadPut _)
  | .late _ => false
  | _ => true

private theorem uploadKept_of_check {n : NodeID} {c : State} {a : Action}
    (check : uploadKept n c a = true) : UploadKept n c a := by
  constructor
  · rintro log loop rfl
    simp [uploadKept, loop] at check
  · rintro index log rfl
    cases check

/-- The former master of term one, whose process and lease have ended, is back
before anybody else. -/
private def comesBack (reports : Reports) : List Action :=
  [.start "a" "u", .call "a" .read, .grant "a" 1, .etcd "a" .answered, .call "a" .crash, .expire 1,
    .start "a" "u", .report "a" reports, .call "a" .read]

/-- The former master uploads its log and wins, with no answer to its put. -/
theorem winner_publishes_its_log_former_master :
    ∃ (won : State) (log : LogForElection),
      won.etcd.value (.nodesPath "a") = some (.electionLog log) ∧
      Publishes won.etcd log ∧ text won.etcd .termPath = some (sprint 2) := by
  have ran : (exec (restrict step fun _ _ => true) (init ["a"] (by decide) sampleCfg)
      (comesBack { master := some ⟨"u", "u:1-5", 6⟩ })).any (fun uploads =>
      (uploads.agents "a").reports.master.isSome &&
      (step uploads (.call "a" .upload)).any fun uploaded =>
      (exec (restrict step fun c a => sameIteration "a" a && uploadKept "a" c a) uploaded
        [.etcd "a" .unanswered, .call "a" (.download ["a"])]).any fun campaigns =>
      decide (TakesEffect campaigns (.etcd "a" .answered)
        (.campaignLeaderAsSinglePoint (campaigns.agents "a").server)) &&
      (step campaigns (.etcd "a" .answered)).any fun won =>
        text won.etcd .termPath == some (sprint 2)) = true := by
    decide +kernel
  obtain ⟨uploads, reached, found⟩ :
      ∃ c, Run step (fun _ _ => True) (init ["a"] (by decide) sampleCfg) c ∧ _ :=
    exists_run_of_exec (fun _ _ _ => trivial) ran
  obtain ⟨loaded, found⟩ := Bool.and_eq_true_iff.mp found
  obtain ⟨uploaded, upload, found⟩ := (Option.any_eq_true _ _).mp found
  obtain ⟨campaigns, iteration, found⟩ :
      ∃ c, Run step (fun c a => SameIteration "a" a ∧ UploadKept "a" c a) uploaded c ∧ _ :=
    exists_run_of_exec (fun _ _ held => (Bool.and_eq_true_iff.mp held).imp
      (fun same => bne_iff_ne.mp same) uploadKept_of_check) found
  obtain ⟨effect, found⟩ := Bool.and_eq_true_iff.mp found
  obtain ⟨won, wins, found⟩ := (Option.any_eq_true _ _).mp found
  obtain ⟨log, stored, publishes⟩ := winner_publishes_its_log reached upload
    (fun _ => Option.isSome_iff_ne_none.mp loaded) iteration wins (decide_eq_true_eq.mp effect) rfl
  exact ⟨won, log, stored, publishes, eq_of_beq found⟩

/-- The load of the former master fails, so it uploads nothing; it goes on in the
same iteration and wins. -/
theorem winner_without_log :
    ∃ uploads uploaded campaigns won,
      Run step InTime (init ["a"] (by decide) sampleCfg) uploads ∧
      step uploads (.call "a" .upload) = some uploaded ∧
      Run step (fun _ a => SameIteration "a" a) uploaded campaigns ∧
      step campaigns (.etcd "a" .answered) = some won ∧
      TakesEffect campaigns (.etcd "a" .answered)
        (.campaignLeader (campaigns.agents "a").server 2) ∧
      text won.etcd .termPath = some (sprint 2) ∧ won.etcd.value (.nodesPath "a") = none := by
  have ran : (exec (restrict step fun _ a => !isLate a) (init ["a"] (by decide) sampleCfg)
      (comesBack {})).any (fun uploads =>
      (step uploads (.call "a" .upload)).any fun uploaded =>
      (exec (restrict step fun _ a => sameIteration "a" a) uploaded
        [.call "a" (.download ["a"]), .grant "a" 2]).any fun campaigns =>
      decide (TakesEffect campaigns (.etcd "a" .answered)
        (.campaignLeader (campaigns.agents "a").server 2)) &&
      (step campaigns (.etcd "a" .answered)).any fun won =>
        text won.etcd .termPath == some (sprint 2) &&
          won.etcd.value (.nodesPath "a") == none) = true := by
    decide +kernel
  obtain ⟨uploads, reached, found⟩ := exists_run_of_exec (fun _ _ => inTime_of_not_isLate) ran
  obtain ⟨uploaded, upload, found⟩ := (Option.any_eq_true _ _).mp found
  obtain ⟨campaigns, iteration, found⟩ :
      ∃ c, Run step (fun _ a => SameIteration "a" a) uploaded c ∧ _ :=
    exists_run_of_exec (fun _ _ same => bne_iff_ne.mp same) found
  obtain ⟨effect, found⟩ := Bool.and_eq_true_iff.mp found
  obtain ⟨won, wins, found⟩ := (Option.any_eq_true _ _).mp found
  obtain ⟨term, log⟩ := Bool.and_eq_true_iff.mp found
  exact ⟨uploads, uploaded, campaigns, won, reached, upload, iteration, wins,
    decide_eq_true_eq.mp effect, eq_of_beq term, eq_of_beq log⟩

end Moha.CampaignLog
