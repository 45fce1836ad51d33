import Moha.HealthCheck
import Moha.TermGrowth

/-! The cluster cannot get into a state that it cannot leave. Whatever the calls of any
number of nodes have left in etcd and on its way there, one node that starts afresh gets
to be the writable master by its own calls alone: the node that the leader key names, or,
without a leader key, any node that may lead. Nothing has to expire, no other node has to
move, and it does not matter which logs of earlier rounds are still stored. -/
namespace Moha.FailoverProgress
open KeyValueStore DecimalText LeaderRecord LeaderView Election LeaderLoop Cluster ClusterSteps Runs
open TermGrowth (Stored globalTerm)

/-! ### What every run leaves behind -/

/-- What a fresh node finds: terms that parse, a leader key that names a node, and a lease
that was never granted. -/
structure Sane (c : State) : Prop where
  formed : WellFormed c
  term : ∃ term, Stored (view c.etcd).record.term term
  terms : ∀ n, ∃ term, Stored ((view c.etcd).terms n) term
  leader : (view c.etcd).leader = none ∨ ∃ n ∈ c.nodes, (view c.etcd).LedBy n
  limbo : ∀ request ∈ c.limbo, ∀ s, request.campaigner = some s → s.id ∈ c.nodes
  leases : ∃ bound : Int, ∀ lease : Int, bound ≤ lease → c.etcd.leases lease = .unused

theorem sane_init (nodes : List NodeID) (named : "" ∉ nodes) (cfg : NodeID → Config) :
    Sane (init nodes named cfg) where
  formed := wellFormed_init nodes named cfg
  term := ⟨0, .inr ⟨rfl, rfl⟩⟩
  terms := fun _ => ⟨0, .inr ⟨rfl, rfl⟩⟩
  leader := .inl rfl
  limbo := by
    intro request member
    cases member
  leases := ⟨0, fun _ _ => rfl⟩

section Steps
variable {c c' : State} {a : Action}

/-- A campaign at etcd is of a node of the cluster. -/
theorem Sane.outstanding (sane : Sane c) {m : NodeID} (running : (c.agents m).running = true)
    {request : Request} {s : Server} (member : request ∈ (c.agents m).outstanding)
    (campaigns : request.campaigner = some s) : s.id ∈ c.nodes := by
  obtain ⟨rfl, _⟩ := outstanding_campaigner member campaigns
  rw [sane.formed.id m]
  exact sane.formed.member m running

theorem Sane.applied (sane : Sane c) (taken : step c a = some c') {request : Request} {s : Server}
    (applies : Cluster.applied c a = some request) (campaigns : request.campaigner = some s) :
    s.id ∈ c.nodes := by
  cases applier taken applies with
  | @loop m _ _ running pending =>
    have member : request ∈ (c.agents m).outstanding :=
      List.mem_append_left _ (Option.mem_toList.mpr pending)
    exact sane.outstanding running member campaigns
  | handler _ _ _ removal =>
    rw [removal] at campaigns
    cases campaigns
  | cleaner _ removal =>
    rw [removal] at campaigns
    cases campaigns
  | late _ held => exact sane.limbo request (List.mem_of_getElem? held) s campaigns

theorem stored_act_terms {revision : Nat} {v : View} {request : Request}
    (terms : ∀ n, ∃ term, Stored (v.terms n) term) (n : NodeID) :
    ∃ term, Stored ((act revision v request).terms n) term := by
  have put : ∀ (id : NodeID) (term : UInt64),
      ∃ held, Stored (Function.update v.terms id (some (sprint term)) n) held := by
    intro id term
    by_cases same : n = id
    · exact ⟨term, .inl (by rw [same, Function.update_self])⟩
    · rw [Function.update_of_ne same]
      exact terms n
  cases request with
  | campaignLeader s | campaignLeaderAsSinglePoint s => exact put s.id (s.term + 1)
  | resumeLeaderAsSinglePoint s => exact put s.id 0
  | persistMyTerm s => exact put s.id s.term
  | resumeLeader | deleteLeaderKey | startClean | removeSPM | uploadLogForElection
  | uploadPromotionBinlog => exact terms n

theorem Sane.step (sane : Sane c) (taken : Cluster.step c a = some c') : Sane c' where
  formed := wellFormed_step sane.formed taken
  term := by
    cases step_view sane.formed taken with
    | same unchanged => rw [unchanged]; exact sane.term
    | expire _ expired => rw [expired]; exact sane.term
    | @effect request _ _ acted =>
      rw [acted]
      rcases request_kinds request with ⟨s, campaigns⟩ | ⟨s, resumes⟩ | ⟨id, removes⟩ |
        ⟨campaigns, resumes, removes⟩
      · rw [record_act_campaigner campaigns]
        exact ⟨_, .inl rfl⟩
      · rw [record_act_resumer resumes]
        exact ⟨_, .inl rfl⟩
      · rw [(act_remover removes).2.1]
        exact sane.term
      · rw [(act_other campaigns resumes removes).2.2]
        exact sane.term
  terms := by
    cases step_view sane.formed taken with
    | same unchanged => rw [unchanged]; exact sane.terms
    | expire _ expired => rw [expired]; exact sane.terms
    | effect _ _ acted => rw [acted]; exact stored_act_terms sane.terms
  leader := by
    rw [step_nodes taken]
    cases step_view sane.formed taken with
    | same unchanged => rw [unchanged]; exact sane.leader
    | @expire lease _ expired =>
      rw [expired]
      rcases sane.leader with absent | ⟨n, member, entry, held, value⟩
      · exact .inl (by simp [View.expire, absent])
      · cases kept : ((view c.etcd).expire lease).leader with
        | none => exact .inl rfl
        | some left =>
          refine .inr ⟨n, member, left, kept, ?_⟩
          have same := Option.eq_some_of_filter_eq_some kept
          rw [held] at same
          cases same
          exact value
    | @effect request effect guard acted =>
      rw [acted]
      rcases request_kinds request with ⟨s, campaigns⟩ | ⟨s, resumes⟩ | ⟨id, removes⟩ | other
      · exact .inr ⟨s.id, sane.applied taken effect.1 campaigns, ledBy_act (.inl campaigns)⟩
      · -- a resume takes effect only for the node that the key names already
        have led := guard_resumer resumes guard
        rcases sane.leader with absent | ⟨n, member, held⟩
        · obtain ⟨entry, found, _⟩ := led
          rw [absent] at found
          cases found
        · cases held.unique led
          exact .inr ⟨s.id, member, ledBy_act (.inr resumes)⟩
      · exact .inl (act_remover removes).1
      · rcases sane.leader with absent | ⟨n, member, led⟩
        · exact .inl ((act_other other.1 other.2.1 other.2.2).1.trans absent)
        · exact .inr ⟨n, member, (led_act_other other).mpr led⟩
  limbo := by
    intro request member s campaigns
    rw [step_nodes taken]
    rcases step_limbo taken request member with before | ⟨m, running, issued⟩ | ⟨m, _, rfl⟩
    · exact sane.limbo request before s campaigns
    · exact sane.outstanding running issued campaigns
    · cases campaigns
  leases := by
    obtain ⟨bound, unused⟩ := sane.leases
    have update : ∀ (lease : Int) (state : LeaseState), ∃ bound, ∀ other : Int, bound ≤ other →
        Function.update c.etcd.leases lease state other = .unused := by
      intro lease state
      refine ⟨max bound (lease + 1), fun other above => ?_⟩
      have apart : other ≠ lease := by omega
      rw [Function.update_of_ne apart]
      exact unused other (by omega)
    cases step_store taken with
    | same unchanged => rw [unchanged]; exact ⟨bound, unused⟩
    | grant granted => rw [granted]; exact update _ _
    | expire _ expired => rw [expired]; exact update _ _
    | commit _ result =>
      rw [result]
      refine ⟨bound, fun lease above => ?_⟩
      rw [← unused lease above, Store.commit]
      (repeat' split) <;> rfl

/-- Runs of any steps, from a state in which this holds. -/
theorem Sane.along {Allowed : State → Action → Prop} (sane : Sane c)
    (run : Run Cluster.step Allowed c c') : Sane c' :=
  run.invariant sane fun sane _ taken => sane.step taken

end Steps

/-! ### The calls of one node -/

/-- A step of the node's own process, whose service has the given UUID, that no administrator
asks for and that etcd answers. -/
def Own (n : NodeID) (uuid : String) (_ : State) : Action → Prop
  | .call m call => m = n ∧ isHttp call = false
  | .grant m _ => m = n
  | .etcd m resolution => m = n ∧ resolution = .answered
  | .start m service => m = n ∧ service = uuid
  | _ => False

/-- A state that the cluster gets to by steps that are allowed, with the agent of the node and
etcd as they are then. -/
structure Reached (Allowed : State → Action → Prop) (n : NodeID) (c : State) (after : Agent)
    (etcd : Etcd) (c' : State) : Prop where
  run : Run step Allowed c c'
  agent : c'.agents n = after
  etcd : c'.etcd = etcd
  nodes : c'.nodes = c.nodes

theorem Reached.trans {Allowed : State → Action → Prop} {n : NodeID} {c c' c'' : State}
    {middle after : Agent} {etcd etcd' : Etcd} (first : Reached Allowed n c middle etcd c')
    (second : Reached Allowed n c' after etcd' c'') : Reached Allowed n c after etcd' c'' where
  run := first.run.trans second.run
  agent := second.agent
  etcd := second.etcd
  nodes := second.nodes.trans first.nodes

section Calls
variable {Allowed : State → Action → Prop} {c : State} {n : NodeID} {uuid : String}

theorem reaches_call {call : Call} {after : Agent} (running : (c.agents n).running = true)
    (allowed : Allowed c (.call n call))
    (moved : (c.agents n).move c.etcd c.nodes call = some (.continues after)) :
    ∃ c', Reached Allowed n c after c.etcd c' := by
  have taken : step c (.call n call) = some (c.proceed n (.continues after)) := by
    simp [step, running, moved]
  exact ⟨_, .single allowed taken, by simp [State.proceed, State.set, Next.after], rfl, rfl⟩

theorem reaches_etcd {request : Request} (running : (c.agents n).running = true)
    (allowed : Allowed c (.etcd n .answered)) (pending : (c.agents n).pending = some request)
    (done : (c.etcd.commit request.txn).2 = .done true) :
    ∃ c', Reached Allowed n c
      ((c.agents n).afterRequest (c.etcd.commit request.txn).1.revision (.done true))
      (c.etcd.commit request.txn).1 c' := by
  have taken : step c (.etcd n .answered) = some ((c.resolve request .answered).set n
      ((c.agents n).afterRequest (c.etcd.commit request.txn).1.revision (.done true))) := by
    simp [step, running, pending, State.reply, State.resolve, done]
  exact ⟨_, .single allowed taken, by simp [State.set], rfl, rfl⟩

theorem reaches_grant {lease : LeaseID} {after : Agent} (running : (c.agents n).running = true)
    (natural : 0 ≤ lease) (unused : c.etcd.leases lease = .unused)
    (granted : (c.agents n).afterGrant lease = some after) :
    ∃ c', Reached (Own n uuid) n c after (c.etcd.grant lease) c' := by
  have taken : step c (.grant n lease) =
      some ({ c with etcd := c.etcd.grant lease : State }.set n after) := by
    simp [step, running, natural, unused, granted]
  have allowed : Own n uuid c (.grant n lease) := rfl
  exact ⟨_, .single allowed taken, by simp [State.set], rfl, rfl⟩

theorem reaches_started (member : n ∈ c.nodes) (stopped : (c.agents n).running = false)
    (allowed : Allowed c (.start n uuid)) :
    ∃ c', Reached Allowed n c ((c.agents n).started uuid) c.etcd c' := by
  have taken : step c (.start n uuid) = some (c.set n ((c.agents n).started uuid)) := by
    simp [step, member, stopped]
  exact ⟨_, .single allowed taken, by simp [State.set], rfl, rfl⟩

/-- A process of the node that was just started. -/
theorem reaches_start (member : n ∈ c.nodes) :
    ∃ c', Reached (Own n uuid) n c ((c.agents n).started uuid) c.etcd c' := by
  cases running : (c.agents n).running with
  | false => exact reaches_started member running ⟨rfl, rfl⟩
  | true =>
    -- the process that runs has to end first
    have taken : step c (.call n .crash) = some (c.proceed n (.exits (c.agents n))) := by
      simp [step, running, Agent.move]
    have agent : (c.proceed n (.exits (c.agents n))).agents n = (c.agents n).stopped := by
      simp [State.proceed, State.set, Next.after]
    obtain ⟨c', run, after, etcd, nodes⟩ := @reaches_started (Own n uuid)
      (c.proceed n (.exits (c.agents n))) n uuid member (by rw [agent]; rfl) ⟨rfl, rfl⟩
    have allowed : Own n uuid c (.call n .crash) := ⟨rfl, rfl⟩
    refine ⟨c', (Run.single allowed taken).trans run, ?_, etcd, nodes⟩
    rw [after, agent]
    rfl

end Calls

/-! ### Requests that succeed -/

/-- A request whose guard holds, with the lease that it attaches live, takes effect. -/
theorem commit_of_guard {etcd : Etcd} {request : Request} (guard : Guard (view etcd) request)
    (live : ∀ s lease, request = .campaignLeader s lease ∨ request = .resumeLeader s lease →
      etcd.leases lease = .live) :
    (etcd.commit request.txn).2 = .done true := by
  have vacant : (view etcd).leader = none → etcd.createRevision .leaderPath = 0 := by
    intro absent
    have gone : etcd.entries .leaderPath = none := absent
    simp [Store.createRevision, gone]
  have compared : request.txn.cmps.all (Cmp.holds etcd) = true := by
    cases request with
    | campaignLeader | campaignLeaderAsSinglePoint =>
      simpa [Request.txn, noLeaderCmp, Cmp.holds] using vacant guard
    | resumeLeader | resumeLeaderAsSinglePoint =>
      simpa [Request.txn, Server.leaderCmp, Cmp.holds] using ledBy_iff.mp guard
    | deleteLeaderKey | startClean =>
      simpa [Request.txn, Cmp.holds] using ledBy_iff.mp guard
    | persistMyTerm | removeSPM | uploadLogForElection | uploadPromotionBinlog => rfl
  have attached : request.txn.thenOps.all (Op.leaseLive etcd) = true := by
    cases request with
    | campaignLeader s lease =>
      have granted := live s lease (.inl rfl)
      by_cases negative : lease < 0 <;>
        simp [Request.txn, Server.leaderPutOps, Server.myTermPutOps, Op.leaseLive, negative,
          granted]
    | resumeLeader s lease =>
      have granted := live s lease (.inr rfl)
      by_cases negative : lease < 0 <;>
        simp [Request.txn, Server.leaderPutOps, Op.leaseLive, negative, granted]
    | campaignLeaderAsSinglePoint | resumeLeaderAsSinglePoint =>
      simp [Request.txn, Server.leaderPutOps, Server.myTermPutOps, Server.spmPutOps, Op.leaseLive]
    | deleteLeaderKey | startClean | persistMyTerm | removeSPM | uploadLogForElection
    | uploadPromotionBinlog => rfl
  unfold Store.commit
  rw [if_pos compared, if_pos attached]

/-- The node makes its request, and etcd does what the request asks for. -/
theorem reaches_request {Allowed : State → Action → Prop} {c : State} {n : NodeID}
    {request : Request} (running : (c.agents n).running = true)
    (allowed : Allowed c (.etcd n .answered)) (pending : (c.agents n).pending = some request)
    (guard : Guard (view c.etcd) request)
    (live : ∀ s lease, request = .campaignLeader s lease ∨ request = .resumeLeader s lease →
      c.etcd.leases lease = .live) :
    ∃ c' etcd, Reached Allowed n c ((c.agents n).afterRequest etcd.revision (.done true)) etcd c' ∧
      view etcd = act (c.etcd.revision + 1) (view c.etcd) request ∧
      etcd.leases = c.etcd.leases := by
  have done := commit_of_guard guard live
  obtain ⟨c', reached⟩ := reaches_etcd running allowed pending done
  refine ⟨c', _, reached, (view_commit done).2, ?_⟩
  unfold Store.commit
  (repeat' split) <;> rfl

/-! ### From the won key to the writable service -/

/-- The node is the leader, and its service is writable. -/
structure Leads (c : State) (n : NodeID) : Prop where
  running : (c.agents n).running = true
  flag : (c.agents n).server.isLeader = true
  writable : (c.agents n).writable = true
  led : (view c.etcd).LedBy n

def CanLead (c : State) (n : NodeID) (uuid : String) : Prop :=
  ∃ c', Run step (Own n uuid) c c' ∧ Leads c' n

section Promotion
variable {c c' : State} {n : NodeID} {uuid : String} {after : Agent} {etcd : Etcd}

theorem Reached.canLead (reached : Reached (Own n uuid) n c after etcd c')
    (able : CanLead c' n uuid) : CanLead c n uuid := by
  obtain ⟨end', run, leads⟩ := able
  exact ⟨end', reached.run.trans run, leads⟩

/-- A leader on its way to `SetReadWrite`. -/
structure Won (c : State) (n : NodeID) (loop : Loop) : Prop where
  running : (c.agents n).running = true
  flag : (c.agents n).server.isLeader = true
  led : (view c.etcd).LedBy n
  loop : (c.agents n).loop = loop

theorem canLead_of_promoteReadWrite {tenure : Tenure} (won : Won c n (.promoteReadWrite tenure)) :
    CanLead c n uuid := by
  obtain ⟨running, flag, led, loop⟩ := won
  cases tenure with
  | lease lease =>
    obtain ⟨c', run, agent, etcd, _⟩ := @reaches_call (Own n uuid) c n (.service .ok)
      { (c.agents n).setReadWrite .ok with loop := (c.agents n).awaitKeepAlive lease } running
      ⟨rfl, rfl⟩ (by simp [Agent.move, Agent.afterService, loop])
    refine ⟨c', run, ?_, ?_, ?_, etcd ▸ led⟩ <;> rw [agent]
    · exact running
    · exact flag
    · rfl
  | singlePoint =>
    obtain ⟨c', run, agent, etcd, _⟩ := @reaches_call (Own n uuid) c n (.service .ok)
      { (c.agents n).setReadWrite .ok with
        server := { (c.agents n).server with isSinglePointMaster := true }
        loop := .waitUntilSlaveAppears } running ⟨rfl, rfl⟩
      (by simp [Agent.move, Agent.afterService, loop])
    refine ⟨c', run, ?_, ?_, ?_, etcd ▸ led⟩ <;> rw [agent]
    · exact running
    · exact flag
    · rfl

theorem Reached.won {Allowed : State → Action → Prop}
    (reached : Reached Allowed n c after etcd c') (running : after.running = true)
    (flag : after.server.isLeader = true) (led : (view etcd).LedBy n) : Won c' n after.loop := by
  refine ⟨?_, ?_, reached.etcd ▸ led, ?_⟩ <;> rw [reached.agent]
  · exact running
  · exact flag

theorem canLead_of_uploadPromotionPut {tenure : Tenure} {position : Position}
    (won : Won c n (.uploadPromotionPut tenure position)) : CanLead c n uuid := by
  obtain ⟨running, flag, led, loop⟩ := won
  obtain ⟨c', etcd, reached, acted, _⟩ := @reaches_request (Own n uuid) c n
    (.uploadPromotionBinlog (c.agents n).server position) running ⟨rfl, rfl⟩
    (by simp [Agent.pending, loop]) trivial (by simp)
  simp only [Agent.afterRequest, loop] at reached
  have still : (view etcd).LedBy n := by
    rw [acted]
    exact led
  exact reached.canLead (canLead_of_promoteReadWrite (reached.won running flag still))

theorem canLead_of_uploadPromotion {tenure : Tenure} (won : Won c n (.uploadPromotion tenure)) :
    CanLead c n uuid := by
  obtain ⟨running, flag, led, loop⟩ := won
  cases status : (c.agents n).reports.slaveStatus with
  | none =>
    obtain ⟨c', reached⟩ := @reaches_call (Own n uuid) c n .loadPromotion
      { c.agents n with loop := .promoteReadWrite tenure } running ⟨rfl, rfl⟩
      (by simp [Agent.move, Agent.advance, loop, status])
    exact reached.canLead (canLead_of_promoteReadWrite (reached.won running flag led))
  | some position =>
    obtain ⟨c', reached⟩ := @reaches_call (Own n uuid) c n .loadPromotion
      { c.agents n with loop := .uploadPromotionPut tenure position } running ⟨rfl, rfl⟩
      (by simp [Agent.move, Agent.advance, loop, status])
    exact reached.canLead (canLead_of_uploadPromotionPut (reached.won running flag led))

theorem canLead_of_promoteToMaster {tenure : Tenure} (won : Won c n (.promoteToMaster tenure)) :
    CanLead c n uuid := by
  obtain ⟨running, flag, led, loop⟩ := won
  obtain ⟨c', reached⟩ := @reaches_call (Own n uuid) c n (.service .ok)
    { c.agents n with loop := .uploadPromotion tenure } running ⟨rfl, rfl⟩
    (by simp [Agent.move, Agent.afterService, loop])
  exact reached.canLead (canLead_of_uploadPromotion (reached.won running flag led))

/-- However `promoteToMaster` begins, it gets to the end. -/
theorem canLead_of_promote {agent : Agent} {tenure : Tenure}
    (reached : Reached (Own n uuid) n c (agent.promote tenure) etcd c')
    (running : agent.running = true) (led : (view etcd).LedBy n) : CanLead c n uuid := by
  unfold Agent.promote at reached
  split at reached
  · rename_i flag
    exact reached.canLead (canLead_of_promoteReadWrite (reached.won running flag led))
  · exact reached.canLead (canLead_of_promoteToMaster (reached.won running rfl led))

end Promotion

/-! ### Winning the key -/

section Campaign
variable {c c' : State} {n : NodeID} {uuid : String} {after : Agent} {etcd : Etcd}

/-- A node before its campaign, or before it resumes. -/
structure Runs (c : State) (n : NodeID) (loop : Loop) : Prop where
  running : (c.agents n).running = true
  id : (c.agents n).server.id = n
  loop : (c.agents n).loop = loop

theorem Reached.runs {Allowed : State → Action → Prop}
    (reached : Reached Allowed n c after etcd c') (running : after.running = true)
    (id : after.server.id = n) : Runs c' n after.loop := by
  constructor <;> rw [reached.agent]
  · exact running
  · exact id

theorem canLead_of_campaignTxn {lease : LeaseID} (runs : Runs c n (.campaignTxn lease))
    (live : c.etcd.leases lease = .live) (vacant : (view c.etcd).leader = none) :
    CanLead c n uuid := by
  obtain ⟨running, id, loop⟩ := runs
  obtain ⟨c', etcd, reached, acted, _⟩ := @reaches_request (Own n uuid) c n
    (.campaignLeader (c.agents n).server lease) running ⟨rfl, rfl⟩
    (by simp [Agent.pending, loop]) vacant
    (by rintro s held (same | same) <;> cases same; exact live)
  have led : (view etcd).LedBy (c.agents n).server.id := by
    rw [acted]
    exact ledBy_act (.inl rfl)
  rw [id] at led
  simp only [Agent.afterRequest, loop] at reached
  exact canLead_of_promote reached running led

theorem canLead_of_resumeTxn {lease : LeaseID} (runs : Runs c n (.resumeTxn lease))
    (live : c.etcd.leases lease = .live) (led : (view c.etcd).LedBy n) : CanLead c n uuid := by
  obtain ⟨running, id, loop⟩ := runs
  obtain ⟨c', etcd, reached, acted, _⟩ := @reaches_request (Own n uuid) c n
    (.resumeLeader (c.agents n).server lease) running ⟨rfl, rfl⟩ (by simp [Agent.pending, loop])
    (by rw [Guard, id]; exact led)
    (by rintro s held (same | same) <;> cases same; exact live)
  have still : (view etcd).LedBy (c.agents n).server.id := by
    rw [acted]
    exact ledBy_act (.inr rfl)
  rw [id] at still
  simp only [Agent.afterRequest, loop] at reached
  have won := reached.won running rfl still
  obtain ⟨end', run, agent, etcd, _⟩ := @reaches_call (Own n uuid) c' n (.service .ok)
    { (c'.agents n).setReadWrite .ok with loop := (c'.agents n).awaitKeepAlive lease } won.running
    ⟨rfl, rfl⟩
    (by simp [Agent.move, Agent.afterService, won.loop])
  refine reached.canLead ⟨end', run, ?_, ?_, ?_, etcd ▸ won.led⟩ <;> rw [agent]
  · exact won.running
  · exact won.flag
  · rfl

theorem canLead_of_singlePointTxn {resume : Bool} (runs : Runs c n (.singlePointTxn resume))
    (free : if resume then (view c.etcd).LedBy n else (view c.etcd).leader = none) :
    CanLead c n uuid := by
  obtain ⟨running, id, loop⟩ := runs
  have request : ∃ request, (c.agents n).pending = some request ∧ Guard (view c.etcd) request ∧
      (request.campaigner = some (c.agents n).server ∨
        request.resumer = some (c.agents n).server) ∧ request.asSinglePoint = true := by
    cases resume with
    | true =>
      refine ⟨.resumeLeaderAsSinglePoint (c.agents n).server, ?_, ?_, .inr rfl, rfl⟩
      · simp [Agent.pending, loop]
      · rw [Guard, id]
        exact free
    | false =>
      refine ⟨.campaignLeaderAsSinglePoint (c.agents n).server, ?_, free, .inl rfl, rfl⟩
      simp [Agent.pending, loop]
  obtain ⟨request, pending, guard, publishes, single⟩ := request
  obtain ⟨c', etcd, reached, acted, _⟩ := @reaches_request (Own n uuid) c n _ running
    ⟨rfl, rfl⟩ pending guard (by rintro s held (rfl | rfl) <;> cases single)
  have led : (view etcd).LedBy (c.agents n).server.id := by
    rw [acted]
    exact ledBy_act publishes
  rw [id] at led
  simp only [Agent.afterRequest, loop] at reached
  exact canLead_of_promote reached running led

/-- A lease can still be granted. -/
def Grantable (etcd : Etcd) : Prop :=
  ∃ bound : Int, ∀ lease : Int, bound ≤ lease → etcd.leases lease = .unused

theorem Grantable.exists_unused {etcd : Etcd} (grantable : Grantable etcd) :
    ∃ lease : Int, 0 ≤ lease ∧ etcd.leases lease = .unused := by
  obtain ⟨bound, unused⟩ := grantable
  exact ⟨max 0 bound, by omega, unused _ (by omega)⟩

theorem canLead_of_resumeGrant (runs : Runs c n .resumeGrant) (grantable : Grantable c.etcd)
    (led : (view c.etcd).LedBy n) : CanLead c n uuid := by
  obtain ⟨lease, natural, unused⟩ := grantable.exists_unused
  obtain ⟨c', reached⟩ := @reaches_grant c n uuid lease { c.agents n with loop := .resumeTxn lease }
    runs.running natural unused (by simp [Agent.afterGrant, runs.loop])
  refine reached.canLead (canLead_of_resumeTxn (reached.runs runs.running runs.id) ?_ ?_)
  · simp [reached.etcd, Store.grant]
  · rw [reached.etcd]
    exact led

/-- Nobody leads, and a campaign can have its lease. -/
structure Vacant (etcd : Etcd) : Prop where
  leader : (view etcd).leader = none
  grantable : Grantable etcd

theorem canLead_of_campaignGrant (runs : Runs c n .campaignGrant) (vacant : Vacant c.etcd) :
    CanLead c n uuid := by
  obtain ⟨lease, natural, unused⟩ := vacant.grantable.exists_unused
  obtain ⟨c', reached⟩ := @reaches_grant c n uuid lease
    { c.agents n with loop := .campaignTxn lease } runs.running natural unused
    (by simp [Agent.afterGrant, runs.loop])
  refine reached.canLead (canLead_of_campaignTxn (reached.runs runs.running runs.id) ?_ ?_)
  · simp [reached.etcd, Store.grant]
  · rw [reached.etcd]
    exact vacant.leader

/-- Whatever logs are stored, the round ends in a campaign of one kind or the other. -/
theorem canLead_of_download (runs : Runs c n .download) (vacant : Vacant c.etcd) :
    CanLead c n uuid := by
  obtain ⟨running, id, loop⟩ := runs
  have perm : c.nodes.isPerm c.nodes = true := List.isPerm_iff.mpr (.refl _)
  cases single : (isLatestLog (c.agents n).server (getAllLogsForElection c.etcd c.nodes)).2 with
  | true =>
    obtain ⟨c', reached⟩ := @reaches_call (Own n uuid) c n (.download c.nodes)
      { c.agents n with loop := .singlePointTxn false } running ⟨rfl, rfl⟩
      (by simp [Agent.move, Agent.advance, loop, single, perm])
    exact reached.canLead (canLead_of_singlePointTxn (reached.runs running id)
      (reached.etcd ▸ vacant.leader))
  | false =>
    obtain ⟨c', reached⟩ := @reaches_call (Own n uuid) c n (.download c.nodes)
      { c.agents n with loop := .campaignGrant } running ⟨rfl, rfl⟩
      (by simp [Agent.move, Agent.advance, loop, single, perm])
    exact reached.canLead (canLead_of_campaignGrant (reached.runs running id)
      (reached.etcd ▸ vacant))

theorem canLead_of_uploadPut {log : LogForElection} (runs : Runs c n (.uploadPut log))
    (vacant : Vacant c.etcd) : CanLead c n uuid := by
  obtain ⟨running, id, loop⟩ := runs
  obtain ⟨c', etcd, reached, acted, leases⟩ := @reaches_request (Own n uuid) c n
    (.uploadLogForElection (c.agents n).server.id log) running ⟨rfl, rfl⟩
    (by simp [Agent.pending, loop]) trivial (by simp)
  simp only [Agent.afterRequest, loop] at reached
  have still : Vacant etcd := by
    refine ⟨?_, ?_⟩
    · rw [acted]
      exact vacant.leader
    · rw [Grantable, leases]
      exact vacant.grantable
  exact reached.canLead (canLead_of_download (reached.runs running id) (reached.etcd ▸ still))

theorem canLead_of_upload {isFormerMaster : Bool} (runs : Runs c n (.upload isFormerMaster))
    (vacant : Vacant c.etcd) : CanLead c n uuid := by
  obtain ⟨running, id, loop⟩ := runs
  have uploads : ∀ info : ReplicationInfo,
      (c.agents n).advance c.etcd c.nodes .upload = some { c.agents n with
        server := loadLog (c.agents n).server info
        loop := .uploadPut (electionLogOf (c.agents n).server info) } → CanLead c n uuid := by
    intro info advanced
    obtain ⟨c', reached⟩ := @reaches_call (Own n uuid) c n .upload
      { c.agents n with
        server := loadLog (c.agents n).server info
        loop := .uploadPut (electionLogOf (c.agents n).server info) } running ⟨rfl, rfl⟩
      (by simp only [Agent.move, advanced, Option.map_some])
    exact reached.canLead (canLead_of_uploadPut (reached.runs running id) (reached.etcd ▸ vacant))
  cases isFormerMaster with
  | false =>
    exact uploads ((c.agents n).reports.slave.getD ⟨"", "", 0⟩)
      (by simp only [Agent.advance, loop, uploadLogForElectionAsSlave])
  | true =>
    cases report : (c.agents n).reports.master with
    | some info =>
      exact uploads info (by simp only [Agent.advance, loop, uploadLogForElectionAsFormerMaster,
        report, Option.map_some])
    | none =>
      obtain ⟨c', reached⟩ := @reaches_call (Own n uuid) c n .upload
        { c.agents n with loop := .download } running ⟨rfl, rfl⟩
        (by simp [Agent.move, Agent.advance, loop, uploadLogForElectionAsFormerMaster, report])
      exact reached.canLead (canLead_of_download (reached.runs running id) (reached.etcd ▸ vacant))

end Campaign

/-! ### A fresh start -/

section Fresh
variable {c c' : State} {n : NodeID} {uuid : String}

theorem readTerm_of_record {etcd : Etcd} {term : UInt64}
    (stored : Stored (view etcd).record.term term) (small : term.toNat < 2 ^ 63) :
    readTerm etcd = .ok term := by
  rcases stored with held | ⟨absent, rfl⟩
  · exact readTerm_of_stored held small
  · have missing : text etcd .termPath = none := absent
    rw [readTerm, missing]

theorem readMyTerm_of_terms {etcd : Etcd} {id : NodeID} {term : UInt64}
    (stored : Stored ((view etcd).terms id) term) : readMyTerm id etcd = .ok term := by
  rcases stored with held | ⟨absent, rfl⟩
  · exact readMyTerm_of_stored held
  · have missing : text etcd (.myTermPath id) = none := absent
    rw [readMyTerm, missing]

/-- The number under `election/terms` of a node. -/
def storedTerm (etcd : Etcd) (n : NodeID) : UInt64 :=
  ((text etcd (.myTermPath n)).bind parseUint).getD 0

/-- As long as the global term is in the range of the signed parser, the read succeeds. -/
theorem Sane.read (sane : Sane c) (small : (globalTerm c.etcd).toNat < 2 ^ 63) (s : Server) :
    s.getLeaderAndMyTerm c.etcd =
      .ok (readLeader c.etcd (globalTerm c.etcd), storedTerm c.etcd s.id) := by
  obtain ⟨term, stored⟩ := sane.term
  obtain ⟨myTerm, mine⟩ := sane.terms s.id
  have own : storedTerm c.etcd s.id = myTerm := mine.read
  rw [stored.globalTerm] at small
  rw [Server.getLeaderAndMyTerm, readTerm_of_record stored small, readMyTerm_of_terms mine,
    stored.globalTerm, own]
  rfl

theorem reaches_read {Allowed : State → Action → Prop} {term myTerm : UInt64}
    (runs : Runs c n .getLeader) (allowed : Allowed c (.call n .read))
    (read : (c.agents n).server.getLeaderAndMyTerm c.etcd = .ok (readLeader c.etcd term, myTerm)) :
    ∃ c', Reached Allowed n c ((c.agents n).afterRead (readLeader c.etcd term) myTerm) c.etcd c' :=
  @reaches_call Allowed c n .read _ runs.running allowed
    (by simp [Agent.move, Agent.advance, runs.loop, read])

/-- A fresh process of the node that the leader key names resumes its leadership, in the mode
in which it was held. -/
theorem canLead_of_led (sane : Sane c) (runs : Runs c n .getLeader)
    (small : (globalTerm c.etcd).toNat < 2 ^ 63) (led : (view c.etcd).LedBy n) :
    CanLead c n uuid := by
  obtain ⟨c', reached⟩ := @reaches_read c n (Own n uuid) _ _ runs ⟨rfl, rfl⟩
    (sane.read small (c.agents n).server)
  have name : (readLeader c.etcd (globalTerm c.etcd)).name = n := readLeader_name led
  have present : n ≠ "" := fun empty =>
    c.named (empty ▸ sane.formed.member n runs.running)
  simp only [Agent.afterRead, name, Server.isSameLeader, runs.id, beq_self_eq_true, ne_eq, present,
    not_false_eq_true, ↓reduceIte] at reached
  split at reached
  · exact reached.canLead (canLead_of_singlePointTxn (reached.runs runs.running rfl)
      (reached.etcd ▸ led))
  · exact reached.canLead (canLead_of_resumeGrant (reached.runs runs.running rfl)
      (reached.etcd ▸ sane.leases) (reached.etcd ▸ led))

/-- Without a leader key a fresh process campaigns, with a round of logs before it unless
the cluster is new. -/
theorem canLead_of_vacant (sane : Sane c) (runs : Runs c n .getLeader)
    (small : (globalTerm c.etcd).toNat < 2 ^ 63) (absent : (view c.etcd).leader = none)
    (able : (c.agents n).server.isOnlyFollow = false) : CanLead c n uuid := by
  obtain ⟨c', reached⟩ := @reaches_read c n (Own n uuid) _ _ runs ⟨rfl, rfl⟩
    (sane.read small (c.agents n).server)
  have vacant : Vacant c.etcd := ⟨absent, sane.leases⟩
  have missing : c.etcd.entries .leaderPath = none := absent
  have name : (readLeader c.etcd (globalTerm c.etcd)).name = "" := by
    simp [readLeader, text, missing, asText]
  simp only [Agent.afterRead, name, ne_eq, not_true_eq_false, ↓reduceIte] at reached
  rw [if_neg (Bool.not_eq_true _ ▸ able)] at reached
  split at reached
  · exact reached.canLead (canLead_of_upload (reached.runs runs.running runs.id)
      (reached.etcd ▸ vacant))
  · exact reached.canLead (canLead_of_campaignGrant (reached.runs runs.running runs.id)
      (reached.etcd ▸ vacant))

end Fresh

/-- From every state that the cluster can get into there is a node whose process, started
afresh, becomes the writable master by its own calls: the node that the leader key names,
if there is one. -/
theorem cluster_can_recover {nodes : List NodeID} {named : "" ∉ nodes} {cfg : NodeID → Config}
    {c : State} (run : Run step (fun _ _ => True) (init nodes named cfg) c)
    (small : (globalTerm c.etcd).toNat < 2 ^ 63)
    (able : ∃ n ∈ c.nodes, (c.agents n).server.cfg.onlyFollow = false) :
    ∃ n ∈ c.nodes, (∀ m, text c.etcd .leaderPath = some m → m = n) ∧
      ∀ uuid, ∃ c', Run step (Own n uuid) c c' ∧ text c'.etcd .leaderPath = some n ∧
        (c'.agents n).writable = true ∧
        HealthCheck.masterCheck (c'.agents n).server = HealthCheck.statusOK := by
  have sane : Sane c := (sane_init nodes named cfg).along run
  have chosen : ∃ n ∈ c.nodes, (view c.etcd).LedBy n ∨
      (view c.etcd).leader = none ∧ (c.agents n).server.cfg.onlyFollow = false := by
    rcases sane.leader with absent | ⟨n, member, led⟩
    · obtain ⟨n, member, leads⟩ := able
      exact ⟨n, member, .inr ⟨absent, leads⟩⟩
    · exact ⟨n, member, .inl led⟩
  obtain ⟨n, member, eligible⟩ := chosen
  refine ⟨n, member, fun m stored => ?_, ?_⟩
  · have led : (view c.etcd).LedBy m := ledBy_iff_asText.mpr stored
    rcases eligible with own | ⟨absent, _⟩
    · exact led.unique own
    · obtain ⟨entry, found, _⟩ := led
      rw [absent] at found
      cases found
  · intro uuid
    obtain ⟨fresh, reached⟩ := @reaches_start c n uuid member
    have freshSane : Sane fresh := sane.along reached.run
    have runs : Runs fresh n .getLeader := reached.runs rfl (sane.formed.id n)
    have freshSmall : (globalTerm fresh.etcd).toNat < 2 ^ 63 := by rwa [reached.etcd]
    have canLead : CanLead fresh n uuid := by
      rcases eligible with led | ⟨absent, leads⟩
      · exact canLead_of_led freshSane runs freshSmall (reached.etcd ▸ led)
      · refine canLead_of_vacant freshSane runs freshSmall (reached.etcd ▸ absent) ?_
        rw [reached.agent]
        simp [Agent.started, Server.isOnlyFollow, leads]
    obtain ⟨c', path, leads⟩ := reached.canLead canLead
    refine ⟨c', path, ledBy_iff_asText.mp leads.led, leads.writable, ?_⟩
    simp [HealthCheck.masterCheck, leads.flag]

/-- The single point master has crashed and its key has no lease: the node itself takes it up
again. -/
theorem cluster_can_recover_single_point :
    ∃ c, Run step (fun _ _ => True) (init ["a"] (by decide) sampleCfg) c ∧
      (c.agents "a").running = false ∧ text c.etcd .leaderPath = some "a" ∧
      ∃ c', Run step (Own "a" "u") c c' ∧ (c'.agents "a").writable = true := by
  have ran : (exec (restrict step fun _ _ => true) (init ["a"] (by decide) sampleCfg)
      (becomesSinglePoint ++ [.call "a" .crash])).any
      (fun c => !(c.agents "a").running && (text c.etcd .leaderPath == some "a") &&
        decide ((globalTerm c.etcd).toNat < 2 ^ 63) && c.nodes.contains "a" &&
        !(c.agents "a").server.cfg.onlyFollow) = true := by
    decide +kernel
  obtain ⟨c, run, found⟩ := exists_run_of_exec (fun _ _ _ => trivial) ran
  simp only [Bool.and_eq_true, beq_iff_eq, Bool.not_eq_true', decide_eq_true_eq,
    List.contains_iff_mem] at found
  obtain ⟨⟨⟨⟨stopped, stored⟩, small⟩, member⟩, leads⟩ := found
  obtain ⟨n, _, same, recovers⟩ := cluster_can_recover run small ⟨"a", member, leads⟩
  cases same "a" stored
  obtain ⟨c', path, _, writable, _⟩ := recovers "u"
  exact ⟨c, run, stopped, stored, c', path, writable⟩

end Moha.FailoverProgress
