import Moha.ClusterSteps
import Moha.Recovery

/-! The position that a node uploads while it is promoted, from
`server.go::uploadPromotionBinlog` to `moctl/recovery.go::GetEtcdSwitchInfo`. A run of
the cluster is traced for one node: the promotion it is in, or has last returned
from, and the keys that were put. -/
namespace Moha.PromotionRecord
open KeyValueStore DecimalText PathText LeaderRecord LeaderView Election LeaderLoop Cluster
open ClusterSteps Runs
open Registry (rootPath)
open Recovery hiding Config

/-- One call of `promoteToMaster` after a campaign: the term won, the position put,
and whether the call has returned nil. -/
structure Promotion where
  term : UInt64
  uploaded : Option Position := none
  returned : Bool := false
  deriving DecidableEq, Repr

/-- The calls of `promoteToMaster`. -/
def promoting : Loop → Bool
  | .promoteToMaster _ | .uploadPromotion _ | .uploadPromotionPut _ _ | .promoteReadWrite _ => true
  | _ => false

/-- The last call of `promoteToMaster`. -/
def returning : Loop → Bool
  | .promoteReadWrite _ => true
  | _ => false

structure Traced where
  cluster : State
  promotion : Option Promotion := none
  written : List Key := []

def putKey : Op Key Value → Option Key
  | .put key _ _ => some key
  | .delete _ => none

def putKeys (request : Request) : List Key := request.txn.thenOps.filterMap putKey

/-- What an action is to the promotion of `n`. -/
def note (n : NodeID) (t : Traced) : Action → Option Promotion
  | .etcd m resolution =>
    if m = n then
      match (t.cluster.agents n).pending with
      | some (.uploadPromotionBinlog _ position) =>
        if resolution = .lost then t.promotion
        else t.promotion.map fun promotion =>
          if promotion.returned then promotion else { promotion with uploaded := some position }
      | some request =>
        match request.campaigner with
        | some s =>
          if resolution = .answered ∧ (t.cluster.etcd.commit request.txn).2 = .done true then
            some { term := s.term + 1 }
          else t.promotion
        | none => t.promotion
      | none => t.promotion
    else t.promotion
  | .call m (.service .ok) =>
    if m = n ∧ returning (t.cluster.agents n).loop = true then
      t.promotion.map fun promotion => { promotion with returned := true }
    else t.promotion
  | _ => t.promotion

/-- A step of the cluster. A promotion that neither goes on nor has returned nil is
over. -/
def trace (n : NodeID) (t : Traced) (a : Action) : Option Traced :=
  (step t.cluster a).map fun c =>
    { cluster := c
      promotion := (note n t a).filter fun promotion =>
        promotion.returned || promoting (c.agents n).loop
      written := (applied t.cluster a).toList.flatMap putKeys ++ t.written }

def start (nodes : List NodeID) (named : "" ∉ nodes) (cfg : NodeID → Config) :
    Traced where
  cluster := init nodes named cfg

/-- The promotion of the traced node to the term is going on. -/
def Promotes (term : UInt64) (t : Traced) : Prop :=
  ∃ promotion, t.promotion = some promotion ∧ promotion.term = term ∧ promotion.returned = false

/-- What keeps the record of the promotion of `n` to the term: the term is won by
`campaignLeader` while the node is not flagged as leader, the position is loaded, and
its put is not lost. No other promotion puts a record whose term begins with the
number before the term. -/
structure Recorded (n : NodeID) (term : UInt64) (t : Traced) (a : Action) : Prop where
  wins : ∀ request s, a = .etcd n .answered → (t.cluster.agents n).pending = some request →
    request.campaigner = some s → (t.cluster.etcd.commit request.txn).2 = .done true →
    s.term + 1 = term → (∃ lease, request = .campaignLeader s lease) ∧ s.isLeader = false
  loads : a = .call n .loadPromotion → Promotes term t →
    (t.cluster.agents n).reports.slaveStatus ≠ none
  puts : ∀ resolution s position, a = .etcd n resolution → Promotes term t →
    (t.cluster.agents n).pending = some (.uploadPromotionBinlog s position) → resolution ≠ .lost
  alone : ∀ s position, applied t.cluster a = some (.uploadPromotionBinlog s position) →
    (sprint (term - 1)).toList <+: (sprint (s.term - 1)).toList →
    (∃ resolution, a = .etcd n resolution) ∧ Promotes term t

/-! ### The keys that are put -/

/-- The node that makes a request. -/
def sender : Request → NodeID
  | .campaignLeader s _ | .resumeLeader s _ | .campaignLeaderAsSinglePoint s
  | .resumeLeaderAsSinglePoint s | .persistMyTerm s | .uploadPromotionBinlog s _ => s.id
  | .deleteLeaderKey id _ | .startClean id _ | .removeSPM id | .uploadLogForElection id _ => id

theorem owner_of_put {request : Request} {key : Key} {id : NodeID} (put : key ∈ putKeys request)
    (owned : owner key = some id) : id = sender request := by
  have all : ∀ key ∈ putKeys request, owner key = none ∨ owner key = some (sender request) := by
    cases request <;>
      simp [putKeys, Request.txn, Server.leaderPutOps, Server.myTermPutOps, Server.spmPutOps,
        putKey, owner, sender]
  rcases all key put with none | some
  · cases none.symm.trans owned
  · exact Option.some.inj (owned.symm.trans some)

/-- What is stored after a write was stored before it or is put by it. -/
theorem stored_applyOps {revision : Nat} {entries : Key → Option (Entry Value)}
    {ops : List (Op Key Value)} {key : Key} (stored : applyOps revision entries ops key ≠ none) :
    entries key ≠ none ∨ key ∈ ops.filterMap putKey := by
  induction ops generalizing entries with
  | nil => exact .inl stored
  | cons op rest ih =>
    rcases ih stored with before | later
    · cases op with
      | put put value lease =>
        by_cases same : key = put
        · exact .inr (by simp [putKey, same])
        · exact .inl (by simpa [Op.apply, Function.update_of_ne same] using before)
      | delete deleted =>
        by_cases same : key = deleted
        · exact absurd (by simp [Op.apply, same]) before
        · exact .inl (by simpa [Op.apply, Function.update_of_ne same] using before)
    · refine .inr ?_
      rw [List.filterMap_cons]
      cases op with
      | put => exact List.mem_cons_of_mem _ later
      | delete => exact later

theorem sender_of_pending {agent : Agent} {request : Request}
    (pending : agent.pending = some request) : sender request = agent.server.id := by
  unfold Agent.pending at pending
  split at pending <;> cases pending <;> rfl

theorem sender_of_outstanding {agent : Agent} {request : Request}
    (member : request ∈ agent.outstanding) : sender request = agent.server.id := by
  rcases List.mem_append.mp member with pending | handled
  · exact sender_of_pending (by simpa using pending)
  · obtain ⟨handler, _, asked⟩ := List.mem_filterMap.mp handled
    cases handler <;> cases asked
    rfl

/-- The nodes of the cluster own every key that was put, and the keys put are those
that are stored. -/
structure Written (nodes : List NodeID) (t : Traced) : Prop where
  formed : WellFormed t.cluster
  same : t.cluster.nodes = nodes
  limbo : ∀ request ∈ t.cluster.limbo, putKeys request ≠ [] → sender request ∈ nodes
  owned : ∀ key ∈ t.written, ∀ id, owner key = some id → id ∈ nodes
  covers : ∀ key, t.cluster.etcd.entries key ≠ none → key ∈ t.written

theorem written_start (nodes : List NodeID) (named : "" ∉ nodes) (cfg : NodeID → Config) :
    Written nodes (start nodes named cfg) where
  formed := wellFormed_init nodes named cfg
  same := rfl
  limbo _ member := by cases member
  owned _ member := by cases member
  covers _ stored := absurd rfl stored

theorem trace_eq {n : NodeID} {t t' : Traced} {a : Action} (taken : trace n t a = some t') :
    step t.cluster a = some t'.cluster ∧
      t'.promotion = (note n t a).filter (fun promotion =>
        promotion.returned || promoting (t'.cluster.agents n).loop) ∧
      t'.written = (applied t.cluster a).toList.flatMap putKeys ++ t.written := by
  obtain ⟨c, moved, rfl⟩ := Option.map_eq_some_iff.mp taken
  exact ⟨moved, rfl, rfl⟩

/-- Who applies a request that puts a key is a node of the cluster. -/
theorem sender_of_applied {nodes : List NodeID} {t : Traced} {c : State} {a : Action}
    {request : Request} (written : Written nodes t) (taken : step t.cluster a = some c)
    (applies : applied t.cluster a = some request) (puts : putKeys request ≠ []) :
    sender request ∈ nodes := by
  cases applier taken applies with
  | loop _ running pending =>
    rw [sender_of_pending pending, written.formed.id, ← written.same]
    exact written.formed.member _ running
  | handler _ _ _ removal | cleaner _ removal =>
    subst removal
    exact absurd rfl puts
  | late _ held => exact written.limbo request (List.mem_of_getElem? held) puts

theorem written_step {nodes : List NodeID} {n : NodeID} {t t' : Traced} {a : Action}
    (written : Written nodes t) (taken : trace n t a = some t') : Written nodes t' := by
  obtain ⟨moved, _, keys⟩ := trace_eq taken
  refine ⟨wellFormed_step written.formed moved, (step_nodes moved).trans written.same, ?_, ?_, ?_⟩
  · intro request member puts
    rcases step_limbo moved request member with before | ⟨m, running, held⟩ | ⟨m, _, rfl⟩
    · exact written.limbo request before puts
    · rw [sender_of_outstanding held, written.formed.id, ← written.same]
      exact written.formed.member m running
    · exact absurd rfl puts
  · intro key member id owned
    rw [keys] at member
    rcases List.mem_append.mp member with put | before
    · obtain ⟨request, applies, put⟩ := List.mem_flatMap.mp put
      rw [owner_of_put put owned]
      exact sender_of_applied written moved (by simpa using applies) (List.ne_nil_of_mem put)
    · exact written.owned key before id owned
  · intro key stored
    rw [keys]
    refine List.mem_append.mpr ?_
    cases step_store moved with
    | same unchanged =>
      rw [unchanged] at stored
      exact .inr (written.covers key stored)
    | grant granted =>
      rw [granted] at stored
      exact .inr (written.covers key stored)
    | expire _ expired =>
      rw [expired] at stored
      refine .inr (written.covers key fun absent => stored ?_)
      simp [Store.expire, absent]
    | @commit request effect result =>
      rw [result, (Store.commit_succeeded effect.2).2] at stored
      rcases stored_applyOps stored with before | put
      · exact .inr (written.covers key before)
      · exact .inl (List.mem_flatMap.mpr ⟨request, by simp [effect.1], put⟩)

/-! ### The records -/

def opKey : Op Key Value → Key
  | .put key _ _ | .delete key => key

theorem applyOps_of_untouched {revision : Nat} {entries : Key → Option (Entry Value)}
    {ops : List (Op Key Value)} {key : Key} (untouched : ∀ op ∈ ops, opKey op ≠ key) :
    applyOps revision entries ops key = entries key := by
  induction ops generalizing entries with
  | nil => rfl
  | cons op rest ih =>
    obtain ⟨apart, others⟩ := List.forall_mem_cons.mp untouched
    refine (@ih (op.apply revision entries) others).trans ?_
    cases op with
    | put | delete => exact Function.update_of_ne (Ne.symm apart) _ _

/-- Only an upload puts a promotion record, and nothing removes one. -/
theorem switch_step {c c' : State} {a : Action} (formed : WellFormed c)
    (taken : step c a = some c') :
    (∀ k id, c'.etcd.value (.switchPath k id) = c.etcd.value (.switchPath k id)) ∨
      ∃ s position, applied c a = some (.uploadPromotionBinlog s position) ∧
        ∀ k id, c'.etcd.value (.switchPath k id) =
          if k = s.term - 1 ∧ id = s.id then some (.position position)
          else c.etcd.value (.switchPath k id) := by
  cases step_store taken with
  | same unchanged => exact .inl fun k id => by rw [unchanged]
  | grant granted =>
    refine .inl fun k id => ?_
    rw [granted]
    rfl
  | @expire lease _ expired =>
    refine .inl fun k id => ?_
    rw [expired]
    cases stored : c.etcd.entries (.switchPath k id) with
    | none => simp [Store.value, Store.expire, stored]
    | some entry =>
      have unleased := formed.permanent _ entry (by simp) (by simp) stored
      simp [Store.value, Store.expire, stored, Option.filter_some, Entry.attachedTo, unleased]
  | @commit request effect result =>
    have entries := (Store.commit_succeeded effect.2).2
    rw [← result] at entries
    by_cases uploads : ∃ s position, request = .uploadPromotionBinlog s position
    · obtain ⟨s, position, rfl⟩ := uploads
      refine .inr ⟨s, position, effect.1, fun k id => ?_⟩
      simp only [Store.value, entries, Request.txn, applyOps, List.foldl_cons, List.foldl_nil,
        Op.apply]
      by_cases same : k = s.term - 1 ∧ id = s.id
      · simp [same]
      · have apart : Key.switchPath k id ≠ .switchPath (s.term - 1) s.id := by simpa using same
        rw [Function.update_of_ne apart, if_neg same]
    · refine .inl fun k id => ?_
      simp only [Store.value, entries]
      rw [applyOps_of_untouched]
      cases request with
      | uploadPromotionBinlog s position => exact absurd ⟨s, position, rfl⟩ uploads
      | _ =>
        simp [Request.txn, Server.leaderPutOps, Server.myTermPutOps, Server.spmPutOps, opKey]

/-! ### The loop in `promoteToMaster` -/

/-- How the loop goes on inside `promoteToMaster`. -/
inductive Proceeds (c : State) (a : Action) (n : NodeID) : Loop → Loop → Prop where
  | stays (loop : Loop) : Proceeds c a n loop loop
  | promoted (tenure : Tenure) : Proceeds c a n (.promoteToMaster tenure) (.uploadPromotion tenure)
  | loaded (tenure : Tenure) (position : Position) :
      Proceeds c a n (.uploadPromotion tenure) (.uploadPromotionPut tenure position)
  | notLoaded (tenure : Tenure) (action : a = .call n .loadPromotion)
      (absent : (c.agents n).reports.slaveStatus = none) :
      Proceeds c a n (.uploadPromotion tenure) (.promoteReadWrite tenure)
  | put (tenure : Tenure) (position : Position) {resolution : Resolution}
      (action : a = .etcd n resolution) :
      Proceeds c a n (.uploadPromotionPut tenure position) (.promoteReadWrite tenure)

private theorem afterService_promoting {c : State} {n : NodeID} {a : Action} {outcome : Outcome}
    {next : Next} (moved : (c.agents n).afterService outcome = some next)
    (was : promoting (c.agents n).loop = true) (still : promoting next.after.loop = true) :
    next.after.running = (c.agents n).running ∧
      next.after.server.term = (c.agents n).server.term ∧
      Proceeds c a n (c.agents n).loop next.after.loop := by
  cases loop : (c.agents n).loop with
  | promoteToMaster tenure =>
    simp only [Agent.afterService, loop, Option.some.injEq] at moved
    subst moved
    exact ⟨rfl, rfl, .promoted tenure⟩
  | promoteReadWrite tenure =>
    cases tenure with
    | lease lease =>
      simp only [Agent.afterService, loop, Option.some.injEq] at moved
      subst moved
      simp only [Next.after] at still
      split at still
      · rcases (c.agents n).awaitKeepAlive_eq lease with next | next <;> rw [next] at still <;>
          cases still
      · cases still
    | singlePoint =>
      simp only [Agent.afterService, loop] at moved
      split at moved <;> cases moved <;> cases still
  | uploadPromotion | uploadPromotionPut => simp [Agent.afterService, loop] at moved
  | _ => simp [loop, promoting] at was

private theorem advance_promoting {c : State} {n : NodeID} {call : Call} {after : Agent}
    (moved : (c.agents n).advance c.etcd c.nodes call = some after)
    (was : promoting (c.agents n).loop = true) :
    after.running = (c.agents n).running ∧ after.server.term = (c.agents n).server.term ∧
      Proceeds c (.call n call) n (c.agents n).loop after.loop := by
  cases loop : (c.agents n).loop with
  | uploadPromotion tenure =>
    cases call with
    | loadPromotion =>
      simp only [Agent.advance, loop] at moved
      split at moved
      · rename_i absent
        cases moved
        exact ⟨rfl, rfl, .notLoaded tenure rfl absent⟩
      · rename_i position _
        cases moved
        exact ⟨rfl, rfl, .loaded tenure position⟩
    | _ => simp [Agent.advance, loop] at moved
  | promoteToMaster | uploadPromotionPut | promoteReadWrite =>
    cases call <;> simp [Agent.advance, loop] at moved
  | _ => simp [loop, promoting] at was

private theorem move_promoting {c : State} {n : NodeID} {call : Call} {next : Next}
    (running : (c.agents n).running = true)
    (moved : (c.agents n).move c.etcd c.nodes call = some next)
    (was : promoting (c.agents n).loop = true) (still : promoting next.after.loop = true) :
    next.after.running = (c.agents n).running ∧
      next.after.server.term = (c.agents n).server.term ∧
      Proceeds c (.call n call) n (c.agents n).loop next.after.loop := by
  rcases steady_or_advance moved with steady | ⟨after, advanced, rfl⟩
  · cases next with
    | exits after => cases still
    | continues after =>
      rcases move_loop_kept moved (steady.running.trans running) with
        kept | ⟨lease, barrier⟩ | ⟨outcome, rfl, serviced⟩ | ⟨after, advanced, same⟩
      · refine ⟨steady.running, steady.memory.term, ?_⟩
        rw [kept]
        exact .stays _
      · rw [barrier] at was
        cases was
      · exact afterService_promoting serviced was still
      · cases same
        exact advance_promoting advanced was
  · exact advance_promoting advanced was

theorem proceeds_step {c c' : State} {a : Action} {n : NodeID} (taken : step c a = some c')
    (was : promoting (c.agents n).loop = true) (still : promoting (c'.agents n).loop = true) :
    (c'.agents n).running = (c.agents n).running ∧
      (c'.agents n).server.term = (c.agents n).server.term ∧
      Proceeds c a n (c.agents n).loop (c'.agents n).loop := by
  cases step_agent taken n with
  | same agent =>
    rw [agent]
    exact ⟨rfl, rfl, .stays _⟩
  | called action running moved agent =>
    subst action
    rw [agent] at still ⊢
    exact move_promoting running moved was still
  | granted _ _ granted =>
    unfold Agent.afterGrant at granted
    split at granted
    · rename_i loop
      simp [loop, promoting] at was
    · rename_i loop
      simp [loop, promoting] at was
    · contradiction
  | @replied resolution request action _ pending agent =>
    rw [agent] at still ⊢
    cases loop : (c.agents n).loop with
    | uploadPromotionPut tenure position =>
      have after : (c.agents n).afterRequest c'.etcd.revision (c.reply request resolution) =
          { c.agents n with loop := .promoteReadWrite tenure } := by
        simp only [Agent.afterRequest, loop]
      rw [after]
      exact ⟨rfl, rfl, .put tenure position action⟩
    | promoteToMaster | uploadPromotion | promoteReadWrite =>
      simp [Agent.pending, loop] at pending
    | _ => simp [loop, promoting] at was
  | handled _ _ agent =>
    rw [agent]
    exact ⟨rfl, rfl, .stays _⟩
  | started _ _ _ agent =>
    rw [agent] at still
    cases still
  | serviceStopped _ agent =>
    rw [agent]
    exact ⟨rfl, rfl, .stays _⟩
  | reported _ agent =>
    rw [agent]
    exact ⟨rfl, rfl, .stays _⟩

/-- A node that has a position at etcd. -/
theorem loop_of_upload {agent : Agent} {s : Server} {position : Position}
    (pending : agent.pending = some (.uploadPromotionBinlog s position)) :
    s = agent.server ∧ ∃ tenure, agent.loop = .uploadPromotionPut tenure position := by
  unfold Agent.pending at pending
  split at pending <;> cases pending
  exact ⟨rfl, _, by assumption⟩

/-! ### The promotion -/

/-- The node puts a position while its promotion goes on. -/
def PutsNow (n : NodeID) (t : Traced) (a : Action) (promotion : Promotion) : Prop :=
  promotion.returned = false ∧ ∃ resolution s position, a = .etcd n resolution ∧
    resolution ≠ .lost ∧
    (t.cluster.agents n).pending = some (.uploadPromotionBinlog s position)

/-- How a step comes to a promotion. -/
inductive Noted (n : NodeID) (t : Traced) (a : Action) (after : Promotion) : Prop where
  | won {request : Request} {s : Server} (action : a = .etcd n .answered)
      (pending : (t.cluster.agents n).pending = some request)
      (campaigns : request.campaigner = some s)
      (succeeded : (t.cluster.etcd.commit request.txn).2 = .done true)
      (result : after = { term := s.term + 1 })
  | uploaded {promotion : Promotion} {resolution : Resolution} {s : Server} {position : Position}
      (held : t.promotion = some promotion) (ongoing : promotion.returned = false)
      (action : a = .etcd n resolution) (kept : resolution ≠ .lost)
      (pending : (t.cluster.agents n).pending = some (.uploadPromotionBinlog s position))
      (result : after = { promotion with uploaded := some position })
  | returned {promotion : Promotion} (held : t.promotion = some promotion)
      (action : a = .call n (.service .ok))
      (loop : returning (t.cluster.agents n).loop = true)
      (result : after = { promotion with returned := true })
  | same (held : t.promotion = some after) (quiet : ¬ PutsNow n t a after)

theorem noted {n : NodeID} {t : Traced} {a : Action} {after : Promotion}
    (notes : note n t a = some after) : Noted n t a after := by
  cases a with
  | etcd m resolution =>
    simp only [note] at notes
    split at notes
    · rename_i same
      subst same
      split at notes
      · rename_i s position pending
        split at notes
        · rename_i lost
          refine .same notes ?_
          rintro ⟨_, resolution', _, _, action, kept, _⟩
          cases action
          exact kept lost
        · rename_i kept
          obtain ⟨promotion, held, result⟩ := Option.map_eq_some_iff.mp notes
          split at result
          · rename_i returned
            subst result
            exact .same held fun puts => by cases returned.symm.trans puts.1
          · rename_i ongoing
            exact .uploaded held (by simpa using ongoing) rfl kept pending result.symm
      · rename_i request other pending
        have quiet : ¬ PutsNow m t (.etcd m resolution) after := by
          rintro ⟨_, _, s, position, _, _, uploads⟩
          cases pending.symm.trans uploads
          exact other _ _ rfl
        split at notes
        · rename_i s campaigns
          split at notes
          · rename_i succeeded
            cases notes
            exact .won (by rw [succeeded.1]) pending campaigns succeeded.2 rfl
          · exact .same notes quiet
        · exact .same notes quiet
      · rename_i pending
        refine .same notes ?_
        rintro ⟨_, _, _, _, _, _, uploads⟩
        cases pending.symm.trans uploads
    · rename_i other
      refine .same notes ?_
      rintro ⟨_, _, _, _, action, _⟩
      cases action
      exact other rfl
  | call m call =>
    have quiet : ¬ PutsNow n t (.call m call) after := by
      rintro ⟨_, _, _, _, action, _⟩
      cases action
    simp only [note] at notes
    split at notes
    · rename_i action
      cases action
    · rename_i action
      cases action
      split at notes
      · rename_i returns
        obtain ⟨rfl, loop⟩ := returns
        obtain ⟨promotion, held, result⟩ := Option.map_eq_some_iff.mp notes
        exact .returned held rfl loop result.symm
      · exact .same notes quiet
    · exact .same notes quiet
  | _ =>
    refine .same notes ?_
    rintro ⟨_, _, _, _, action, _⟩
    cases action

/-- Where the node stands in its promotion to the term: past the put only with a
position uploaded. -/
structure Going (c : State) (n : NodeID) (term : UInt64) (promotion : Promotion) : Prop where
  running : (c.agents n).running = true
  term : (c.agents n).server.term = term
  loop : promoting (c.agents n).loop = true
  uploaded : returning (c.agents n).loop = true → promotion.uploaded ≠ none

/-- The record of the promotion to the term is the one that was uploaded, and no other
record begins like it. -/
structure Kept (n : NodeID) (term : UInt64) (t : Traced) : Prop where
  going : ∀ promotion, t.promotion = some promotion → promotion.term = term →
    promotion.returned = false → Going t.cluster n term promotion
  returned : ∀ promotion, t.promotion = some promotion → promotion.term = term →
    promotion.returned = true → promotion.uploaded ≠ none
  stored : ∀ promotion position, t.promotion = some promotion → promotion.term = term →
    promotion.uploaded = some position →
    t.cluster.etcd.value (.switchPath (term - 1) n) = some (.position position)
  alone : ∀ k id, t.cluster.etcd.value (.switchPath k id) ≠ none →
    (sprint (term - 1)).toList <+: (sprint k).toList → k = term - 1 ∧ id = n

theorem kept_start (n : NodeID) (term : UInt64) (nodes : List NodeID) (named : "" ∉ nodes)
    (cfg : NodeID → Config) : Kept n term (start nodes named cfg) where
  going _ held := by cases held
  returned _ held := by cases held
  stored _ _ held := by cases held
  alone _ _ stored := absurd rfl stored

/-- A campaign that succeeds enters `promoteToMaster`. -/
theorem going_won {c c' : State} {n : NodeID} {s : Server} {lease : LeaseID} {term : UInt64}
    {promotion : Promotion} (taken : step c (.etcd n .answered) = some c')
    (pending : (c.agents n).pending = some (.campaignLeader s lease))
    (unflagged : s.isLeader = false) (succeeded : (c.etcd.commit (Request.txn
      (.campaignLeader s lease))).2 = .done true) (wins : s.term + 1 = term) :
    Going c' n term promotion := by
  obtain ⟨running, request, asked, rfl⟩ := step_etcd taken
  cases pending.symm.trans asked
  have loop : s = (c.agents n).server ∧ (c.agents n).loop = .campaignTxn lease := by
    unfold Agent.pending at pending
    split at pending <;> cases pending
    exact ⟨rfl, by assumption⟩
  obtain ⟨rfl, loop⟩ := loop
  have reply : c.reply (.campaignLeader (c.agents n).server lease) .answered = .done true :=
    succeeded
  constructor <;>
    simp [State.set, reply, Agent.afterRequest, loop, Agent.promote, Agent.keepLeaderAlive,
      unflagged, running, wins, promoting, returning]

theorem value_of_upload {c c' : State} {a : Action} {s : Server} {position : Position}
    (taken : step c a = some c')
    (applies : applied c a = some (.uploadPromotionBinlog s position)) :
    c'.etcd.value (.switchPath (s.term - 1) s.id) = some (.position position) := by
  rw [etcd_of_applied taken applies]
  simp [Request.txn, Store.commit, Op.leaseLive, Op.changes, Store.write, applyOps, Op.apply,
    Store.value]

section Step

variable {nodes : List NodeID} {n : NodeID} {term : UInt64} {t t' : Traced} {a : Action}

theorem going_step (kept : Kept n term t) (recorded : Recorded n term t a)
    (moved : step t.cluster a = some t'.cluster) {after : Promotion} (notes : Noted n t a after)
    (promotes : after.term = term) (ongoing : after.returned = false)
    (still : promoting (t'.cluster.agents n).loop = true) : Going t'.cluster n term after := by
  cases notes with
  | @won request s action pending campaigns succeeded result =>
    subst result action
    obtain ⟨⟨lease, rfl⟩, unflagged⟩ :=
      recorded.wins request s rfl pending campaigns succeeded promotes
    exact going_won moved pending unflagged succeeded promotes
  | @uploaded promotion _ _ position held was action lives pending result =>
    subst result
    have before := kept.going promotion held promotes was
    obtain ⟨running, same, _⟩ := proceeds_step moved before.loop still
    exact ⟨running.trans before.running, same.trans before.term, still, by simp⟩
  | returned _ _ _ result =>
    subst result
    cases ongoing
  | same held quiet =>
    have before := kept.going after held promotes ongoing
    have promotion : Promotes term t := ⟨after, held, promotes, ongoing⟩
    obtain ⟨running, same, proceeds⟩ := proceeds_step moved before.loop still
    refine ⟨running.trans before.running, same.trans before.term, still, fun returns => ?_⟩
    generalize loop : (t.cluster.agents n).loop = was at proceeds
    generalize (t'.cluster.agents n).loop = next at proceeds returns
    cases proceeds with
    | stays => exact before.uploaded (loop ▸ returns)
    | promoted | loaded => cases returns
    | notLoaded _ action absent => exact absurd absent (recorded.loads action promotion)
    | @put _ position resolution action =>
      have pending : (t.cluster.agents n).pending =
          some (.uploadPromotionBinlog (t.cluster.agents n).server position) := by
        simp [Agent.pending, loop]
      have lives := recorded.puts resolution _ position action promotion pending
      exact absurd ⟨ongoing, resolution, _, position, action, lives, pending⟩ quiet

theorem returned_step (kept : Kept n term t) {after : Promotion} (notes : Noted n t a after)
    (promotes : after.term = term) (returned : after.returned = true) : after.uploaded ≠ none := by
  cases notes with
  | won _ _ _ _ result =>
    subst result
    cases returned
  | uploaded _ was _ _ _ result =>
    subst result
    cases was.symm.trans returned
  | @returned promotion held _ loop result =>
    subst result
    cases was : promotion.returned with
    | true => exact kept.returned promotion held promotes was
    | false => exact (kept.going promotion held promotes was).uploaded loop
  | same held => exact kept.returned after held promotes returned

/-- Nothing but the promotion itself puts its record. -/
theorem value_kept (written : Written nodes t) (recorded : Recorded n term t a)
    (moved : step t.cluster a = some t'.cluster) {promotion : Promotion}
    (held : t.promotion = some promotion) (quiet : ¬ PutsNow n t a promotion) :
    t'.cluster.etcd.value (.switchPath (term - 1) n) =
      t.cluster.etcd.value (.switchPath (term - 1) n) := by
  rcases switch_step written.formed moved with same | ⟨s, position, applies, values⟩
  · exact same _ _
  · rw [values]
    split
    · rename_i own
      obtain ⟨⟨resolution, rfl⟩, other, held', _, ongoing⟩ :=
        recorded.alone s position applies (own.1 ▸ List.prefix_rfl)
      cases held.symm.trans held'
      obtain ⟨lives, pending⟩ := pending_of_applied applies
      exact absurd ⟨ongoing, resolution, s, position, rfl, lives, pending⟩ quiet
    · rfl

theorem stored_step (written : Written nodes t) (kept : Kept n term t)
    (recorded : Recorded n term t a) (moved : step t.cluster a = some t'.cluster)
    {after : Promotion} {position : Position} (notes : Noted n t a after)
    (promotes : after.term = term) (uploaded : after.uploaded = some position) :
    t'.cluster.etcd.value (.switchPath (term - 1) n) = some (.position position) := by
  cases notes with
  | won _ _ _ _ result =>
    subst result
    cases uploaded
  | @uploaded promotion resolution s _ held was action lives pending result =>
    subst result action
    cases uploaded
    obtain ⟨rfl, _⟩ := loop_of_upload pending
    have applies : applied t.cluster (.etcd n resolution) =
        some (.uploadPromotionBinlog (t.cluster.agents n).server position) := by
      simp [applied, lives, pending]
    have value := value_of_upload moved applies
    rwa [(kept.going promotion held promotes was).term, written.formed.id] at value
  | @returned promotion held action _ result =>
    subst result
    rw [value_kept written recorded moved held]
    · exact kept.stored promotion position held promotes uploaded
    · rintro ⟨_, _, _, _, puts, _⟩
      cases action.symm.trans puts
  | same held quiet =>
    rw [value_kept written recorded moved held quiet]
    exact kept.stored after position held promotes uploaded

theorem kept_step (written : Written nodes t) (kept : Kept n term t)
    (recorded : Recorded n term t a) (taken : trace n t a = some t') : Kept n term t' := by
  obtain ⟨moved, promotion, _⟩ := trace_eq taken
  have came : ∀ after, t'.promotion = some after → Noted n t a after ∧
      (after.returned = false → promoting (t'.cluster.agents n).loop = true) := by
    intro after held
    rw [promotion, Option.filter_eq_some_iff] at held
    refine ⟨noted held.1, fun ongoing => ?_⟩
    simpa [ongoing] using held.2
  refine ⟨?_, ?_, ?_, ?_⟩
  · intro after held promotes ongoing
    obtain ⟨notes, still⟩ := came after held
    exact going_step kept recorded moved notes promotes ongoing (still ongoing)
  · intro after held promotes returned
    exact returned_step kept (came after held).1 promotes returned
  · intro after position held promotes uploaded
    exact stored_step written kept recorded moved (came after held).1 promotes uploaded
  · intro k id stored begun
    rcases switch_step written.formed moved with same | ⟨s, position, applies, values⟩
    · exact kept.alone k id (same k id ▸ stored) begun
    · rw [values] at stored
      split at stored
      · rename_i own
        obtain ⟨rfl, rfl⟩ := own
        obtain ⟨⟨resolution, rfl⟩, before, held, promotes, ongoing⟩ :=
          recorded.alone s position applies begun
        obtain ⟨rfl, _⟩ := loop_of_upload (pending_of_applied applies).2
        rw [(kept.going before held promotes ongoing).term, written.formed.id]
        exact ⟨rfl, rfl⟩
      · exact kept.alone k id stored begun

end Step

/-- In every run that keeps the record of the promotion of `n` to a term: once the
promotion has returned nil, the recovery of a node with the term before it, while the
term is the current one, finds the position that `n` uploaded. The agent's root path
is the one that the recovery concatenates, the IDs are plain and the one of `n` has
a port, and the term is an `int`. -/
theorem recovery_finds_promotion {root clusterName : String} {nodes : List NodeID}
    {named : "" ∉ nodes} {cfg : NodeID → Config} {n r : NodeID} {term : UInt64} {t : Traced}
    {promotion : Promotion}
    (rooted : root.toList ++ clusterName.toList ++ ['/'] = under (rootPath root clusterName))
    (plain : ∀ id ∈ nodes, Plain id.toList) (member : n ∈ nodes) (recovers : r ∈ nodes)
    (host : ':' ∈ n.toList) (positive : 1 ≤ term.toNat) (small : term.toNat < 2 ^ 63)
    (run : Run (trace n) (Recorded n term) (start nodes named cfg) t)
    (held : t.promotion = some promotion) (won : promotion.term = term)
    (returned : promotion.returned = true)
    (current : text t.cluster.etcd .termPath = some (sprint term))
    (previous : text t.cluster.etcd (.myTermPath r) = some (sprint (term - 1))) :
    ∃ position ip port rest, promotion.uploaded = some position ∧
      n.toList.splitOn ':' = ip :: port :: rest ∧
      getEtcdSwitchInfo ⟨root, clusterName, r⟩
          (listing root clusterName t.written t.cluster.etcd) =
        .ok ⟨position.file, position.pos, position.gtid, ip, port⟩ := by
  obtain ⟨written, kept⟩ : Written nodes t ∧ Kept n term t :=
    @Run.invariant _ _ _ _ _ _ (fun t => Written nodes t ∧ Kept n term t) run
      ⟨written_start nodes named cfg, kept_start n term nodes named cfg⟩
      fun both recorded taken =>
        ⟨written_step both.1 taken, kept_step both.1 both.2 recorded taken⟩
  obtain ⟨position, uploaded⟩ := Option.ne_none_iff_exists'.mp
    (kept.returned promotion held won returned)
  have value : ∀ {key stored}, text t.cluster.etcd key = some stored →
      t.cluster.etcd.value key = some (.text stored) := by
    intro key stored read
    unfold text asText at read
    split at read
    · rename_i entry
      cases read
      simp [Store.value, entry]
    · contradiction
  obtain ⟨ip, port, rest, split, found⟩ := getEtcdSwitchInfo_found rooted
    (fun key put id owned => plain id (written.owned key put id owned)) written.covers
    (plain n member) host (plain r recovers) positive small (value current) (value previous)
    (kept.stored promotion position held won uploaded)
    fun k id stored begun => kept.alone k id (by simpa [Store.value] using stored) begun
  exact ⟨position, ip, port, rest, uploaded, split, found⟩

private def byLease : Request → Bool
  | .campaignLeader s _ => !s.isLeader
  | request => request.campaigner.isNone

private theorem campaignLeader_of_byLease {request : Request} {s : Server}
    (check : byLease request = true) (campaigns : request.campaigner = some s) :
    (∃ lease, request = .campaignLeader s lease) ∧ s.isLeader = false := by
  unfold byLease at check
  split at check
  · cases campaigns
    exact ⟨⟨_, rfl⟩, by simpa using check⟩
  · simp [campaigns] at check

private def isEtcd (n : NodeID) : Action → Bool
  | .etcd m _ => m == n
  | _ => false

private def records (n : NodeID) (term : UInt64) (t : Traced) (a : Action) : Bool :=
  (match applied t.cluster a with
    | some (.uploadPromotionBinlog s _) =>
      !(sprint (term - 1)).toList.isPrefixOf (sprint (s.term - 1)).toList ||
        isEtcd n a && t.promotion.any fun promotion => promotion.term == term && !promotion.returned
    | _ => true) &&
  match a with
  | .etcd m resolution => m != n || resolution != .lost && (t.cluster.agents n).pending.all byLease
  | .call m .loadPromotion => m != n || (t.cluster.agents n).reports.slaveStatus.isSome
  | _ => true

private theorem recorded_of_check {n : NodeID} {term : UInt64} {t : Traced} {a : Action}
    (check : records n term t a = true) : Recorded n term t a := by
  obtain ⟨own, other⟩ := Bool.and_eq_true_iff.mp check
  refine ⟨?_, ?_, ?_, ?_⟩
  · rintro request s rfl pending campaigns _ _
    simp only [pending, Option.all_some, bne_self_eq_false, Bool.false_or,
      Bool.and_eq_true] at other
    exact campaignLeader_of_byLease other.2 campaigns
  · rintro rfl _ none
    simp [none] at other
  · rintro resolution s position rfl _ _ rfl
    simp at other
  · intro s position applies begun
    simp only [applies, ( List.isPrefixOf_iff_prefix).mpr begun, Bool.not_true, Bool.false_or,
      Bool.and_eq_true] at own
    obtain ⟨mine, promotes⟩ := own
    obtain ⟨promotion, held⟩ := Option.isSome_iff_exists.mp (Option.isSome_of_any promotes)
    simp only [held, Option.any_some, Bool.and_eq_true, beq_iff_eq, Bool.not_eq_true'] at promotes
    refine ⟨?_, promotion, held, promotes⟩
    unfold isEtcd at mine
    split at mine
    · rename_i resolution
      exact ⟨resolution, by rw [eq_of_beq mine]⟩
    · contradiction

private def position : Position := ⟨"bin.1", "7", "u:1-5", "u", 6, true, true, 0⟩

/-- The first master dies and its follower is left alone. -/
private def masterDies : List Action :=
  [.start "k:2" "u", .call "k:2" .read, .grant "k:2" 1, .etcd "k:2" .answered,
    .start "h:1" "v", .call "h:1" .read, .call "h:1" .preWatch, .etcd "h:1" .answered,
    .call "h:1" (.nodeStatus true), .call "h:1" (.redirectMaster true),
    .call "k:2" .crash, .expire 1,
    .report "h:1" { slave := some ⟨"u", "u:1-5", 6⟩, slaveStatus := some position }]

private def uploads : List Action :=
  [.call "h:1" (.watchEnds false), .call "h:1" .read, .call "h:1" .upload, .etcd "h:1" .answered,
    .call "h:1" (.download ["h:1", "k:2"])]

private def isPromoted : List Action :=
  [.etcd "h:1" .answered, .call "h:1" (.service .ok), .call "h:1" .loadPromotion,
    .etcd "h:1" .answered, .call "h:1" (.service .ok)]

/-- The node is promoted to the second term, and the former master can be recovered. -/
private def promoted (t : Traced) : Bool :=
  t.promotion == some ⟨2, some position, true⟩ &&
    text t.cluster.etcd .termPath == some (sprint 2) &&
    text t.cluster.etcd (.myTermPath "k:2") == some (sprint 1)

/-- The former master takes part in the election again, and its follower wins. -/
theorem recovery_finds_promotion_of_follower :
    ∃ t, Run (trace "h:1") (Recorded "h:1" 2) (start ["h:1", "k:2"] (by decide) sampleCfg) t ∧
      ∃ ip port rest, "h:1".toList.splitOn ':' = ip :: port :: rest ∧
        getEtcdSwitchInfo ⟨"/mha/", "c", "k:2"⟩ (listing "/mha/" "c" t.written t.cluster.etcd) =
          .ok ⟨"bin.1", "7", "u:1-5", ip, port⟩ := by
  have ran : (exec (restrict (trace "h:1") (records "h:1" 2))
      (start ["h:1", "k:2"] (by decide) sampleCfg)
      (masterDies ++ [.start "k:2" "u", .report "k:2" { master := some ⟨"u", "u:1-5", 6⟩ },
        .call "k:2" .read, .call "k:2" .upload, .etcd "k:2" .answered] ++
        uploads ++ [.grant "h:1" 2] ++ isPromoted)).any promoted = true := by
    decide +kernel
  obtain ⟨t, run, found⟩ := exists_run_of_exec (fun _ _ => recorded_of_check) ran
  simp only [promoted, Bool.and_eq_true, beq_iff_eq] at found
  obtain ⟨⟨held, current⟩, previous⟩ := found
  obtain ⟨_, ip, port, rest, uploaded, split, recovered⟩ :=
    @recovery_finds_promotion "/mha/" "c" ["h:1", "k:2"] (by decide) sampleCfg "h:1" "k:2" 2 t _
      (by decide +kernel) (by decide +kernel) (by decide) (by decide) (by decide) (by decide)
      (by decide) run held rfl rfl current previous
  cases uploaded
  exact ⟨t, run, ip, port, rest, split, recovered⟩

private def exits : Except Failure SwitchInfo → Bool
  | .error .exits => true
  | _ => false

private theorem exits_of_check {result : Except Failure SwitchInfo} (check : exits result = true) :
    result = .error .exits := by
  unfold exits at check
  split at check
  · rfl
  · contradiction

/-- What etcd holds when the follower has become a single point master. -/
private def contents : List (Key × Option Value) :=
  [(.switchPath 0 "h:1", some (.position position)), (.spmPath, some (.text "h:1")),
    (.nodesPath "h:1", some (.electionLog ⟨2, "u", "u:1-5", 6, 2⟩)),
    (.myTermPath "h:1", some (.text "2")), (.leaderPath, some (.text "h:1")),
    (.termPath, some (.text "2")), (.idPath, some (.text "h:1")),
    (.metaVersionPath, some (.text "2")), (.lastTxnIDPath, some (.text "6")),
    (.lastUUIDPath, some (.text "u")), (.lastGTIDPath, some (.text "u:1-5")),
    (.myTermPath "k:2", some (.text "1"))]

/-- The follower is alone in the election and becomes a single point master. Its term
counts the promotion only after the upload, so that the record is put under the number
before the one that the recovery looks for. -/
theorem single_point_promotion_not_found :
    ∃ t, Run (trace "h:1") (fun _ _ => True) (start ["h:1", "k:2"] (by decide) sampleCfg) t ∧
      t.promotion = some ⟨2, some position, true⟩ ∧
      text t.cluster.etcd .termPath = some (sprint 2) ∧
      text t.cluster.etcd (.myTermPath "k:2") = some (sprint 1) ∧
      getEtcdSwitchInfo ⟨"/mha/", "c", "k:2"⟩ (listing "/mha/" "c" t.written t.cluster.etcd) =
        .error .exits := by
  have ran : (exec (restrict (trace "h:1") fun _ _ => true)
      (start ["h:1", "k:2"] (by decide) sampleCfg) (masterDies ++ uploads ++ isPromoted)).any
      (fun t => promoted t &&
        (t.written.dedup.map fun key => (key, t.cluster.etcd.value key)) == contents) = true := by
    decide +kernel
  obtain ⟨t, run, found⟩ := exists_run_of_exec (fun _ _ _ => trivial) ran
  simp only [promoted, Bool.and_eq_true, beq_iff_eq] at found
  obtain ⟨⟨⟨held, current⟩, previous⟩, stored⟩ := found
  refine ⟨t, run, held, current, previous, ?_⟩
  have listed : listing "/mha/" "c" t.written t.cluster.etcd =
      contents.filterMap fun kv => kv.2.map fun value => (keyText "/mha/" "c" kv.1, value) := by
    rw [← stored, List.filterMap_map]
    rfl
  rw [listed]
  exact exits_of_check (by decide +kernel)

end Moha.PromotionRecord
