import Moha.HealthCheck

/-! A node that is configured to follow only. `leaderLoop` asks `isOnlyFollow` at one
place, before it campaigns; it resumes a leadership and answers the requests of an
administrator without asking. That the one place is enough is a fact about whole runs:
the node has nothing to resume, because no request of it ever put its name into the
leader key, and the handlers refuse it because it was never flagged as leader. -/
namespace Moha.OnlyFollow
open LeaderRecord LeaderView Election LeaderLoop Cluster ClusterSteps Runs

/-- The positions of a loop that reads, follows or ends. -/
def Watches : Loop → Bool
  | .getLeader | .preWatch _ | .persistMyTerm _ | .nodeStatus _ | .redirectMaster ..
  | .watchLeader .. | .closing | .returned => true
  | _ => false

/-- A node that never got anywhere but to follow. -/
structure Follows (agent : Agent) : Prop where
  configured : agent.server.cfg.onlyFollow = true
  notLeader : agent.server.isLeader = false
  loop : Watches agent.loop = true
  handlers : agent.handlers = []
  keepAlives : agent.keepAlives = []
  readOnly : agent.writable = false

theorem Watches.not_campaigning {loop : Loop} (watches : Watches loop = true) :
    phase loop ≠ .campaigning := by
  cases loop <;> simp_all [Watches, phase]

section Calls
variable {agent after : Agent}

theorem Follows.to_loop (follows : Follows agent) {loop : Loop} (watches : Watches loop = true) :
    Follows { agent with loop := loop } :=
  { follows with loop := watches }

theorem Follows.stopped (follows : Follows agent) : Follows agent.stopped :=
  { follows with loop := rfl, handlers := rfl, keepAlives := rfl }

theorem Follows.setReadOnly (follows : Follows agent) (outcome : Outcome) :
    Follows (agent.setReadOnly outcome) := by
  unfold Agent.setReadOnly
  split
  · exact follows
  · exact { follows with readOnly := rfl }

theorem Follows.afterReadError (follows : Follows agent) (notValid : Bool) :
    Follows (agent.afterReadError notValid) := by
  unfold Agent.afterReadError
  split
  · exact follows.to_loop rfl
  · split
    · exact follows.to_loop rfl
    · exact follows.to_loop rfl

/-- The one place that asks: without a leader the node goes back to reading. -/
theorem Follows.afterRead (follows : Follows agent) {leader : Leader} (myTerm : UInt64)
    (another : leader.name ≠ "" → leader.name ≠ agent.server.id) :
    Follows (agent.afterRead leader myTerm) := by
  unfold Agent.afterRead
  dsimp only
  split
  · rename_i present
    split
    · rename_i same
      exact absurd (by simpa [Server.isSameLeader] using same) (another present)
    · exact { follows with loop := rfl }
  · split
    · exact { follows with loop := rfl }
    · rename_i campaigns
      simp [Server.isOnlyFollow, follows.configured] at campaigns

theorem preWatch_flags (s : Server) (reports : Reports) (leader : Leader) :
    (preWatch s reports leader).1.cfg = s.cfg ∧
      (preWatch s reports leader).1.isLeader = s.isLeader := by
  obtain ⟨loaded, rfl | ⟨info, rfl⟩, after | after⟩ := preWatch_fst s reports leader <;>
    rw [after] <;> exact ⟨rfl, rfl⟩

theorem Follows.advance (follows : Follows agent) {etcd : Etcd} {nodes : List NodeID} {call : Call}
    (unled : ¬ (view etcd).LedBy agent.server.id)
    (moved : agent.advance etcd nodes call = some after) : Follows after := by
  have watches := follows.loop
  cases call <;> simp only [Agent.advance] at moved
  case read =>
    split at moved
    · split at moved
      · cases moved
        exact follows.afterReadError _
      · rename_i leader myTerm read
        cases moved
        refine follows.afterRead myTerm fun present same => unled ?_
        obtain ⟨term, _, _, rfl⟩ := Server.getLeaderAndMyTerm_eq_ok read
        exact same ▸ ledBy_of_readLeader present
    · contradiction
  case readLost =>
    split at moved
    · cases moved
      exact follows.afterReadError _
    · contradiction
  case preWatch =>
    split at moved
    · rename_i leader loop
      cases moved
      obtain ⟨cfg, flag⟩ := preWatch_flags agent.server agent.reports leader
      refine { follows with
        configured := by rw [cfg]; exact follows.configured
        notLeader := by rw [flag]; exact follows.notLeader
        loop := ?_ }
      dsimp only
      split <;> rfl
    · contradiction
  case nodeStatus found =>
    split at moved
    · split at moved
      · cases moved
        exact { follows with notLeader := rfl, loop := rfl }
      · cases moved
        exact follows.to_loop rfl
    · contradiction
  case redirectMaster redirected =>
    split at moved
    · (repeat' split at moved) <;> cases moved <;> exact follows.to_loop rfl
    · contradiction
  case watchEnds failed =>
    split at moved
    · split at moved <;> cases moved <;> exact follows.to_loop rfl
    · contradiction
  -- the other calls are made from positions that the loop does not reach
  all_goals
    exfalso
    revert moved watches
    cases agent.loop <;> simp [Watches]

theorem Follows.readOnlyOrShutdown (follows : Follows agent) (outcome : Outcome)
    {continuation : Agent → Agent}
    (goesOn : ∀ {agent}, Follows agent → Follows (continuation agent)) :
    Follows (agent.readOnlyOrShutdown outcome continuation).after := by
  unfold Agent.readOnlyOrShutdown
  split
  · exact goesOn (follows.setReadOnly outcome)
  · exact (follows.setReadOnly outcome).stopped

theorem Follows.move (follows : Follows agent) {etcd : Etcd} {nodes : List NodeID} {call : Call}
    {next : Next} (unled : ¬ (view etcd).LedBy agent.server.id)
    (moved : agent.move etcd nodes call = some next) : Follows next.after := by
  have watches := follows.loop
  cases Agent.moves_of_move moved with
  | service served =>
    exfalso
    revert served watches
    unfold Agent.afterService
    cases agent.loop <;> simp [Watches]
  | http request =>
    unfold Next.after Agent.accept
    simpa [follows.notLeader] using follows
  | handlerService served => simp [Agent.afterHandlerService, follows.handlers] at served
  | handlerManual manual => simp [Agent.afterManual, follows.handlers] at manual
  | handlerStop held => simp [follows.handlers] at held
  | turn => exact { follows with keepAlives := by simp [Next.after, follows.keepAlives] }
  | keepAliveExit exits => simp [follows.keepAlives] at exits
  | close isOpen => exact follows.readOnlyOrShutdown _ fun follows => { follows with }
  | exits => exact follows.stopped
  | setOnlyFollow onlyFollow => exact { follows with }
  | advance advanced => exact follows.advance unled advanced

theorem Follows.afterRequest (follows : Follows agent) {request : Request} {revision : Nat}
    {reply : KeyValueStore.Reply} (pending : agent.pending = some request) :
    Follows (agent.afterRequest revision reply) := by
  have watches := follows.loop
  unfold Agent.pending at pending
  unfold Agent.afterRequest
  cases loop : agent.loop <;> rw [loop] at watches pending <;> simp [Watches] at watches pending
  exact follows.to_loop rfl

theorem Follows.afterGrant (follows : Follows agent) {lease : KeyValueStore.LeaseID}
    (granted : agent.afterGrant lease = some after) : Follows after := by
  have watches := follows.loop
  exfalso
  revert granted watches
  unfold Agent.afterGrant
  cases agent.loop <;> simp [Watches]

end Calls

/-! ### Runs -/

/-- The node follows, the leader key does not name it, and no campaign of it is on its way. -/
structure Outside (c : State) (n : NodeID) : Prop where
  formed : WellFormed c
  follows : Follows (c.agents n)
  unled : ¬ (view c.etcd).LedBy n
  limbo : ∀ request ∈ c.limbo, ∀ s, request.campaigner = some s → s.id ≠ n

section Steps
variable {c c' : State} {a : Action} {n : NodeID}

/-- A campaign that a process has at etcd is not the node's. -/
theorem Outside.outstanding (outside : Outside c n) {m : NodeID} {request : Request} {s : Server}
    (member : request ∈ (c.agents m).outstanding) (campaigns : request.campaigner = some s) :
    s.id ≠ n := by
  obtain ⟨rfl, campaigning⟩ := outstanding_campaigner member campaigns
  rw [outside.formed.id m]
  rintro rfl
  exact Watches.not_campaigning outside.follows.loop campaigning

theorem Outside.not_applied (outside : Outside c n) (taken : step c a = some c')
    {request : Request} {s : Server} (applies : applied c a = some request)
    (campaigns : request.campaigner = some s) : s.id ≠ n := by
  cases applier taken applies with
  | @loop m _ _ _ pending =>
    have member : request ∈ (c.agents m).outstanding :=
      List.mem_append_left _ (Option.mem_toList.mpr pending)
    exact outside.outstanding member campaigns
  | handler _ _ _ removal =>
    rw [removal] at campaigns
    cases campaigns
  | cleaner _ removal =>
    rw [removal] at campaigns
    cases campaigns
  | late _ held => exact outside.limbo request (List.mem_of_getElem? held) s campaigns

theorem Outside.follows_step (outside : Outside c n) (taken : step c a = some c') :
    Follows (c'.agents n) := by
  have follows := outside.follows
  have unled : ¬ (view c.etcd).LedBy (c.agents n).server.id := by
    rw [outside.formed.id n]
    exact outside.unled
  cases step_agent taken n with
  | same agent => rwa [agent]
  | called _ _ moved agent =>
    rw [agent]
    exact follows.move unled moved
  | granted _ _ granted agent =>
    rw [agent]
    exact follows.afterGrant granted
  | replied _ _ pending agent =>
    rw [agent]
    exact follows.afterRequest pending
  | handled _ _ agent =>
    rw [agent]
    exact { follows with handlers := by simp [Agent.setHandler, follows.handlers] }
  | started _ _ _ agent =>
    rw [agent]
    exact ⟨follows.configured, rfl, rfl, rfl, rfl, rfl⟩
  | serviceStopped _ agent =>
    rw [agent]
    exact { follows with readOnly := rfl }
  | reported _ agent =>
    rw [agent]
    exact { follows with }

theorem Outside.step (outside : Outside c n) (taken : Cluster.step c a = some c') :
    Outside c' n where
  formed := wellFormed_step outside.formed taken
  follows := outside.follows_step taken
  unled := by
    intro led
    rcases ledBy_before outside.formed taken led with before | ⟨request, s, effect, campaigns, same⟩
    · exact outside.unled before
    · exact outside.not_applied taken effect.1 campaigns same
  limbo := by
    intro request member s campaigns
    rcases step_limbo taken request member with before | ⟨m, _, issued⟩ | ⟨m, _, rfl⟩
    · exact outside.limbo request before s campaigns
    · exact outside.outstanding issued campaigns
    · cases campaigns

end Steps

/-- A node whose configuration at every start is to follow only is never the leader: in every
run the leader key never names it, and while its `leaderLoop` runs its service is not writable
and it fails the master's check. -/
theorem only_follow_node_never_leads {nodes : List NodeID} {named : "" ∉ nodes}
    {cfg : NodeID → Config} {c : State} (run : Run step (fun _ _ => True) (init nodes named cfg) c)
    {n : NodeID} (configured : (cfg n).onlyFollow = true) :
    text c.etcd .leaderPath ≠ some n ∧ ((c.agents n).running = true →
      (c.agents n).writable = false ∧
        HealthCheck.masterCheck (c.agents n).server = HealthCheck.statusTeapot) := by
  have outside : Outside c n := by
    refine @Run.invariant _ _ _ _ _ _ (Outside · n) run
      ⟨wellFormed_init nodes named cfg, ?_, ?_, ?_⟩ fun outside _ taken => outside.step taken
    · exact ⟨configured, rfl, rfl, rfl, rfl, rfl⟩
    · rintro ⟨entry, found, _⟩
      cases found
    · intro request member
      cases member
  refine ⟨fun stored => outside.unled (ledBy_iff_asText.mpr stored), fun _ => ?_⟩
  exact ⟨outside.follows.readOnly, by simp [HealthCheck.masterCheck, outside.follows.notLeader]⟩

/-- The leader is gone, and the only node left follows only. -/
theorem only_follow_node_never_leads_alone :
    let cfg : NodeID → Config := fun n => ⟨n == "b", 10, 5⟩
    ∃ c, Run step (fun _ _ => True) (init ["a", "b"] (by decide) cfg) c ∧
      (c.agents "b").running = true ∧ text c.etcd .leaderPath = none ∧
      (c.agents "b").writable = false := by
  intro cfg
  have ran : (exec (restrict step fun _ _ => true) (init ["a", "b"] (by decide) cfg)
      [.start "a" "u", .start "b" "v", .call "a" .read, .grant "a" 1, .etcd "a" .answered,
        .call "b" .read, .call "b" .preWatch, .call "a" .crash, .expire 1, .etcd "b" .answered,
        .call "b" (.nodeStatus false), .call "b" .read]).any
      (fun c => (c.agents "b").running && (text c.etcd .leaderPath == none)) = true := by
    decide +kernel
  obtain ⟨c, run, found⟩ := exists_run_of_exec (fun _ _ _ => trivial) ran
  simp only [Bool.and_eq_true, beq_iff_eq] at found
  exact ⟨c, run, found.1, found.2, ((only_follow_node_never_leads run rfl).2 found.1).1⟩

end Moha.OnlyFollow
