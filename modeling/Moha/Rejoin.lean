import Moha.AdmissionTerm
import Moha.FailoverProgress

/-! When a node that is down gets back into a cluster that has a leader. A process that was
just started remembers nothing but its node ID and the UUID of its service, so that what
`preWatch` makes of it is settled by etcd and by the log of the service. A node that is
admitted follows the leader by its own calls. A node that is refused closes, and does so again
after every restart: it stays out until somebody else changes what etcd or its service says. -/
namespace Moha.Rejoin
open KeyValueStore DecimalText LeaderRecord LeaderView Election LeaderLoop Cluster ClusterSteps Runs
open AdmissionTerm (Admissible comparedLog)
open FailoverProgress (Own Reached Sane storedTerm)
open TermGrowth (Stored globalTerm)

/-- The leader that a read finds. -/
def leaderOf (c : State) : Leader := readLeader c.etcd (globalTerm c.etcd)

/-- The server of a process that was just started, after its first read. -/
def freshServer (c : State) (n : NodeID) (uuid : String) : Server :=
  { ((c.agents n).started uuid).server with term := storedTerm c.etcd n }

/-- A loop that was not admitted. -/
def Outside : Loop → Bool
  | .getLeader | .preWatch _ | .closing | .returned => true
  | _ => false

/-- Of a server without a log, `preWatch` looks at the term and at who it is. -/
theorem admissible_congr {s t : Server} {reports : Reports} {leader : Leader} (id : s.id = t.id)
    (uuid : s.uuid = t.uuid) (term : s.term = t.term) (unknown : s.lastUUID = "")
    (unknown' : t.lastUUID = "") :
    Admissible s reports leader ↔ Admissible t reports leader := by
  unfold Admissible comparedLog isPreviousMaster
  rw [id, uuid, term, unknown, unknown']
  rfl

/-- An own step of the node in which `doChangeMaster` finds the leader only if it is
registered. -/
def LooksUp (registered : NodeID → Bool) (n : NodeID) (uuid : String) (c : State) (a : Action) :
    Prop :=
  Own n uuid c a ∧ ∀ leader, a = .call n (.nodeStatus true) →
    (c.agents n).loop = .nodeStatus leader → registered leader.name = true

/-! ### A refused node -/

/-- How far a process gets that is refused: it reads, is checked, and ends. -/
inductive Waits (uuid : String) (leader : Leader) (term : UInt64) (agent : Agent) : Prop where
  | reads (loop : agent.loop = .getLeader) (uuid : agent.server.uuid = uuid)
      (unknown : agent.server.lastUUID = "")
  | checks (loop : agent.loop = .preWatch leader) (uuid : agent.server.uuid = uuid)
      (unknown : agent.server.lastUUID = "") (term : agent.server.term = term)
  | ends (loop : agent.loop = .closing ∨ agent.loop = .returned)

theorem Waits.outside {uuid : String} {leader : Leader} {term : UInt64} {agent : Agent}
    (waits : Waits uuid leader term agent) : Outside agent.loop = true := by
  cases waits with
  | reads loop => rw [loop]; rfl
  | checks loop => rw [loop]; rfl
  | ends loop => rcases loop with loop | loop <;> rw [loop] <;> rfl

/-- A process that was not admitted has no goroutine but its loop. -/
structure Unadmitted (uuid : String) (leader : Leader) (term : UInt64) (agent : Agent) : Prop where
  waits : Waits uuid leader term agent
  handlers : agent.handlers = []
  keepAlives : agent.keepAlives = []

section Calls
variable {uuid : String} {leader : Leader} {term : UInt64} {agent after : Agent}

theorem Waits.of_memory (waits : Waits uuid leader term agent) (loop : after.loop = agent.loop)
    (same : after.server.uuid = agent.server.uuid)
    (log : after.server.lastUUID = agent.server.lastUUID)
    (read : after.server.term = agent.server.term) : Waits uuid leader term after := by
  cases waits with
  | reads at' uuid unknown => exact .reads (loop.trans at') (same.trans uuid) (log.trans unknown)
  | checks at' uuid unknown term =>
    exact .checks (loop.trans at') (same.trans uuid) (log.trans unknown) (read.trans term)
  | ends at' => exact .ends (by rwa [loop])

theorem Unadmitted.setReadOnly (unadmitted : Unadmitted uuid leader term agent)
    (outcome : Outcome) : Unadmitted uuid leader term (agent.setReadOnly outcome) := by
  unfold Agent.setReadOnly
  split
  · exact unadmitted
  · exact { unadmitted with waits := unadmitted.waits.of_memory rfl rfl rfl rfl }

/-- What the node finds whenever it reads: another node leads, and a fresh process is refused. -/
structure Refusing (n : NodeID) (uuid : String) (leader : Leader) (term : UInt64)
    (reports : Reports) (etcd : Etcd) : Prop where
  read : ∀ s : Server, s.id = n → s.getLeaderAndMyTerm etcd = .ok (leader, term)
  named : leader.name ≠ ""
  another : leader.name ≠ n
  refused : ∀ s : Server, s.id = n → s.uuid = uuid → s.lastUUID = "" → s.term = term →
    (preWatch s reports leader).2 ≠ none

variable {n : NodeID} {reports : Reports} {etcd : Etcd} {nodes : List NodeID} {call : Call}

theorem Unadmitted.advance (unadmitted : Unadmitted uuid leader term agent)
    (refusing : Refusing n uuid leader term reports etcd) (id : agent.server.id = n)
    (reported : agent.reports = reports) (moved : agent.advance etcd nodes call = some after) :
    Unadmitted uuid leader term after := by
  obtain ⟨waits, handlers, keepAlives⟩ := unadmitted
  cases waits with
  | reads loop same unknown =>
    cases call <;> simp only [Agent.advance, loop, reduceCtorEq, false_and, ↓reduceIte] at moved
    case read =>
      rw [refusing.read agent.server id] at moved
      cases moved
      have other : Server.isSameLeader { agent.server with term := term } leader.name = false := by
        simpa [Server.isSameLeader, id] using refusing.another
      simp only [Agent.afterRead, ne_eq, refusing.named, not_false_eq_true, other, ↓reduceIte,
        Bool.false_eq_true]
      exact ⟨.checks rfl same unknown rfl, handlers, keepAlives⟩
    case readLost =>
      cases moved
      unfold Agent.afterReadError
      split
      · exact ⟨.ends (.inr rfl), handlers, keepAlives⟩
      · exact ⟨.reads rfl same unknown, handlers, keepAlives⟩
  | checks loop same unknown read =>
    cases call <;> simp only [Agent.advance, loop, reduceCtorEq, false_and, ↓reduceIte] at moved
    case preWatch =>
      cases moved
      have refused := refusing.refused agent.server id same unknown read
      rw [reported, if_neg refused]
      exact ⟨.ends (.inl rfl), handlers, keepAlives⟩
  | ends loop =>
    exfalso
    rcases loop with loop | loop <;> cases call <;> simp [Agent.advance, loop] at moved

theorem Unadmitted.move (unadmitted : Unadmitted uuid leader term agent)
    (refusing : Refusing n uuid leader term reports etcd) (id : agent.server.id = n)
    (reported : agent.reports = reports) {next : Next} (own : isHttp call = false)
    (moved : agent.move etcd nodes call = some next) :
    next.after.running = true → Unadmitted uuid leader term next.after := by
  intro goesOn
  have outside := unadmitted.waits.outside
  cases Agent.moves_of_move moved with
  | service served =>
    exfalso
    revert served outside
    unfold Agent.afterService
    cases agent.loop <;> simp [Outside]
  | http | handlerService | handlerManual | handlerStop | setOnlyFollow => cases own
  | turn =>
    exact ⟨unadmitted.waits.of_memory rfl rfl rfl rfl, unadmitted.handlers,
      by simp [Next.after, unadmitted.keepAlives]⟩
  | keepAliveExit exits => simp [unadmitted.keepAlives] at exits
  | @close outcome isOpen =>
    have readOnly := unadmitted.setReadOnly outcome
    by_cases ok : outcome = .ok
    · rw [Agent.readOnlyOrShutdown, if_pos ok]
      exact { readOnly with waits := readOnly.waits.of_memory rfl rfl rfl rfl }
    · rw [Agent.readOnlyOrShutdown, if_neg ok] at goesOn
      cases goesOn
  | exits => cases goesOn
  | advance advanced => exact unadmitted.advance refusing id reported advanced

end Calls

/-- The node is down, or its process was not admitted; etcd is as it was. -/
structure Refused (n : NodeID) (uuid : String) (leader : Leader) (term : UInt64)
    (reports : Reports) (etcd : Etcd) (c : State) : Prop where
  formed : WellFormed c
  etcd : c.etcd = etcd
  reported : (c.agents n).reports = reports
  unadmitted : (c.agents n).running = true → Unadmitted uuid leader term (c.agents n)

section Steps
variable {n : NodeID} {uuid : String} {leader : Leader} {term : UInt64} {reports : Reports}
  {etcd : Etcd} {c c' : State} {a : Action}

theorem Refused.step (refused : Refused n uuid leader term reports etcd c)
    (refusing : Refusing n uuid leader term reports etcd) (own : Own n uuid c a)
    (taken : step c a = some c') : Refused n uuid leader term reports etcd c' := by
  have formed : WellFormed c' := wellFormed_step refused.formed taken
  have reported : (c'.agents n).reports = reports := by
    rcases step_reports taken n with kept | rfl
    · exact kept.trans refused.reported
    · cases own
  cases a with
  | call m call =>
    obtain ⟨rfl, internal⟩ := own
    obtain ⟨running, next, moved, rfl⟩ := step_call taken
    rw [refused.etcd] at moved
    have agent : (c.proceed m next).agents m = next.after := by simp [State.proceed, State.set]
    refine ⟨formed, refused.etcd, reported, ?_⟩
    rw [agent]
    exact (refused.unadmitted running).move refusing (refused.formed.id m) refused.reported
      internal moved
  | grant m lease =>
    cases own
    obtain ⟨running, _, _, after, granted, _⟩ := step_grant taken
    exfalso
    have outside := (refused.unadmitted running).waits.outside
    revert granted outside
    unfold Agent.afterGrant
    cases (c.agents n).loop <;> simp [Outside]
  | etcd m resolution =>
    obtain ⟨rfl, _⟩ := own
    obtain ⟨running, request, pending, _⟩ := step_etcd taken
    exfalso
    have outside := (refused.unadmitted running).waits.outside
    revert pending outside
    unfold Agent.pending
    cases (c.agents m).loop <;> simp [Outside]
  | start m service =>
    obtain ⟨rfl, rfl⟩ := own
    obtain ⟨_, _, rfl⟩ := step_start taken
    have agent : (c.set m ((c.agents m).started service)).agents m =
        (c.agents m).started service := by simp [State.set]
    refine ⟨formed, refused.etcd, reported, fun _ => ?_⟩
    rw [agent]
    exact ⟨.reads rfl rfl rfl, rfl, rfl⟩
  | handlerEtcd | clean | late | expire | serviceStop | report => cases own

end Steps

/-! ### An admitted node -/

section Admitted
variable {registered : NodeID → Bool} {n : NodeID} {uuid : String} {c : State} {leader : Leader}

private theorem looksUp_call {call : Call} (own : isHttp call = false)
    (other : call ≠ .nodeStatus true) : LooksUp registered n uuid c (.call n call) :=
  ⟨⟨rfl, own⟩, fun _ same => absurd (Action.call.inj same).2 other⟩

/-- From the admission on, the node persists its term, looks the leader up, has its service
follow it, and watches. -/
theorem reaches_watch (running : (c.agents n).running = true)
    (id : (c.agents n).server.id = n) (loop : (c.agents n).loop = .persistMyTerm leader)
    (known : registered leader.name = true) :
    ∃ c' etcd, Reached (LooksUp registered n uuid) n c
        { c.agents n with
          server := { (c.agents n).server with isLeader := false }
          loop := .watchLeader leader false } etcd c' ∧
      view etcd = (view c.etcd).setTerm n (c.agents n).server.term := by
  obtain ⟨c₁, etcd, persisted, acted, _⟩ := @FailoverProgress.reaches_request
    (LooksUp registered n uuid) c n (.persistMyTerm (c.agents n).server) running
    ⟨⟨rfl, rfl⟩, by simp⟩ (by simp [Agent.pending, loop]) trivial (by simp)
  simp only [Agent.afterRequest, loop] at persisted
  have lookup : LooksUp registered n uuid c₁ (.call n (.nodeStatus true)) := by
    refine ⟨⟨rfl, rfl⟩, fun other _ at' => ?_⟩
    rw [persisted.agent] at at'
    cases at'
    exact known
  obtain ⟨c₂, found⟩ := @FailoverProgress.reaches_call (LooksUp registered n uuid) c₁ n
    (.nodeStatus true)
    { c.agents n with
      server := { (c.agents n).server with isLeader := false }
      loop := .redirectMaster leader 0 }
    (by rw [persisted.agent]; exact running) lookup
    (by simp [Agent.move, Agent.advance, persisted.agent])
  obtain ⟨c₃, redirected⟩ := @FailoverProgress.reaches_call (LooksUp registered n uuid) c₂ n
    (.redirectMaster true)
    { c.agents n with
      server := { (c.agents n).server with isLeader := false }
      loop := .watchLeader leader false }
    (by rw [found.agent]; exact running) (looksUp_call rfl (by simp))
    (by simp [Agent.move, Agent.advance, found.agent])
  refine ⟨c₃, c₂.etcd, persisted.trans (found.trans redirected), ?_⟩
  rw [found.etcd, persisted.etcd, acted]
  simp only [act, id]

/-- A process that is started gets to `preWatch`, with the term that is stored for it. -/
theorem reaches_preWatch (sane : Sane c) (small : (globalTerm c.etcd).toNat < 2 ^ 63)
    (member : n ∈ c.nodes) (stopped : (c.agents n).running = false)
    (named : (leaderOf c).name ≠ "") (another : (leaderOf c).name ≠ n) :
    ∃ c', Reached (LooksUp registered n uuid) n c
      { (c.agents n).started uuid with
        server := freshServer c n uuid, loop := .preWatch (leaderOf c) } c.etcd c' := by
  obtain ⟨fresh, started⟩ := @FailoverProgress.reaches_started (LooksUp registered n uuid) c n
    uuid member stopped ⟨⟨rfl, rfl⟩, by simp⟩
  have freshSane : Sane fresh := sane.along started.run
  have runs : FailoverProgress.Runs fresh n .getLeader := started.runs rfl (sane.formed.id n)
  have read := freshSane.read (by rwa [started.etcd]) (fresh.agents n).server
  obtain ⟨c', reached⟩ := @FailoverProgress.reaches_read fresh n (LooksUp registered n uuid) _ _
    runs (looksUp_call rfl (by simp)) read
  rw [runs.id, started.agent, started.etcd] at reached
  have other : (leaderOf c).name ≠ (c.agents n).server.id := by
    rw [sane.formed.id n]
    exact another
  refine ⟨c', started.trans ?_⟩
  have after : ((c.agents n).started uuid).afterRead (leaderOf c) (storedTerm c.etcd n) =
      { (c.agents n).started uuid with
        server := freshServer c n uuid, loop := .preWatch (leaderOf c) } := by
    simp [Agent.afterRead, Server.isSameLeader, named, other, Agent.started, freshServer]
  rw [← after]
  exact reached

/-- A process that passes the check gets to watch, and its term is stored. -/
theorem reaches_watch_of_passes (sane : Sane c) (small : (globalTerm c.etcd).toNat < 2 ^ 63)
    (member : n ∈ c.nodes) (stopped : (c.agents n).running = false)
    (named : (leaderOf c).name ≠ "") (another : (leaderOf c).name ≠ n)
    (known : registered (leaderOf c).name = true) {s : Server}
    (passes : preWatch (freshServer c n uuid) (c.agents n).reports (leaderOf c) = (s, none)) :
    ∃ c' etcd, Reached (LooksUp registered n uuid) n c
        { (c.agents n).started uuid with
          server := { s with isLeader := false }, loop := .watchLeader (leaderOf c) false }
        etcd c' ∧
      view etcd = (view c.etcd).setTerm n s.term := by
  obtain ⟨c₁, checks⟩ := @reaches_preWatch registered n uuid c sane small member stopped named
    another
  obtain ⟨c₂, admitted⟩ := @FailoverProgress.reaches_call (LooksUp registered n uuid) c₁ n
    .preWatch
    { (c.agents n).started uuid with server := s, loop := .persistMyTerm (leaderOf c) }
    (by rw [checks.agent]; rfl) (looksUp_call rfl (by simp))
    (by simp [Agent.move, Agent.advance, checks.agent, Agent.started, passes])
  have reached := checks.trans admitted
  have formed : WellFormed c₂ := (sane.along reached.run).formed
  obtain ⟨c₃, etcd, watches, persisted⟩ := @reaches_watch registered n uuid c₂ (leaderOf c)
    (by rw [admitted.agent]; rfl) (formed.id n) (by rw [admitted.agent]) known
  rw [admitted.agent] at watches persisted
  rw [admitted.etcd, checks.etcd] at persisted
  exact ⟨c₃, etcd, reached.trans watches, persisted⟩

end Admitted

/-- A process that fails the check fails it after every start. -/
theorem stays_out_of_fails {n : NodeID} {uuid : String} {c c' : State} (sane : Sane c)
    (small : (globalTerm c.etcd).toNat < 2 ^ 63) (stopped : (c.agents n).running = false)
    (named : (leaderOf c).name ≠ "") (another : (leaderOf c).name ≠ n)
    (positive : 1 ≤ globalTerm c.etcd)
    (inadmissible : ¬ Admissible (freshServer c n uuid) (c.agents n).reports (leaderOf c))
    (path : Run step (Own n uuid) c c') :
    c'.etcd = c.etcd ∧ ((c'.agents n).running = true → Outside (c'.agents n).loop = true) := by
  have refusing : Refusing n uuid (leaderOf c) (storedTerm c.etcd n) (c.agents n).reports
      c.etcd := by
    refine ⟨fun s id => ?_, named, another, fun s id same unknown term passes => inadmissible ?_⟩
    · rw [sane.read small s, id]
      rfl
    · have admissible : Admissible s (c.agents n).reports (leaderOf c) := by
        rcases @AdmissionTerm.preWatch_admits s _ (leaderOf c) positive with
          ⟨admissible, _⟩ | ⟨_, fails, _⟩
        · exact admissible
        · exact absurd passes fails
      refine (admissible_congr ?_ same term unknown rfl).mp admissible
      exact id.trans (sane.formed.id n).symm
  have start : Refused n uuid (leaderOf c) (storedTerm c.etcd n) (c.agents n).reports c.etcd c :=
    ⟨sane.formed, rfl, rfl, fun running => by rw [stopped] at running; cases running⟩
  have refused := path.invariant start fun refused own taken => refused.step refusing own taken
  exact ⟨refused.etcd, fun running => (refused.unadmitted running).waits.outside⟩

/-- A node that is down in a cluster with another leader, which is registered: if a fresh
process is admissible it gets to follow the leader by its own calls, under the leader's term
unless it is ahead; if not, it never gets past the check, however often it is started, and
leaves the keys of the election as they are. -/
theorem stopped_node_joins_or_stays_out {nodes : List NodeID} {named : "" ∉ nodes}
    {cfg : NodeID → Config} {c : State} (run : Run step (fun _ _ => True) (init nodes named cfg) c)
    (small : (globalTerm c.etcd).toNat < 2 ^ 63) (positive : 1 ≤ globalTerm c.etcd)
    {n m : NodeID} {uuid : String} (member : n ∈ c.nodes)
    (stopped : (c.agents n).running = false) (led : text c.etcd .leaderPath = some m)
    (apart : m ≠ n) {registered : NodeID → Bool} (known : registered m = true) :
    Admissible (freshServer c n uuid) (c.agents n).reports (leaderOf c) ∧
        (∃ c', Run step (LooksUp registered n uuid) c c' ∧ (c'.agents n).running = true ∧
          (c'.agents n).loop = .watchLeader (leaderOf c) false ∧
          (c'.agents n).writable = false ∧ text c'.etcd .leaderPath = some m ∧
          (storedTerm c.etcd n ≤ globalTerm c.etcd →
            storedTerm c'.etcd n = globalTerm c.etcd)) ∨
      ¬ Admissible (freshServer c n uuid) (c.agents n).reports (leaderOf c) ∧
        ∀ c', Run step (Own n uuid) c c' → c'.etcd = c.etcd ∧
          ((c'.agents n).running = true → Outside (c'.agents n).loop = true) := by
  have sane : Sane c := (FailoverProgress.sane_init nodes named cfg).along run
  have ledBy : (view c.etcd).LedBy m := ledBy_iff_asText.mpr led
  have name : (leaderOf c).name = m := readLeader_name ledBy
  have present : m ≠ "" := by
    rintro rfl
    rcases sane.leader with absent | ⟨leader, among, leads⟩
    · obtain ⟨_, found, _⟩ := ledBy
      cases absent.symm.trans found
    · cases leads.unique ledBy
      exact c.named among
  have another : (leaderOf c).name ≠ n := name ▸ apart
  rcases @AdmissionTerm.preWatch_admits (freshServer c n uuid) (c.agents n).reports
    (leaderOf c) positive with ⟨admissible, passes, takes⟩ | ⟨inadmissible, _⟩
  · obtain ⟨c', etcd, reached, persisted⟩ := @reaches_watch_of_passes registered n uuid c sane
      small member stopped (name ▸ present) another (name ▸ known) _ (Prod.ext rfl passes)
    refine .inl ⟨admissible, c', reached.run, ?_, ?_, ?_, ?_, fun within => ?_⟩
    · rw [reached.agent]
      rfl
    · rw [reached.agent]
    · rw [reached.agent]
      rfl
    · have still : (view c'.etcd).LedBy m := by
        rw [reached.etcd, persisted]
        exact ledBy
      exact ledBy_iff_asText.mp still
    · have stored : (view c'.etcd).terms n = some (sprint (globalTerm c.etcd)) := by
        rw [reached.etcd, persisted, takes.mpr within]
        simp [View.setTerm, leaderOf, readLeader]
      exact Stored.read (.inl stored)
  · exact .inr ⟨inadmissible, fun c' path => stays_out_of_fails sane small stopped
      (name ▸ present) another positive inadmissible path⟩

/-- The node wins a term, with a round of logs before it. -/
def wins (lease : LeaseID) : List Action :=
  [.start "a" "u", .call "a" .read, .call "a" .upload, .call "a" (.download ["a", "b"]),
    .grant "a" lease, .etcd "a" .answered]

/-- The node `b` sees the first term, and goes down before the second. -/
def twoTermsLater : List Action :=
  [Action.start "a" "u", .call "a" .read, .grant "a" 1, .etcd "a" .answered, .start "b" "v",
      .call "b" .read, .call "b" .preWatch, .etcd "b" .answered, .call "b" .crash,
      .call "a" .crash, .expire 1] ++
    wins 2 ++ [Action.call "a" .crash, .expire 2] ++ wins 3

/-- The node `b` was down while the leader changed twice, and stays out. -/
theorem stopped_node_stays_out_two_terms_behind :
    ∃ c, Run step (fun _ _ => True) (init ["a", "b"] (by decide) sampleCfg) c ∧
      storedTerm c.etcd "b" = 1 ∧ globalTerm c.etcd = 3 ∧
      ∀ c', Run step (Own "b" "v") c c' → c'.etcd = c.etcd ∧
        ((c'.agents "b").running = true → Outside (c'.agents "b").loop = true) := by
  have ran : (exec (restrict step fun _ _ => true) (init ["a", "b"] (by decide) sampleCfg)
      twoTermsLater).any
      (fun c => (storedTerm c.etcd "b" == 1) && (globalTerm c.etcd == 3) &&
        (text c.etcd .leaderPath == some "a") && !(c.agents "b").running &&
        c.nodes.contains "b") = true := by
    decide +kernel
  obtain ⟨c, run, found⟩ := exists_run_of_exec (fun _ _ _ => trivial) ran
  simp only [Bool.and_eq_true, beq_iff_eq, Bool.not_eq_true', List.contains_iff_mem] at found
  obtain ⟨⟨⟨⟨mine, global⟩, led⟩, stopped⟩, member⟩ := found
  refine ⟨c, run, mine, global, ?_⟩
  rcases @stopped_node_joins_or_stays_out _ _ _ _ run (by rw [global]; decide)
    (by rw [global]; decide) "b" "a" "v" member stopped led (by decide) (fun _ => true) rfl with
    ⟨admissible, _⟩ | ⟨_, out⟩
  · exfalso
    unfold Admissible at admissible
    simp only [freshServer, leaderOf, readLeader, mine, global] at admissible
    rcases admissible with new | same | ⟨within, _⟩
    · cases new
    · cases same
    · exact absurd within (by decide)
  · exact out

end Moha.Rejoin
