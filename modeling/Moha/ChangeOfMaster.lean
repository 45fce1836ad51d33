import Moha.FailoverProgress

/-! How the cluster changes its master. The leader key is never taken over: a node that leads
got the key free, by a campaign of its own.

An administrator may ask for a change. The handler of the leader then sets its service
read-only and removes the leader key, and does not choose a successor. From every state of the
cluster in which a node leads, the request can be carried through for every other node that
may lead: by the handler of the old master, and then by the new master's own calls alone. -/
namespace Moha.ChangeOfMaster
open KeyValueStore LeaderRecord LeaderView Election LeaderLoop Cluster ClusterSteps Runs
open FailoverProgress (Own CanLead Sane)
open TermGrowth (globalTerm)

/-! ### Tenures -/

/-- A step with which the node wins the free key. -/
def Wins (m : NodeID) (c : State) (a : Action) : Prop :=
  (view c.etcd).leader = none ∧
    ∃ request s, TakesEffect c a request ∧ request.campaigner = some s ∧ s.id = m

/-- A node that leads at the end of a run has led since its start, or won the key in it and has
led since. -/
theorem led_throughout_or_since {c c' : State} {trace : List (State × Action)} {m : NodeID}
    (formed : WellFormed c) (run : Trace step (fun _ _ => True) c trace c')
    (led : (view c'.etcd).LedBy m) :
    (view c.etcd).LedBy m ∧ Trace step (fun c _ => (view c.etcd).LedBy m) c trace c' ∨
      ∃ before free a won since, trace = before ++ (free, a) :: since ∧
        Trace step (fun _ _ => True) c before free ∧ Wins m free a ∧ step free a = some won ∧
        Trace step (fun c _ => (view c.etcd).LedBy m) won since c' := by
  induction run with
  | refl => exact .inl ⟨led, .refl _⟩
  | @snoc middle after action trace path allowed taken ih =>
    have here : WellFormed middle :=
      path.run.invariant formed fun formed _ taken => wellFormed_step formed taken
    rcases ledBy_before here taken led with held | ⟨request, s, effect, campaigns, same⟩
    · rcases ih held with
        ⟨first, throughout⟩ | ⟨before, free, a, won, since, rfl, path, wins, win, leads⟩
      · exact .inl ⟨first, throughout.snoc held taken⟩
      · exact .inr ⟨before, free, a, won, since ++ [(middle, action)], by simp, path, wins, win,
          leads.snoc held taken⟩
    · have vacant := guard_campaigner campaigns (view_commit effect.2).1
      exact .inr ⟨trace, middle, action, after, [], rfl, path,
        ⟨vacant, request, s, effect, campaigns, same⟩, taken, .refl _⟩

/-- Between the tenures of two nodes the key is free: on the way from the one to the other the
later leader won it free, by a campaign of its own, and has led without a break since. -/
theorem leadership_changes_through_vacancy {nodes : List NodeID} {named : "" ∉ nodes}
    {cfg : NodeID → Config} {c c' : State} {trace : List (State × Action)}
    (run : Run step (fun _ _ => True) (init nodes named cfg) c)
    (later : Trace step (fun _ _ => True) c trace c') {n m : NodeID} (apart : n ≠ m)
    (before : text c.etcd .leaderPath = some n) (after : text c'.etcd .leaderPath = some m) :
    ∃ earlier free a won since, trace = earlier ++ (free, a) :: since ∧
      Trace step (fun _ _ => True) c earlier free ∧ Wins m free a ∧ step free a = some won ∧
      Trace step (fun c _ => (view c.etcd).LedBy m) won since c' := by
  have formed : WellFormed c := wellFormed_of_run run
  have held : (view c.etcd).LedBy n := ledBy_iff_asText.mpr before
  rcases led_throughout_or_since formed later (ledBy_iff_asText.mpr after) with ⟨first, _⟩ | since
  · exact absurd (held.unique first) apart
  · exact since

/-- The lease of the first leader runs out, and the other node campaigns. -/
theorem leadership_changes_through_vacancy_of_two :
    ∃ c c' : State, Run step (fun _ _ => True) (init ["a", "b"] (by decide) sampleCfg) c ∧
      text c.etcd .leaderPath = some "a" ∧ text c'.etcd .leaderPath = some "b" ∧
      ∃ trace earlier free a since, Trace step (fun _ _ => True) c trace c' ∧
        trace = earlier ++ (free, a) :: since ∧ Wins "b" free a := by
  have first : (exec (restrict step fun _ _ => true) (init ["a", "b"] (by decide) sampleCfg)
      [.start "a" "u", .call "a" .read, .grant "a" 1, .etcd "a" .answered]).any
      (fun c => (text c.etcd .leaderPath == some "a") &&
        (exec (restrict step fun _ _ => true) c
          [.call "a" .crash, .expire 1, .start "b" "v", .call "b" .read, .call "b" .upload,
            .etcd "b" .answered, .call "b" (.download ["a", "b"]), .etcd "b" .answered]).any
          (fun c' => text c'.etcd .leaderPath == some "b")) = true := by
    decide +kernel
  obtain ⟨c, run, found⟩ := exists_run_of_exec (fun _ _ _ => trivial) first
  obtain ⟨led, second⟩ := Bool.and_eq_true_iff.mp found
  obtain ⟨c', later, led'⟩ := exists_run_of_exec (fun _ _ _ => trivial) second
  obtain ⟨trace, traced⟩ := later.trace
  obtain ⟨earlier, free, a, won, since, split, _, wins, _⟩ := leadership_changes_through_vacancy run
    traced (by decide) (beq_iff_eq.mp led) (beq_iff_eq.mp led')
  exact ⟨c, c', run, beq_iff_eq.mp led, beq_iff_eq.mp led', trace, earlier, free, a, since, traced,
    split, wins⟩

/-! ### On request -/

/-- A step of the `ChangeMaster` handler of `n` whose calls succeed, or an own step of `m`. -/
def Handover (n m : NodeID) (uuid : String) (c : State) (a : Action) : Prop :=
  a = .call n (.http .changeMaster) ∨ (∃ index, a = .call n (.handlerService index .ok)) ∨
    (∃ index, a = .handlerEtcd n index .answered) ∨ Own m uuid c a

section Frame
variable {c c' : State} {a : Action} {n m : NodeID} {uuid : String}

/-- The steps of one process do not touch another. -/
theorem own_frame (apart : n ≠ m) (own : Own m uuid c a) (taken : step c a = some c') :
    c'.agents n = c.agents n := by
  cases step_agent taken n with
  | same agent => exact agent
  | called action =>
    subst action
    exact absurd own.1 apart
  | granted action =>
    subst action
    exact absurd own apart
  | replied action =>
    subst action
    exact absurd own.1 apart
  | started action =>
    subst action
    exact absurd own.1 apart
  | handled action | serviceStopped action | reported action =>
    subst action
    cases own

theorem run_frame (apart : n ≠ m) (run : Run step (Own m uuid) c c') :
    c'.agents n = c.agents n := by
  refine @Run.invariant _ _ _ _ _ _ (fun c' => c'.agents n = c.agents n) run rfl ?_
  intro before after action same own taken
  exact (own_frame apart own taken).trans same

end Frame

/-! ### The handler -/

section Handler
variable {c : State} {n m : NodeID} {uuid : String}

/-- The process has a handler that waits for the call given, at the end of the list. -/
structure Waits (c : State) (n : NodeID) (handler : Handler) : Prop where
  running : (c.agents n).running = true
  handlers : ∃ others, (c.agents n).handlers = others ++ [handler]

/-- What the handler of `n` leaves as it was. -/
structure Keeps (n : NodeID) (c c' : State) : Prop where
  nodes : c'.nodes = c.nodes
  others : ∀ other, other ≠ n → c'.agents other = c.agents other

theorem Keeps.trans {c' c'' : State} (first : Keeps n c c') (second : Keeps n c' c'') :
    Keeps n c c'' where
  nodes := second.nodes.trans first.nodes
  others := fun other apart => (second.others other apart).trans (first.others other apart)

theorem keeps_proceed (next : Next) : Keeps n c (c.proceed n next) where
  nodes := rfl
  others := fun other apart => by simp [State.proceed, State.set, Function.update_of_ne apart]

theorem reaches_accepted (running : (c.agents n).running = true)
    (flag : (c.agents n).server.isLeader = true) :
    ∃ c', Run step (Handover n m uuid) c c' ∧ c'.etcd = c.etcd ∧ Keeps n c c' ∧
      Waits c' n .changeMasterReadOnly := by
  have taken : step c (.call n (.http .changeMaster)) =
      some (c.proceed n (.continues ((c.agents n).accept .changeMaster))) := by
    simp [step, running, Agent.move]
  refine ⟨_, .single (.inl rfl) taken, rfl, keeps_proceed _, ?_, (c.agents n).handlers, ?_⟩
  · simpa [State.proceed, State.set, Next.after, Agent.accept, flag] using running
  · simp [State.proceed, State.set, Next.after, Agent.accept, flag]

theorem reaches_readOnly (waits : Waits c n .changeMasterReadOnly) :
    ∃ c', Run step (Handover n m uuid) c c' ∧ c'.etcd = c.etcd ∧ Keeps n c c' ∧
      (c'.agents n).writable = false ∧ Waits c' n (.changeMasterDelete c.etcd.revision) := by
  obtain ⟨running, others, handlers⟩ := waits
  have taken : step c (.call n (.handlerService others.length .ok)) = some (c.proceed n
      (.continues (((c.agents n).setReadOnly .ok).setHandler others.length
        (.changeMasterDelete c.etcd.revision)))) := by
    simp [step, running, Agent.move, Agent.afterHandlerService, handlers,
      Agent.readOnlyOrShutdown]
  refine ⟨_, .single (.inr (.inl ⟨_, rfl⟩)) taken, rfl, keeps_proceed _, ?_, ?_, others, ?_⟩ <;>
    simp [State.proceed, State.set, Next.after, Agent.setHandler, Agent.setReadOnly, running,
      handlers]

theorem reaches_removed {issued : Nat} (waits : Waits c n (.changeMasterDelete issued))
    (led : (view c.etcd).LedBy (c.agents n).server.id) :
    ∃ c', Run step (Handover n m uuid) c c' ∧ (view c'.etcd).leader = none ∧
      globalTerm c'.etcd = globalTerm c.etcd ∧ Keeps n c c' ∧
      (c'.agents n).writable = (c.agents n).writable := by
  obtain ⟨running, others, handlers⟩ := waits
  let request : Request := .deleteLeaderKey (c.agents n).server.id issued
  have done : (c.etcd.commit request.txn).2 = .done true :=
    FailoverProgress.commit_of_guard led (by simp [request])
  have acted := (view_commit done).2
  have removed := @act_remover (c.etcd.revision + 1) (view c.etcd) request _ rfl
  have taken : step c (.handlerEtcd n others.length .answered) =
      some ((c.resolve request .answered).set n
        ((c.agents n).setHandler others.length .changeMasterStop)) := by
    simp [step, running, handlers, Handler.request, request]
  refine ⟨_, .single (.inr (.inr (.inl ⟨_, rfl⟩))) taken, ?_, ?_, ⟨rfl, ?_⟩, ?_⟩
  · exact (congrArg View.leader acted).trans removed.1
  · have same : (view (c.etcd.commit request.txn).1).record.term = (view c.etcd).record.term := by
      rw [acted, removed.2.1]
    exact congrArg (fun text => (text.bind DecimalText.parseUint).getD 0) same
  · intro other apart
    simp [State.set, State.resolve, Function.update_of_ne apart]
  · simp [State.set, Agent.setHandler]

/-- The handler of the leader frees the key, with its service read-only. -/
theorem reaches_vacancy (running : (c.agents n).running = true)
    (flag : (c.agents n).server.isLeader = true) (sane : Sane c) (led : (view c.etcd).LedBy n) :
    ∃ c', Run step (Handover n m uuid) c c' ∧ (view c'.etcd).leader = none ∧
      globalTerm c'.etcd = globalTerm c.etcd ∧ Keeps n c c' ∧
      (c'.agents n).writable = false := by
  obtain ⟨c₁, accepts, etcd₁, keeps₁, waits₁⟩ := @reaches_accepted c n m uuid running flag
  obtain ⟨c₂, closes, etcd₂, keeps₂, readOnly, waits₂⟩ := @reaches_readOnly c₁ n m uuid waits₁
  have path := accepts.trans closes
  have formed : WellFormed c₂ := (sane.along path).formed
  have still : (view c₂.etcd).LedBy (c₂.agents n).server.id := by
    rw [formed.id n, etcd₂, etcd₁]
    exact led
  obtain ⟨c₃, removes, vacant, term, keeps₃, same⟩ := @reaches_removed c₂ n m uuid _ waits₂ still
  refine ⟨c₃, path.trans removes, vacant, ?_, (keeps₁.trans keeps₂).trans keeps₃,
    same.trans readOnly⟩
  rw [term, etcd₂, etcd₁]

end Handler

/-- A change of master can be carried through from every state in which a node leads, and for
every other node that may lead: the old master's service is read-only, and the other node,
started afresh, is the writable leader. -/
theorem change_of_master_can_complete {nodes : List NodeID} {named : "" ∉ nodes}
    {cfg : NodeID → Config} {c : State} (run : Run step (fun _ _ => True) (init nodes named cfg) c)
    (small : (globalTerm c.etcd).toNat < 2 ^ 63) {n m : NodeID} {uuid : String} (apart : n ≠ m)
    (running : (c.agents n).running = true) (flag : (c.agents n).server.isLeader = true)
    (led : text c.etcd .leaderPath = some n) (member : m ∈ c.nodes)
    (able : (c.agents m).server.cfg.onlyFollow = false) :
    ∃ c', Run step (Handover n m uuid) c c' ∧ text c'.etcd .leaderPath = some m ∧
      (c'.agents m).writable = true ∧ (c'.agents n).writable = false := by
  have sane : Sane c := (FailoverProgress.sane_init nodes named cfg).along run
  obtain ⟨free, frees, vacant, term, keeps, readOnly⟩ := @reaches_vacancy c n m uuid running flag
    sane (ledBy_iff_asText.mpr led)
  have freeSane : Sane free := sane.along frees
  obtain ⟨fresh, started⟩ := @FailoverProgress.reaches_start free m uuid (keeps.nodes ▸ member)
  have freshSane : Sane fresh := freeSane.along started.run
  have canLead : CanLead fresh m uuid := by
    refine FailoverProgress.canLead_of_vacant freshSane (started.runs rfl (freeSane.formed.id m))
      (by rwa [started.etcd, term]) (started.etcd ▸ vacant) ?_
    rw [started.agent, keeps.others m apart.symm]
    simp [Agent.started, Server.isOnlyFollow, able]
  obtain ⟨c', leads, leader⟩ := started.canLead canLead
  have path : Run step (Handover n m uuid) free c' :=
    leads.weaken fun _ _ own => .inr (.inr (.inr own))
  refine ⟨c', frees.trans path, ledBy_iff_asText.mp leader.led, leader.writable, ?_⟩
  rw [run_frame apart leads, readOnly]

/-- The first leader of a cluster of two hands over to the other node. -/
theorem change_of_master_can_complete_of_two :
    ∃ c c', Run step (fun _ _ => True) (init ["a", "b"] (by decide) sampleCfg) c ∧
      text c.etcd .leaderPath = some "a" ∧ (c.agents "a").writable = true ∧
      Run step (Handover "a" "b" "v") c c' ∧ text c'.etcd .leaderPath = some "b" ∧
      (c'.agents "b").writable = true ∧ (c'.agents "a").writable = false := by
  have ran : (exec (restrict step fun _ _ => true) (init ["a", "b"] (by decide) sampleCfg)
      [.start "a" "u", .call "a" .read, .grant "a" 1, .etcd "a" .answered,
        .call "a" (.service .ok), .call "a" .loadPromotion, .call "a" (.service .ok)]).any
      (fun c => (text c.etcd .leaderPath == some "a") && (c.agents "a").writable &&
        (c.agents "a").running && (c.agents "a").server.isLeader && c.nodes.contains "b" &&
        !(c.agents "b").server.cfg.onlyFollow && decide ((globalTerm c.etcd).toNat < 2 ^ 63)) =
      true := by
    decide +kernel
  obtain ⟨c, run, found⟩ := exists_run_of_exec (fun _ _ _ => trivial) ran
  simp only [Bool.and_eq_true, beq_iff_eq, Bool.not_eq_true', decide_eq_true_eq,
    List.contains_iff_mem] at found
  obtain ⟨⟨⟨⟨⟨⟨led, writable⟩, running⟩, flag⟩, member⟩, able⟩, small⟩ := found
  obtain ⟨c', path, after, opened, closed⟩ := @change_of_master_can_complete _ _ _ c run small
    "a" "b" "v" (by decide) running flag led member able
  exact ⟨c, c', run, led, writable, path, after, opened, closed⟩

end Moha.ChangeOfMaster
