import Moha.ClusterSteps

/-! At most one writable service. The leader loop opens a service only between a
won or resumed leader key and its loss, so the services of two nodes are never
writable together, as long as the administrator's requests respect the key: the
handlers test the flag `isLeader`, which outlives the key, and none of them looks
at etcd before it acts. -/
namespace Moha.SplitBrain
open KeyValueStore LeaderRecord LeaderView Election LeaderLoop Cluster ClusterSteps Runs

/-- The loop has not found the key to be its own in this round: it campaigns or
follows. -/
def Away (loop : Loop) : Prop :=
  match phase loop with
  | .checking _ | .following | .campaigning => True
  | .idle | .resuming _ | .promoting => False

/-- The service of a node is writable, or its loop is on the way to make it so. -/
def Serving (agent : Agent) : Prop :=
  agent.writable = true ∨ agent.running = true ∧ phase agent.loop = .promoting

/-- No request arrives late. A handler sets a service writable only while the key
names the node and the loop of the node knows so. The key of a node is removed by
`ChangeMaster` or `StartClean`, or lost with its lease, only while the node is not
serving. -/
def Orderly (c : State) : Action → Prop
  | .late _ => False
  | .call n (.handlerService index outcome) => ∀ handler,
      (c.agents n).handlers[index]? = some handler → Opens handler → outcome ≠ .failed →
        (view c.etcd).LedBy n ∧ ¬ Away (c.agents n).loop
  | .handlerEtcd n _ _ => ¬ Serving (c.agents n)
  | .clean n _ => ¬ Serving (c.agents n)
  | .expire lease => ∀ entry n, (view c.etcd).leader = some entry → entry.lease = some lease →
      entry.value = .text n → ¬ Serving (c.agents n)
  | _ => True

/-- A serving node holds the leader key, and a writable one does not look for
another leader. -/
structure Exclusive (c : State) : Prop where
  formed : WellFormed c
  led : ∀ n, Serving (c.agents n) → (view c.etcd).LedBy n
  settled : ∀ n, (c.agents n).writable = true → (c.agents n).running = true →
    ¬ Away (c.agents n).loop

theorem exclusive_init (nodes : List NodeID) (named : "" ∉ nodes) (cfg : NodeID → Config) :
    Exclusive (init nodes named cfg) where
  formed := wellFormed_init nodes named cfg
  led := by
    rintro n (writable | ⟨running, _⟩)
    · cases writable
    · cases running
  settled := by
    intro n writable
    cases writable

private theorem not_away_of_phase {loop : Loop} (phased : phase loop = .promoting) :
    ¬ Away loop := by
  simp [Away, phased]

private theorem not_away_of_kept {before after : Loop}
    (kept : phase after = phase before ∨ phase after = .idle) (settled : ¬ Away before) :
    ¬ Away after := by
  rcases kept with same | idle
  · rwa [Away, same]
  · simp [Away, idle]

/-! ### The key of a serving node stays -/

/-- An orderly step leaves the key with a serving node. -/
theorem led_step {c c' : State} {a : Action} (exclusive : Exclusive c) (orderly : Orderly c a)
    (taken : step c a = some c') {n : NodeID} (serving : Serving (c.agents n)) :
    (view c'.etcd).LedBy n := by
  have led := exclusive.led n serving
  cases step_view exclusive.formed taken with
  | same unchanged => rwa [unchanged]
  | @expire lease action expired =>
    subst action
    obtain ⟨entry, held, names⟩ := led
    have attached : entry.lease ≠ some lease := fun attached =>
      orderly entry n held attached names serving
    refine ⟨entry, ?_, names⟩
    rw [expired]
    simpa [View.expire, held, Entry.attachedTo] using attached
  | @effect request effect guard acted =>
    rw [acted]
    rcases request_kinds request with ⟨s, campaigns⟩ | ⟨s, resumes⟩ | ⟨id, removes⟩ | other
    · obtain ⟨entry, held, _⟩ := led
      cases held.symm.trans (guard_campaigner campaigns guard)
    · have same := (guard_resumer resumes guard).unique led
      subst same
      exact ledBy_act (.inr resumes)
    · have same := (guard_remover removes guard).unique led
      subst same
      cases applier taken effect.1 with
      | @loop m _ action running pending =>
        obtain ⟨rfl, loop⟩ := pending_remover pending removes
        rw [exclusive.formed.id m] at serving
        rcases serving with writable | ⟨_, promoting⟩
        · exact absurd (by simp [Away, loop]) (exclusive.settled m writable running)
        · cases loop.symm.trans promoting
      | @handler m _ _ _ action _ _ asked =>
        subst action asked
        cases removes
        rw [exclusive.formed.id m] at serving
        exact absurd serving orderly
      | cleaner action asked =>
        subst action asked
        cases removes
        exact absurd serving orderly
      | late action _ =>
        subst action
        exact orderly.elim
    · obtain ⟨entry, held, names⟩ := led
      exact ⟨entry, ((act_other other.1 other.2.1 other.2.2).1).trans held, names⟩

/-- Only a campaign or a resume leads to the promotion. -/
private theorem promoting_step {c c' : State} {a : Action} (exclusive : Exclusive c)
    (orderly : Orderly c a) (taken : step c a = some c') {n : NodeID}
    (running : (c'.agents n).running = true)
    (promoting : phase (c'.agents n).loop = .promoting) : (view c'.etcd).LedBy n := by
  cases step_move taken n with
  | kept same _ loop =>
    rcases loop with loop | loop
    · exact led_step exclusive orderly taken (.inr ⟨same ▸ running, loop ▸ promoting⟩)
    · cases loop.symm.trans promoting
  | stopped _ stopped => cases stopped.symm.trans running
  | started _ _ _ result =>
    rw [result] at promoting
    cases promoting
  | @read leader myTerm _ _ _ _ result =>
    rw [result] at promoting
    cases afterRead_move (c.agents n) leader myTerm with
    | itself _ _ loop => cases loop.symm.trans promoting
    | another _ _ loop =>
      rw [loop] at promoting
      cases promoting
    | vacant _ loop => rcases loop with loop | loop <;> cases loop.symm.trans promoting
  | preWatched _ _ _ result =>
    rw [result] at promoting
    dsimp only at promoting
    split at promoting <;> cases promoting
  | uploaded _ _ _ result =>
    rw [result] at promoting
    cases promoting
  | won _ _ _ effect kind =>
    rw [etcd_of_applied taken effect.1, (view_commit effect.2).2]
    have led := @ledBy_act (c.etcd.revision + 1) (view c.etcd) _ _ kind
    rwa [exclusive.formed.id n] at led

private theorem led_of_serving {c c' : State} {a : Action} (exclusive : Exclusive c)
    (orderly : Orderly c a) (taken : step c a = some c') {n : NodeID}
    (serving : Serving (c'.agents n)) : (view c'.etcd).LedBy n := by
  rcases serving with writable | ⟨running, promoting⟩
  · rcases step_writable taken writable with before | ⟨call, action, running, opening⟩
    · exact led_step exclusive orderly taken (.inl before)
    · subst action
      cases opening with
      | promotes loop => exact led_step exclusive orderly taken (.inr ⟨running, loop⟩)
      | handles effective held opens =>
        have led := (orderly _ held opens effective).1
        obtain ⟨_, next, _, rfl⟩ := step_call taken
        exact led
  · exact promoting_step exclusive orderly taken running promoting

/-! ### A writable node knows its key -/

private theorem settled_step {c c' : State} {a : Action} (exclusive : Exclusive c)
    (orderly : Orderly c a) (taken : step c a = some c') {n : NodeID}
    (writable : (c'.agents n).writable = true) (running : (c'.agents n).running = true) :
    ¬ Away (c'.agents n).loop := by
  have opened := step_writable taken writable
  -- whichever way the service is open, the loop was not away before
  have settled : (c.agents n).running = true → ¬ Away (c.agents n).loop := by
    intro was
    rcases opened with before | ⟨call, action, _, opening⟩
    · exact exclusive.settled n before was
    · subst action
      cases opening with
      | promotes loop => exact not_away_of_phase loop
      | handles effective held opens => exact (orderly _ held opens effective).2
  cases step_move taken n with
  | kept same _ loop => exact not_away_of_kept loop (settled (same ▸ running))
  | stopped _ stopped => cases stopped.symm.trans running
  | started _ _ _ result =>
    rw [result]
    exact id
  | @read leader myTerm was action _ found result =>
    have before : (c.agents n).writable = true := by
      rcases opened with before | ⟨call, opens, _, opening⟩
      · exact before
      · cases action.symm.trans opens
        cases opening
    have name : leader.name = n := by
      obtain ⟨term, _, _, rfl⟩ := Server.getLeaderAndMyTerm_eq_ok found
      exact readLeader_name (exclusive.led n (.inl before))
    rw [result]
    cases afterRead_move (c.agents n) leader myTerm with
    | itself _ _ loop => simp [Away, loop]
    | another _ other => exact absurd (name.trans (exclusive.formed.id n).symm) other
    | vacant absent =>
      have empty : n = "" := name.symm.trans absent
      have member := exclusive.formed.member n was
      rw [empty] at member
      exact absurd member c.named
  | preWatched was _ loop => exact absurd (by simp [Away, loop, phase]) (settled was)
  | uploaded was _ loop => exact absurd (by simp [Away, loop, phase]) (settled was)
  | won _ _ _ _ _ _ loop => exact not_away_of_phase loop

theorem exclusive_step {c c' : State} {a : Action} (exclusive : Exclusive c)
    (orderly : Orderly c a) (taken : step c a = some c') : Exclusive c' where
  formed := wellFormed_step exclusive.formed taken
  led := fun _ serving => led_of_serving exclusive orderly taken serving
  settled := fun _ writable running => settled_step exclusive orderly taken writable running

/-- In every orderly run a writable service belongs to the node that the leader
key names, so that no two services are writable together. -/
theorem at_most_one_writable {nodes : List NodeID} {named : "" ∉ nodes} {cfg : NodeID → Config}
    {c : State} (run : Run step Orderly (init nodes named cfg) c) :
    (∀ n, (c.agents n).writable = true → c.etcd.value .leaderPath = some (.text n)) ∧
      ∀ n m, (c.agents n).writable = true → (c.agents m).writable = true → n = m := by
  have exclusive := run.invariant (exclusive_init nodes named cfg) exclusive_step
  refine ⟨fun n writable => ledBy_iff.mp (exclusive.led n (.inl writable)), ?_⟩
  intro n m first second
  exact (exclusive.led n (.inl first)).unique (exclusive.led m (.inl second))

private def orderly (c : State) : Action → Bool
  | .late _ | .expire _ | .clean _ _ => false
  | .call n (.handlerService index _) =>
    (c.agents n).handlers[index]? == some .changeMasterReadOnly ||
      c.etcd.value .leaderPath == some (.text n) && phase (c.agents n).loop == .idle
  | .handlerEtcd n _ _ => !(c.agents n).writable && phase (c.agents n).loop == .idle
  | _ => true

private theorem orderly_of_check {c : State} {a : Action} (check : orderly c a = true) :
    Orderly c a := by
  unfold orderly at check
  split at check
  · cases check
  · cases check
  · cases check
  · intro handler held opens _
    simp only [Bool.or_eq_true, Bool.and_eq_true, beq_iff_eq] at check
    rcases check with other | ⟨led, idle⟩
    · cases held.symm.trans other
      exact opens.elim
    · exact ⟨ledBy_iff.mpr led, by simp [Away, idle]⟩
  · simp only [Bool.and_eq_true, Bool.not_eq_true', beq_iff_eq] at check
    rintro (writable | ⟨_, promoting⟩)
    · cases check.1.symm.trans writable
    · cases check.2.symm.trans promoting
  · unfold Orderly
    split <;> simp_all

private def becomesMaster : List Action :=
  [.start "a" "u", .call "a" .read, .grant "a" 1, .etcd "a" .answered,
    .call "a" (.service .ok), .call "a" .loadPromotion, .call "a" (.service .ok)]

/-- A slave follows the master, which then hands over to it. -/
private def handsOver : List Action :=
  [.start "b" "v", .call "b" .read, .call "b" .preWatch, .etcd "b" .answered,
    .call "b" (.nodeStatus true), .call "b" (.redirectMaster true),
    .call "a" (.http .changeMaster), .call "a" (.handlerService 0 .ok),
    .handlerEtcd "a" 0 .answered, .call "b" (.watchEnds false), .call "b" .read,
    .call "b" .upload, .etcd "b" .answered, .call "b" (.download ["a", "b"]),
    .etcd "b" .answered, .call "b" (.service .ok), .call "b" .loadPromotion,
    .call "b" (.service .ok)]

/-- A master is set read-only and writable again by its administrator, and then
hands over: the next leader is the only one that is writable. -/
theorem at_most_one_writable_after_change_master :
    ∃ c, Run step Orderly (init ["a", "b"] (by decide) sampleCfg) c ∧
      (c.agents "b").writable = true ∧ c.etcd.value .leaderPath = some (.text "b") ∧
      ∀ m, (c.agents m).writable = true → m = "b" := by
  have ran : (exec (restrict step orderly) (init ["a", "b"] (by decide) sampleCfg)
      (becomesMaster ++
        [.call "a" (.http .setReadOnly), .call "a" (.handlerManual 0 .readOnly),
          .call "a" (.http .setReadWrite), .call "a" (.handlerService 0 .ok)] ++
        handsOver)).any (fun c => (c.agents "b").writable) = true := by
    decide +kernel
  obtain ⟨c, run, writable⟩ := exists_run_of_exec (fun _ _ => orderly_of_check) ran
  obtain ⟨named, alone⟩ := at_most_one_writable run
  exact ⟨c, run, writable, named "b" writable, fun m other => alone m "b" other writable⟩

/-- The requests arrive in time and no lease expires. -/
private def undisturbed : Action → Bool
  | .late _ | .expire _ => false
  | _ => true

/-- The master hands over on `ChangeMaster`: it is read-only and its key is gone.
The next leader serves. The flag `isLeader` of the former master is still set, so
its handler of `SetReadWrite` makes its service writable again. -/
theorem former_master_set_writable :
    ∃ c, Run step (fun c a => InTime c a ∧ ∀ lease, a ≠ .expire lease)
        (init ["a", "b"] (by decide) sampleCfg) c ∧
      (c.agents "a").writable = true ∧ (c.agents "b").writable = true ∧
      c.etcd.value .leaderPath = some (.text "b") := by
  have sound : ∀ (c : State) (a : Action), undisturbed a = true →
      InTime c a ∧ ∀ lease, a ≠ .expire lease := by
    rintro c a quiet
    constructor
    · rintro index rfl
      cases quiet
    · rintro lease rfl
      cases quiet
  have ran : (exec (restrict step fun _ => undisturbed) (init ["a", "b"] (by decide) sampleCfg)
      (becomesMaster ++ handsOver ++
        [.call "a" (.http .setReadWrite), .call "a" (.handlerService 1 .ok)])).any
      (fun c => (c.agents "a").writable && (c.agents "b").writable &&
        c.etcd.value .leaderPath == some (.text "b")) = true := by
    decide +kernel
  obtain ⟨c, run, found⟩ := exists_run_of_exec sound ran
  simp only [Bool.and_eq_true, beq_iff_eq] at found
  exact ⟨c, run, found.1.1, found.1.2, found.2⟩

end Moha.SplitBrain
