import Moha.ClusterSteps

/-! Removals of the leader key and the tenures they hit. The guard of a removal
compares the node only, so a removal that is applied late deletes whatever key
the node holds by then. The key it deletes is one the node held when it asked,
as long as the node neither wins nor resumes while a removal of its own is
still on its way. -/
namespace Moha.LateRemoval
open KeyValueStore LeaderRecord LeaderView Election LeaderLoop Cluster ClusterSteps Runs

/-- The node that asks to remove its leader key, and the revision at which. -/
def removal : Request → Option (NodeID × Nat)
  | .deleteLeaderKey id issued | .startClean id issued => some (id, issued)
  | _ => none

theorem remover_of_removal {request : Request} {n : NodeID} {issued : Nat}
    (removes : removal request = some (n, issued)) : request.remover = some n := by
  cases request <;> cases removes <;> rfl

/-- A removal that `n` issued at the revision may still be applied. -/
def Removing (c : State) (n : NodeID) (issued : Nat) : Prop :=
  (∃ request ∈ c.limbo, removal request = some (n, issued)) ∨
    (c.agents n).running = true ∧ Waits (c.agents n) issued

/-- A node wins or resumes only while no removal of its own may still be
applied. -/
def NoOverlap (c : State) (a : Action) : Prop :=
  ∀ request s, TakesEffect c a request →
    request.campaigner = some s ∨ request.resumer = some s →
    ∀ issued, ¬ Removing c s.id issued

theorem waits_of_outstanding {agent : Agent} {request : Request} {n : NodeID} {issued : Nat}
    (member : request ∈ agent.outstanding) (removes : removal request = some (n, issued)) :
    agent.server.id = n ∧ Waits agent issued := by
  rcases List.mem_append.mp member with pending | handled
  · have pending : agent.pending = some request := by simpa using pending
    unfold Agent.pending at pending
    split at pending <;> cases pending <;> cases removes
    rename_i loop
    exact ⟨rfl, .inl loop⟩
  · obtain ⟨handler, held, asked⟩ := List.mem_filterMap.mp handled
    cases handler <;> cases asked
    cases removes
    exact ⟨rfl, .inr held⟩

/-- Every removal on its way was on its way before, or was issued in this step. -/
theorem removing_step {c c' : State} {a : Action} (formed : WellFormed c)
    (taken : step c a = some c') {n : NodeID} {issued : Nat} (removing : Removing c' n issued) :
    Removing c n issued ∨ issued = c'.etcd.revision := by
  rcases removing with ⟨request, member, removes⟩ | ⟨running, waits⟩
  · rcases step_limbo taken request member with before | ⟨m, was, outstanding⟩ | ⟨m, same, rfl⟩
    · exact .inl (.inl ⟨request, before, removes⟩)
    · obtain ⟨name, waits⟩ := waits_of_outstanding outstanding removes
      rw [formed.id m] at name
      subst name
      exact .inl (.inr ⟨was, waits⟩)
    · cases removes
      exact .inr (by rw [same])
  · exact (step_waits taken running waits).imp_left .inr

/-! ### The key a removal hits -/

/-- A removal on its way is younger than the last put of the key it would hit. -/
structure HitsOwnTenure (c : State) : Prop where
  formed : WellFormed c
  younger : ∀ n issued entry, Removing c n issued → c.etcd.entries .leaderPath = some entry →
    entry.value = .text n → entry.modRevision ≤ issued

theorem hitsOwnTenure_init (nodes : List NodeID) (named : "" ∉ nodes) (cfg : NodeID → Config) :
    HitsOwnTenure (init nodes named cfg) where
  formed := wellFormed_init nodes named cfg
  younger := by
    intro n issued entry _ held
    cases held

/-- Unless it wins or resumes in this step, a node's key is the one it held. -/
private theorem leader_kept {c c' : State} {a : Action} {n : NodeID} {entry : Entry Value}
    (formed : WellFormed c) (taken : step c a = some c')
    (held : c'.etcd.entries .leaderPath = some entry) (names : entry.value = .text n)
    (passive : ∀ request s, TakesEffect c a request →
      request.campaigner = some s ∨ request.resumer = some s → s.id ≠ n) :
    c.etcd.entries .leaderPath = some entry := by
  have leader : (view c'.etcd).leader = some entry := held
  have led : (view c'.etcd).LedBy n := ⟨entry, held, names⟩
  cases step_view formed taken with
  | same unchanged =>
    rw [unchanged] at leader
    exact leader
  | expire _ expired =>
    rw [expired] at leader
    exact Option.eq_some_of_filter_eq_some leader
  | @effect request effect guard acted =>
    rw [acted] at leader led
    rcases request_kinds request with ⟨s, campaigns⟩ | ⟨s, resumes⟩ | ⟨id, removes⟩ | other
    · exact absurd (led_act (.inl campaigns) led) (passive request s effect (.inl campaigns))
    · exact absurd (led_act (.inr resumes) led) (passive request s effect (.inr resumes))
    · exact absurd led (led_act_remover removes)
    · rw [(act_other other.1 other.2.1 other.2.2).1] at leader
      exact leader

theorem hitsOwnTenure_step {c c' : State} {a : Action} (own : HitsOwnTenure c)
    (apart : NoOverlap c a) (taken : step c a = some c') : HitsOwnTenure c' where
  formed := wellFormed_step own.formed taken
  younger := by
    intro n issued entry removing held names
    rcases removing_step own.formed taken removing with before | rfl
    · refine own.younger n issued entry before ?_ names
      refine leader_kept own.formed taken held names ?_
      rintro request s effect publishes rfl
      exact apart request s effect publishes issued before
    · exact (c'.etcd.stamped _ _ held).2.2

/-- As long as no node wins or resumes over a removal of its own, a removal that
takes effect deletes a key that was last put before the removal was issued. -/
theorem removal_spares_later_tenures {nodes : List NodeID} {named : "" ∉ nodes}
    {cfg : NodeID → Config} {c c' : State} {a : Action} {request : Request} {n : NodeID}
    {issued : Nat} {entry : Entry Value}
    (run : Run step NoOverlap (init nodes named cfg) c) (taken : step c a = some c')
    (effect : TakesEffect c a request) (removes : removal request = some (n, issued))
    (held : c.etcd.entries .leaderPath = some entry) :
    entry.value = .text n ∧ entry.modRevision ≤ issued := by
  have own := run.invariant (hitsOwnTenure_init nodes named cfg) hitsOwnTenure_step
  have names : entry.value = .text n := by
    obtain ⟨other, held', value⟩ :=
      guard_remover (remover_of_removal removes) (view_commit effect.2).1
    cases held.symm.trans held'
    exact value
  refine ⟨names, ?_⟩
  cases applier taken effect.1 with
  | @loop m _ _ running pending =>
    obtain ⟨name, waits⟩ : (c.agents m).server.id = n ∧ Waits (c.agents m) issued :=
      waits_of_outstanding (List.mem_append_left _ (by simp [pending])) removes
    rw [own.formed.id m] at name
    subst name
    exact own.younger m issued entry (.inr ⟨running, waits⟩) held names
  | @handler m index revision _ _ running handling asked =>
    subst asked
    cases removes
    rw [own.formed.id m] at names
    exact own.younger m issued entry
      (.inr ⟨running, .inr (List.mem_of_getElem? handling)⟩) held names
  | cleaner _ asked =>
    subst asked
    cases removes
    exact (c.etcd.stamped _ _ held).2.2
  | late _ limbo =>
    exact own.younger n issued entry (.inl ⟨request, List.mem_of_getElem? limbo, removes⟩) held
      names

/-- The campaign of a node and the removal that follows its error are both lost.
The node wins at its next attempt, and then the removal arrives: issued at
revision one, it deletes the key put at revision two. -/
theorem late_removal_hits_later_tenure :
    ∃ c c', Run step (fun _ _ => True) (init ["a"] (by decide) sampleCfg) c ∧
      step c (.late 1) = some c' ∧ TakesEffect c (.late 1) (.deleteLeaderKey "a" 1) ∧
      c.etcd.entries .leaderPath = some ⟨.text "a", some 2, 2, 2⟩ ∧
      c'.etcd.entries .leaderPath = none := by
  have ran : (exec (restrict step fun _ _ => true) (init ["a"] (by decide) sampleCfg)
      [.start "a" "u", .call "a" .read, .grant "a" 1, .etcd "a" .lost, .etcd "a" .lost,
        .call "a" .read, .grant "a" 2, .etcd "a" .answered]).any
      (fun c => (step c (.late 1)).any (fun c' => c'.etcd.entries .leaderPath == none) &&
        (decide (TakesEffect c (.late 1) (.deleteLeaderKey "a" 1)) &&
          c.etcd.entries .leaderPath == some ⟨.text "a", some 2, 2, 2⟩)) = true := by
    decide +kernel
  obtain ⟨c, run, found⟩ := exists_run_of_exec (fun _ _ _ => trivial) ran
  simp only [Bool.and_eq_true, decide_eq_true_eq, beq_iff_eq] at found
  obtain ⟨deleted, effect, held⟩ := found
  cases taken : step c (.late 1) with
  | none => simp [taken] at deleted
  | some c' => exact ⟨c, c', run, taken, effect, held, by simpa [taken] using deleted⟩

private def noRemoval (c : State) (n : NodeID) : Bool :=
  c.limbo.all (fun request => request.remover != some n) &&
    !((c.agents n).running && ((c.agents n).loop matches .campaignCleanup _ ||
      (c.agents n).handlers.any fun handler => handler matches .changeMasterDelete _))

private theorem not_removing_of_check {c : State} {n : NodeID} (check : noRemoval c n = true)
    (issued : Nat) : ¬ Removing c n issued := by
  obtain ⟨limbo, waiting⟩ := Bool.and_eq_true_iff.mp check
  rintro (⟨request, member, removes⟩ | ⟨running, cleanup | delete⟩)
  · simpa [remover_of_removal removes] using List.all_eq_true.mp limbo request member
  · simp [running, cleanup] at waiting
  · simp only [running, Bool.true_and, Bool.not_eq_true', Bool.or_eq_false_iff] at waiting
    simpa using List.any_eq_false.mp waiting.2 _ delete

private def noOverlap (c : State) (a : Action) : Bool :=
  (applied c a).all fun request =>
    request.campaigner.all (fun s => noRemoval c s.id) &&
      request.resumer.all fun s => noRemoval c s.id

private theorem noOverlap_of_check {c : State} {a : Action} (check : noOverlap c a = true) :
    NoOverlap c a := by
  intro request s effect publishes
  rw [noOverlap, effect.1] at check
  obtain ⟨campaigns, resumes⟩ := Bool.and_eq_true_iff.mp check
  rcases publishes with publishes | publishes
  · rw [publishes] at campaigns
    exact not_removing_of_check campaigns
  · rw [publishes] at resumes
    exact not_removing_of_check resumes

/-- A leader asked to change master removes the key it holds. -/
theorem removal_spares_later_tenures_change_master :
    ∃ c entry, Run step NoOverlap (init ["a"] (by decide) sampleCfg) c ∧
      TakesEffect c (.handlerEtcd "a" 0 .answered) (.deleteLeaderKey "a" 2) ∧
      c.etcd.entries .leaderPath = some entry ∧
      entry.value = .text "a" ∧ entry.modRevision ≤ 2 := by
  have ran : (exec (restrict step noOverlap) (init ["a"] (by decide) sampleCfg)
      [.start "a" "u", .call "a" .read, .grant "a" 1, .etcd "a" .answered,
        .call "a" (.http .changeMaster), .call "a" (.handlerService 0 .ok)]).any
      (fun c => (step c (.handlerEtcd "a" 0 .answered)).isSome &&
        (decide (TakesEffect c (.handlerEtcd "a" 0 .answered) (.deleteLeaderKey "a" 2)) &&
          c.etcd.entries .leaderPath == some ⟨.text "a", some 1, 2, 2⟩)) = true := by
    decide +kernel
  obtain ⟨c, run, found⟩ := exists_run_of_exec (fun _ _ => noOverlap_of_check) ran
  simp only [Bool.and_eq_true, decide_eq_true_eq, beq_iff_eq] at found
  obtain ⟨enabled, effect, held⟩ := found
  obtain ⟨c', taken⟩ := Option.isSome_iff_exists.mp enabled
  exact ⟨c, _, run, effect, held, removal_spares_later_tenures run taken effect rfl held⟩

end Moha.LateRemoval
