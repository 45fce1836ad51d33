import Moha.RecordCoherence

/-! The stored term of the leader and the global term. Campaigns put both, a
resume under a lease puts the global term back as it was, and a follower stores
its term only while it is not the leader. A resume as single point master puts
zero for the stored term, and is what breaks the equality. -/
namespace Moha.StoredTerm
open KeyValueStore DecimalText LeaderRecord LeaderView Election LeaderLoop Cluster ClusterSteps
  RecordCoherence Runs

/-- No single point master resumes, and no campaign, resume or stored term is
applied after its caller went on. -/
def NoSinglePointResume (c : State) (a : Action) : Prop :=
  Prompt c a ∧ ∀ s, ¬ TakesEffect c a (.resumeLeaderAsSinglePoint s)

/-- A loop between a read that found another leader and the next read. -/
def Follows (loop : Loop) : Prop :=
  phase loop = .following ∨ ∃ leader, phase loop = .checking leader

structure Agrees (c : State) : Prop where
  coherent : Coherent c
  follower : ∀ n, (c.agents n).running = true → Follows (c.agents n).loop →
    ¬ (view c.etcd).LedBy n
  term : ∀ n, (view c.etcd).LedBy n → (view c.etcd).terms n = (view c.etcd).record.term

theorem agrees_init (nodes : List NodeID) (named : "" ∉ nodes) (cfg : NodeID → Config) :
    Agrees (init nodes named cfg) where
  coherent := coherent_init nodes named cfg
  follower := by
    intro n running
    cases running
  term := by
    rintro n ⟨entry, held, _⟩
    cases held

private theorem follows_busy {loop : Loop} (follows : Follows loop) :
    phase loop ≠ .idle ∧ phase loop ≠ .promoting ∧ phase loop ≠ .campaigning ∧
      ∀ singlePoint, phase loop ≠ .resuming singlePoint := by
  rcases follows with follows | ⟨leader, follows⟩ <;> rw [follows] <;> simp

/-- A read that leads to following another leader found that leader. -/
private theorem follower_read {c : State} {n : NodeID} {leader : Leader} {myTerm : UInt64}
    (formed : WellFormed c)
    (found : (c.agents n).server.getLeaderAndMyTerm c.etcd = .ok (leader, myTerm))
    (follows : Follows ((c.agents n).afterRead leader myTerm).loop) :
    ¬ (view c.etcd).LedBy n := by
  obtain ⟨_, busy⟩ := follows_busy follows
  obtain ⟨read, _, _, rfl⟩ := Server.getLeaderAndMyTerm_eq_ok found
  intro led
  have name : (readLeader c.etcd read).name = n := by
    change (asText (view c.etcd).leader).getD "" = n
    rw [ledBy_iff_asText.mp led]
    rfl
  cases afterRead_move (c.agents n) (readLeader c.etcd read) myTerm with
  | itself _ _ loop => exact busy.2.2 _ loop
  | another _ different => exact different (name.trans (formed.id n).symm)
  | vacant _ loop =>
    rcases loop with loop | loop
    · exact (follows_busy follows).1 loop
    · exact busy.2.1 loop

private theorem follower_step {c c' : State} {a : Action} (agrees : Agrees c)
    (prompt : Prompt c a) (taken : step c a = some c') {n : NodeID}
    (running : (c'.agents n).running = true) (follows : Follows (c'.agents n).loop) :
    ¬ (view c'.etcd).LedBy n := by
  obtain ⟨busy, settled, notCampaigning, notResuming⟩ := follows_busy follows
  intro led
  rcases ledBy_before agrees.coherent.formed taken led with
    before | ⟨request, s, effect, campaigns, name⟩
  · cases step_move taken n with
    | kept same _ kept =>
      refine agrees.follower n (same ▸ running) ?_ before
      simpa only [Follows, kept.resolve_right busy] using follows
    | stopped _ stopped => rw [stopped] at running; contradiction
    | started _ _ _ result => rw [result] at busy; exact busy rfl
    | read _ _ _ found result =>
      rw [result] at follows
      exact follower_read agrees.coherent.formed found follows before
    | preWatched was _ loop => exact agrees.follower n was (.inr ⟨_, by rw [loop]; rfl⟩) before
    | uploaded _ _ _ result => rw [result] at notCampaigning; exact notCampaigning rfl
    | won _ _ _ _ _ _ promoting => exact settled promoting
  · -- the campaign is the loop's own, and the loop follows
    obtain ⟨notCall, notStart⟩ := notCall_of_applied effect.1
    obtain ⟨_, _, stood⟩ := (step_move taken n).steady notCall notStart running busy settled
    obtain ⟨m, _, pending⟩ := prompt_applier prompt taken effect (.inl (by simp [campaigns]))
    obtain ⟨rfl, campaigning⟩ := pending_campaigner pending campaigns
    rw [agrees.coherent.formed.id m] at name
    subst name
    exact notCampaigning (stood.trans campaigning)

private theorem term_step {c c' : State} {a : Action} (agrees : Agrees c)
    (allowed : NoSinglePointResume c a) (taken : step c a = some c') {n : NodeID}
    (led : (view c'.etcd).LedBy n) :
    (view c'.etcd).terms n = (view c'.etcd).record.term := by
  obtain ⟨prompt, noResume⟩ := allowed
  cases step_view agrees.coherent.formed taken with
  | same unchanged =>
    rw [unchanged] at led ⊢
    exact agrees.term n led
  | expire _ expired =>
    rw [expired] at led ⊢
    exact agrees.term n led.of_expire
  | @effect request effect guard acted =>
    rw [acted] at led ⊢
    rcases request_kinds request with ⟨s, campaigns⟩ | ⟨s, resumes⟩ | ⟨id, removes⟩ | other
    · rw [← led_act (.inl campaigns) led, terms_act_campaigner campaigns,
        record_act_campaigner campaigns]
      simp [publishedBy]
    · have leased : request.asSinglePoint = false := by
        cases request <;> cases resumes
        · rfl
        · exact absurd effect (noResume _)
      obtain ⟨m, was, pending⟩ :=
        prompt_applier prompt taken effect (.inr (.inl (by simp [resumes])))
      obtain ⟨rfl, resuming⟩ := pending_resumer pending resumes
      have name := led_act (.inr resumes) led
      have before := guard_resumer resumes guard
      rw [agrees.coherent.formed.id m] at name before
      subst name
      rw [terms_act_resumer resumes leased, record_act_resumer resumes, agrees.term m before,
        agrees.coherent.resuming m _ was resuming before]
    · exact absurd led (led_act_remover removes)
    · have before := (led_act_other other).mp led
      rw [(act_other other.1 other.2.1 other.2.2).2.2, ← agrees.term n before]
      refine terms_act_kept ?_
      rintro s (campaigns | resumes | rfl) name
      · cases other.1.symm.trans campaigns
      · cases other.2.1.symm.trans resumes
      -- a follower stores its term, and a follower is not the leader
      obtain ⟨m, was, pending⟩ := prompt_applier prompt taken effect (.inr (.inr ⟨s, rfl⟩))
      obtain ⟨rfl, following⟩ := pending_persistMyTerm pending
      rw [agrees.coherent.formed.id m] at name
      subst name
      exact agrees.follower m was (.inl following) before

theorem agrees_step {c c' : State} {a : Action} (agrees : Agrees c)
    (allowed : NoSinglePointResume c a) (taken : step c a = some c') : Agrees c' where
  coherent := coherent_step agrees.coherent allowed.1 taken
  follower := fun _ running follows => follower_step agrees allowed.1 taken running follows
  term := fun _ led => term_step agrees allowed taken led

/-- As long as no single point master resumes, the stored term of the leader is
the global term. -/
theorem leader_stored_term_is_global {nodes : List NodeID} {named : "" ∉ nodes}
    {cfg : NodeID → Config} {c : State} {n : NodeID}
    (run : Run step NoSinglePointResume (init nodes named cfg) c)
    (leads : c.etcd.value .leaderPath = some (.text n)) :
    text c.etcd (.myTermPath n) = text c.etcd .termPath :=
  (run.invariant (agrees_init nodes named cfg) agrees_step).term n (ledBy_iff.mpr leads)

/-- The single point master restarts and resumes: it leads under term two with
zero for its stored term. -/
theorem single_point_resume_zeroes_stored_term :
    ∃ c, Run step InTime (init ["a"] (by decide) sampleCfg) c ∧
      c.etcd.value .leaderPath = some (.text "a") ∧
      text c.etcd (.myTermPath "a") = some "0" ∧ text c.etcd .termPath = some "2" := by
  have ran : (exec (restrict step fun _ a => !isLate a) (init ["a"] (by decide) sampleCfg)
      (becomesSinglePoint ++ [.call "a" .crash, .start "a" "u", .call "a" .read,
        .etcd "a" .answered])).any
      (fun c => c.etcd.value .leaderPath == some (.text "a") &&
        (text c.etcd (.myTermPath "a") == some "0" && text c.etcd .termPath == some "2")) =
      true := by
    decide +kernel
  obtain ⟨c, run, found⟩ := exists_run_of_exec (fun _ _ => inTime_of_not_isLate) ran
  exact ⟨c, run, by simpa using found⟩

private theorem noSinglePointResume_of_check {c : State} {a : Action}
    (check : (!isLate a &&
      (applied c a).all fun request => request.resumer.isNone || !request.asSinglePoint) = true) :
    NoSinglePointResume c a := by
  obtain ⟨prompt, applies⟩ := Bool.and_eq_true_iff.mp check
  refine ⟨prompt_of_inTime (inTime_of_not_isLate prompt), ?_⟩
  intro s effect
  rw [effect.1] at applies
  cases applies

/-- A leader that resumed under a lease still agrees. -/
theorem leader_stored_term_is_global_after_resume :
    ∃ c, Run step NoSinglePointResume (init ["a"] (by decide) sampleCfg) c ∧
      c.etcd.entries .leaderPath = some ⟨.text "a", some 2, 2, 3⟩ ∧
      text c.etcd (.myTermPath "a") = text c.etcd .termPath := by
  have ran : (exec (restrict step fun c a => !isLate a &&
        (applied c a).all fun request => request.resumer.isNone || !request.asSinglePoint)
      (init ["a"] (by decide) sampleCfg)
      [.start "a" "u", .call "a" .read, .grant "a" 1, .etcd "a" .answered, .call "a" .crash,
        .start "a" "u", .call "a" .read, .grant "a" 2, .etcd "a" .answered]).any
      (fun c => c.etcd.entries .leaderPath == some ⟨.text "a", some 2, 2, 3⟩) = true := by
    decide +kernel
  obtain ⟨c, run, found⟩ := exists_run_of_exec (fun _ _ => noSinglePointResume_of_check) ran
  have held := eq_of_beq found
  exact ⟨c, run, held, leader_stored_term_is_global run (by simp [Store.value, held])⟩

end Moha.StoredTerm
