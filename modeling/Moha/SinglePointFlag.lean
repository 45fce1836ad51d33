import Moha.ClusterSteps

/-! The single-point flag and the leader key. The two transactions that set the
flag put the leader key of the same node without a lease, and a campaign under
a lease needs the key to be gone, so it never meets a flag that is truthful.
What can part them is a removal of the key, which leaves the flag behind, and a
resume that puts the key of a flagged node under a lease. -/
namespace Moha.SinglePointFlag
open KeyValueStore LeaderRecord LeaderView LeaderLoop Cluster ClusterSteps Runs

/-- The flag names the holder of a leader key without a lease. -/
def Truthful (v : View) : Prop :=
  ∀ n, v.spm = some n → ∃ entry, v.leader = some entry ∧ entry.value = .text n ∧ entry.lease = none

/-- While a node is flagged, nobody removes its leader key and it does not
resume under a lease. -/
def SparesFlagged (c : State) (a : Action) : Prop :=
  ∀ request, TakesEffect c a request →
    (∀ id, request.remover = some id → text c.etcd .spmPath ≠ some id) ∧
    ∀ s, request.resumer = some s → request.asSinglePoint = false →
      text c.etcd .spmPath ≠ some s.id

private theorem truthful_publish {v : View} {revision : Nat} {request : Request} {s : Server}
    (publishes : request.campaigner = some s ∨ request.resumer = some s)
    (unflagged : request.asSinglePoint = false → v.spm = none) :
    Truthful (act revision v request) := by
  intro n flag
  obtain ⟨lease, leader, _, single⟩ := @leader_act revision v request s publishes
  rw [spm_act publishes] at flag
  split at flag
  · rename_i asSinglePoint
    cases flag
    exact ⟨_, leader, rfl, single asSinglePoint⟩
  · rename_i leased
    rw [unflagged (by simpa using leased)] at flag
    cases flag

private theorem truthful_act {v : View} {revision : Nat} {request : Request}
    (truthful : Truthful v) (guard : Guard v request)
    (removals : ∀ id, request.remover = some id → v.spm ≠ some id)
    (resumes : ∀ s, request.resumer = some s → request.asSinglePoint = false →
      v.spm ≠ some s.id) :
    Truthful (act revision v request) := by
  have names : ∀ {n m : NodeID}, v.spm = some n → v.LedBy m → n = m := by
    intro n m flag led
    obtain ⟨entry, held, value, _⟩ := truthful n flag
    exact View.LedBy.unique ⟨entry, held, value⟩ led
  rcases request_kinds request with ⟨s, campaigns⟩ | ⟨s, resuming⟩ | ⟨id, removes⟩ | other
  · refine truthful_publish (.inl campaigns) fun _ => ?_
    cases flag : v.spm with
    | none => rfl
    | some n =>
      obtain ⟨entry, held, _⟩ := truthful n flag
      rw [guard_campaigner campaigns guard] at held
      cases held
  · refine truthful_publish (.inr resuming) fun leased => ?_
    cases flag : v.spm with
    | none => rfl
    | some n =>
      have name := names flag (guard_resumer resuming guard)
      exact absurd (name ▸ flag) (resumes s resuming leased)
  · intro n flag
    rw [(act_remover removes).2.2.2] at flag
    have name := names flag (guard_remover removes guard)
    exact absurd (name ▸ flag) (removals id removes)
  · intro n flag
    rw [(act_other other.1 other.2.1 other.2.2).1]
    exact truthful n (spm_act_other other.1 other.2.1 flag)

private theorem truthful_expire {v : View} {lease : LeaseID} (truthful : Truthful v) :
    Truthful (v.expire lease) := by
  intro n flag
  obtain ⟨entry, held, value, free⟩ := truthful n flag
  refine ⟨entry, ?_, value, free⟩
  simp [View.expire, held, Entry.attachedTo, free]

structure FlagSound (c : State) : Prop where
  formed : WellFormed c
  truthful : Truthful (view c.etcd)

theorem flagSound_init (nodes : List NodeID) (named : "" ∉ nodes) (cfg : NodeID → Config) :
    FlagSound (init nodes named cfg) where
  formed := wellFormed_init nodes named cfg
  truthful := by
    intro n flag
    cases flag

theorem flagSound_step {c c' : State} {a : Action} (sound : FlagSound c)
    (spares : SparesFlagged c a) (taken : step c a = some c') : FlagSound c' where
  formed := wellFormed_step sound.formed taken
  truthful := by
    cases step_view sound.formed taken with
    | same unchanged =>
      rw [unchanged]
      exact sound.truthful
    | expire _ expired =>
      rw [expired]
      exact truthful_expire sound.truthful
    | effect effect guard acted =>
      obtain ⟨removals, resumes⟩ := spares _ effect
      rw [acted]
      exact truthful_act sound.truthful guard removals resumes

/-- As long as the key of a flagged node is neither removed nor put under a
lease, the flag names the holder of a leader key without a lease. -/
theorem single_point_flag_truthful {nodes : List NodeID} {named : "" ∉ nodes}
    {cfg : NodeID → Config} {c : State} {n : NodeID}
    (run : Run step SparesFlagged (init nodes named cfg) c)
    (flagged : text c.etcd .spmPath = some n) :
    ∃ entry, c.etcd.entries .leaderPath = some entry ∧ entry.value = .text n ∧
      entry.lease = none :=
  (run.invariant (flagSound_init nodes named cfg) flagSound_step).truthful n flagged

/-- A single point master that is asked to change master gives up the key and
keeps the flag. -/
theorem change_master_leaves_flag :
    ∃ c, Run step InTime (init ["a"] (by decide) sampleCfg) c ∧
      text c.etcd .spmPath = some "a" ∧ c.etcd.entries .leaderPath = none := by
  have ran : (exec (restrict step fun _ a => !isLate a) (init ["a"] (by decide) sampleCfg)
      (becomesSinglePoint ++ [.call "a" (.http .changeMaster), .call "a" (.handlerService 0 .ok),
        .handlerEtcd "a" 0 .answered])).any
      (fun c => text c.etcd .spmPath == some "a" && c.etcd.entries .leaderPath == none) =
      true := by
    decide +kernel
  obtain ⟨c, run, found⟩ := exists_run_of_exec (fun _ _ => inTime_of_not_isLate) ran
  exact ⟨c, run, by simpa using found⟩

private def sparesFlagged (c : State) (a : Action) : Bool :=
  (applied c a).all fun request =>
    request.remover.all (fun id => text c.etcd .spmPath != some id) &&
      (request.asSinglePoint || request.resumer.all fun s => text c.etcd .spmPath != some s.id)

private theorem sparesFlagged_of_check {c : State} {a : Action} (check : sparesFlagged c a = true) :
    SparesFlagged c a := by
  intro request effect
  rw [sparesFlagged, effect.1] at check
  obtain ⟨removals, resumes⟩ := Bool.and_eq_true_iff.mp check
  refine ⟨?_, ?_⟩
  · intro id removes
    rw [removes] at removals
    simpa using removals
  · intro s resuming leased
    rw [resuming, leased] at resumes
    simpa using resumes

/-- The single point master before anybody asks. -/
theorem single_point_flag_truthful_alone :
    ∃ c, Run step SparesFlagged (init ["a"] (by decide) sampleCfg) c ∧
      text c.etcd .spmPath = some "a" ∧
      ∃ entry, c.etcd.entries .leaderPath = some entry ∧ entry.value = .text "a" ∧
        entry.lease = none := by
  have ran : (exec (restrict step sparesFlagged) (init ["a"] (by decide) sampleCfg)
      becomesSinglePoint).any (fun c => text c.etcd .spmPath == some "a") = true := by
    decide +kernel
  obtain ⟨c, run, found⟩ := exists_run_of_exec (fun _ _ => sparesFlagged_of_check) ran
  have flagged := eq_of_beq found
  exact ⟨c, run, flagged, single_point_flag_truthful run flagged⟩

end Moha.SinglePointFlag
