import Moha.ClusterSteps

/-! The lifetimes of the leader key and of the meta version that goes with it.
Every transaction that puts one puts the other under the same lease, so a lease
that expires takes both. `deleteLeaderKey` deletes both as well, but the
`StartClean` of `agent/cleaner.go` deletes the leader key only. -/
namespace Moha.VersionLifetime
open KeyValueStore LeaderRecord LeaderView LeaderLoop Cluster ClusterSteps Runs

/-- The leader key and the meta version are both absent, or both present and
attached to the same lease or to none. -/
def Coupled (leader version : Option (Entry Value)) : Prop :=
  leader = none ∧ version = none ∨
    ∃ held tag, leader = some held ∧ version = some tag ∧ held.lease = tag.lease

/-- No removal by the cleaner of a node takes effect. -/
def NotCleaned (c : State) (a : Action) : Prop :=
  ∀ id issued, ¬ TakesEffect c a (.startClean id issued)

private theorem coupled_act {v : View} {revision : Nat} {request : Request}
    (coupled : Coupled v.leader v.version) (kept : ∀ id issued, request ≠ .startClean id issued) :
    Coupled (act revision v request).leader (act revision v request).version := by
  have published : ∀ {s : Server}, request.campaigner = some s ∨ request.resumer = some s →
      Coupled (act revision v request).leader (act revision v request).version := by
    intro s publishes
    obtain ⟨lease, leader, version, _⟩ := @leader_act revision v request s publishes
    exact .inr ⟨_, _, leader, version, rfl⟩
  cases request with
  | campaignLeader s lease | campaignLeaderAsSinglePoint s => exact published (.inl rfl)
  | resumeLeader s lease | resumeLeaderAsSinglePoint s => exact published (.inr rfl)
  | deleteLeaderKey id issued => exact .inl ⟨rfl, rfl⟩
  | startClean id issued => exact absurd rfl (kept id issued)
  | persistMyTerm | removeSPM | uploadLogForElection | uploadPromotionBinlog => exact coupled

private theorem coupled_expire {v : View} (coupled : Coupled v.leader v.version)
    (lease : LeaseID) : Coupled (v.expire lease).leader (v.expire lease).version := by
  rcases coupled with ⟨leader, version⟩ | ⟨held, tag, leader, version, same⟩
  · exact .inl ⟨by simp [View.expire, leader], by simp [View.expire, version]⟩
  · have together : held.attachedTo lease = tag.attachedTo lease := by
      simp only [Entry.attachedTo, same]
    cases attached : tag.attachedTo lease with
    | true => exact .inl ⟨by simp [View.expire, leader, together, attached],
        by simp [View.expire, version, attached]⟩
    | false => exact .inr ⟨held, tag, by simp [View.expire, leader, together, attached],
        by simp [View.expire, version, attached], same⟩

structure LifetimeSound (c : State) : Prop where
  formed : WellFormed c
  coupled : Coupled (view c.etcd).leader (view c.etcd).version

theorem lifetimeSound_init (nodes : List NodeID) (named : "" ∉ nodes) (cfg : NodeID → Config) :
    LifetimeSound (init nodes named cfg) where
  formed := wellFormed_init nodes named cfg
  coupled := .inl ⟨rfl, rfl⟩

theorem lifetimeSound_step {c c' : State} {a : Action} (sound : LifetimeSound c)
    (kept : NotCleaned c a) (taken : step c a = some c') : LifetimeSound c' where
  formed := wellFormed_step sound.formed taken
  coupled := by
    cases step_view sound.formed taken with
    | same unchanged =>
      rw [unchanged]
      exact sound.coupled
    | expire _ expired =>
      rw [expired]
      exact coupled_expire sound.coupled _
    | effect effect _ acted =>
      rw [acted]
      refine coupled_act sound.coupled ?_
      rintro id issued rfl
      exact kept id issued effect

/-- As long as no removal by a cleaner takes effect, the leader key and the meta
version live and die together. -/
theorem leader_and_version_coupled {nodes : List NodeID} {named : "" ∉ nodes}
    {cfg : NodeID → Config} {c : State} (run : Run step NotCleaned (init nodes named cfg) c) :
    Coupled (c.etcd.entries .leaderPath) (c.etcd.entries .metaVersionPath) :=
  (run.invariant (lifetimeSound_init nodes named cfg) lifetimeSound_step).coupled

private def notCleaned (c : State) (a : Action) : Bool :=
  (applied c a).all fun request =>
    match request with
    | .startClean _ _ => false
    | _ => true

private theorem notCleaned_of_check {c : State} {a : Action} (check : notCleaned c a = true) :
    NotCleaned c a := by
  intro id issued effect
  rw [notCleaned, effect.1] at check
  cases check

/-- A leader under a lease whose process has crashed. -/
private def crashes : List Action :=
  [.start "a" "u", .call "a" .read, .grant "a" 1, .etcd "a" .answered, .call "a" .crash]

/-- The lease of a crashed leader expires, and its next process becomes single
point master: both keys are there without a lease. -/
theorem leader_and_version_coupled_of_single_point :
    ∃ c, Run step NotCleaned (init ["a"] (by decide) sampleCfg) c ∧
      (c.etcd.entries .leaderPath).map Entry.lease = some none ∧
      Coupled (c.etcd.entries .leaderPath) (c.etcd.entries .metaVersionPath) := by
  have ran : (exec (restrict step notCleaned) (init ["a"] (by decide) sampleCfg)
      becomesSinglePoint).any
      (fun c => (c.etcd.entries .leaderPath).map Entry.lease == some none) = true := by
    decide +kernel
  obtain ⟨c, run, found⟩ := exists_run_of_exec (fun _ _ => notCleaned_of_check) ran
  exact ⟨c, run, eq_of_beq found, leader_and_version_coupled run⟩

/-- The cleaner of a crashed leader deletes its key, and the meta version stays. -/
theorem clean_leaves_version :
    ∃ c, Run step InTime (init ["a"] (by decide) sampleCfg) c ∧
      ¬ Coupled (c.etcd.entries .leaderPath) (c.etcd.entries .metaVersionPath) := by
  have ran : (exec (restrict step fun _ a => !isLate a) (init ["a"] (by decide) sampleCfg)
      (crashes ++ [.clean "a" .answered])).any
      (fun c => c.etcd.entries .leaderPath == none && c.etcd.entries .metaVersionPath != none) =
      true := by
    decide +kernel
  obtain ⟨c, run, found⟩ := exists_run_of_exec (fun _ _ => inTime_of_not_isLate) ran
  obtain ⟨absent, present⟩ : c.etcd.entries .leaderPath = none ∧
      c.etcd.entries .metaVersionPath ≠ none := by simpa using found
  refine ⟨c, run, ?_⟩
  rintro (⟨_, gone⟩ | ⟨held, _, leader, _⟩)
  · exact present gone
  · rw [absent] at leader
    cases leader

end Moha.VersionLifetime
