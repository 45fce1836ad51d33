import Moha.ClusterSteps
import Moha.LeaseTenure

/-! `server.go::Close` beside the other goroutines of its process. It sets the service
read-only, closes the service manager, unregisters the node, cancels the context of
the server and only then deletes the leader key, with that same context: the client of
etcd refuses a request whose context is done, so the delete is never sent. Etcd answers
every request whose context is live. The heartbeat goroutine of `node.go::Heartbeat`
stops on the same signals and closes the client of etcd when it does. -/
namespace Moha.GracefulClose
open KeyValueStore LeaderRecord LeaderView Election LeaderLoop Cluster ClusterSteps Runs

/-- What `Close` does next; `serving` is before it is called. -/
inductive Stage where
  | serving
  | serviceClose
  | stopRegister
  | unregister
  | cancel
  | deleteLeaderKey
  | shutdown
  | returned
  deriving DecidableEq, Repr

/-- The service manager has not been closed. -/
def Stage.managed : Stage → Bool
  | .serving | .serviceClose => true
  | _ => false

/-- `registerStopCh` is closed. -/
def Stage.registerStopped : Stage → Bool
  | .serving | .serviceClose | .stopRegister => false
  | _ => true

/-- The goroutine of `server.go::startHeartbeatLoop`: before its first registration,
in the loop of `Heartbeat`, or returned, with the client of etcd closed. -/
inductive Heartbeat where
  | starting
  | beating
  | returned
  deriving DecidableEq, Repr

structure Process where
  stage : Stage := .serving
  heartbeat : Heartbeat := .starting
  deriving DecidableEq, Repr

/-- `puts` counts the registrations of a node that are on their way to etcd, and
`registrations` tells which nodes are registered. -/
structure State where
  cluster : Cluster.State
  processes : NodeID → Process
  puts : NodeID → Nat
  registrations : NodeID → Bool

def init (nodes : List NodeID) (named : "" ∉ nodes) (cfg : NodeID → Config) : State where
  cluster := Cluster.init nodes named cfg
  processes := fun _ => {}
  puts := fun _ => 0
  registrations := fun _ => false

inductive Event where
  /-- A step of the cluster but for a call of `Close`. -/
  | agent (action : Action)
  /-- `Close` up to `setServiceReadonlyOrShutdown`. -/
  | close (n : NodeID) (outcome : Outcome)
  | serviceClose (n : NodeID)
  | stopRegister (n : NodeID)
  | unregister (n : NodeID)
  | cancel (n : NodeID)
  | deleteLeaderKey (n : NodeID)
  | shutdown (n : NodeID)
  | register (n : NodeID)
  | registered (n : NodeID)
  | put (n : NodeID)
  | registrationExpires (n : NodeID)
  | heartbeatReturns (n : NodeID)
  deriving DecidableEq

/-- With the service manager closed every call to it fails. -/
def answers (managed : Bool) : Call → Bool
  | .close _ => false
  | .service outcome | .handlerService _ outcome => managed || outcome == .failed
  | .handlerManual _ outcome => managed || outcome == .refused
  | _ => true

def State.ordinary (t : State) : Action → Bool
  | .call n call => answers (t.processes n).stage.managed call
  | _ => true

/-- A new process has not called `Close`. -/
def State.renew (t : State) : Action → NodeID → Process
  | .start n _ => Function.update t.processes n {}
  | _ => t.processes

def State.enter (t : State) (n : NodeID) (stage : Stage) : State :=
  { t with processes := Function.update t.processes n { t.processes n with stage := stage } }

/-- The process runs, and its `Close` is at the stage. -/
def State.At (t : State) (n : NodeID) (stage : Stage) : Prop :=
  (t.cluster.agents n).running = true ∧ (t.processes n).stage = stage

instance (t : State) (n : NodeID) (stage : Stage) : Decidable (t.At n stage) :=
  inferInstanceAs (Decidable (_ ∧ _))

/-- The client of etcd of the process is open. -/
def State.connected (t : State) (n : NodeID) : Bool := (t.processes n).heartbeat != .returned

/-- `registry.go::UnregisterNode`, which deletes its key as a prefix. -/
def State.unregisterNode (t : State) (n : NodeID) : NodeID → Bool := fun m =>
  t.registrations m && !n.toList.isPrefixOf m.toList

/-- A step; `none` when the event is not enabled. -/
def step (t : State) : Event → Option State
  | .agent action =>
    if t.ordinary action then
      (Cluster.step t.cluster action).map fun c =>
        { t with cluster := c, processes := t.renew action }
    else none
  | .close n outcome =>
    (Cluster.step t.cluster (.call n (.close outcome))).map fun c =>
      { t with cluster := c }.enter n .serviceClose
  | .serviceClose n => if t.At n .serviceClose then some (t.enter n .stopRegister) else none
  | .stopRegister n => if t.At n .stopRegister then some (t.enter n .unregister) else none
  | .unregister n =>
    -- the context is live, so etcd answers unless the client is closed
    if t.At n .unregister then
      some { t.enter n .cancel with
        registrations := if t.connected n then t.unregisterNode n else t.registrations }
    else none
  | .cancel n => if t.At n .cancel then some (t.enter n .deleteLeaderKey) else none
  | .deleteLeaderKey n =>
    -- the context is done, so nothing is sent; the error is only logged
    if t.At n .deleteLeaderKey then some (t.enter n .shutdown) else none
  | .shutdown n => if t.At n .shutdown then some (t.enter n .returned) else none
  | .register n =>
    if (t.cluster.agents n).running ∧ t.connected n then
      some { t with puts := Function.update t.puts n (t.puts n + 1) }
    else none
  | .registered n =>
    if (t.cluster.agents n).running ∧ (t.processes n).heartbeat = .starting then
      some { t with
        processes := Function.update t.processes n { t.processes n with heartbeat := .beating } }
    else none
  | .put n =>
    if 0 < t.puts n then
      some { t with
        puts := Function.update t.puts n (t.puts n - 1)
        registrations := Function.update t.registrations n true }
    else none
  | .registrationExpires n =>
    some { t with registrations := Function.update t.registrations n false }
  | .heartbeatReturns n =>
    if (t.cluster.agents n).running ∧ (t.processes n).heartbeat = .beating ∧
        (t.processes n).stage.registerStopped then
      some { t with
        processes := Function.update t.processes n { t.processes n with heartbeat := .returned } }
    else none

/-! ### Steps of the cluster -/

/-- With the service manager closed no call makes the service writable. -/
theorem writable_before {c c' : Cluster.State} {a : Action} {n : NodeID}
    (taken : Cluster.step c a = some c') (writable : (c'.agents n).writable = true)
    (closed : ∀ call, a = .call n call → answers false call = true) :
    (c.agents n).writable = true := by
  rcases step_writable taken writable with before | ⟨call, rfl, _, opening⟩
  · exact before
  · have failed := closed call rfl
    cases opening with
    | @promotes outcome =>
      have failed : outcome = .failed := by simpa [answers] using failed
      subst failed
      obtain ⟨_, next, moved, rfl⟩ := step_call taken
      rw [← (LeaseTenure.afterService_failed moved).1]
      simpa [State.proceed, Cluster.State.set] using writable
    | handles effective => exact absurd (by simpa [answers] using failed) effective

/-! ### What `Close` has done -/

/-- The stages after the service was set read-only. -/
def Stage.readOnly : Stage → Bool
  | .serving | .returned => false
  | _ => true

/-- The stages after the registration was deleted. -/
def Stage.unregistered : Stage → Bool
  | .cancel | .deleteLeaderKey | .shutdown => true
  | _ => false

/-- `Close` is called while the leader key does not name the node, and nothing in the
process undoes what it has done before it returns: no campaign of the node takes effect,
the service is not set writable before the service manager is closed, the client of etcd
is open when the node is unregistered, and no registration that was on its way arrives
afterwards. -/
def Undisturbed (n : NodeID) (t : State) : Event → Prop
  | .agent action =>
      ((t.processes n).stage = .serviceClose →
        ∀ call, action = .call n call → ¬ Opening (t.cluster.agents n) call) ∧
      ((t.processes n).stage.readOnly = true →
        ∀ request s, TakesEffect t.cluster action request → request.campaigner = some s →
          s.id ≠ n)
  | .close m _ => m = n → ¬ (view t.cluster.etcd).LedBy n
  | .unregister m => m = n → t.connected n = true
  | .put m => m = n → (t.processes n).stage.unregistered = false
  | _ => True

structure Closing (n : NodeID) (t : State) : Prop where
  formed : WellFormed t.cluster
  readOnly : (t.cluster.agents n).running = true → (t.processes n).stage.readOnly = true →
    (t.cluster.agents n).writable = false
  unregistered : (t.cluster.agents n).running = true →
    (t.processes n).stage.unregistered = true → t.registrations n = false
  resigned : (t.cluster.agents n).running = true → (t.processes n).stage.readOnly = true →
    ¬ (view t.cluster.etcd).LedBy n

theorem closing_serving {n : NodeID} {t : State} (formed : WellFormed t.cluster)
    (serving : (t.processes n).stage = .serving) : Closing n t where
  formed := formed
  readOnly := fun _ inside => by
    rw [serving] at inside
    cases inside
  unregistered := fun _ inside => by
    rw [serving] at inside
    cases inside
  resigned := fun _ inside => by
    rw [serving] at inside
    cases inside

section Events
variable {n : NodeID} {t : State}

theorem Closing.carry {t' : State} (closing : Closing n t) (cluster : t'.cluster = t.cluster)
    (stage : (t'.processes n).stage = (t.processes n).stage)
    (fewer : t'.registrations n = true → t.registrations n = true) : Closing n t' where
  formed := cluster ▸ closing.formed
  readOnly := by
    rw [cluster, stage]
    exact closing.readOnly
  unregistered := by
    rw [cluster, stage]
    intro running inside
    have before := closing.unregistered running inside
    cases after : t'.registrations n with
    | false => rfl
    | true => exact (fewer after).symm.trans before
  resigned := by
    rw [cluster, stage]
    exact closing.resigned

theorem Closing.enter {before after : Stage} (closing : Closing n t) (current : t.At n before)
    (readOnly : after.readOnly = true → before.readOnly = true)
    (unregistered : after.unregistered = true → before.unregistered = true) :
    Closing n (t.enter n after) := by
  obtain ⟨_, stage⟩ := current
  refine ⟨closing.formed, ?_, ?_, ?_⟩ <;>
    simp only [State.enter, Function.update_self]
  · exact fun running inside => closing.readOnly running (stage ▸ readOnly inside)
  · exact fun running inside => closing.unregistered running (stage ▸ unregistered inside)
  · exact fun running inside => closing.resigned running (stage ▸ readOnly inside)

theorem Closing.enter_other {m : NodeID} {stage : Stage} (closing : Closing n t) (other : n ≠ m) :
    Closing n (t.enter m stage) :=
  closing.carry rfl (by simp [State.enter, Function.update_of_ne other]) id

/-- A step of the cluster that does not start the node. -/
theorem Closing.cluster {c : Cluster.State} {a : Action} (closing : Closing n t)
    (taken : Cluster.step t.cluster a = some c) (notStart : ∀ uuid, a ≠ .start n uuid)
    (closed : (t.processes n).stage.readOnly = true →
      (∀ call, a = .call n call → answers false call = true) ∨
        ∀ call, a = .call n call → ¬ Opening (t.cluster.agents n) call)
    (loses : (t.processes n).stage.readOnly = true →
      ∀ request s, TakesEffect t.cluster a request → request.campaigner = some s → s.id ≠ n) :
    Closing n { t with cluster := c } where
  formed := wellFormed_step closing.formed taken
  readOnly := by
    intro running inside
    have before := closing.readOnly (running_before taken running notStart) inside
    by_contra other
    have writable : (c.agents n).writable = true := by simpa using other
    rcases closed inside with failed | notOpening
    · cases before.symm.trans (writable_before taken writable failed)
    · rcases step_writable taken writable with was | ⟨call, action, _, opening⟩
      · cases before.symm.trans was
      · exact notOpening call action opening
  unregistered := fun running inside =>
    closing.unregistered (running_before taken running notStart) inside
  resigned := by
    intro running inside led
    rcases ledBy_before closing.formed taken led with before | ⟨request, s, effect, campaigns, own⟩
    · exact closing.resigned (running_before taken running notStart) inside before
    · exact loses inside request s effect campaigns own

theorem Closing.agent {t' : State} {action : Action} (closing : Closing n t)
    (undisturbed : Undisturbed n t (.agent action)) (taken : step t (.agent action) = some t') :
    Closing n t' := by
  simp only [step] at taken
  split at taken
  · rename_i ordinary
    obtain ⟨c, moved, rfl⟩ := Option.map_eq_some_iff.mp taken
    by_cases start : ∃ uuid, action = .start n uuid
    · obtain ⟨uuid, rfl⟩ := start
      exact closing_serving (wellFormed_step closing.formed moved) (by simp [State.renew])
    · have notStart : ∀ uuid, action ≠ .start n uuid := fun uuid same => start ⟨uuid, same⟩
      have process : t.renew action n = t.processes n := by
        unfold State.renew
        split
        · rename_i m uuid
          have other : n ≠ m := fun same => notStart uuid (by rw [same])
          exact Function.update_of_ne other _ _
        · rfl
      refine (closing.cluster moved notStart (fun inside => ?_) undisturbed.2).carry rfl
        (congrArg Process.stage process) id
      by_cases first : (t.processes n).stage = .serviceClose
      · exact .inr (undisturbed.1 first)
      · left
        rintro call rfl
        have closed : (t.processes n).stage.managed = false := by
          cases stage : (t.processes n).stage <;> simp_all [Stage.managed, Stage.readOnly]
        rwa [State.ordinary, closed] at ordinary
  · contradiction

/-- `Close` begins with the read-only service, or ends the process. -/
theorem Closing.close {t' : State} {m : NodeID} {outcome : Outcome} (closing : Closing n t)
    (follows : m = n → ¬ (view t.cluster.etcd).LedBy n)
    (taken : step t (.close m outcome) = some t') : Closing n t' := by
  obtain ⟨c, moved, rfl⟩ := Option.map_eq_some_iff.mp taken
  by_cases same : n = m
  · subst same
    refine ⟨wellFormed_step closing.formed moved, fun running _ => ?_, ?_, ?_⟩
    · obtain ⟨_, next, called, rfl⟩ := step_call moved
      have agent : (t.cluster.proceed n next).agents n = next.after := by
        simp [State.proceed, Cluster.State.set]
      simp only [State.enter, agent] at running ⊢
      simp only [Agent.move, Agent.readOnlyOrShutdown] at called
      split at called
      · contradiction
      · cases called
        split at running
        · rename_i ok
          subst ok
          rfl
        · cases running
    · simp [State.enter, Stage.unregistered]
    · intro _ _ led
      rcases ledBy_before closing.formed moved led with before | ⟨_, _, ⟨applies, _⟩, _⟩
      · exact follows rfl before
      · cases applies
  · refine Closing.enter_other (closing.cluster moved (by simp) (fun _ => .inl ?_) ?_) same
    · rintro call action
      cases action
      exact absurd rfl same
    · rintro _ request s ⟨applies, _⟩
      cases applies

theorem Closing.unregister {t' : State} {m : NodeID} (closing : Closing n t)
    (connected : m = n → t.connected n = true) (taken : step t (.unregister m) = some t') :
    Closing n t' := by
  simp only [step] at taken
  split at taken <;> cases taken
  rename_i current
  by_cases same : n = m
  · subst same
    refine ⟨closing.formed, fun running _ => ?_, fun _ _ => ?_, fun running _ => ?_⟩
    · exact closing.readOnly running (by rw [current.2]; rfl)
    · simp [State.unregisterNode, connected rfl]
    · exact closing.resigned running (by rw [current.2]; rfl)
  · refine closing.carry rfl (by simp [State.enter, Function.update_of_ne same]) fun kept => ?_
    dsimp only at kept
    split at kept
    · exact (Bool.and_eq_true_iff.mp kept).1
    · exact kept

theorem Closing.put {t' : State} {m : NodeID} (closing : Closing n t)
    (inTime : m = n → (t.processes n).stage.unregistered = false)
    (taken : step t (.put m) = some t') : Closing n t' := by
  simp only [step] at taken
  split at taken <;> cases taken
  by_cases same : n = m
  · subst same
    exact ⟨closing.formed, closing.readOnly,
      fun _ inside => (nomatch (inTime rfl).symm.trans inside), closing.resigned⟩
  · exact closing.carry rfl rfl fun kept => by
      simpa [Function.update_of_ne same] using kept

theorem Closing.heartbeat {m : NodeID} {heartbeat : Heartbeat} (closing : Closing n t) :
    Closing n { t with
      processes :=
        Function.update t.processes m { t.processes m with heartbeat := heartbeat } } := by
  refine closing.carry rfl ?_ id
  by_cases same : n = m
  · subst same
    simp
  · simp [Function.update_of_ne same]

/-- A stage of `Close` that changes nothing else. -/
theorem Closing.stage {t' : State} {m : NodeID} {before after : Stage} (closing : Closing n t)
    (taken : (if t.At m before then some (t.enter m after) else none) = some t')
    (readOnly : after.readOnly = true → before.readOnly = true)
    (unregistered : after.unregistered = true → before.unregistered = true) :
    Closing n t' := by
  split at taken <;> cases taken
  rename_i current
  by_cases same : n = m
  · subst same
    exact closing.enter current readOnly unregistered
  · exact closing.enter_other same

theorem closing_step {t' : State} {event : Event} (closing : Closing n t)
    (undisturbed : Undisturbed n t event) (taken : step t event = some t') : Closing n t' := by
  cases event with
  | agent action => exact closing.agent undisturbed taken
  | close m outcome => exact closing.close undisturbed taken
  | serviceClose m => exact closing.stage taken (fun _ => rfl) nofun
  | stopRegister m => exact closing.stage taken (fun _ => rfl) nofun
  | unregister m => exact closing.unregister undisturbed taken
  | cancel m => exact closing.stage taken (fun _ => rfl) (fun _ => rfl)
  | deleteLeaderKey m => exact closing.stage taken (fun _ => rfl) (fun _ => rfl)
  | shutdown m => exact closing.stage taken nofun nofun
  | register m =>
    simp only [step] at taken
    split at taken <;> cases taken
    exact closing.carry rfl rfl id
  | registered m =>
    simp only [step] at taken
    split at taken <;> cases taken
    exact closing.heartbeat
  | put m => exact closing.put undisturbed taken
  | registrationExpires m =>
    cases taken
    refine closing.carry rfl rfl fun kept => ?_
    by_cases same : n = m
    · subst same
      simp at kept
    · simpa [Function.update_of_ne same] using kept
  | heartbeatReturns m =>
    simp only [step] at taken
    split at taken <;> cases taken
    exact closing.heartbeat

end Events

/-- When an undisturbed `Close` returns, the service is read-only, the leader key does not
name the node and the node is not registered. -/
theorem close_gives_up_leadership {nodes : List NodeID} {named : "" ∉ nodes}
    {cfg : NodeID → Config} {n : NodeID} {t t' : State}
    (run : Run step (Undisturbed n) (init nodes named cfg) t)
    (returns : step t (.shutdown n) = some t') :
    (t'.cluster.agents n).writable = false ∧
      t'.cluster.etcd.value .leaderPath ≠ some (.text n) ∧ t'.registrations n = false := by
  have closing : Closing n t :=
    run.invariant (closing_serving (wellFormed_init nodes named cfg) rfl) closing_step
  simp only [step] at returns
  split at returns <;> cases returns
  rename_i current
  refine ⟨?_, ?_, ?_⟩
  · exact closing.readOnly current.1 (by rw [current.2]; rfl)
  · exact fun named => closing.resigned current.1 (by rw [current.2]; rfl) (ledBy_iff.mpr named)
  · exact closing.unregistered current.1 (by rw [current.2]; rfl)

private def undisturbed (n : NodeID) (t : State) : Event → Bool
  | .agent _ => (t.processes n).stage == .serving
  | .unregister m => m != n || t.connected n
  | .close m _ => m != n || t.cluster.etcd.value .leaderPath != some (.text n)
  | .put m => m != n || !(t.processes n).stage.unregistered
  | _ => true

private theorem undisturbed_of_check {n : NodeID} {t : State} {event : Event}
    (check : undisturbed n t event = true) : Undisturbed n t event := by
  cases event with
  | agent action =>
    have serving := eq_of_beq check
    refine ⟨fun first => (nomatch serving.symm.trans first), fun inside => ?_⟩
    rw [serving] at inside
    cases inside
  | unregister m =>
    rintro rfl
    simpa [undisturbed] using check
  | close m outcome =>
    rintro rfl led
    simp [undisturbed, ledBy_iff.mp led] at check
  | put m =>
    rintro rfl
    simpa [undisturbed] using check
  | _ => trivial

/-- Node a wins and opens its service. -/
private def leads : List Action :=
  [.start "a" "u", .call "a" .read, .grant "a" 1, .etcd "a" .answered, .call "a" (.service .ok),
    .call "a" .loadPromotion, .call "a" (.service .ok)]

/-- The calls of `Close` on node a, one after the other. -/
private def closes : List Event :=
  [.close "a" .ok, .serviceClose "a", .stopRegister "a", .unregister "a", .cancel "a",
    .deleteLeaderKey "a"]

/-- A registered master, its service writable, closes after its lease has expired. -/
theorem close_gives_up_leadership_after_expiry :
    ∃ t t', Run step (Undisturbed "a") (init ["a"] (by decide) sampleCfg) t ∧
      step t (.shutdown "a") = some t' ∧ (t'.cluster.agents "a").writable = false ∧
      t'.cluster.etcd.value .leaderPath ≠ some (.text "a") ∧ t'.registrations "a" = false := by
  have ran : (exec (restrict step (undisturbed "a")) (init ["a"] (by decide) sampleCfg)
      (leads.map Event.agent ++ [Event.register "a", .put "a", .registered "a",
        .agent (.expire 1)] ++ closes)).any (fun t => (step t (.shutdown "a")).isSome) = true := by
    decide +kernel
  obtain ⟨t, run, found⟩ := exists_run_of_exec (fun _ _ => undisturbed_of_check) ran
  obtain ⟨t', returns⟩ := Option.isSome_iff_exists.mp found
  exact ⟨t, t', run, returns, close_gives_up_leadership run returns⟩

/-- The leader key is not deleted: a single point master that closes stays in it, without a
lease. -/
theorem close_leaves_leader_key :
    ∃ t t', Run step (fun _ _ => True) (init ["a"] (by decide) sampleCfg) t ∧
      step t (.shutdown "a") = some t' ∧
      ∃ entry, t'.cluster.etcd.entries .leaderPath = some entry ∧ entry.value = .text "a" ∧
        entry.lease = none := by
  have ran : (exec (restrict step fun _ _ => true) (init ["a"] (by decide) sampleCfg)
      (becomesSinglePoint.map .agent ++ closes)).any (fun t =>
        (step t (.shutdown "a")).any fun t' =>
          (t'.cluster.etcd.entries .leaderPath).any fun entry =>
          entry.value == .text "a" && entry.lease == none) = true := by
    decide +kernel
  obtain ⟨t, run, found⟩ :
      ∃ t, Run step (fun _ _ => True) (init ["a"] (by decide) sampleCfg) t ∧ _ :=
    exists_run_of_exec (fun _ _ _ => trivial) ran
  obtain ⟨t', returns, found⟩ := (Option.any_eq_true _ _).mp found
  obtain ⟨entry, held, found⟩ := (Option.any_eq_true _ _).mp found
  obtain ⟨value, lease⟩ := Bool.and_eq_true_iff.mp found
  exact ⟨t, t', run, returns, entry, held, eq_of_beq value, eq_of_beq lease⟩

end Moha.GracefulClose
