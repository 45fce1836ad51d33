import Moha.ClusterSteps

/-! The leader record is the one its leader won with. A resume rewrites every
field from the server's memory, which an earlier read filled; between the two
the key may be lost and won by others, but not won again by the same node,
whose only loop is busy resuming. So as long as campaigns, resumes and stored
terms are not applied behind their caller's back, the memory of a node that
resumes agrees with the record whenever the key is still its own. -/
namespace Moha.RecordCoherence
open KeyValueStore DecimalText LeaderRecord LeaderView Election LeaderLoop Cluster ClusterSteps Runs

/-- No campaign, resume or stored term is applied after its caller went on. -/
def Prompt (c : State) (a : Action) : Prop :=
  ∀ index request, a = .late index → c.limbo[index]? = some request →
    request.campaigner = none ∧ request.resumer = none ∧ ∀ s, request ≠ .persistMyTerm s

theorem prompt_of_inTime {c : State} {a : Action} (inTime : InTime c a) : Prompt c a :=
  fun index _ late _ => absurd late (inTime index)

/-- Under `Prompt` these requests come from the loop that waits for them. -/
theorem prompt_applier {c c' : State} {a : Action} {request : Request}
    (prompt : Prompt c a) (taken : step c a = some c') (effect : TakesEffect c a request)
    (kind : request.campaigner ≠ none ∨ request.resumer ≠ none ∨
      ∃ s, request = .persistMyTerm s) :
    ∃ n, (c.agents n).running = true ∧ (c.agents n).pending = some request := by
  cases applier taken effect.1 with
  | loop _ running pending => exact ⟨_, running, pending⟩
  | handler _ _ _ removal => subst removal; simp [Request.campaigner, Request.resumer] at kind
  | cleaner _ removal => subst removal; simp [Request.campaigner, Request.resumer] at kind
  | late action held =>
    obtain ⟨campaigns, resumes, persists⟩ := prompt _ request action held
    rcases kind with kind | kind | ⟨s, rfl⟩
    · exact absurd campaigns kind
    · exact absurd resumes kind
    · exact absurd rfl (persists s)

/-- The record is a published one that names the leader, and agrees with the
memory of a node that resumes. -/
structure Coherent (c : State) : Prop where
  formed : WellFormed c
  published : ∀ n, (view c.etcd).LedBy n →
    ∃ s term, s.id = n ∧ (view c.etcd).record = publishedBy s term
  resuming : ∀ n singlePoint, (c.agents n).running = true →
    phase (c.agents n).loop = .resuming singlePoint → (view c.etcd).LedBy n →
      (view c.etcd).record = publishedBy (c.agents n).server (c.agents n).server.term

theorem coherent_init (nodes : List NodeID) (named : "" ∉ nodes) (cfg : NodeID → Config) :
    Coherent (init nodes named cfg) where
  formed := wellFormed_init nodes named cfg
  published := by
    rintro n ⟨entry, held, _⟩
    cases held
  resuming := by
    intro n _ running
    cases running

private theorem published_step {c c' : State} {a : Action} (coherent : Coherent c)
    (taken : step c a = some c') {n : NodeID} (led : (view c'.etcd).LedBy n) :
    ∃ s term, s.id = n ∧ (view c'.etcd).record = publishedBy s term := by
  cases step_view coherent.formed taken with
  | same unchanged =>
    rw [unchanged] at led ⊢
    exact coherent.published n led
  | expire _ expired =>
    rw [expired] at led ⊢
    exact coherent.published n led.of_expire
  | @effect request effect guard acted =>
    rw [acted] at led ⊢
    rcases request_kinds request with ⟨s, campaigns⟩ | ⟨s, resumes⟩ | ⟨id, removes⟩ | other
    · exact ⟨s, s.term + 1, led_act (.inl campaigns) led, record_act_campaigner campaigns⟩
    · exact ⟨s, s.term, led_act (.inr resumes) led, record_act_resumer resumes⟩
    · exact absurd led (led_act_remover removes)
    · rw [(act_other other.1 other.2.1 other.2.2).2.2]
      exact coherent.published n ((led_act_other other).mp led)

/-- A read that finds the node itself fills the memory with the record. -/
private theorem resuming_read {c : State} {n : NodeID} {leader : Leader} {myTerm : UInt64}
    {after : Agent} (coherent : Coherent c)
    (found : (c.agents n).server.getLeaderAndMyTerm c.etcd = .ok (leader, myTerm))
    (result : after = (c.agents n).afterRead leader myTerm) {singlePoint : Bool}
    (loop : phase after.loop = .resuming singlePoint) (led : (view c.etcd).LedBy n) :
    (view c.etcd).record = publishedBy after.server after.server.term := by
  obtain ⟨s, term, rfl, record⟩ := coherent.published n led
  obtain ⟨read, parsed, _, rfl⟩ := Server.getLeaderAndMyTerm_eq_ok found
  obtain ⟨rfl, _⟩ := readTerm_stored (congrArg Record.term record) parsed
  have id : after.server.id = s.id := by
    rw [result, (afterRead_fields _ _ _).2.1, coherent.formed.id]
  have move := afterRead_move (c.agents s.id) (readLeader c.etcd read) myTerm
  rw [← result] at move
  cases move with
  | itself _ _ _ hterm hlastUUID hlastGTID hlastTxnID =>
    rw [readLeader_published record] at hterm hlastUUID hlastGTID hlastTxnID
    simp only at hterm hlastUUID hlastGTID hlastTxnID
    rw [record]
    simp [publishedBy, id, hterm, hlastUUID, hlastGTID, hlastTxnID]
  | another _ _ loop' => rw [loop'] at loop; cases loop
  | vacant _ loop' => rcases loop' with loop' | loop' <;> rw [loop'] at loop <;> cases loop

private theorem resuming_step {c c' : State} {a : Action} (coherent : Coherent c)
    (prompt : Prompt c a) (taken : step c a = some c') {n : NodeID} {singlePoint : Bool}
    (running : (c'.agents n).running = true)
    (loop : phase (c'.agents n).loop = .resuming singlePoint) (led : (view c'.etcd).LedBy n) :
    (view c'.etcd).record = publishedBy (c'.agents n).server (c'.agents n).server.term := by
  have busy : phase (c'.agents n).loop ≠ .idle := by rw [loop]; simp
  have settled : phase (c'.agents n).loop ≠ .promoting := by rw [loop]; simp
  cases step_view coherent.formed taken with
  | same unchanged =>
    rw [unchanged] at led ⊢
    cases step_move taken n with
    | kept same memory kept =>
      rw [memory.publishedBy]
      exact coherent.resuming n singlePoint (same ▸ running)
        (by rw [← loop]; exact (kept.resolve_right busy).symm) led
    | stopped _ stopped => rw [stopped] at running; contradiction
    | started _ _ _ result => rw [result] at loop; cases loop
    | read _ _ _ found result => exact resuming_read coherent found result loop led
    | preWatched _ _ _ result =>
      rw [result] at loop
      dsimp only at loop
      split at loop <;> cases loop
    | uploaded _ _ _ result => rw [result] at loop; cases loop
    | won _ _ _ _ _ _ promoting => exact absurd promoting settled
  | expire action expired =>
    obtain ⟨was, memory, stood⟩ := (step_move taken n).steady (by rw [action]; simp)
      (by rw [action]; simp) running busy settled
    rw [expired] at led ⊢
    rw [memory.publishedBy]
    exact coherent.resuming n singlePoint was (stood.symm.trans loop) led.of_expire
  | @effect request effect guard acted =>
    obtain ⟨notCall, notStart⟩ := notCall_of_applied effect.1
    obtain ⟨was, memory, stood⟩ := (step_move taken n).steady notCall notStart running busy settled
    rw [acted] at led ⊢
    rw [memory.publishedBy]
    rcases request_kinds request with ⟨s, campaigns⟩ | ⟨s, resumes⟩ | ⟨id, removes⟩ | other
    · -- only the loop of `n` could campaign for `n`, and it is resuming
      have name := led_act (.inl campaigns) led
      obtain ⟨m, _, pending⟩ := prompt_applier prompt taken effect (.inl (by simp [campaigns]))
      obtain ⟨rfl, campaigning⟩ := pending_campaigner pending campaigns
      rw [coherent.formed.id m] at name
      subst name
      rw [← stood, loop] at campaigning
      cases campaigning
    · have name := led_act (.inr resumes) led
      obtain ⟨m, _, pending⟩ :=
        prompt_applier prompt taken effect (.inr (.inl (by simp [resumes])))
      obtain ⟨rfl, _⟩ := pending_resumer pending resumes
      rw [coherent.formed.id m] at name
      subst name
      exact record_act_resumer resumes
    · exact absurd led (led_act_remover removes)
    · rw [(act_other other.1 other.2.1 other.2.2).2.2]
      exact coherent.resuming n singlePoint was (stood.symm.trans loop)
        ((led_act_other other).mp led)

theorem coherent_step {c c' : State} {a : Action} (coherent : Coherent c) (prompt : Prompt c a)
    (taken : step c a = some c') : Coherent c' where
  formed := wellFormed_step coherent.formed taken
  published := fun _ led => published_step coherent taken led
  resuming := fun _ _ running loop led => resuming_step coherent prompt taken running loop led

/-! ### The campaign that created the key -/

/-- The step that takes `before` to `after` is the campaign of `n` that created
the key with the given creation revision and published the given record. -/
def CreatedBy (before : State) (a : Action) (after : State) (n : NodeID) (createRevision : Nat)
    (record : Record) : Prop :=
  step before a = some after ∧ ∃ request s, TakesEffect before a request ∧
    request.campaigner = some s ∧ s.id = n ∧
    before.etcd.entries .leaderPath = none ∧
    (∃ entry, after.etcd.entries .leaderPath = some entry ∧
      entry.createRevision = createRevision ∧ entry.value = .text n) ∧
    record = publishedBy s (s.term + 1)

private theorem created_by_effect {c c' : State} {a : Action} {request : Request} {s : Server}
    {n : NodeID} {entry : Entry Value} (taken : step c a = some c')
    (effect : TakesEffect c a request) (guard : Guard (view c.etcd) request)
    (acted : view c'.etcd = act (c.etcd.revision + 1) (view c.etcd) request)
    (campaigns : request.campaigner = some s)
    (held : c'.etcd.entries .leaderPath = some entry) (names : entry.value = .text n) :
    CreatedBy c a c' n entry.createRevision (view c'.etcd).record := by
  have led : (view c'.etcd).LedBy n := ⟨entry, held, names⟩
  refine ⟨taken, request, s, effect, campaigns, ?_, guard_campaigner campaigns guard,
    ⟨entry, held, rfl, names⟩, ?_⟩
  · exact led_act (.inl campaigns) (acted ▸ led)
  · rw [acted, record_act_campaigner campaigns]

/-- A step that does not create the key keeps its creation and its record. -/
private theorem kept_or_created {c c' : State} {a : Action} {n : NodeID} {entry : Entry Value}
    (coherent : Coherent c) (prompt : Prompt c a) (taken : step c a = some c')
    (held : c'.etcd.entries .leaderPath = some entry) (names : entry.value = .text n) :
    CreatedBy c a c' n entry.createRevision (view c'.etcd).record ∨
      ∃ old, c.etcd.entries .leaderPath = some old ∧ old.value = .text n ∧
        old.createRevision = entry.createRevision ∧
        (view c'.etcd).record = (view c.etcd).record := by
  have leader : (view c'.etcd).leader = some entry := held
  cases step_view coherent.formed taken with
  | same unchanged =>
    rw [unchanged] at leader ⊢
    exact .inr ⟨entry, leader, names, rfl, rfl⟩
  | expire _ expired =>
    rw [expired] at leader ⊢
    exact .inr ⟨entry, Option.eq_some_of_filter_eq_some leader, names, rfl, rfl⟩
  | @effect request effect guard acted =>
    rcases request_kinds request with ⟨s, campaigns⟩ | ⟨s, resumes⟩ | ⟨id, removes⟩ | other
    · exact .inl (created_by_effect taken effect guard acted campaigns held names)
    · obtain ⟨old, before, value⟩ := guard_resumer resumes guard
      obtain ⟨lease, put, _⟩ := leader_act (.inr resumes)
      obtain ⟨m, was, pending⟩ :=
        prompt_applier prompt taken effect (.inr (.inl (by simp [resumes])))
      obtain ⟨rfl, resuming⟩ := pending_resumer pending resumes
      rw [acted, put] at leader
      cases leader
      refine .inr ⟨old, before, value.trans names, ?_, ?_⟩
      · simp [overwrite, before]
      · rw [acted, record_act_resumer resumes]
        refine (coherent.resuming m _ was resuming ?_).symm
        exact ⟨old, before, by rw [value, coherent.formed.id]⟩
    · rw [acted, (act_remover removes).1] at leader
      cases leader
    · obtain ⟨sameLeader, _, sameRecord⟩ := act_other other.1 other.2.1 other.2.2
      rw [acted, sameLeader] at leader
      rw [acted, sameRecord]
      exact .inr ⟨entry, leader, names, rfl, rfl⟩

private theorem created {start c : State} {trace : List (State × Action)}
    (traced : Trace step InTime start trace c) (coherent : Coherent start)
    (vacant : start.etcd.entries .leaderPath = none) :
    ∀ {n : NodeID} {entry : Entry Value}, c.etcd.entries .leaderPath = some entry →
      entry.value = .text n →
      ∃ first before a after second, trace = first ++ (before, a) :: second ∧
        Trace step InTime start first before ∧ InTime before a ∧
        Trace step InTime after second c ∧
        CreatedBy before a after n entry.createRevision (view c.etcd).record := by
  induction traced with
  | refl =>
    intro n entry held
    rw [vacant] at held
    cases held
  | @snoc c c' a trace earlier inTime taken ih =>
    intro n entry held names
    have here : Coherent c := earlier.run.invariant coherent fun coherent inTime taken =>
      coherent_step coherent (prompt_of_inTime inTime) taken
    rcases kept_or_created here (prompt_of_inTime inTime) taken held names with
      won | ⟨old, before, value, sameCreation, sameRecord⟩
    · exact ⟨trace, c, a, c', [], rfl, earlier, inTime, .refl _, won⟩
    · obtain ⟨first, past, action, next, second, rfl, led, allowed, since, won⟩ :=
        ih before value
      rw [sameRecord, ← sameCreation]
      exact ⟨first, past, action, next, second ++ [(c, a)], by simp, led, allowed,
        since.snoc inTime taken, won⟩

/-- In every state in which the leader key names a node, the record names it too
and holds, field by field, what the campaign published that created the key in this run. -/
theorem leader_record_is_its_campaigns {nodes : List NodeID} {named : "" ∉ nodes}
    {cfg : NodeID → Config} {c : State} {n : NodeID} {entry : Entry Value}
    {trace : List (State × Action)} (run : Trace step InTime (init nodes named cfg) trace c)
    (held : c.etcd.entries .leaderPath = some entry) (names : entry.value = .text n) :
    text c.etcd .idPath = some n ∧
      ∃ first before a after second, trace = first ++ (before, a) :: second ∧
        Trace step InTime (init nodes named cfg) first before ∧ InTime before a ∧
        Trace step InTime after second c ∧
        CreatedBy before a after n entry.createRevision (view c.etcd).record := by
  obtain ⟨first, before, a, after, second, split, led, inTime, since, won⟩ :=
    created run (coherent_init nodes named cfg) rfl held names
  obtain ⟨_, request, s, _, _, name, _, _, record⟩ := id won
  refine ⟨?_, first, before, a, after, second, split, led, inTime, since, won⟩
  have stored : text c.etcd .idPath = some s.id := congrArg Record.id record
  rw [stored, name]

/-- A leader that crashed, came back and resumed under a new lease. -/
theorem leader_record_is_its_campaigns_after_resume :
    ∃ trace c, Trace step InTime (init ["a"] (by decide) sampleCfg) trace c ∧
      c.etcd.entries .leaderPath = some ⟨.text "a", some 2, 2, 3⟩ ∧
      text c.etcd .idPath = some "a" ∧
      ∃ first before a after second, trace = first ++ (before, a) :: second ∧
        Trace step InTime (init ["a"] (by decide) sampleCfg) first before ∧ InTime before a ∧
        Trace step InTime after second c ∧
        CreatedBy before a after "a" 2 (view c.etcd).record := by
  have ran : (exec (restrict step fun _ a => !isLate a) (init ["a"] (by decide) sampleCfg)
      [.start "a" "u", .call "a" .read, .grant "a" 1, .etcd "a" .answered, .call "a" .crash,
        .start "a" "u", .call "a" .read, .grant "a" 2, .etcd "a" .answered]).any
      (fun c => c.etcd.entries .leaderPath == some ⟨.text "a", some 2, 2, 3⟩) = true := by
    decide +kernel
  obtain ⟨c, run, found⟩ := exists_run_of_exec (fun _ _ => inTime_of_not_isLate) ran
  obtain ⟨trace, traced⟩ := run.trace
  have held := eq_of_beq found
  exact ⟨trace, c, traced, held, leader_record_is_its_campaigns traced held rfl⟩

end Moha.RecordCoherence
