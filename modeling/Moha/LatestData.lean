import Moha.Replication
import Moha.ElectionAgreement

/-! The latest log and the data behind it. `isLatestLog` compares one number of each
node, the number after the last transaction of one master. A run of the databases is
traced for what the number stands for: the log of every term, which is that of the
node that won it, and the transactions that each node had executed when it uploaded its
log for an election. -/
namespace Moha.LatestData
open KeyValueStore DecimalText LeaderRecord LeaderView Election LeaderLoop Cluster ClusterSteps
open LatestLog TransactionLog Replication Runs

/-- The log of a term: the node that won it, what the node had executed by then, and
what it has executed in all, until it left the term. -/
structure TermLog where
  master : NodeID
  base : List Txn
  log : List Txn

/-- An upload for an election after a successful load, and what the node has executed. -/
structure Upload where
  node : NodeID
  server : Server
  info : ReplicationInfo
  executed : List Txn

def Upload.log (u : Upload) : LogForElection := electionLogOf u.server u.info

structure Traced where
  state : Replication.State
  terms : UInt64 → Option TermLog := fun _ => none
  uploads : List Upload := []

def start (nodes : List NodeID) (named : "" ∉ nodes) (cfg : NodeID → Config) : Traced where
  state := Replication.init nodes named cfg

/-- The term that is stored for the node. -/
def Traced.Stores (t : Traced) (n : NodeID) (term : UInt64) : Prop :=
  (view t.state.cluster.etcd).terms n = some (sprint term)

instance (t : Traced) (n : NodeID) (term : UInt64) : Decidable (t.Stores n term) :=
  inferInstanceAs (Decidable (_ = _))

/-- The server whose campaign takes effect. -/
def winner (c : Cluster.State) (action : Action) : Option Server :=
  (applied c action).bind fun request =>
    if (c.etcd.commit request.txn).2 = .done true then request.campaigner else none

/-- The logs of the terms after an event. -/
def Traced.noteTerms (t : Traced) (after : Replication.State) : Event → UInt64 → Option TermLog
  | .agent action =>
    match winner t.state.cluster action with
    | none => t.terms
    | some s =>
      Function.update t.terms (s.term + 1)
        (some ⟨s.id, t.state.executed s.id, t.state.executed s.id⟩)
  | .write n | .replicate n => fun term =>
    (t.terms term).map fun held =>
      if held.master = n ∧ t.Stores n term then { held with log := after.executed n } else held
  | _ => t.terms

def Traced.noteUploads (t : Traced) : Event → List Upload
  | .agent (.call n .upload) =>
    let agent := t.state.cluster.agents n
    match agent.loop with
    | .upload former =>
      match agent.reports.choose former with
      | none => t.uploads
      | some info => ⟨n, agent.server, info, t.state.executed n⟩ :: t.uploads
    | _ => t.uploads
  | _ => t.uploads

def trace (uuid : NodeID → ServerUUID) (t : Traced) (event : Event) : Option Traced :=
  (step uuid t.state event).map fun after =>
    { state := after, terms := t.noteTerms after event, uploads := t.noteUploads event }

/-- The node may upload its log: it counts with its stored term, and it counts the
transactions of the node that won the term. A slave has everything that the master had
when it won. -/
def Comparable (t : Traced) (n : NodeID) (former : Bool) : Prop :=
  let term := (t.state.cluster.agents n).server.term
  t.Stores n term ∧ ∃ held, t.terms term = some held ∧
    if former then held.master = n
    else (t.state.databases n).source = some held.master ∧ held.base <+: t.state.executed n

/-- What keeps the uploaded numbers comparable. -/
structure Disciplined (t : Traced) (event : Event) : Prop where
  /-- No term is won twice. -/
  fresh : ∀ action s, event = .agent action → winner t.state.cluster action = some s →
    s.term + 1 ≠ 0 ∧ t.terms (s.term + 1) = none
  /-- A node joins the term of another node only with transactions of its log. -/
  admitted : ∀ action s, event = .agent action →
    TakesEffect t.state.cluster action (.persistMyTerm s) → s.term ≠ 0 → ¬ t.Stores s.id s.term →
    ∃ held, t.terms s.term = some held ∧ held.master ≠ s.id ∧
      t.state.executed s.id <+: held.log
  /-- A node writes in the term that it won. -/
  writes : ∀ n, event = .write n → ∃ term held, t.Stores n term ∧ t.terms term = some held ∧
    held.master = n
  /-- A node replicates from the node that won their common term. -/
  replicates : ∀ n, event = .replicate n → ∃ term held, t.Stores n term ∧
    t.terms term = some held ∧ held.master ≠ n ∧ t.Stores held.master term ∧
    (t.state.databases n).source = some held.master
  uploads : ∀ n former, event = .agent (.call n .upload) →
    (t.state.cluster.agents n).loop = .upload former →
    (t.state.cluster.agents n).reports.choose former ≠ none → Comparable t n former

/-! ### What the trace keeps -/

/-- What an upload counts is how far it has come in the log of its term. -/
def Counted (uuid : NodeID → ServerUUID) (terms : UInt64 → Option TermLog) (u : Upload) : Prop :=
  ∃ held, terms u.server.term = some held ∧ u.executed <+: held.log ∧
    held.base <+: u.executed ∧ u.info.endTxnID.toNat = count (uuid held.master) u.executed + 1

/-- Every node that stores a term has a first part of its log, and the node that won it
all of it; and the log goes on with writes of that node. -/
structure Consistent (uuid : NodeID → ServerUUID) (t : Traced) : Prop where
  sound : Sound uuid t.state
  zero : t.terms 0 = none
  joined : ∀ n term, t.Stores n term → term ≠ 0 →
    ∃ held, t.terms term = some held ∧ t.state.executed n <+: held.log
  leads : ∀ term held, t.terms term = some held → t.Stores held.master term →
    t.state.executed held.master = held.log
  own : ∀ term held, t.terms term = some held →
    ∃ written, held.log = held.base ++ written ∧ ∀ txn ∈ written, txn.uuid = uuid held.master
  uploads : ∀ u ∈ t.uploads, Counted uuid t.terms u

theorem consistent_start (uuid : NodeID → ServerUUID) (nodes : List NodeID) (named : "" ∉ nodes)
    (cfg : NodeID → Config) : Consistent uuid (start nodes named cfg) where
  sound := sound_init uuid nodes named cfg
  zero := rfl
  joined _ _ stores := by cases stores
  leads _ _ held := by cases held
  own _ _ held := by cases held
  uploads _ member := by cases member

/-- How the stored term of a node comes to be what it is after an action. -/
inductive Stored (c : Cluster.State) (action : Action) (n : NodeID) (term : UInt64) : Prop where
  | same (stored : (view c.etcd).terms n = some (sprint term))
  | won {s : Server} (won : winner c action = some s) (node : s.id = n) (term : term = s.term + 1)
  | persisted {s : Server} (effect : TakesEffect c action (.persistMyTerm s)) (node : s.id = n)
      (term : term = s.term)
  | zeroed (term : term = 0)

theorem stored_step {c c' : Cluster.State} {action : Action} {n : NodeID} {term : UInt64}
    (formed : WellFormed c) (taken : Cluster.step c action = some c')
    (stored : (view c'.etcd).terms n = some (sprint term)) : Stored c action n term := by
  cases step_view formed taken with
  | same unchanged => exact .same (unchanged ▸ stored)
  | expire _ expired => exact .same (by rw [expired] at stored; exact stored)
  | @effect request effect _ acted =>
    rw [acted] at stored
    have put : ∀ {s : Server} {value : UInt64},
        Function.update (view c.etcd).terms s.id (some (sprint value)) n = some (sprint term) →
        (view c.etcd).terms n = some (sprint term) ∨ s.id = n ∧ term = value := by
      intro s value put
      by_cases node : n = s.id
      · subst node
        rw [Function.update_self] at put
        exact .inr ⟨rfl, (sprint_injective (Option.some.inj put)).symm⟩
      · rw [Function.update_of_ne node] at put
        exact .inl put
    have wins : ∀ {s}, request.campaigner = some s → winner c action = some s := by
      intro s campaigns
      simp [winner, effect.1, effect.2, campaigns]
    cases request with
    | campaignLeader s | campaignLeaderAsSinglePoint s =>
      rcases put stored with same | ⟨node, value⟩
      · exact .same same
      · exact .won (wins rfl) node value
    | resumeLeaderAsSinglePoint s =>
      rcases put stored with same | ⟨_, value⟩
      · exact .same same
      · exact .zeroed value
    | persistMyTerm s =>
      rcases put stored with same | ⟨node, value⟩
      · exact .same same
      · exact .persisted effect node value
    | resumeLeader | deleteLeaderKey | startClean | removeSPM | uploadLogForElection
    | uploadPromotionBinlog => exact .same stored

theorem trace_eq {uuid : NodeID → ServerUUID} {t t' : Traced} {event : Event}
    (taken : trace uuid t event = some t') :
    step uuid t.state event = some t'.state ∧ t'.terms = t.noteTerms t'.state event ∧
      t'.uploads = t.noteUploads event := by
  obtain ⟨after, moved, rfl⟩ := Option.map_eq_some_iff.mp taken
  exact ⟨moved, rfl, rfl⟩

/-- What a load of a node that may upload counts. -/
theorem loaded_count {uuid : NodeID → ServerUUID} {t : Replication.State} {n : NodeID}
    {former : Bool} {info : ReplicationInfo} {master : NodeID} (sound : Sound uuid t)
    (loaded : t.load uuid n former = some info)
    (source : if former then master = n else (t.databases n).source = some master) :
    info.endTxnID.toNat = count (uuid master) (t.executed n) + 1 := by
  have small := sound.small n
  have read : replicationInfo (uuid master).text (gtidText (t.executed n)) = some info := by
    cases former with
    | true =>
      have same : master = n := source
      subst same
      exact loaded
    | false =>
      have source : (t.databases n).source = some master := source
      simp only [State.load, source, loadReplicationInfoOfSlave, Bool.false_eq_true, if_false,
        Option.map_some, Option.bind_some] at loaded
      split at loaded
      · contradiction
      · exact loaded
  rw [replicationInfo_gtidText small] at read
  split at read
  · cases read
    have bound := small (uuid master)
    simp only [UInt64.toNat_ofNat']
    omega
  · contradiction

/-- A log that was known stays what it was when an agent moves. -/
theorem noteTerms_agent {t : Traced} {after : Replication.State} {action : Action}
    {term : UInt64} {held : TermLog} (disciplined : Disciplined t (.agent action))
    (known : t.terms term = some held) : t.noteTerms after (.agent action) term = some held := by
  cases won : winner t.state.cluster action with
  | none => simpa only [Traced.noteTerms, won] using known
  | some s =>
    have apart : term ≠ s.term + 1 := by
      rintro rfl
      cases (disciplined.fresh action s rfl won).2.symm.trans known
    simpa only [Traced.noteTerms, won, Function.update_of_ne apart] using known

/-- A log after a move of an agent was known, or is that of the term just won. -/
theorem noteTerms_agent_cases {t : Traced} {after : Replication.State} {action : Action}
    {term : UInt64} {held : TermLog}
    (known : t.noteTerms after (.agent action) term = some held) :
    t.terms term = some held ∨ ∃ s, winner t.state.cluster action = some s ∧
      term = s.term + 1 ∧ held = ⟨s.id, t.state.executed s.id, t.state.executed s.id⟩ := by
  cases won : winner t.state.cluster action with
  | none => exact .inl (by simpa only [Traced.noteTerms, won] using known)
  | some s =>
    simp only [Traced.noteTerms, won] at known
    by_cases same : term = s.term + 1
    · subst same
      rw [Function.update_self] at known
      exact .inr ⟨s, rfl, rfl, (Option.some.inj known).symm⟩
    · rw [Function.update_of_ne same] at known
      exact .inl known

section Agent
variable {uuid : NodeID → ServerUUID} {t t' : Traced} {action : Action}

theorem executed_agent (taken : trace uuid t (.agent action) = some t') (n : NodeID) :
    t'.state.executed n = t.state.executed n := by
  cases step_takes (trace_eq taken).1 with
  | agent _ _ databases =>
    rw [Replication.State.executed, databases]
    exact (stopSlave_fields t.state action n).1

theorem stores_agent (consistent : Consistent uuid t)
    (taken : trace uuid t (.agent action) = some t')
    {n : NodeID} {term : UInt64} (stores : t'.Stores n term) :
    Stored t.state.cluster action n term := by
  cases step_takes (trace_eq taken).1 with
  | agent _ moved => exact stored_step consistent.sound.formed moved stores

theorem joined_agent (consistent : Consistent uuid t) (disciplined : Disciplined t (.agent action))
    (taken : trace uuid t (.agent action) = some t') (n : NodeID) (term : UInt64)
    (stores : t'.Stores n term) (nonzero : term ≠ 0) :
    ∃ held, t'.terms term = some held ∧ t'.state.executed n <+: held.log := by
  rw [executed_agent taken, (trace_eq taken).2.1]
  have still : t.Stores n term → ∃ held, t.noteTerms t'.state (.agent action) term = some held ∧
      t.state.executed n <+: held.log := by
    intro stored
    obtain ⟨held, known, part⟩ := consistent.joined n term stored nonzero
    exact ⟨held, noteTerms_agent disciplined known, part⟩
  cases stores_agent consistent taken stores with
  | same stored => exact still stored
  | @won s won node value =>
    subst node
    subst value
    refine ⟨⟨s.id, t.state.executed s.id, t.state.executed s.id⟩, ?_, List.prefix_rfl⟩
    simp only [Traced.noteTerms, won, Function.update_self]
  | @persisted s effect node value =>
    subst node
    subst value
    by_cases stored : t.Stores s.id s.term
    · exact still stored
    · obtain ⟨held, known, _, part⟩ := disciplined.admitted action s rfl effect nonzero stored
      exact ⟨held, noteTerms_agent disciplined known, part⟩
  | zeroed value => exact absurd value nonzero

theorem leads_agent (consistent : Consistent uuid t) (disciplined : Disciplined t (.agent action))
    (taken : trace uuid t (.agent action) = some t') (term : UInt64) (held : TermLog)
    (known : t'.terms term = some held) (stores : t'.Stores held.master term) :
    t'.state.executed held.master = held.log := by
  rw [executed_agent taken]
  rw [(trace_eq taken).2.1] at known
  rcases noteTerms_agent_cases known with known | ⟨s, _, _, rfl⟩
  · have nonzero : term ≠ 0 := by
      rintro rfl
      cases consistent.zero.symm.trans known
    cases stores_agent consistent taken stores with
    | same stored => exact consistent.leads term held known stored
    | @won s won _ value =>
      subst value
      cases (disciplined.fresh action s rfl won).2.symm.trans known
    | @persisted s effect node value =>
      subst value
      by_cases stored : t.Stores s.id s.term
      · exact consistent.leads _ held known (node ▸ stored)
      · obtain ⟨other, same, notOwn, _⟩ := disciplined.admitted action s rfl effect nonzero stored
        cases same.symm.trans known
        exact absurd node.symm notOwn
    | zeroed value => exact absurd value nonzero
  · rfl

theorem mem_noteUploads {event : Event} {u : Upload} (member : u ∈ t.noteUploads event) :
    u ∈ t.uploads ∨ ∃ n former, event = .agent (.call n .upload) ∧
      (t.state.cluster.agents n).loop = .upload former ∧
      (t.state.cluster.agents n).reports.choose former = some u.info ∧
      u.server = (t.state.cluster.agents n).server ∧ u.executed = t.state.executed n := by
  unfold Traced.noteUploads at member
  split at member
  · rename_i n
    simp only at member
    split at member
    · rename_i former loop
      split at member
      · exact .inl member
      · rename_i info chosen
        rcases List.mem_cons.mp member with rfl | member
        · exact .inr ⟨n, former, rfl, loop, chosen, rfl, rfl⟩
        · exact .inl member
    · exact .inl member
  · exact .inl member

theorem uploads_agent (consistent : Consistent uuid t) (disciplined : Disciplined t (.agent action))
    (taken : trace uuid t (.agent action) = some t') (u : Upload) (member : u ∈ t'.uploads) :
    Counted uuid t'.terms u := by
  rw [(trace_eq taken).2.1]
  rw [(trace_eq taken).2.2] at member
  rcases mem_noteUploads member with member | ⟨n, former, same, loop, chosen, server, executed⟩
  · obtain ⟨held, known, part⟩ := consistent.uploads u member
    exact ⟨held, noteTerms_agent disciplined known, part⟩
  · obtain ⟨stores, held, known, source⟩ :=
      disciplined.uploads n former same loop (by simp [chosen])
    rw [← server] at stores known
    have nonzero : u.server.term ≠ 0 := by
      intro zero
      rw [zero, consistent.zero] at known
      cases known
    obtain ⟨other, joined, part⟩ := consistent.joined n _ stores nonzero
    cases joined.symm.trans known
    have loaded := consistent.sound.truthful n former u.info chosen
    refine ⟨held, noteTerms_agent disciplined known, executed ▸ part, ?_, ?_⟩
    · cases former with
      | true =>
        have own : held.master = n := source
        obtain ⟨written, log, _⟩ := consistent.own _ held known
        rw [executed, ← own, consistent.leads _ held known (own ▸ stores), log]
        exact List.prefix_append _ _
      | false => exact executed ▸ source.2
    · rw [executed]
      refine loaded_count consistent.sound loaded ?_
      cases former with
      | true => exact source
      | false => exact source.1

theorem consistent_agent (consistent : Consistent uuid t)
    (disciplined : Disciplined t (.agent action))
    (taken : trace uuid t (.agent action) = some t') : Consistent uuid t' where
  sound := sound_step consistent.sound (trace_eq taken).1
  zero := by
    cases known : t'.terms 0 with
    | none => rfl
    | some held =>
      rw [(trace_eq taken).2.1] at known
      rcases noteTerms_agent_cases known with known | ⟨s, won, zero, _⟩
      · cases consistent.zero.symm.trans known
      · exact absurd zero.symm (disciplined.fresh action s rfl won).1
  joined := joined_agent consistent disciplined taken
  leads := leads_agent consistent disciplined taken
  own term held known := by
    rw [(trace_eq taken).2.1] at known
    rcases noteTerms_agent_cases known with known | ⟨s, _, _, rfl⟩
    · exact consistent.own term held known
    · exact ⟨[], by simp, by simp⟩
  uploads := uploads_agent consistent disciplined taken

end Agent

section Databases
variable {uuid : NodeID → ServerUUID} {t t' : Traced} {event : Event}

/-- An event that executes nothing and stores nothing. -/
theorem Consistent.carry (consistent : Consistent uuid t) (sound : Sound uuid t'.state)
    (executed : ∀ n, t'.state.executed n = t.state.executed n)
    (etcd : t'.state.cluster.etcd = t.state.cluster.etcd) (terms : t'.terms = t.terms)
    (uploads : t'.uploads = t.uploads) : Consistent uuid t' := by
  have stores : ∀ n term, t'.Stores n term ↔ t.Stores n term := by
    intro n term
    rw [Traced.Stores, etcd, Traced.Stores]
  refine ⟨sound, terms ▸ consistent.zero, ?_, ?_, ?_, ?_⟩
  · intro n term stored
    rw [executed, terms]
    exact consistent.joined n term ((stores n term).mp stored)
  · intro term held known stored
    rw [executed]
    rw [terms] at known
    exact consistent.leads term held known ((stores _ term).mp stored)
  · rw [terms]
    exact consistent.own
  · rw [terms, uploads]
    exact consistent.uploads

theorem Traced.Stores.unique {n : NodeID} {term other : UInt64} (first : t.Stores n term)
    (second : t.Stores n other) : term = other :=
  sprint_injective (Option.some.inj (Eq.symm first |>.trans second))

/-- The log of the term that the node won grows with it. -/
theorem terms_write {n : NodeID} {term : UInt64} {held : TermLog} {after : Replication.State}
    (stored : t.Stores n term) (known : t.terms term = some held) (own : held.master = n) :
    t.noteTerms after (.write n) =
      Function.update t.terms term (some { held with log := after.executed n }) := by
  funext other
  simp only [Traced.noteTerms]
  by_cases same : other = term
  · subst same
    simp [known, own, stored]
  · rw [Function.update_of_ne same]
    have apart : ¬ t.Stores n other := fun stores => same (stores.unique stored)
    simp [apart]

/-- A node that replicates in the term of another leaves the logs alone. -/
theorem terms_replicate {n : NodeID} {term : UInt64} {held : TermLog} {after : Replication.State}
    (stored : t.Stores n term) (known : t.terms term = some held) (other : held.master ≠ n) :
    t.noteTerms after (.replicate n) = t.terms := by
  funext k
  simp only [Traced.noteTerms]
  cases entry : t.terms k with
  | none => rfl
  | some found =>
    have apart : ¬ (found.master = n ∧ t.Stores n k) := by
      rintro ⟨own, stores⟩
      cases stores.unique stored
      cases entry.symm.trans known
      exact other own
    simp [apart]

theorem consistent_write {n : NodeID} (consistent : Consistent uuid t)
    (disciplined : Disciplined t (.write n)) (taken : trace uuid t (.write n) = some t') :
    Consistent uuid t' := by
  obtain ⟨moved, terms, uploads⟩ := trace_eq taken
  have sound := sound_step consistent.sound moved
  obtain ⟨term, held, stored, known, rfl⟩ := disciplined.writes n rfl
  rw [terms_write stored known rfl] at terms
  cases step_takes moved with
  | write _ result =>
    generalize written : (⟨uuid held.master, _⟩ : Txn) = txn at result
    have origin : txn.uuid = uuid held.master := by rw [← written]
    have executed := executed_execute t.state held.master
    have stores : ∀ m k, t'.Stores m k ↔ t.Stores m k := by
      intro m k
      rw [Traced.Stores, result]
      rfl
    have leads := consistent.leads term held known stored
    have log : t'.state.executed held.master = held.log ++ [txn] := by
      rw [result, executed, if_pos rfl, leads]
    rw [log] at terms
    have grows : held.log <+: held.log ++ [txn] := List.prefix_append _ _
    have nonzero : term ≠ 0 := by
      rintro rfl
      cases consistent.zero.symm.trans known
    have still : ∀ m k, k ≠ term → t.Stores m k → t'.state.executed m = t.state.executed m := by
      intro m k apart stores
      rw [result, executed, if_neg]
      rintro rfl
      exact apart (stores.unique stored)
    refine ⟨sound, ?_, fun m k stores' positive => ?_, fun k found known' stores' => ?_,
      fun k found known' => ?_, fun u member => ?_⟩
    · rw [terms, Function.update_of_ne nonzero.symm]
      exact consistent.zero
    · rw [terms]
      obtain ⟨found, entry, part⟩ := consistent.joined m k ((stores m k).mp stores') positive
      by_cases same : k = term
      · subst same
        cases entry.symm.trans known
        refine ⟨_, Function.update_self .., ?_⟩
        by_cases node : m = held.master
        · rw [node, log]
        · rw [result, executed, if_neg node]
          exact part.trans grows
      · rw [Function.update_of_ne same, still m k same ((stores m k).mp stores')]
        exact ⟨found, entry, part⟩
    · rw [terms] at known'
      by_cases same : k = term
      · subst same
        rw [Function.update_self] at known'
        cases known'
        exact log
      · rw [Function.update_of_ne same] at known'
        rw [still _ k same ((stores _ k).mp stores')]
        exact consistent.leads k found known' ((stores _ k).mp stores')
    · rw [terms] at known'
      by_cases same : k = term
      · subst same
        rw [Function.update_self] at known'
        cases known'
        obtain ⟨earlier, base, own⟩ := consistent.own _ held known
        refine ⟨earlier ++ [txn], by simp [base], ?_⟩
        intro x member
        rcases List.mem_append.mp member with member | member
        · exact own x member
        · rw [List.mem_singleton.mp member, origin]
      · rw [Function.update_of_ne same] at known'
        exact consistent.own k found known'
    · rw [uploads] at member
      obtain ⟨found, entry, part, base, counted⟩ := consistent.uploads u member
      rw [terms]
      by_cases same : u.server.term = term
      · rw [same] at entry
        cases entry.symm.trans known
        refine ⟨{ held with log := held.log ++ [txn] }, ?_, part.trans grows, base, counted⟩
        rw [same, Function.update_self]
      · exact ⟨found, by rw [Function.update_of_ne same, entry], part, base, counted⟩

theorem consistent_replicate {n : NodeID} (consistent : Consistent uuid t)
    (disciplined : Disciplined t (.replicate n)) (taken : trace uuid t (.replicate n) = some t') :
    Consistent uuid t' := by
  obtain ⟨moved, terms, uploads⟩ := trace_eq taken
  have sound := sound_step consistent.sound moved
  obtain ⟨term, held, stored, known, other, leads, source⟩ := disciplined.replicates n rfl
  rw [terms_replicate stored known other] at terms
  cases step_takes moved with
  | @replicate _ _ txn replicates found _ result =>
    cases replicates.symm.trans source
    have executed := executed_execute t.state n
    have stores : ∀ m k, t'.Stores m k ↔ t.Stores m k := by
      intro m k
      rw [Traced.Stores, result]
      rfl
    have master := consistent.leads term held known leads
    have nonzero : term ≠ 0 := by
      rintro rfl
      cases consistent.zero.symm.trans known
    refine ⟨sound, terms ▸ consistent.zero, fun m k stores' positive => ?_,
      fun k entry known' stores' => ?_, terms ▸ consistent.own, ?_⟩
    · obtain ⟨entry, known', part⟩ := consistent.joined m k ((stores m k).mp stores') positive
      rw [terms, result, executed]
      refine ⟨entry, known', ?_⟩
      split
      · rename_i same
        subst same
        cases ((stores m k).mp stores').unique stored
        cases known'.symm.trans known
        rw [master] at found
        exact (master ▸ consistent.sound.sequential held.master).next part found
      · exact part
    · rw [terms] at known'
      have stores'' := (stores _ k).mp stores'
      rw [result, executed, if_neg]
      · exact consistent.leads k entry known' stores''
      · intro same
        rw [same] at stores''
        cases stores''.unique stored
        cases known'.symm.trans known
        exact other same
    · rw [terms, uploads]
      exact consistent.uploads

theorem consistent_step (consistent : Consistent uuid t) (disciplined : Disciplined t event)
    (taken : trace uuid t event = some t') : Consistent uuid t' := by
  obtain ⟨moved, terms, uploads⟩ := trace_eq taken
  have sound := sound_step consistent.sound moved
  cases event with
  | agent action => exact consistent_agent consistent disciplined taken
  | write n => exact consistent_write consistent disciplined taken
  | replicate n => exact consistent_replicate consistent disciplined taken
  | redirect n changed running redirected =>
    cases step_takes moved with
    | redirect called keeps result =>
      refine consistent.carry sound (fun m => ?_) ?_ terms uploads
      · rw [result]
        exact executed_modify keeps
      · obtain ⟨_, next, _, rfl⟩ := step_call called
        rw [result]
        rfl
  | load n master slave slaveStatus =>
    cases step_takes moved with
    | load _ result =>
      refine consistent.carry sound (fun m => ?_) ?_ terms uploads
      · rw [result]
        rfl
      · rw [result]
        rfl

end Databases

/-- In every run that keeps the uploaded numbers comparable, a node that is found latest
among the logs of an election has executed every transaction of each node that uploaded
a log of the same term. -/
theorem latest_has_every_transaction {uuid : NodeID → ServerUUID} {nodes : List NodeID}
    {named : "" ∉ nodes} {cfg : NodeID → Config} {t : Traced} {w f : Upload} {s : Server}
    {logs : Logs} {serverID : String}
    (run : Run (trace uuid) Disciplined (start nodes named cfg) t)
    (uploaded : w ∈ t.uploads) (competes : f ∈ t.uploads) (sameTerm : f.log.term = w.log.term)
    (mine : logs.lookup s.id = some w.log) (member : (serverID, f.log) ∈ logs)
    (other : s.id ≠ serverID) (latest : (isLatestLog s logs).1 = true) :
    ∀ txn ∈ f.executed, txn ∈ w.executed := by
  have consistent := run.invariant (consistent_start uuid nodes named cfg)
    fun consistent disciplined taken => consistent_step consistent disciplined taken
  have terms : f.server.term = w.server.term := (UInt64.add_left_inj 1).mp sameTerm
  have compared := ElectionAgreement.isLatestLog_uploaded mine member other terms latest
  obtain ⟨held, known, partF, _, countedF⟩ := consistent.uploads f competes
  obtain ⟨held', known', partW, base, countedW⟩ := consistent.uploads w uploaded
  rw [terms] at known
  cases known.symm.trans known'
  obtain ⟨written, log, own⟩ := consistent.own _ held known
  rw [log] at partF partW
  have le : count (uuid held.master) f.executed ≤ count (uuid held.master) w.executed := by
    have numbers := UInt64.le_iff_toNat_le.mp compared
    omega
  exact (prefix_of_count_le own base partF partW le).subset

/-! ### Runs -/

private def comparable (t : Traced) (n : NodeID) (former : Bool) : Bool :=
  let term := (t.state.cluster.agents n).server.term
  decide (t.Stores n term) && (t.terms term).any fun held =>
    if former then held.master == n
    else (t.state.databases n).source == some held.master &&
      held.base.isPrefixOf (t.state.executed n)

private def disciplined (t : Traced) : Event → Bool
  | .agent action =>
    ((winner t.state.cluster action).all fun s =>
      s.term + 1 != 0 && (t.terms (s.term + 1)).isNone) &&
    (match applied t.state.cluster action with
      | some (.persistMyTerm s) =>
        decide (t.Stores s.id s.term) || (t.terms s.term).any fun held =>
          held.master != s.id && (t.state.executed s.id).isPrefixOf held.log
      | _ => true) &&
    match action with
    | .call n .upload =>
      match (t.state.cluster.agents n).loop with
      | .upload former => comparable t n former
      | _ => true
    | _ => true
  | .write n =>
    let term := (t.state.cluster.agents n).server.term
    decide (t.Stores n term) && (t.terms term).any fun held => held.master == n
  | .replicate n =>
    let term := (t.state.cluster.agents n).server.term
    decide (t.Stores n term) && (t.terms term).any fun held =>
      held.master != n && decide (t.Stores held.master term) &&
        (t.state.databases n).source == some held.master
  | _ => true

private theorem comparable_of_check {t : Traced} {n : NodeID} {former : Bool}
    (check : comparable t n former = true) : Comparable t n former := by
  simp only [comparable, Bool.and_eq_true, decide_eq_true_eq] at check
  obtain ⟨stores, counts⟩ := check
  obtain ⟨held, known, counts⟩ := (Option.any_eq_true _ _).mp counts
  refine ⟨stores, held, known, ?_⟩
  cases former with
  | true => simpa using counts
  | false => simpa using counts

private theorem disciplined_of_check {t : Traced} {event : Event}
    (check : disciplined t event = true) : Disciplined t event := by
  cases event with
  | agent action =>
    simp only [disciplined, Bool.and_eq_true] at check
    obtain ⟨⟨fresh, admitted⟩, uploads⟩ := check
    refine ⟨?_, ?_, by simp, by simp, ?_⟩
    · rintro _ s ⟨⟩ won
      simpa [won] using fresh
    · rintro _ s ⟨⟩ effect _ notStored
      rw [effect.1] at admitted
      simp only [notStored, decide_false, Bool.false_or] at admitted
      obtain ⟨held, known, part⟩ := (Option.any_eq_true _ _).mp admitted
      exact ⟨held, known, by simpa using part⟩
    · rintro n former ⟨⟩ loop _
      simp only [loop] at uploads
      exact comparable_of_check uploads
  | write n =>
    simp only [disciplined, Bool.and_eq_true, decide_eq_true_eq] at check
    obtain ⟨stores, own⟩ := check
    obtain ⟨held, known, own⟩ := (Option.any_eq_true _ _).mp own
    refine ⟨by simp, by simp, ?_, by simp, by simp⟩
    rintro _ ⟨⟩
    exact ⟨_, held, stores, known, by simpa using own⟩
  | replicate n =>
    simp only [disciplined, Bool.and_eq_true, decide_eq_true_eq] at check
    obtain ⟨stores, follows⟩ := check
    obtain ⟨held, known, follows⟩ := (Option.any_eq_true _ _).mp follows
    refine ⟨by simp, by simp, by simp, ?_, by simp⟩
    rintro _ ⟨⟩
    simp only [Bool.and_eq_true, bne_iff_ne, decide_eq_true_eq, beq_iff_eq] at follows
    exact ⟨_, held, stores, known, follows.1.1, follows.1.2, follows.2⟩
  | redirect | load => exact ⟨by simp, by simp, by simp, by simp, by simp⟩

private def sampleUUID (n : NodeID) : ServerUUID :=
  if n = "a" then ⟨"00000000-0000-0000-0000-00000000000a", by decide +kernel⟩
  else if n = "b" then ⟨"00000000-0000-0000-0000-00000000000b", by decide +kernel⟩
  else ⟨"00000000-0000-0000-0000-00000000000f", by decide +kernel⟩

private def starts (n : NodeID) : List Event :=
  [.agent (.start n (sampleUUID n).text), .agent (.call n .read)]

private def winsAndWrites (n : NodeID) (lease : LeaseID) : List Event :=
  [.agent (.grant n lease), .agent (.etcd n .answered), .agent (.call n (.service .ok)),
    .agent (.call n .loadPromotion), .agent (.call n (.service .ok)), .write n]

private def isAdmitted (n : NodeID) : List Event :=
  [.agent (.call n .preWatch), .agent (.etcd n .answered), .agent (.call n (.nodeStatus true))]

private def dies (n : NodeID) (lease : LeaseID) : List Event :=
  [.agent (.call n .crash), .agent (.expire lease), .agent (.serviceStop n)]

private def uploadsLog (n : NodeID) : List Event :=
  [.load n true true none, .agent (.call n .upload), .agent (.etcd n .answered)]

/-- `a` writes twice and dies. Its followers have replicated one transaction and more. -/
private def firstElection (more : List Event) : List Event :=
  starts "a" ++ winsAndWrites "a" 1 ++ [.write "a"] ++
    starts "b" ++ isAdmitted "b" ++ [.redirect "b" true true true, .replicate "b"] ++
    starts "f" ++ isAdmitted "f" ++ [.redirect "f" true true true, .replicate "f"] ++
    more ++ dies "a" 1 ++
    [.agent (.call "b" (.watchEnds false)), .agent (.call "b" .read)] ++ uploadsLog "b" ++
    [.agent (.call "f" (.watchEnds false)), .agent (.call "f" .read)] ++ uploadsLog "f"

/-- `b` wins, writes and dies. `f` is admitted to its term and fails to redirect. -/
private def secondElection : List Event :=
  [.agent (.call "b" (.download ["a", "b", "f"]))] ++ winsAndWrites "b" 2 ++
    [.agent (.call "f" (.download ["a", "b", "f"])), .agent (.grant "f" 3),
      .agent (.etcd "f" .answered), .agent (.call "f" .read)] ++
    isAdmitted "f" ++ List.replicate 11 (.redirect "f" false true false) ++ dies "b" 2 ++
    starts "b" ++ uploadsLog "b" ++ [.agent (.call "f" .read)] ++ uploadsLog "f"

private def logsOf (t : Traced) : Logs :=
  getAllLogsForElection t.state.cluster.etcd ["a", "b", "f"]

/-- `f` is latest among the logs that `b` and, after it, `f` uploaded for one election. -/
private structure FoundLatest (t : Traced) (w f : Upload) : Prop where
  uploaded : w ∈ t.uploads
  competes : f ∈ t.uploads
  sameTerm : f.log.term = w.log.term
  mine : (logsOf t).lookup (t.state.cluster.agents "f").server.id = some w.log
  member : ("b", f.log) ∈ logsOf t
  other : (t.state.cluster.agents "f").server.id ≠ "b"
  latest : (isLatestLog (t.state.cluster.agents "f").server (logsOf t)).1 = true

private def foundLatest (also : Upload → Upload → Bool) (t : Traced) : Bool :=
  match t.uploads with
  | w :: f :: _ =>
    also w f && f.log.term == w.log.term &&
      (logsOf t).lookup (t.state.cluster.agents "f").server.id == some w.log &&
      (logsOf t).contains ("b", f.log) && (t.state.cluster.agents "f").server.id != "b" &&
      (isLatestLog (t.state.cluster.agents "f").server (logsOf t)).1
  | _ => false

private theorem foundLatest_of_check {also : Upload → Upload → Bool} {t : Traced}
    (check : foundLatest also t = true) : ∃ w f, FoundLatest t w f ∧ also w f = true := by
  unfold foundLatest at check
  split at check
  · rename_i w f rest uploads
    simp only [Bool.and_eq_true, beq_iff_eq, List.contains_iff_mem, bne_iff_ne] at check
    obtain ⟨⟨⟨⟨⟨also, sameTerm⟩, mine⟩, member⟩, other⟩, latest⟩ := check
    have found : FoundLatest t w f :=
      ⟨by simp [uploads], by simp [uploads], sameTerm, mine, member, other, latest⟩
    exact ⟨w, f, found, also⟩
  · contradiction

/-- One follower has more of the master's transactions than the other. -/
theorem latest_has_every_transaction_of_follower :
    ∃ t w f, Run (trace sampleUUID) Disciplined (start ["a", "b", "f"] (by decide) sampleCfg) t ∧
      FoundLatest t w f ∧ f.executed.length = 1 ∧ ∀ txn ∈ f.executed, txn ∈ w.executed := by
  have ran : (exec (restrict (trace sampleUUID) disciplined)
      (start ["a", "b", "f"] (by decide) sampleCfg) (firstElection [.replicate "f"])).any
      (foundLatest fun _ f => f.executed.length == 1) = true := by
    decide +kernel
  obtain ⟨t, run, found⟩ := exists_run_of_exec (fun _ _ => disciplined_of_check) ran
  obtain ⟨w, f, found, executed⟩ := foundLatest_of_check found
  exact ⟨t, w, f, run, found, eq_of_beq executed,
    latest_has_every_transaction run found.uploaded found.competes found.sameTerm found.mine
      found.member found.other found.latest⟩

/-- `f` has stored the second term but still replicates from the master of the first,
and counts more of its transactions than `b` counts of its own. -/
theorem latest_lacks_transaction_of_former_master :
    ∃ t w f, Run (trace sampleUUID) (fun _ _ => True)
        (start ["a", "b", "f"] (by decide) sampleCfg) t ∧
      FoundLatest t w f ∧ ∃ txn ∈ f.executed, txn ∉ w.executed := by
  have ran : (exec (restrict (trace sampleUUID) fun _ _ => true)
      (start ["a", "b", "f"] (by decide) sampleCfg)
      (firstElection [.replicate "b", .replicate "f"] ++ secondElection)).any
      (foundLatest fun w f => f.executed.any fun txn => !w.executed.contains txn) = true := by
    decide +kernel
  obtain ⟨t, run, found⟩ := exists_run_of_exec (fun _ _ _ => trivial) ran
  obtain ⟨w, f, found, lacks⟩ := foundLatest_of_check found
  obtain ⟨txn, executed, lacked⟩ := List.any_eq_true.mp lacks
  exact ⟨t, w, f, run, found, txn, executed, by simpa using lacked⟩

end Moha.LatestData
