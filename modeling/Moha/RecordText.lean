import Moha.Recovery
import Moha.LeaderView
import Moha.StoreRenaming

/-! The leader record as text. The client sends every key as a path below the root
path of the cluster and every number in decimal, and `getLeaderAndMyTerm` tells the
answers apart by comparing full paths. The paths of one node are pairwise different
whatever the root path is, so that the record of `LeaderRecord` is what the texts
stand for, and what a leader publishes is read back. -/
namespace Moha.RecordText
open KeyValueStore DecimalText PathText LeaderRecord LeaderView Recovery

abbrev TextEtcd := Store Text String

section Texts
variable (root clusterName : String)

/-- The transaction of a request, with the texts of its keys and values. -/
def textTxn (request : Request) : Txn Text String :=
  request.txn.render (keyText root clusterName) valueText

/-- The paths of `leader.go::leaderGetOps`, `myTermGetOps` and `spmGetOps`. -/
def getOps (id : NodeID) : List Key :=
  [.leaderPath, .termPath, .idPath, .metaVersionPath, .lastUUIDPath, .lastTxnIDPath,
    .lastGTIDPath, .myTermPath id, .spmPath]

/-- The switch of `leader.go::getLeaderAndMyTerm` over the full path of an answer. -/
def dispatch (id : NodeID) (read : Leader × UInt64) (key : Text) (kv : Entry String) :
    Except ReadError (Leader × UInt64) :=
  let (leader, myTerm) := read
  if key = keyText root clusterName .leaderPath then
    .ok ({ leader with kv := some (kv.map .text), name := kv.value }, myTerm)
  else if key = keyText root clusterName .termPath then
    match atoi kv.value with
    | none => .error .termNotInteger
    | some term =>
      .ok ({ leader with leaderMeta.term := UInt64.ofInt term }, myTerm)
  else if key = keyText root clusterName .idPath then
    .ok ({ leader with leaderMeta.name := kv.value }, myTerm)
  else if key = keyText root clusterName .lastUUIDPath then
    .ok ({ leader with leaderMeta.lastUUID := kv.value }, myTerm)
  else if key = keyText root clusterName .lastGTIDPath then
    .ok ({ leader with leaderMeta.lastGTID := kv.value }, myTerm)
  else if key = keyText root clusterName .metaVersionPath then
    match atoi kv.value with
    | none => .ok read
    | some version => .ok ({ leader with leaderMeta.version := version }, myTerm)
  else if key = keyText root clusterName .lastTxnIDPath then
    match parseUint kv.value with
    | none => .ok read
    | some lastTxnID => .ok ({ leader with leaderMeta.lastTxnID := lastTxnID }, myTerm)
  else if key = keyText root clusterName .spmPath then
    .ok ({ leader with spm := kv.value }, myTerm)
  else if key = keyText root clusterName (.myTermPath id) then
    match parseUint kv.value with
    | none => .error .myTermNotValid
    | some myTerm => .ok (leader, myTerm)
  else .ok read

/-- One answer of the transaction; an absent key has none. -/
def visit (id : NodeID) (etcd : TextEtcd) (read : Leader × UInt64) (key : Text) :
    Except ReadError (Leader × UInt64) :=
  match etcd.entries key with
  | none => .ok read
  | some kv => dispatch root clusterName id read key kv

/-- `leader.go::getLeaderAndMyTerm` on the answers of its transaction. -/
def getLeaderAndMyTerm (id : NodeID) (etcd : TextEtcd) : Except ReadError (Leader × UInt64) :=
  ((getOps id).map (keyText root clusterName)).foldlM (visit root clusterName id etcd) ({}, 0)

/-- The record that the texts stand for. -/
def recordOf (etcd : TextEtcd) : Etcd := etcd.through (keyText root clusterName) Value.text

end Texts

/-! ### Reading -/

theorem plainKey_of_getOps {id : NodeID} (plain : Plain id.toList) {key : Key}
    (asked : key ∈ getOps id) : PlainKey key := by
  intro owned owns
  simp only [getOps, List.mem_cons, List.not_mem_nil, or_false] at asked
  rcases asked with rfl | rfl | rfl | rfl | rfl | rfl | rfl | rfl | rfl <;> cases owns
  exact plain

theorem keyText_eq_iff {root clusterName : String} {id : NodeID} (plain : Plain id.toList)
    {key other : Key} (asked : key ∈ getOps id) (askedOther : other ∈ getOps id) :
    keyText root clusterName key = keyText root clusterName other ↔ key = other :=
  ⟨keyText_injective (plainKey_of_getOps plain asked) (plainKey_of_getOps plain askedOther),
    congrArg _⟩

section Reading
variable {root clusterName : String} {id : NodeID} {etcd : TextEtcd}

theorem text_recordOf (key : Key) :
    text (recordOf root clusterName etcd) key =
      (etcd.entries (keyText root clusterName key)).map Entry.value := by
  rw [text, recordOf, Store.through_entries]
  cases etcd.entries (keyText root clusterName key) <;> rfl

/-- The switch told apart by the paths instead of their texts. -/
def note (read : Leader × UInt64) (key : Key) (kv : Entry String) :
    Except ReadError (Leader × UInt64) :=
  match key with
  | .leaderPath =>
    .ok ({ read.1 with kv := some (kv.map .text), name := kv.value }, read.2)
  | .termPath =>
    match atoi kv.value with
    | none => .error .termNotInteger
    | some term => .ok ({ read.1 with leaderMeta.term := UInt64.ofInt term }, read.2)
  | .idPath => .ok ({ read.1 with leaderMeta.name := kv.value }, read.2)
  | .lastUUIDPath => .ok ({ read.1 with leaderMeta.lastUUID := kv.value }, read.2)
  | .lastGTIDPath => .ok ({ read.1 with leaderMeta.lastGTID := kv.value }, read.2)
  | .metaVersionPath =>
    match atoi kv.value with
    | none => .ok read
    | some version => .ok ({ read.1 with leaderMeta.version := version }, read.2)
  | .lastTxnIDPath =>
    match parseUint kv.value with
    | none => .ok read
    | some lastTxnID => .ok ({ read.1 with leaderMeta.lastTxnID := lastTxnID }, read.2)
  | .spmPath => .ok ({ read.1 with spm := kv.value }, read.2)
  | .myTermPath _ =>
    match parseUint kv.value with
    | none => .error .myTermNotValid
    | some myTerm => .ok (read.1, myTerm)
  | _ => .ok read

theorem dispatch_eq (plain : Plain id.toList) {key : Key} (asked : key ∈ getOps id)
    (read : Leader × UInt64) (kv : Entry String) :
    dispatch root clusterName id read (keyText root clusterName key) kv = note read key kv := by
  have tells : ∀ {first second : Key}, first ∈ getOps id → second ∈ getOps id →
      (keyText root clusterName first = keyText root clusterName second ↔ first = second) :=
    keyText_eq_iff plain
  have members : Key.leaderPath ∈ getOps id ∧ .termPath ∈ getOps id ∧ .idPath ∈ getOps id ∧
      .metaVersionPath ∈ getOps id ∧ .lastUUIDPath ∈ getOps id ∧ .lastTxnIDPath ∈ getOps id ∧
      .lastGTIDPath ∈ getOps id ∧ .myTermPath id ∈ getOps id ∧ .spmPath ∈ getOps id := by
    simp [getOps]
  simp only [getOps, List.mem_cons, List.not_mem_nil, or_false] at asked
  unfold dispatch
  rcases asked with rfl | rfl | rfl | rfl | rfl | rfl | rfl | rfl | rfl <;>
    simp only [tells, members, reduceCtorEq, ↓reduceIte] <;> rfl

/-- An answer that sets one field from its value. -/
theorem visit_field (plain : Plain id.toList) {key : Key} (asked : key ∈ getOps id)
    {read : Leader × UInt64} (set : Option String → Leader × UInt64) (absent : set none = read)
    (present : ∀ kv, note read key kv = .ok (set (some kv.value))) :
    visit root clusterName id etcd read (keyText root clusterName key) =
      .ok (set (text (recordOf root clusterName etcd) key)) := by
  rw [visit, text_recordOf]
  cases etcd.entries (keyText root clusterName key) with
  | none => rw [Option.map_none, absent]
  | some kv => exact (dispatch_eq plain asked read kv).trans (present kv)

theorem visit_leaderPath (plain : Plain id.toList) :
    visit root clusterName id etcd ({}, 0) (keyText root clusterName .leaderPath) =
      .ok ({ name := (text (recordOf root clusterName etcd) .leaderPath).getD ""
             kv := (recordOf root clusterName etcd).entries .leaderPath }, 0) := by
  rw [visit, text_recordOf, recordOf, Store.through_entries]
  cases etcd.entries (keyText root clusterName .leaderPath) with
  | none => rfl
  | some kv => exact dispatch_eq plain (by simp [getOps]) _ kv

theorem visit_termPath (plain : Plain id.toList) {leader : Leader}
    (unset : leader.leaderMeta.term = 0) :
    visit root clusterName id etcd (leader, 0) (keyText root clusterName .termPath) =
      (readTerm (recordOf root clusterName etcd)).map fun term =>
        ({ leader with leaderMeta.term := term }, 0) := by
  rw [visit, readTerm, text_recordOf]
  cases etcd.entries (keyText root clusterName .termPath) with
  | none =>
    simp only [Option.map_none, Except.map, ← unset]
  | some kv =>
    refine (dispatch_eq plain (by simp [getOps]) _ kv).trans ?_
    simp only [note, Option.map_some]
    cases atoi kv.value <;> rfl

theorem visit_myTermPath (plain : Plain id.toList) (leader : Leader) :
    visit root clusterName id etcd (leader, 0) (keyText root clusterName (.myTermPath id)) =
      (readMyTerm id (recordOf root clusterName etcd)).map fun myTerm => (leader, myTerm) := by
  rw [visit, readMyTerm, text_recordOf]
  cases etcd.entries (keyText root clusterName (.myTermPath id)) with
  | none => rfl
  | some kv =>
    refine (dispatch_eq plain (by simp [getOps]) _ kv).trans ?_
    simp only [note, Option.map_some]
    cases parseUint kv.value <;> rfl

/-- The answers between the two terms. -/
theorem visit_meta (plain : Plain id.toList) (leader : Leader) :
    ([.idPath, .metaVersionPath, .lastUUIDPath, .lastTxnIDPath, .lastGTIDPath].map
        (keyText root clusterName)).foldlM (visit root clusterName id etcd) (leader, 0) =
      (.ok ({ leader with
        leaderMeta :=
          { name := (text (recordOf root clusterName etcd) .idPath).getD leader.leaderMeta.name
            term := leader.leaderMeta.term
            lastUUID := (text (recordOf root clusterName etcd) .lastUUIDPath).getD
              leader.leaderMeta.lastUUID
            lastGTID := (text (recordOf root clusterName etcd) .lastGTIDPath).getD
              leader.leaderMeta.lastGTID
            lastTxnID := ((text (recordOf root clusterName etcd) .lastTxnIDPath).bind
              parseUint).getD leader.leaderMeta.lastTxnID
            version := ((text (recordOf root clusterName etcd) .metaVersionPath).bind
              atoi).getD leader.leaderMeta.version } }, 0) :
        Except ReadError (Leader × UInt64)) := by
  have name : ∀ leader : Leader,
      visit root clusterName id etcd (leader, 0) (keyText root clusterName .idPath) = _ :=
    fun leader => visit_field plain (by simp [getOps])
      (fun stored => ({ leader with leaderMeta.name := stored.getD leader.leaderMeta.name }, 0))
      rfl fun _ => rfl
  have version : ∀ leader : Leader,
      visit root clusterName id etcd (leader, 0) (keyText root clusterName .metaVersionPath) = _ :=
    fun leader => visit_field plain (by simp [getOps])
      (fun stored => ({ leader with
        leaderMeta.version := (stored.bind atoi).getD leader.leaderMeta.version }, 0))
      rfl fun kv => by simp only [note, Option.bind_some]; cases atoi kv.value <;> rfl
  have lastUUID : ∀ leader : Leader,
      visit root clusterName id etcd (leader, 0) (keyText root clusterName .lastUUIDPath) = _ :=
    fun leader => visit_field plain (by simp [getOps])
      (fun stored => ({ leader with
        leaderMeta.lastUUID := stored.getD leader.leaderMeta.lastUUID }, 0))
      rfl fun _ => rfl
  have lastTxnID : ∀ leader : Leader,
      visit root clusterName id etcd (leader, 0) (keyText root clusterName .lastTxnIDPath) = _ :=
    fun leader => visit_field plain (by simp [getOps])
      (fun stored => ({ leader with
        leaderMeta.lastTxnID := (stored.bind parseUint).getD leader.leaderMeta.lastTxnID }, 0))
      rfl fun kv => by simp only [note, Option.bind_some]; cases parseUint kv.value <;> rfl
  have lastGTID : ∀ leader : Leader,
      visit root clusterName id etcd (leader, 0) (keyText root clusterName .lastGTIDPath) = _ :=
    fun leader => visit_field plain (by simp [getOps])
      (fun stored => ({ leader with
        leaderMeta.lastGTID := stored.getD leader.leaderMeta.lastGTID }, 0))
      rfl fun _ => rfl
  simp only [List.map_cons, List.map_nil, List.foldlM_cons, List.foldlM_nil, name, version,
    lastUUID, lastTxnID, lastGTID, bind, Except.bind, pure, Except.pure]

theorem visit_spmPath (plain : Plain id.toList) (leader : Leader) (myTerm : UInt64) :
    visit root clusterName id etcd (leader, myTerm) (keyText root clusterName .spmPath) =
      .ok ({ leader with
        spm := (text (recordOf root clusterName etcd) .spmPath).getD leader.spm }, myTerm) :=
  visit_field plain (by simp [getOps])
    (fun stored => ({ leader with spm := stored.getD leader.spm }, myTerm)) rfl fun _ => rfl

/-- Reading the texts is reading the record that they stand for. -/
theorem getLeaderAndMyTerm_eq {s : Server} (plain : Plain s.id.toList) :
    getLeaderAndMyTerm root clusterName s.id etcd =
      s.getLeaderAndMyTerm (recordOf root clusterName etcd) := by
  have split : (getOps s.id).map (keyText root clusterName) =
      keyText root clusterName .leaderPath :: keyText root clusterName .termPath ::
        ([.idPath, .metaVersionPath, .lastUUIDPath, .lastTxnIDPath, .lastGTIDPath].map
          (keyText root clusterName) ++
        [keyText root clusterName (.myTermPath s.id), keyText root clusterName .spmPath]) := rfl
  rw [getLeaderAndMyTerm, split, Server.getLeaderAndMyTerm]
  simp only [List.foldlM_cons, List.foldlM_nil, List.foldlM_append, visit_leaderPath plain, bind,
    Except.bind]
  rw [visit_termPath plain rfl]
  cases readTerm (recordOf root clusterName etcd) with
  | error => rfl
  | ok term =>
    simp only [Except.map, visit_meta plain, visit_myTermPath plain]
    cases readMyTerm s.id (recordOf root clusterName etcd) with
    | error => rfl
    | ok myTerm =>
      simp only [visit_spmPath plain]
      rfl

end Reading

/-! ### Writing -/

section Writing
variable {root clusterName : String} {s : Server} {request : Request} {etcd : TextEtcd}

private theorem op_of_publisher (plain : Plain s.id.toList)
    (publishes : request.campaigner = some s ∨ request.resumer = some s) :
    ∀ op ∈ request.txn.thenOps, PlainKey op.key ∧ op.ReadBack Value.text valueText := by
  have member : ∀ op ∈ request.txn.thenOps, op.key = .spmPath ∨ op.key ∈ getOps s.id := by
    rcases publishes with publishes | publishes <;> cases request <;> cases publishes <;>
      simp [Request.txn, Server.leaderPutOps, Server.myTermPutOps, Server.spmPutOps, Op.key, getOps]
  have readBack : ∀ op ∈ request.txn.thenOps, op.ReadBack Value.text valueText := by
    rcases publishes with publishes | publishes <;> cases request <;> cases publishes <;>
      simp [Request.txn, Server.leaderPutOps, Server.myTermPutOps, Server.spmPutOps, Op.ReadBack,
        valueText, number]
  intro op written
  refine ⟨plainKey_of_getOps plain ?_, readBack op written⟩
  rcases member op written with flag | asked
  · rw [flag]
    simp [getOps]
  · exact asked

private theorem cmp_of_publisher
    (publishes : request.campaigner = some s ∨ request.resumer = some s) :
    ∀ cmp ∈ request.txn.cmps, cmp.ReadBack Value.text valueText := by
  rcases publishes with publishes | publishes <;> cases request <;> cases publishes <;>
    simp [Request.txn, Server.leaderCmp, noLeaderCmp, Cmp.ReadBack, valueText]

/-- Committing the texts is committing the transaction on the record. -/
theorem commit_textTxn (plain : Plain s.id.toList)
    (publishes : request.campaigner = some s ∨ request.resumer = some s) :
    (etcd.commit (textTxn root clusterName request)).2 =
        ((recordOf root clusterName etcd).commit request.txn).2 ∧
      ∀ key, PlainKey key →
        (recordOf root clusterName (etcd.commit (textTxn root clusterName request)).1).entries
            key =
          ((recordOf root clusterName etcd).commit request.txn).1.entries key := by
  have injective : Function.Injective Value.text := fun _ _ same => Value.text.inj same
  have compared := cmp_of_publisher publishes
  have written := op_of_publisher plain publishes
  refine ⟨Store.commit_render_reply injective compared, fun key plainKey => ?_⟩
  exact Store.commit_render_entries injective
    (fun op member => keyText_injective (written op member).1 plainKey) compared
    fun op member => (written op member).2

/-- The record is read at the paths that are asked for. -/
theorem Server.getLeaderAndMyTerm_congr {first second : Etcd}
    (same : ∀ key ∈ getOps s.id, first.entries key = second.entries key) :
    s.getLeaderAndMyTerm first = s.getLeaderAndMyTerm second := by
  simp only [getOps, List.forall_mem_cons] at same
  obtain ⟨leader, term, id, version, lastUUID, lastTxnID, lastGTID, myTerm, spm, _⟩ := same
  simp only [Server.getLeaderAndMyTerm, readTerm, readMyTerm, readLeader, text, leader, term, id,
    version, lastUUID, lastTxnID, lastGTID, myTerm, spm]

end Writing

/-! ### The round trip -/

/-- The term that a campaign or a resume publishes. -/
def publishedTerm (request : Request) (s : Server) : UInt64 :=
  if request.campaigner = some s then s.term + 1 else s.term

section Published
variable {s : Server} {request : Request} {etcd : Etcd}
  (publishes : request.campaigner = some s ∨
    request.resumer = some s ∧ request.asSinglePoint = false)
  (succeeded : (etcd.commit request.txn).2 = .done true)
include publishes succeeded

theorem view_published :
    (view (etcd.commit request.txn).1).LedBy s.id ∧
      (view (etcd.commit request.txn).1).record = publishedBy s (publishedTerm request s) ∧
      asText (view (etcd.commit request.txn).1).version = some (sprint globalSchemaVersion) ∧
      (view (etcd.commit request.txn).1).spm =
        if request.asSinglePoint then some s.id else (view etcd).spm := by
  have either := publishes.imp_right And.left
  rw [(view_commit succeeded).2]
  obtain ⟨lease, _, version, _⟩ := @leader_act (etcd.revision + 1) (view etcd) request s either
  refine ⟨ledBy_act either, ?_, by rw [version]; rfl, spm_act either⟩
  rcases publishes with campaigns | ⟨resumes, _⟩
  · rw [record_act_campaigner campaigns, publishedTerm, if_pos campaigns]
  · have notCampaign : request.campaigner ≠ some s := by
      cases request <;> simp_all [Request.campaigner, Request.resumer]
    rw [record_act_resumer resumes, publishedTerm, if_neg notCampaign]

/-- The own term is the one put by a campaign, or what a resume found. -/
theorem readMyTerm_published
    (decimal : ∀ stored, text etcd (.myTermPath s.id) = some stored →
      ∃ n : UInt64, stored = sprint n) :
    ∃ myTerm, readMyTerm s.id (etcd.commit request.txn).1 = .ok myTerm ∧
      (request.campaigner = some s → myTerm = s.term + 1) := by
  have terms := congrArg View.terms (view_commit succeeded).2
  rcases publishes with campaigns | ⟨resumes, leased⟩
  · rw [terms_act_campaigner campaigns] at terms
    refine ⟨s.term + 1, readMyTerm_of_stored ?_, fun _ => rfl⟩
    rw [terms, Function.update_self]
  · have notCampaign : request.campaigner ≠ some s := by
      cases request <;> simp_all [Request.campaigner, Request.resumer]
    rw [terms_act_resumer resumes leased] at terms
    have kept : text (etcd.commit request.txn).1 (.myTermPath s.id) =
        text etcd (.myTermPath s.id) := congrFun terms s.id
    cases stored : text etcd (.myTermPath s.id) with
    | none =>
      refine ⟨0, ?_, fun campaigns => absurd campaigns notCampaign⟩
      rw [readMyTerm, kept, stored]
    | some found =>
      obtain ⟨n, rfl⟩ := decimal found stored
      refine ⟨n, ?_, fun campaigns => absurd campaigns notCampaign⟩
      exact readMyTerm_of_stored (kept.trans stored)

end Published

/-- What a leader publishes is read back: its ID, its log and its term, with the
single-point flag it set or found, and after a campaign with its own new term. -/
theorem leader_record_round_trip {root clusterName : String} {s : Server} {request : Request}
    {etcd : TextEtcd} (plain : Plain s.id.toList) (bounded : s.term.toNat < 2 ^ 63 - 1)
    (decimal : ∀ stored, etcd.value (keyText root clusterName (.myTermPath s.id)) = some stored →
      ∃ n : UInt64, stored = sprint n)
    (publishes : request.campaigner = some s ∨
      request.resumer = some s ∧ request.asSinglePoint = false)
    (succeeded : (etcd.commit (textTxn root clusterName request)).2 = .done true) :
    ∃ leader myTerm,
      getLeaderAndMyTerm root clusterName s.id
        (etcd.commit (textTxn root clusterName request)).1 = .ok (leader, myTerm) ∧
      leader.name = s.id ∧
      leader.leaderMeta =
        { name := s.id
          term := publishedTerm request s
          lastUUID := s.lastUUID
          lastGTID := s.lastGTID
          lastTxnID := s.lastTxnID
          version := 2 } ∧
      leader.spm =
        (if request.asSinglePoint then s.id
        else (etcd.value (keyText root clusterName .spmPath)).getD "") ∧
      (request.campaigner = some s → myTerm = s.term + 1) := by
  have stored : ∀ key, text (recordOf root clusterName etcd) key =
      etcd.value (keyText root clusterName key) := fun key => text_recordOf key
  obtain ⟨reply, entries⟩ := @commit_textTxn root clusterName s request etcd plain
    (publishes.imp_right And.left)
  have committed : ((recordOf root clusterName etcd).commit request.txn).2 = .done true :=
    reply ▸ succeeded
  have read : getLeaderAndMyTerm root clusterName s.id
      (etcd.commit (textTxn root clusterName request)).1 =
      s.getLeaderAndMyTerm ((recordOf root clusterName etcd).commit request.txn).1 := by
    rw [getLeaderAndMyTerm_eq plain]
    refine Server.getLeaderAndMyTerm_congr fun key asked => ?_
    exact entries key (plainKey_of_getOps plain asked)
  obtain ⟨led, record, version, spm⟩ := view_published publishes committed
  obtain ⟨myTerm, mine, campaigned⟩ := readMyTerm_published publishes committed fun found held =>
    decimal found ((stored _).symm.trans held)
  have small : (publishedTerm request s).toNat < 2 ^ 63 := by
    unfold publishedTerm
    split
    · rw [UInt64.toNat_add]
      have one : (1 : UInt64).toNat = 1 := rfl
      omega
    · omega
  have term := readTerm_of_stored (congrArg Record.term record) small
  refine ⟨readLeader ((recordOf root clusterName etcd).commit request.txn).1
    (publishedTerm request s), myTerm, ?_, readLeader_name led, ?_, ?_, campaigned⟩
  · rw [read, Server.getLeaderAndMyTerm, term, mine]
    rfl
  · rw [readLeader_published record, version]
    rfl
  · have flag : text ((recordOf root clusterName etcd).commit request.txn).1 .spmPath =
        if request.asSinglePoint then some s.id
        else etcd.value (keyText root clusterName .spmPath) := by
      rw [← stored .spmPath]
      exact spm
    rw [readLeader, flag]
    split <;> rfl

private def candidate : Server where
  id := "h:1"
  cfg := ⟨false, 10, 5⟩
  term := 4
  lastUUID := "u"
  lastGTID := "u:1-8"
  lastTxnID := 9

/-- What etcd holds when the candidate has persisted its term. -/
private def persisted : TextEtcd :=
  (Store.empty.commit (textTxn "/mha" "c" (.persistMyTerm candidate))).1

/-- A campaign without a lease over an earlier term. -/
theorem leader_record_round_trip_of_single_point :
    ∃ leader, getLeaderAndMyTerm "/mha" "c" "h:1"
        (persisted.commit (textTxn "/mha" "c" (.campaignLeaderAsSinglePoint candidate))).1 =
          .ok (leader, 5) ∧
      leader.name = "h:1" ∧ leader.spm = "h:1" ∧ leader.leaderMeta.term = 5 := by
  have decimal : ∀ stored, persisted.value (keyText "/mha" "c" (.myTermPath candidate.id)) =
      some stored → ∃ n : UInt64, stored = sprint n := by
    intro stored held
    have four : persisted.value (keyText "/mha" "c" (.myTermPath candidate.id)) =
        some (sprint 4) := by decide +kernel
    exact ⟨4, Option.some.inj (held.symm.trans four)⟩
  obtain ⟨leader, myTerm, read, name, published, spm, mine⟩ :=
    @leader_record_round_trip "/mha" "c" candidate (.campaignLeaderAsSinglePoint candidate)
      persisted (by decide +kernel) (by decide) decimal (.inl rfl) (by decide +kernel)
  rw [mine rfl] at read
  exact ⟨leader, read, name, spm, by rw [published]; decide⟩

end Moha.RecordText
