import Moha.LeaderRecord
import Moha.PathText
import Moha.Runs

/-! The node registry in etcd: `RegisterNode`, `UnregisterNode`, `RefreshNode` and
`Node` of `agent/registry.go`, over the client of `pkg/etcd/etcd.go` that puts every
key below a root path. The agents of one cluster share the root path. The map that
the registry stands for is read off the history of the calls. `UnregisterNode`
deletes its key as a prefix, so that one node ID must not begin another. -/
namespace Moha.Registry
open KeyValueStore PathText LeaderRecord Runs

/-- The zero value of `node.go::Position`. -/
def noPosition : Position where
  file := ""
  pos := ""
  gtid := ""
  uuid := ""
  endTxnID := 0
  slaveIORunning := false
  slaveSQLRunning := false
  secondsBehindMaster := 0

/-- `node.go::NodeStatus`. -/
structure NodeStatus where
  nodeID : String := ""
  internalHost : String := ""
  externalHost : String := ""
  isMaster : Bool := false
  isAlive : Bool := false
  latestPos : Position := noPosition
  deriving DecidableEq, Repr

inductive Record where
  | status (status : NodeStatus)
  | position (position : Position)
  deriving DecidableEq, Repr

/-- `json.Unmarshal` into an empty `NodeStatus`: the names of a position's fields are
not among its own. -/
def unmarshal : Record → NodeStatus
  | .status status => status
  | .position _ => {}

def registryPath : Text := "slave".toList

def refreshPath : Text := "binlog".toList

/-- `etcd.go::NewClientFromCfg`, its root path. -/
def rootPath (root clusterName : String) : Text := join [root.toList, clusterName.toList]

/-- `etcd.go::KeyWithRootPath`. -/
def keyWithRootPath (rootPath key : Text) : Text := join [rootPath, key]

abbrev Registers := Store Text Record

/-- `etcd.go::MultiGet`: the values by their keys without the root path; a key that
is there twice has its last value. -/
def multiGet (rootPath : Text) (etcd : Registers) (keys : List Text) : List (Text × Record) :=
  keys.foldl (fun values key =>
    match etcd.entries (keyWithRootPath rootPath key) with
    | none => values
    | some entry => (trim (closed rootPath) (keyWithRootPath rootPath key), entry.value) :: values)
    []

inductive NodeError where
  | notFound (nodeID : String)
  deriving DecidableEq, Repr

/-- `registry.go::Node`. -/
def node (rootPath : Text) (etcd : Registers) (nodeID : String) : Except NodeError NodeStatus :=
  let reg := join [registryPath, nodeID.toList]
  let ref := join [refreshPath, nodeID.toList]
  match (multiGet rootPath etcd [reg, ref]).lookup reg with
  | none => .error (.notFound nodeID)
  | some n => .ok { unmarshal n with isAlive := true, latestPos := noPosition }

/-- The calls, by what etcd does for them. `RegisterNode` is a grant, and a put once
the lease is there. -/
inductive Action where
  | grant (lease : LeaseID)
  | register (lease : LeaseID) (nodeID internalHost externalHost : String) (isMaster : Bool)
  | unregister (agent : Nat) (nodeID : String)
  | refresh (nodeID : String) (latestPos : Position)
  | expire (lease : LeaseID)
  deriving DecidableEq, Repr

/-- etcd, the agents whose `registerStopCh` is closed, and the calls so far, last
first. -/
structure State where
  etcd : Registers := .empty
  closed : List Nat := []
  history : List Action := []

/-- `registry.go::RegisterNode` and `register`, the put. -/
def registerNode (rootPath : Text) (etcd : Registers) (lease : LeaseID)
    (nodeID internalHost externalHost : String) (isMaster : Bool) : Registers :=
  let status : NodeStatus := { nodeID, internalHost, externalHost, isMaster }
  let key := keyWithRootPath rootPath (join [registryPath, nodeID.toList])
  (etcd.commit ⟨[], [.put key (.status status) (some lease)]⟩).1

/-- `registry.go::UnregisterNode`: the deletion, with prefix. -/
def unregisterNode (rootPath : Text) (etcd : Registers) (nodeID : String) : Registers :=
  etcd.deleteWhere (keyWithRootPath rootPath (join [registryPath, nodeID.toList])).isPrefixOf

/-- `registry.go::RefreshNode`. -/
def refreshNode (rootPath : Text) (etcd : Registers) (nodeID : String) (latestPos : Position) :
    Registers :=
  let key := keyWithRootPath rootPath (join [refreshPath, nodeID.toList])
  (etcd.commit ⟨[], [.put key (.position latestPos) none]⟩).1

/-- A call or an expiry; `none` when it is not enabled. A second `UnregisterNode` of
an agent panics on its closed channel before it deletes. -/
def step (rootPath : Text) (s : State) (a : Action) : Option State :=
  match a with
  | .grant lease =>
    if s.etcd.leases lease = .unused then
      some { s with etcd := s.etcd.grant lease, history := a :: s.history }
    else none
  | .register lease nodeID internalHost externalHost isMaster =>
    if s.etcd.leases lease = .live then
      some { s with
        etcd := registerNode rootPath s.etcd lease nodeID internalHost externalHost isMaster
        history := a :: s.history }
    else none
  | .unregister agent nodeID =>
    if agent ∈ s.closed then some { s with history := a :: s.history }
    else some
      { etcd := unregisterNode rootPath s.etcd nodeID
        closed := agent :: s.closed
        history := a :: s.history }
  | .refresh nodeID latestPos =>
    some { s with
      etcd := refreshNode rootPath s.etcd nodeID latestPos
      history := a :: s.history }
  | .expire lease =>
    if s.etcd.leases lease = .live then
      some { s with etcd := s.etcd.expire lease, history := a :: s.history }
    else none

/-! ### The map -/

structure Registration where
  lease : LeaseID
  internalHost : String
  externalHost : String
  isMaster : Bool
  deriving DecidableEq, Repr

/-- The most recent registration of a node that has neither been unregistered nor
expired since. -/
def registered (nodeID : String) : List Action → Option Registration
  | [] => none
  | .register lease id internalHost externalHost isMaster :: before =>
    if id = nodeID then some { lease, internalHost, externalHost, isMaster }
    else registered nodeID before
  | .unregister _ id :: before => if id = nodeID then none else registered nodeID before
  | .expire lease :: before => (registered nodeID before).filter fun last => last.lease != lease
  | .grant _ :: before | .refresh _ _ :: before => registered nodeID before

/-- What `Node` is to answer. -/
def answer (nodeID : String) : Option Registration → Except NodeError NodeStatus
  | none => .error (.notFound nodeID)
  | some last => .ok
      { nodeID
        internalHost := last.internalHost
        externalHost := last.externalHost
        isMaster := last.isMaster
        isAlive := true }

/-- Node IDs are plain. An agent unregisters once, and a node ID that begins no other
registered one. -/
def Isolated (s : State) : Action → Prop
  | .register _ nodeID _ _ _ => Plain nodeID.toList
  | .refresh nodeID _ => Plain nodeID.toList
  | .unregister agent nodeID =>
    Plain nodeID.toList ∧ agent ∉ s.closed ∧
      ∀ other, registered other s.history ≠ none → nodeID.toList <+: other.toList →
        other = nodeID
  | _ => True

/-! ### The keys -/

theorem plain_registryPath : Plain registryPath := by decide

theorem plain_refreshPath : Plain refreshPath := by decide

theorem join_plain_pair {directory nodeID : Text} (directories : Plain directory)
    (plain : Plain nodeID) : join [directory, nodeID] = directory ++ '/' :: nodeID := by
  rw [join_plain (by simp [directories, plain]) (by simp)]
  simp

theorem keyWithRootPath_pair {root directory nodeID : Text} (cleaned : Cleaned root)
    (directories : Plain directory) (plain : Plain nodeID) :
    keyWithRootPath root (join [directory, nodeID]) = under root ++ directory ++ '/' :: nodeID := by
  have joined := @join_under root [directory, nodeID] cleaned (by simp [directories, plain])
    (by simp)
  rw [join_plain_pair directories plain]
  simpa [keyWithRootPath] using joined

section Keys

variable {root : Text} {nodeID other : String}

theorem register_key_prefix_iff (cleaned : Cleaned root) (plain : Plain nodeID.toList)
    (plainOther : Plain other.toList) :
    (keyWithRootPath root (join [registryPath, nodeID.toList])).isPrefixOf
        (keyWithRootPath root (join [registryPath, other.toList])) = true ↔
      nodeID.toList <+: other.toList := by
  rw [keyWithRootPath_pair cleaned plain_registryPath plain,
    keyWithRootPath_pair cleaned plain_registryPath plainOther, List.isPrefixOf_iff_prefix,
    List.prefix_append_right_inj, List.cons_prefix_cons]
  simp

theorem register_key_injective (cleaned : Cleaned root) (plain : Plain nodeID.toList)
    (plainOther : Plain other.toList)
    (same : keyWithRootPath root (join [registryPath, nodeID.toList]) =
      keyWithRootPath root (join [registryPath, other.toList])) : nodeID = other := by
  rw [keyWithRootPath_pair cleaned plain_registryPath plain,
    keyWithRootPath_pair cleaned plain_registryPath plainOther] at same
  exact String.toList_inj.mp (List.cons.inj (List.append_cancel_left same)).2

theorem register_key_ne_refresh_key (cleaned : Cleaned root) (plain : Plain nodeID.toList)
    (plainOther : Plain other.toList) :
    keyWithRootPath root (join [registryPath, nodeID.toList]) ≠
      keyWithRootPath root (join [refreshPath, other.toList]) := by
  intro same
  rw [keyWithRootPath_pair cleaned plain_registryPath plain,
    keyWithRootPath_pair cleaned plain_refreshPath plainOther, List.append_assoc,
    List.append_assoc] at same
  have heads := congrArg List.head? (List.append_cancel_left same)
  rw [List.head?_append_of_ne_nil _ plain_registryPath.nonempty,
    List.head?_append_of_ne_nil _ plain_refreshPath.nonempty] at heads
  exact absurd heads (by decide)

end Keys

/-- `Node` reads the key of its own node. -/
theorem node_eq {root : Text} {etcd : Registers} {nodeID : String} (cleaned : Cleaned root)
    (plain : Plain nodeID.toList) :
    node root etcd nodeID =
      match etcd.entries (keyWithRootPath root (join [registryPath, nodeID.toList])) with
      | none => .error (.notFound nodeID)
      | some entry =>
        .ok { unmarshal entry.value with isAlive := true, latestPos := noPosition } := by
  have trims : ∀ directory, Plain directory →
      trim (closed root) (keyWithRootPath root (join [directory, nodeID.toList])) =
        join [directory, nodeID.toList] := by
    intro directory directories
    have parts : ∀ part ∈ [directory, nodeID.toList], Plain part := by simp [directories, plain]
    rw [join_plain parts (by simp)]
    exact (PlainPath.of_parts parts (by simp)).trim_join cleaned
  have reg := trims registryPath plain_registryPath
  have ref := trims refreshPath plain_refreshPath
  have apart :
      (join [registryPath, nodeID.toList] == join [refreshPath, nodeID.toList]) = false := by
    refine beq_eq_false_iff_ne.mpr fun same => ?_
    exact register_key_ne_refresh_key cleaned plain plain (congrArg _ same)
  unfold node multiGet
  simp only [List.foldl_cons, List.foldl_nil, reg, ref]
  cases etcd.entries (keyWithRootPath root (join [registryPath, nodeID.toList])) with
  | none =>
    cases etcd.entries (keyWithRootPath root (join [refreshPath, nodeID.toList])) with
    | none => rfl
    | some other => simp [List.lookup_cons, apart]
  | some entry =>
    cases etcd.entries (keyWithRootPath root (join [refreshPath, nodeID.toList])) with
    | none => simp
    | some other => simp [List.lookup_cons, apart]

/-- The record that a registration leaves under the node's key. -/
def Registration.record (nodeID : String) (last : Registration) : Record × Option LeaseID :=
  (.status
    { nodeID
      internalHost := last.internalHost
      externalHost := last.externalHost
      isMaster := last.isMaster }, some last.lease)

/-- etcd holds, under the key of every node, the registration that counts. -/
def Refines (root : Text) (s : State) : Prop :=
  ∀ nodeID, Plain nodeID.toList →
    (s.etcd.entries (keyWithRootPath root (join [registryPath, nodeID.toList]))).map
        (fun entry => (entry.value, entry.lease)) =
      (registered nodeID s.history).map (Registration.record nodeID)

theorem refines_step {root : Text} {s s' : State} {a : Action} (cleaned : Cleaned root)
    (refines : Refines root s) (isolated : Isolated s a) (taken : step root s a = some s') :
    Refines root s' := by
  intro nodeID plain
  have before := refines nodeID plain
  cases a with
  | grant lease =>
    simp only [step] at taken
    split at taken <;> cases taken
    exact before
  | register lease id internalHost externalHost isMaster =>
    simp only [step] at taken
    split at taken <;> cases taken
    rename_i live
    simp only [registerNode, Store.commit_put live, Store.write, applyOps, List.foldl_cons,
      List.foldl_nil, Op.apply, registered]
    by_cases same : id = nodeID
    · subst same
      simp [Registration.record]
    · have apart := fun keys => same (register_key_injective cleaned isolated plain keys)
      rw [Function.update_of_ne (Ne.symm apart), if_neg same]
      exact before
  | unregister agent id =>
    obtain ⟨plainID, first, alone⟩ := isolated
    simp only [step, first, if_false] at taken
    cases taken
    simp only [unregisterNode, Store.deleteWhere, registered,
      register_key_prefix_iff cleaned plainID plain]
    by_cases same : id = nodeID
    · simp [same]
    · rw [if_neg same]
      split
      · -- a registered node whose ID begins with the unregistered one
        rename_i begun
        have free : registered nodeID s.history = none := by
          by_contra held
          exact same (alone nodeID held begun).symm
        simp [free]
      · exact before
  | refresh id latestPos =>
    simp only [step] at taken
    cases taken
    have apart := register_key_ne_refresh_key cleaned plain isolated
    simpa [refreshNode, Store.commit, Op.leaseLive, Op.changes, Store.write, applyOps, Op.apply,
      Function.update_of_ne apart, registered] using before
  | expire lease =>
    simp only [step] at taken
    split at taken <;> cases taken
    simp only [Store.expire, registered]
    cases last : registered nodeID s.history with
    | none =>
      rw [last, Option.map_none, Option.map_eq_none_iff] at before
      simp [before]
    | some last' =>
      rw [last, Option.map_some, Option.map_eq_some_iff] at before
      obtain ⟨entry, held, stored⟩ := before
      obtain ⟨value, attached⟩ := Prod.mk.inj stored
      by_cases same : last'.lease = lease
      · simp [held, Option.filter_some, Entry.attachedTo, attached, same]
      · simp [held, Option.filter_some, Entry.attachedTo, attached, same, Registration.record,
          value]

/-- In every run in which no agent unregisters twice, nor a node whose ID begins
another registered one, `Node` answers with the most recent registration of the
node, as long as it has neither been unregistered nor expired since. -/
theorem node_refines_map (root clusterName : String) {t : State}
    (run : Run (step (rootPath root clusterName)) Isolated {} t) {nodeID : String}
    (plain : Plain nodeID.toList) :
    node (rootPath root clusterName) t.etcd nodeID =
      answer nodeID (registered nodeID t.history) := by
  have cleaned : Cleaned (rootPath root clusterName) := cleaned_join _
  have refines : Refines (rootPath root clusterName) t :=
    run.invariant (fun _ _ => rfl) fun refines isolated taken =>
      refines_step cleaned refines isolated taken
  rw [node_eq cleaned plain]
  cases last : registered nodeID t.history with
  | none =>
    have absent := refines nodeID plain
    rw [last, Option.map_none, Option.map_eq_none_iff] at absent
    simp [absent, answer]
  | some last' =>
    have held := refines nodeID plain
    rw [last, Option.map_some, Option.map_eq_some_iff] at held
    obtain ⟨entry, held, stored⟩ := held
    obtain ⟨value, _⟩ := Prod.mk.inj stored
    simp [held, value, unmarshal, answer]

private theorem mem_of_registered {nodeID : String} {history : List Action}
    (held : registered nodeID history ≠ none) :
    ∃ lease internalHost externalHost isMaster,
      Action.register lease nodeID internalHost externalHost isMaster ∈ history := by
  induction history with
  | nil => exact absurd rfl held
  | cons a before ih =>
    have later : registered nodeID before ≠ none →
        ∃ lease internalHost externalHost isMaster,
          Action.register lease nodeID internalHost externalHost isMaster ∈ a :: before := by
      intro held
      obtain ⟨lease, internalHost, externalHost, isMaster, member⟩ := ih held
      exact ⟨lease, internalHost, externalHost, isMaster, List.mem_cons_of_mem a member⟩
    cases a with
    | register lease id internalHost externalHost isMaster =>
      by_cases same : id = nodeID
      · subst same
        exact ⟨lease, internalHost, externalHost, isMaster, List.mem_cons_self⟩
      · exact later (by simpa [registered, same] using held)
    | unregister agent id =>
      by_cases same : id = nodeID
      · exact absurd (by simp [registered, same]) held
      · exact later (by simpa [registered, same] using held)
    | grant | refresh => exact later held
    | expire lease =>
      refine later fun absent => held ?_
      simp [registered, absent]

private def isolates (s : State) : Action → Bool
  | .register _ nodeID _ _ _ | .refresh nodeID _ => decide (Plain nodeID.toList)
  | .unregister agent nodeID =>
    decide (Plain nodeID.toList) && decide (agent ∉ s.closed) && s.history.all fun
      | .register _ other _ _ _ => !nodeID.toList.isPrefixOf other.toList || other == nodeID
      | _ => true
  | _ => true

private theorem isolated_of_check {s : State} {a : Action} (checked : isolates s a = true) :
    Isolated s a := by
  cases a with
  | grant | expire => trivial
  | register | refresh => simpa [isolates, Isolated] using checked
  | unregister agent nodeID =>
    simp only [isolates, Bool.and_eq_true, decide_eq_true_eq, List.all_eq_true] at checked
    obtain ⟨⟨plain, first⟩, alone⟩ := checked
    refine ⟨plain, first, fun other held begun => ?_⟩
    obtain ⟨lease, internalHost, externalHost, isMaster, member⟩ := mem_of_registered held
    have found := alone _ member
    simpa [List.isPrefixOf_iff_prefix.mpr begun] using found

/-- Two nodes register, one of them again with another lease; the first lease
expires, and the other node is unregistered. -/
theorem node_refines_map_of_two :
    ∃ t, Run (step (rootPath "/mha" "c")) Isolated {} t ∧
      registered "h:330" t.history = some ⟨3, "in", "out", true⟩ ∧
      node (rootPath "/mha" "c") t.etcd "h:330" =
        .ok { nodeID := "h:330", internalHost := "in", externalHost := "out", isMaster := true,
              isAlive := true } ∧
      node (rootPath "/mha" "c") t.etcd "h:3306" = .error (.notFound "h:3306") := by
  have ran : (exec (restrict (step (rootPath "/mha" "c")) isolates) {}
      [.grant 1, .register 1 "h:330" "a" "b" false, .grant 2, .register 2 "h:3306" "c" "d" false,
        .grant 3, .register 3 "h:330" "in" "out" true, .expire 1, .unregister 0 "h:3306"]).any
      (fun t => registered "h:330" t.history == some ⟨3, "in", "out", true⟩ &&
        registered "h:3306" t.history == none) = true := by
    decide +kernel
  obtain ⟨t, run, found⟩ := exists_run_of_exec (fun _ _ => isolated_of_check) ran
  simp only [Bool.and_eq_true, beq_iff_eq] at found
  refine ⟨t, run, found.1, ?_, ?_⟩
  · rw [node_refines_map "/mha" "c" run (by decide +kernel), found.1]
    rfl
  · rw [node_refines_map "/mha" "c" run (by decide +kernel), found.2]
    rfl

/-- The agent of `h:330` unregisters it, and `h:3306`, which is registered, is not
found any more. -/
theorem unregister_removes_longer_id :
    ∃ t, Run (step (rootPath "/mha" "c")) (fun _ _ => True) {} t ∧
      registered "h:3306" t.history = some ⟨2, "c", "d", true⟩ ∧
      node (rootPath "/mha" "c") t.etcd "h:3306" = .error (.notFound "h:3306") := by
  have ran : (exec (restrict (step (rootPath "/mha" "c")) fun _ _ => true) {}
      [.grant 1, .register 1 "h:330" "a" "b" false, .grant 2, .register 2 "h:3306" "c" "d" true,
        .unregister 0 "h:330"]).any
      (fun t => registered "h:3306" t.history == some ⟨2, "c", "d", true⟩ &&
        (t.etcd.entries (keyWithRootPath (rootPath "/mha" "c")
          (join [registryPath, "h:3306".toList]))).isNone) = true := by
    decide +kernel
  obtain ⟨t, run, found⟩ := exists_run_of_exec (fun _ _ _ => trivial) ran
  simp only [Bool.and_eq_true, beq_iff_eq, Option.isNone_iff_eq_none] at found
  refine ⟨t, run, found.1, ?_⟩
  have cleaned : Cleaned (rootPath "/mha" "c") := cleaned_join _
  rw [node_eq cleaned (by decide +kernel), found.2]

end Moha.Registry
