import Moha.Deployment

/-! Where the slaves of a cluster replicate from. The election names a leader by its node ID.
`doChangeMaster` looks the node up in the registry and splits the internal host that it has
registered with; the switch of `moctl` splits the node ID itself. -/
namespace Moha.LeaderAddress
open Deployment KeyValueStore LeaderRecord PathText Recovery Registry Runs

inductive AddressError where
  | node (error : NodeError)
  | notValid
  deriving DecidableEq, Repr

/-- `util.go::parseHost`. -/
def parseHost (address : Text) : Except AddressError (Text × Text) :=
  match address.splitOn ':' with
  | [host] => .ok (host, "3306".toList)
  | [host, port] => .ok (host, port)
  | _ => .error .notValid

/-- `server.go::doChangeMaster` on a node that does not lead: the host and the port that
`becomeSlave` is called with. -/
def newMaster (rootPath : Text) (etcd : Registers) (newLeaderID : String) :
    Except AddressError (Text × Text) :=
  match node rootPath etcd newLeaderID with
  | .error error => .error (.node error)
  | .ok newLeader => parseHost newLeader.internalHost.toList

/-! ### The address -/

theorem absent_of_mem_splitOn {separator : Char} {text part : Text}
    (member : part ∈ text.splitOn separator) : separator ∉ part := by
  induction text generalizing part with
  | nil =>
    rw [List.splitOn_nil, List.mem_singleton] at member
    simp [member]
  | cons char rest ih =>
    rw [List.splitOn_cons_eq_if_modifyHead] at member
    split at member
    · rcases List.mem_cons.mp member with rfl | later
      · exact List.not_mem_nil
      · exact ih later
    · rename_i other
      -- the character goes to the first part of what follows
      obtain ⟨first, parts, split⟩ :=
        List.exists_cons_of_ne_nil (List.splitOn_ne_nil separator rest)
      rw [split] at ih member
      rcases List.mem_cons.mp member with rfl | later
      · have apart : separator ≠ char := fun same => other (by simp [same])
        exact List.not_mem_cons_of_ne_of_not_mem apart (ih List.mem_cons_self)
      · exact ih (List.mem_cons_of_mem _ later)

/-- An address is a host and a port with no further colon, or a host alone. -/
theorem parseHost_eq_ok_iff {address host port : Text} :
    parseHost address = .ok (host, port) ↔
      ':' ∉ host ∧ (address = host ++ ':' :: port ∧ ':' ∉ port ∨
        address = host ∧ port = "3306".toList) := by
  have joined := address.intercalate_splitOn ':'
  have absent : ∀ part ∈ address.splitOn ':', ':' ∉ part := fun _ => absent_of_mem_splitOn
  constructor
  · intro parsed
    unfold parseHost at parsed
    split at parsed
    · rename_i own split
      cases parsed
      rw [split] at joined absent
      refine ⟨absent _ (by simp), .inr ⟨?_, rfl⟩⟩
      simpa using joined.symm
    · rename_i own other split
      cases parsed
      rw [split] at joined absent
      refine ⟨absent _ (by simp), .inl ⟨?_, absent _ (by simp)⟩⟩
      simpa [List.intercalate_cons_cons] using joined.symm
    · cases parsed
  · rintro ⟨noColon, ⟨rfl, noColon'⟩ | ⟨rfl, rfl⟩⟩
    · rw [parseHost, List.splitOn_append_cons_self_of_not_mem noColon,
        List.splitOn_eq_singleton noColon']
    · rw [parseHost, List.splitOn_eq_singleton noColon]

/-- What the registry holds decides where a follower turns. -/
theorem newMaster_eq_ok_iff {root : Text} {s : Registry.State} (cleaned : Cleaned root)
    (refines : Refines root s) {leaderID : String} (plain : Plain leaderID.toList)
    {host port : Text} :
    newMaster root s.etcd leaderID = .ok (host, port) ↔
      ∃ last, registered leaderID s.history = some last ∧
        parseHost last.internalHost.toList = .ok (host, port) := by
  have same := refines leaderID plain
  rw [newMaster, node_eq cleaned plain]
  cases last : registered leaderID s.history with
  | none =>
    rw [last, Option.map_none, Option.map_eq_none_iff] at same
    simp [same]
  | some last' =>
    rw [last, Option.map_some, Option.map_eq_some_iff] at same
    obtain ⟨entry, held, stored⟩ := same
    obtain ⟨value, _⟩ := Prod.mk.inj stored
    simp [held, value, unmarshal]

/-- A follower finds the leader. In every run of the registry in which no agent unregisters
twice, nor a node whose ID begins another registered one: a follower turns to a host and a port
exactly when the last registration of the leader, neither withdrawn nor expired, is for that
address, where a host alone stands for its port 3306. -/
theorem follower_finds_leader (root clusterName : String) {s : Registry.State}
    (run : Run (Registry.step (rootPath root clusterName)) Isolated {} s) {leaderID : String}
    (plain : Plain leaderID.toList) {host port : Text} :
    newMaster (rootPath root clusterName) s.etcd leaderID = .ok (host, port) ↔
      ∃ last, registered leaderID s.history = some last ∧ ':' ∉ host ∧
        (last.internalHost.toList = host ++ ':' :: port ∧ ':' ∉ port ∨
          last.internalHost.toList = host ∧ port = "3306".toList) := by
  have cleaned : Cleaned (rootPath root clusterName) := cleaned_join _
  obtain ⟨refines, _, _⟩ := facts_of_run run
  simp only [newMaster_eq_ok_iff cleaned refines plain, parseHost_eq_ok_iff]

/-- The node registers again after its address has changed, and then its first lease expires;
a follower turns to the new address. -/
theorem follower_finds_leader_after_move :
    ∃ s, Run (Registry.step (rootPath "/mha" "c")) Isolated {} s ∧
      newMaster (rootPath "/mha" "c") s.etcd "h:1" = .ok ("in".toList, "3306".toList) := by
  have ran : (exec (restrict (Registry.step (rootPath "/mha" "c")) registersPlain) {}
      [.grant 1, .register 1 "h:1" "h:1" "h:1" true, .grant 2, .register 2 "h:1" "in" "h:1" true,
        .expire 1]).any
      (fun t => registered "h:1" t.history == some ⟨2, "in", "h:1", true⟩) = true := by
    decide +kernel
  obtain ⟨s, run, found⟩ := exists_run_of_exec (fun _ _ => isolated_of_registersPlain) ran
  refine ⟨s, run, (follower_finds_leader "/mha" "c" run (by decide)).mpr ?_⟩
  exact ⟨_, beq_iff_eq.mp found, by decide, .inr ⟨rfl, rfl⟩⟩

/-! ### The switch and the followers -/

/-- The switch and the followers take the same address for the master, in every state of the
registry and of the election in which the switch finds the cluster, exactly when the leader has
registered with its node ID as its internal host, or with the host of it alone and the port is
3306. -/
theorem switch_and_followers_agree_iff {cfg : AgentConf} (named : PlainNames cfg)
    {etcd : Etcd} {keys : List Key} (plainKeys : ∀ key ∈ keys, PlainKey key)
    (covers : ∀ key, etcd.entries key ≠ none → key ∈ keys)
    (normal : etcd.entries .spmPath = none) {host port : String} (noColon : ':' ∉ host.toList)
    (noColon' : ':' ∉ port.toList) (plain : Plain (host ++ ":" ++ port).toList)
    (leader : text etcd .leaderPath = some (host ++ ":" ++ port)) {s : Registry.State}
    (run : Run (Registry.step (rootPath (createAgentConf cfg).etcdRootPath
      (createAgentConf cfg).clusterName)) Isolated {} s)
    (inhabited : ∃ id, registered id s.history ≠ none)
    (addressed : ∀ id : String, registered id s.history ≠ none → Addressed id.toList)
    {slaves : List Text}
    (lists : Lists s.etcd ((createAgentConf cfg).etcdRootPath.toList ++
      (createAgentConf cfg).clusterName.toList ++ "/slave".toList) slaves) :
    ∃ nodes, findNodes (createAgentConf cfg).etcdRootPath (createAgentConf cfg).clusterName
        (listing (createAgentConf cfg).etcdRootPath (createAgentConf cfg).clusterName keys etcd)
        slaves = .ok nodes ∧
      (newMaster (rootPath (createAgentConf cfg).etcdRootPath
          (createAgentConf cfg).clusterName) s.etcd (host ++ ":" ++ port) =
            .ok (nodes.ip, nodes.port) ↔
        ∃ last, registered (host ++ ":" ++ port) s.history = some last ∧
          (last.internalHost = host ++ ":" ++ port ∨
            last.internalHost = host ∧ port = "3306")) := by
  have cleaned : Cleaned (rootPath (createAgentConf cfg).etcdRootPath
      (createAgentConf cfg).clusterName) := cleaned_join _
  obtain ⟨refines, _, _⟩ := facts_of_run run
  obtain ⟨_, known⟩ := listed_of_run named run lists
  obtain ⟨filled, listed⟩ := addressed_of_listed known inhabited addressed
  refine ⟨_, findNodes_eq named plainKeys covers normal noColon noColon' leader filled listed, ?_⟩
  have whole : (host ++ ":" ++ port).toList = host.toList ++ ':' :: port.toList := by simp
  rw [newMaster_eq_ok_iff cleaned refines plain]
  simp only [parseHost_eq_ok_iff, noColon, noColon', not_false_eq_true, true_and, and_true,
    ← whole, String.toList_inj]

/-- The leader has registered with an internal host of another network; the switch asks the
host of its node ID, and the followers do not. -/
theorem switch_and_followers_differ :
    ∃ s slaves nodes, Run (Registry.step sampleRoot) Isolated {} s ∧
      findNodes (createAgentConf sampleConf).etcdRootPath (createAgentConf sampleConf).clusterName
        (listing (createAgentConf sampleConf).etcdRootPath
          (createAgentConf sampleConf).clusterName [.leaderPath] sampleEtcd) slaves = .ok nodes ∧
      newMaster sampleRoot s.etcd "10.0.0.1:3306" ≠ .ok (nodes.ip, nodes.port) := by
  have ran : (exec (restrict (Registry.step sampleRoot) registersPlain) {}
      (sampleSteps "192.168.0.1:3306")).any
      (fun t => t.history == (sampleSteps "192.168.0.1:3306").reverse) = true := by
    decide +kernel
  obtain ⟨s, run, found⟩ := exists_run_of_exec (fun _ _ => isolated_of_registersPlain) ran
  have history := beq_iff_eq.mp found
  have inhabited := (mem_sample_iff history "10.0.0.1:3306").mp (by simp)
  obtain ⟨nodes, result, agree⟩ := switch_and_followers_agree_iff plain_sampleConf
    (fun key _ id owner => by cases key <;> simp_all [Recovery.owner])
    (fun key stored => List.mem_singleton.mpr (sampleEtcd_entries stored))
    rfl (by decide) (by decide) (by decide) leader_sampleEtcd run
    ⟨_, inhabited⟩ (addressed_sample history) (lists_sample history run)
  refine ⟨s, _, nodes, run, result, fun same => ?_⟩
  obtain ⟨last, held, internal⟩ := agree.mp same
  have own : registered "10.0.0.1:3306" s.history =
      some ⟨1, "192.168.0.1:3306", "10.0.0.1:3306", true⟩ := by
    rw [history]
    rfl
  cases own.symm.trans held
  exact absurd internal (by decide)

end Moha.LeaderAddress
