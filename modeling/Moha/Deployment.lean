import Moha.Recovery

/-! A cluster as `moctl` sets it up and finds it again. `CreateAgentConf` writes the
configuration that the agent, the switch and the recovery all read. The agent joins the root
path, the cluster name and a key with `path.Join`; the switch concatenates the same texts,
lists what begins with `/slave`, and takes the last element of a key for a node. -/
namespace Moha.Deployment
open DecimalText KeyValueStore LeaderRecord PathText Recovery Registry Runs

/-- `conf.go::AgentConf`, without the data directory, which is not used. -/
structure AgentConf where
  hostAddress : String
  port : String
  instanceName : String
  proxyName : String
  etcdURL : String
  etcdUser : String
  etcdPasswd : String
  agentUser : String
  agentPasswd : String
  mysqlReplUser : String
  mysqlReplPasswd : String

structure DBConfig where
  host : String
  user : String
  password : String
  port : Int
  timeout : String
  replicationUser : String
  replicationPassword : String
  replicationNet : String

/-- The configuration of an agent as it is generated. -/
structure AgentFile where
  clusterName : String
  leaderLeaseTTL : Nat
  shutdownThreshold : Nat
  dataDir : String
  listenAddr : String
  etcdURLs : String
  registerTTL : Nat
  etcdRootPath : String
  etcdUsername : String
  etcdPassword : String
  logLevel : String
  logFile : String
  logMaxSize : Nat
  logMaxDays : Nat
  logCompress : Bool
  dbConfig : DBConfig
  internalServiceHost : String
  externalServiceHost : String
  forkProcessFile : String
  forkProcessArgs : List String
  forkProcessWaitSecond : Nat

/-- `conf.go::CreateAgentConf`. A port that is no number is logged. -/
def createAgentConf (cfg : AgentConf) : AgentFile where
  clusterName := cfg.port ++ "_" ++ cfg.instanceName
  leaderLeaseTTL := 30
  shutdownThreshold := 5
  dataDir := "/tmp/" ++ cfg.port ++ "_" ++ cfg.instanceName
  listenAddr := "http://127.0.0.1:1" ++ cfg.port
  etcdURLs := cfg.etcdURL
  registerTTL := 10
  etcdRootPath := "/dbproxy/" ++ cfg.proxyName ++ "/ks_cfg/nodes/"
  etcdUsername := cfg.etcdUser
  etcdPassword := cfg.etcdPasswd
  logLevel := "info"
  logFile := "/agent/log/mysql-agent.log"
  logMaxSize := 30
  logMaxDays := 5
  logCompress := true
  dbConfig :=
    { host := cfg.hostAddress
      user := cfg.agentUser
      password := cfg.agentPasswd
      port := (parseInt cfg.port.toList).1
      timeout := "1s"
      replicationUser := cfg.mysqlReplUser
      replicationPassword := cfg.mysqlReplPasswd
      replicationNet := "%" }
  internalServiceHost := cfg.hostAddress ++ ":" ++ cfg.port
  externalServiceHost := cfg.hostAddress ++ ":" ++ cfg.port
  forkProcessFile := "/usr/local/bin/docker-entrypoint.sh"
  forkProcessArgs :=
    ["docker-entrypoint.sh", "mysqld", "--defaults-file=/etc/my_" ++ cfg.port ++ ".cnf"]
  forkProcessWaitSecond := 60

/-! ### What the switch finds -/

inductive Stop where
  | singleMode
  | exits
  | panics
  deriving DecidableEq, Repr

/-- The first two elements of `strings.Split` at colons. -/
def splitHost (text : Text) : Option (Text × Text) :=
  match text.splitOn ':' with
  | host :: port :: _ => some (host, port)
  | _ => none

/-- The second result of `path.Split`. -/
def baseName (key : Text) : Text := (key.splitOn '/').getLastD []

/-- The loop of `switch.go::main` over the listed nodes, which leaves the master out. -/
def realSlaveInfo (ip port : Text) : List Text → Except Stop (List Text)
  | [] => .ok []
  | slave :: rest =>
    match splitHost slave with
    | none => .error .panics
    | some (slaveIP, slavePort) =>
      if ip = slaveIP ∧ port = slavePort then realSlaveInfo ip port rest
      else (realSlaveInfo ip port rest).map (slave :: ·)

structure Nodes where
  ip : Text
  port : Text
  slaves : List Text
  deriving DecidableEq, Repr

/-- `getSingleMasterMode`, `getInstanceGroupMaster` and `getInstanceGroupSlave` as
`switch.go::main` calls them, with the loop behind them. `kvs` is what etcd holds of the
election, and `slaves` the keys in its answer to the last request. -/
def findNodes (rootPath cluster : String) (kvs : List (Text × Value)) (slaves : List Text) :
    Except Stop Nodes :=
  let path := rootPath.toList ++ cluster.toList
  if (get kvs (path ++ "/single_point_master".toList)).isSome then .error .singleMode
  else
    match get kvs (path ++ "/master".toList) with
    | none => .error .exits
    | some value =>
      match splitHost (valueText value).toList with
      | none => .error .panics
      | some (ip, port) =>
        if slaves = [] then .error .exits
        else (realSlaveInfo ip port (slaves.map baseName)).map fun real => ⟨ip, port, real⟩

/-- The keys that etcd answers a request for the keys with a prefix with. -/
structure Lists (etcd : Registers) (start : Text) (keys : List Text) : Prop where
  nodup : keys.Nodup
  stored : ∀ key, key ∈ keys ↔ start <+: key ∧ etcd.entries key ≠ none

/-- A host and a port, with no further colon. -/
structure Addressed (id : Text) : Prop where
  shape : ∃ host port, id = host ++ ':' :: port ∧ ':' ∉ host ∧ ':' ∉ port

/-! ### The paths -/

section Paths
variable {cfg : AgentConf}

/-- The names in a configuration that become elements of a path. -/
structure PlainNames (cfg : AgentConf) : Prop where
  proxy : Plain cfg.proxyName.toList
  port : '/' ∉ cfg.port.toList
  instanceName : '/' ∉ cfg.instanceName.toList

theorem PlainNames.cluster (plain : PlainNames cfg) :
    Plain (createAgentConf cfg).clusterName.toList := by
  have text : (createAgentConf cfg).clusterName.toList =
      cfg.port.toList ++ '_' :: cfg.instanceName.toList := by
    simp [createAgentConf]
  have member : '_' ∈ (createAgentConf cfg).clusterName.toList := by simp [text]
  refine ⟨?_, ?_, ?_, ?_⟩
  · exact List.ne_nil_of_mem member
  · intro dot
    rw [dot] at member
    exact absurd member (by decide)
  · intro dots
    rw [dots] at member
    exact absurd member (by decide)
  · rw [text]
    simp [plain.port, plain.instanceName]

/-- The elements of the generated root path, and of the cluster below it. -/
def rootParts (cfg : AgentConf) : List Text :=
  ["dbproxy".toList, cfg.proxyName.toList, "ks_cfg".toList, "nodes".toList]

theorem PlainNames.parts (plain : PlainNames cfg) : ∀ part ∈ rootParts cfg, Plain part := by
  simp only [rootParts, List.forall_mem_cons, List.not_mem_nil, false_implies, implies_true,
    and_true]
  exact ⟨by decide, plain.proxy, by decide, by decide⟩

theorem etcdRootPath_toList :
    (createAgentConf cfg).etcdRootPath.toList =
      ['/'].intercalate ([] :: rootParts cfg ++ [[]]) := by
  simp [createAgentConf, rootParts, List.intercalate_cons_cons]

/-- Joining gives the concatenation. -/
theorem rootPath_eq (plain : PlainNames cfg) :
    rootPath (createAgentConf cfg).etcdRootPath (createAgentConf cfg).clusterName =
      render true ((createAgentConf cfg).clusterName.toList :: (rootParts cfg).reverse) ∧
    render true ((createAgentConf cfg).clusterName.toList :: (rootParts cfg).reverse) =
      (createAgentConf cfg).etcdRootPath.toList ++ (createAgentConf cfg).clusterName.toList := by
  have start : (createAgentConf cfg).etcdRootPath.toList ≠ [] := by
    simp [etcdRootPath_toList, rootParts, List.intercalate_cons_cons]
  have rooted : isRooted (createAgentConf cfg).etcdRootPath.toList = true := by
    simp [etcdRootPath_toList, rootParts, List.intercalate_cons_cons, isRooted]
  have split : (createAgentConf cfg).etcdRootPath.toList.splitOn '/' =
      [] :: rootParts cfg ++ [[]] := by
    rw [etcdRootPath_toList, List.splitOn_intercalate '/' _ (by simp)]
    intro part member
    simp only [List.cons_append, List.mem_cons, List.mem_append, List.not_mem_nil, or_false]
      at member
    rcases member with rfl | named | rfl
    · exact List.not_mem_nil
    · exact (plain.parts part named).noSlash
    · exact List.not_mem_nil
  have empty : ∀ stack, push true stack [] = stack := fun stack => by simp [push]
  have held : elements (createAgentConf cfg).etcdRootPath.toList = (rootParts cfg).reverse := by
    rw [elements, rooted, split, List.cons_append, List.foldl_cons, empty, List.foldl_append,
      foldl_push_plain plain.parts]
    simp [empty]
  constructor
  · have appended := @clean_append _ [(createAgentConf cfg).clusterName.toList] start
      (by simpa using plain.cluster) (by simp)
    rw [rooted, held] at appended
    simpa [rootPath, join, start] using appended
  · simp [render, etcdRootPath_toList, rootParts, List.intercalate_cons_cons]

/-- What the agent puts before a key is what the switch concatenates, and a slash. -/
theorem under_rootPath (plain : PlainNames cfg) :
    under (rootPath (createAgentConf cfg).etcdRootPath (createAgentConf cfg).clusterName) =
      (createAgentConf cfg).etcdRootPath.toList ++
        ((createAgentConf cfg).clusterName.toList ++ ['/']) := by
  have normal : Normal true ((createAgentConf cfg).clusterName.toList ::
      (rootParts cfg).reverse) := by
    have stack : ∀ parts : List Text, (∀ part ∈ parts, Plain part) → Normal true parts := by
      intro parts all
      induction parts with
      | nil => trivial
      | cons first rest ih =>
        obtain ⟨head, tail⟩ := List.forall_mem_cons.mp all
        exact ⟨ih tail, .inl head⟩
    exact ⟨stack _ (by simpa using plain.parts), .inl plain.cluster⟩
  obtain ⟨joined, text⟩ := rootPath_eq plain
  rw [joined, under_render normal (List.cons_ne_nil _ _), text, List.append_assoc]

theorem keyText_of_generated (plain : PlainNames cfg) {key : Key} (plainKey : PlainKey key) :
    keyText (createAgentConf cfg).etcdRootPath (createAgentConf cfg).clusterName key =
      (createAgentConf cfg).etcdRootPath.toList ++
        (createAgentConf cfg).clusterName.toList ++ '/' :: ['/'].intercalate (parts key) := by
  rw [keyText_eq plainKey, under_rootPath plain]
  simp

end Paths

/-! ### The keys of the registry -/

section Registered
variable {root : Text} {s s' : Registry.State} {a : Registry.Action}

def registerKey (root : Text) (id : String) : Text :=
  keyWithRootPath root (join [registryPath, id.toList])

/-- Every key is of a registration or of a position. -/
def Keyed (root : Text) (s : Registry.State) : Prop :=
  ∀ key, s.etcd.entries key ≠ none → ∃ id : String, Plain id.toList ∧
    (key = registerKey root id ∨ key = keyWithRootPath root (join [refreshPath, id.toList]))

theorem stored_of_put {etcd : Registers} {key written : Text} {record : Record}
    {lease : Option LeaseID}
    (stored : (etcd.commit ⟨[], [.put written record lease]⟩).1.entries key ≠ none) :
    key = written ∨ etcd.entries key ≠ none := by
  by_cases same : key = written
  · exact .inl same
  · right
    intro absent
    apply stored
    unfold Store.commit
    split
    · split
      · simp [Op.changes, Store.write, applyOps, Op.apply, Function.update_of_ne same, absent]
      · exact absent
    · exact absent

theorem Keyed.step (keyed : Keyed root s) (isolated : Isolated s a)
    (taken : Registry.step root s a = some s') : Keyed root s' := by
  intro key stored
  cases a with
  | grant lease =>
    simp only [Registry.step] at taken
    split at taken <;> cases taken
    exact keyed key stored
  | register lease id internalHost externalHost isMaster =>
    simp only [Registry.step] at taken
    split at taken <;> cases taken
    rcases stored_of_put stored with rfl | before
    · exact ⟨id, isolated, .inl rfl⟩
    · exact keyed key before
  | unregister agent id =>
    simp only [Registry.step] at taken
    split at taken <;> cases taken
    · exact keyed key stored
    · refine keyed key fun absent => stored ?_
      simp [unregisterNode, Store.deleteWhere, absent]
  | refresh id latestPos =>
    simp only [Registry.step] at taken
    cases taken
    rcases stored_of_put stored with rfl | before
    · exact ⟨id, isolated, .inr rfl⟩
    · exact keyed key before
  | expire lease =>
    simp only [Registry.step] at taken
    split at taken <;> cases taken
    refine keyed key fun absent => stored ?_
    simp [Store.expire, absent]

def PlainIDs (s : Registry.State) : Prop :=
  ∀ id : String, registered id s.history ≠ none → Plain id.toList

theorem PlainIDs.step (plain : PlainIDs s) (isolated : Isolated s a)
    (taken : Registry.step root s a = some s') : PlainIDs s' := by
  have history : s'.history = a :: s.history := by
    unfold Registry.step at taken
    cases a <;> dsimp only at taken <;> (repeat' split at taken) <;> cases taken <;> rfl
  intro id held
  rw [history] at held
  cases a with
  | register lease other internalHost externalHost isMaster =>
    simp only [registered] at held
    split at held
    · rename_i same
      exact same ▸ isolated
    · exact plain id held
  | unregister agent other =>
    simp only [registered] at held
    split at held
    · exact absurd rfl held
    · exact plain id held
  | expire lease =>
    simp only [registered] at held
    refine plain id fun absent => held ?_
    rw [absent]
    rfl
  | grant | refresh => exact plain id held

/-- The keys that begin with the directory of the registry are those of the nodes that are
registered. -/
theorem registered_of_begun (cleaned : Cleaned root) (refines : Refines root s)
    (keyed : Keyed root s) {key : Text} (begun : under root ++ registryPath <+: key)
    (stored : s.etcd.entries key ≠ none) :
    ∃ id : String, Plain id.toList ∧ registered id s.history ≠ none ∧
      key = registerKey root id := by
  obtain ⟨id, plain, rfl | rfl⟩ := keyed key stored
  · refine ⟨id, plain, fun absent => stored ?_, rfl⟩
    have same := refines id plain
    rw [absent] at same
    exact Option.map_eq_none_iff.mp same
  · rw [keyWithRootPath_pair cleaned plain_refreshPath plain, List.append_assoc,
      List.prefix_append_right_inj] at begun
    obtain ⟨rest, same⟩ := begun
    have heads := congrArg List.head? same
    rw [List.head?_append_of_ne_nil _ plain_registryPath.nonempty,
      List.head?_append_of_ne_nil _ plain_refreshPath.nonempty] at heads
    exact absurd heads (by decide)

/-- What holds in every state of the registry. -/
theorem facts_of_run {path cluster : String}
    (run : Run (Registry.step (rootPath path cluster)) Isolated {} s) :
    Refines (rootPath path cluster) s ∧ Keyed (rootPath path cluster) s ∧ PlainIDs s := by
  refine ⟨?_, ?_, ?_⟩
  · exact run.invariant (fun _ _ => rfl) fun refines isolated taken =>
      refines_step (cleaned_join _) refines isolated taken
  · exact run.invariant (fun _ stored => absurd rfl stored) fun keyed isolated taken =>
      keyed.step isolated taken
  · exact run.invariant (fun _ held => absurd rfl held) fun plain isolated taken =>
      plain.step isolated taken

theorem stored_of_registered (refines : Refines root s) {id : String} (plain : Plain id.toList)
    (held : registered id s.history ≠ none) : s.etcd.entries (registerKey root id) ≠ none := by
  intro absent
  have same := refines id plain
  rw [← registerKey, absent] at same
  exact held (Option.map_eq_none_iff.mp same.symm)

theorem baseName_registerKey (cleaned : Cleaned root) {id : String} (plain : Plain id.toList) :
    baseName (registerKey root id) = id.toList := by
  rw [registerKey, keyWithRootPath_pair cleaned plain_registryPath plain, baseName,
    List.splitOn, List.splitOnP_append_cons _ _ (by simp), List.getLastD_eq_getLast?,
    List.getLast?_append_of_ne_nil _ (List.splitOnP_ne_nil _ _)]
  have single : List.splitOnP (· == '/') id.toList = [id.toList] :=
    List.splitOn_eq_singleton plain.noSlash
  rw [single]
  rfl

/-- The listed nodes, by their registrations. -/
theorem mem_map_baseName (cleaned : Cleaned root) (refines : Refines root s)
    (keyed : Keyed root s) {keys : List Text}
    (lists : Lists s.etcd (under root ++ registryPath) keys) (plain : PlainIDs s) (id : String) :
    id.toList ∈ keys.map baseName ↔ registered id s.history ≠ none := by
  constructor
  · intro member
    obtain ⟨key, listed, name⟩ := List.mem_map.mp member
    obtain ⟨begun, stored⟩ := (lists.stored key).mp listed
    obtain ⟨other, plainOther, held, rfl⟩ := registered_of_begun cleaned refines keyed begun stored
    rw [baseName_registerKey cleaned plainOther, String.toList_inj] at name
    exact name ▸ held
  · intro held
    have own := plain id held
    refine List.mem_map.mpr ⟨registerKey root id, (lists.stored _).mpr ⟨?_, ?_⟩,
      baseName_registerKey cleaned own⟩
    · rw [registerKey, keyWithRootPath_pair cleaned plain_registryPath own]
      exact List.prefix_append _ _
    · exact stored_of_registered refines own held

/-- The answer that lists the registered nodes. -/
theorem lists_registered (cleaned : Cleaned root) (refines : Refines root s)
    (keyed : Keyed root s) {ids : List String} (nodup : ids.Nodup)
    (held : ∀ id, id ∈ ids ↔ registered id s.history ≠ none) (plain : PlainIDs s) :
    Lists s.etcd (under root ++ registryPath) (ids.map (registerKey root)) where
  nodup := by
    refine nodup.map_on fun first memberFirst second memberSecond same => ?_
    exact register_key_injective cleaned (plain first ((held first).mp memberFirst))
      (plain second ((held second).mp memberSecond)) same
  stored := fun key => by
    constructor
    · intro member
      obtain ⟨id, listed, rfl⟩ := List.mem_map.mp member
      have registered := (held id).mp listed
      refine ⟨?_, stored_of_registered refines (plain id registered) registered⟩
      rw [registerKey, keyWithRootPath_pair cleaned plain_registryPath (plain id registered)]
      exact List.prefix_append _ _
    · rintro ⟨begun, stored⟩
      obtain ⟨id, _, registered, rfl⟩ := registered_of_begun cleaned refines keyed begun stored
      exact List.mem_map.mpr ⟨id, (held id).mpr registered, rfl⟩

theorem nodup_map_baseName (cleaned : Cleaned root) (refines : Refines root s)
    (keyed : Keyed root s) {keys : List Text}
    (lists : Lists s.etcd (under root ++ registryPath) keys) : (keys.map baseName).Nodup := by
  refine List.Nodup.map_on ?_ lists.nodup
  intro first memberFirst second memberSecond same
  obtain ⟨begun, stored⟩ := (lists.stored first).mp memberFirst
  obtain ⟨begun', stored'⟩ := (lists.stored second).mp memberSecond
  obtain ⟨id, plain, _, rfl⟩ := registered_of_begun cleaned refines keyed begun stored
  obtain ⟨other, plainOther, _, rfl⟩ := registered_of_begun cleaned refines keyed begun' stored'
  rw [baseName_registerKey cleaned plain, baseName_registerKey cleaned plainOther,
    String.toList_inj] at same
  rw [same]

end Registered

/-! ### The nodes -/

theorem splitHost_addressed {host port : Text} (noColon : ':' ∉ host) (noColon' : ':' ∉ port) :
    splitHost (host ++ ':' :: port) = some (host, port) := by
  have single : ∀ {text : Text}, ':' ∉ text → List.splitOnP (· == ':') text = [text] :=
    fun absent => List.splitOn_eq_singleton absent
  rw [splitHost, List.splitOn, List.splitOnP_append_cons _ _ (by simp), single noColon,
    single noColon']
  rfl

theorem realSlaveInfo_eq {ip port : Text} {listed : List Text} (noColon : ':' ∉ ip)
    (noColon' : ':' ∉ port) (addressed : ∀ slave ∈ listed, Addressed slave) :
    realSlaveInfo ip port listed = .ok (listed.filter (· ≠ ip ++ ':' :: port)) := by
  induction listed with
  | nil => rfl
  | cons slave rest ih =>
    obtain ⟨first, others⟩ := List.forall_mem_cons.mp addressed
    obtain ⟨host, own, rfl, absent, absent'⟩ := first.shape
    have tail := ih others
    rw [realSlaveInfo, splitHost_addressed absent absent']
    by_cases same : ip = host ∧ port = own
    · obtain ⟨rfl, rfl⟩ := same
      simpa using tail
    · have apart : host ++ ':' :: own ≠ ip ++ ':' :: port := by
        intro texts
        have split := congrArg splitHost texts
        rw [splitHost_addressed absent absent', splitHost_addressed noColon noColon'] at split
        cases split
        exact same ⟨rfl, rfl⟩
      dsimp only
      rw [if_neg same, tail, List.filter_cons_of_pos (by simpa using apart)]
      rfl

theorem value_of_text {etcd : Etcd} {key : Key} {stored : String}
    (found : text etcd key = some stored) : etcd.value key = some (.text stored) := by
  unfold LeaderRecord.text asText at found
  split at found
  · rename_i entry held
    cases found
    rw [Store.value, held]
    rfl
  · cases found

/-- The nodes that the switch works with, for a generated configuration, outside the single
point mode and with a leader. -/
theorem findNodes_eq {cfg : AgentConf} (named : PlainNames cfg) {etcd : Etcd} {keys : List Key}
    (plainKeys : ∀ key ∈ keys, PlainKey key)
    (covers : ∀ key, etcd.entries key ≠ none → key ∈ keys)
    (normal : etcd.entries .spmPath = none) {host port : String} (noColon : ':' ∉ host.toList)
    (noColon' : ':' ∉ port.toList)
    (leader : text etcd .leaderPath = some (host ++ ":" ++ port)) {slaves : List Text}
    (filled : slaves ≠ []) (listed : ∀ slave ∈ slaves.map baseName, Addressed slave) :
    findNodes (createAgentConf cfg).etcdRootPath (createAgentConf cfg).clusterName
        (listing (createAgentConf cfg).etcdRootPath (createAgentConf cfg).clusterName keys etcd)
        slaves =
      .ok ⟨host.toList, port.toList,
        (slaves.map baseName).filter (· ≠ host.toList ++ ':' :: port.toList)⟩ := by
  have plainSpm : PlainKey .spmPath := fun _ none => nomatch none
  have plainLeader : PlainKey .leaderPath := fun _ none => nomatch none
  have spm := @get_listing (createAgentConf cfg).etcdRootPath (createAgentConf cfg).clusterName
    keys etcd .spmPath plainKeys plainSpm covers
  have master := @get_listing (createAgentConf cfg).etcdRootPath (createAgentConf cfg).clusterName
    keys etcd .leaderPath plainKeys plainLeader covers
  rw [keyText_of_generated named plainSpm, Store.value, normal] at spm
  rw [keyText_of_generated named plainLeader, value_of_text leader] at master
  have split : splitHost (host ++ ":" ++ port).toList = some (host.toList, port.toList) := by
    simpa using splitHost_addressed noColon noColon'
  have spmKey : '/' :: ['/'].intercalate (parts .spmPath) = "/single_point_master".toList := by
    simp [parts]
  have masterKey : '/' :: ['/'].intercalate (parts .leaderPath) = "/master".toList := by
    simp [parts]
  rw [spmKey] at spm
  rw [masterKey] at master
  have text : (valueText (.text (host ++ ":" ++ port))).toList =
      (host ++ ":" ++ port).toList := rfl
  simp only [findNodes, spm, master, Option.map_none, Option.isSome_none, Bool.false_eq_true,
    if_false, text, split, if_neg filled, realSlaveInfo_eq noColon noColon' listed]
  rfl

/-- The switch lists the directory that the agents register in. -/
theorem directory_eq {cfg : AgentConf} (named : PlainNames cfg) :
    under (rootPath (createAgentConf cfg).etcdRootPath (createAgentConf cfg).clusterName) ++
        registryPath =
      (createAgentConf cfg).etcdRootPath.toList ++ (createAgentConf cfg).clusterName.toList ++
        "/slave".toList := by
  rw [under_rootPath named]
  simp [registryPath]

/-- The node IDs in etcd's answer are those that are registered. -/
theorem listed_of_run {cfg : AgentConf} (named : PlainNames cfg) {s : Registry.State}
    (run : Run (Registry.step (rootPath (createAgentConf cfg).etcdRootPath
      (createAgentConf cfg).clusterName)) Isolated {} s)
    {slaves : List Text}
    (lists : Lists s.etcd ((createAgentConf cfg).etcdRootPath.toList ++
      (createAgentConf cfg).clusterName.toList ++ "/slave".toList) slaves) :
    (slaves.map baseName).Nodup ∧
      ∀ id : String, id.toList ∈ slaves.map baseName ↔ registered id s.history ≠ none := by
  have cleaned : Cleaned (rootPath (createAgentConf cfg).etcdRootPath
      (createAgentConf cfg).clusterName) := cleaned_join _
  obtain ⟨refines, keyed, plain⟩ := facts_of_run run
  rw [← directory_eq named] at lists
  exact ⟨nodup_map_baseName cleaned refines keyed lists,
    mem_map_baseName cleaned refines keyed lists plain⟩

/-- Of a registry with addressed nodes, the answer is not empty and has only such nodes. -/
theorem addressed_of_listed {s : Registry.State} {slaves : List Text}
    (known : ∀ id : String, id.toList ∈ slaves.map baseName ↔ registered id s.history ≠ none)
    (inhabited : ∃ id, registered id s.history ≠ none)
    (addressed : ∀ id : String, registered id s.history ≠ none → Addressed id.toList) :
    slaves ≠ [] ∧ ∀ slave ∈ slaves.map baseName, Addressed slave := by
  constructor
  · rintro rfl
    obtain ⟨id, held⟩ := inhabited
    exact absurd ((known id).mpr held) (by simp)
  · intro slave member
    have held := known (String.ofList slave)
    rw [String.toList_ofList] at held
    simpa using addressed _ (held.mp member)

/-- The switch finds the cluster that the agents make up. For a generated configuration, in
every state of the registry and of the election outside the single point mode, with a leader:
the switch takes the leader for the master, and for slaves exactly the other nodes that are
registered. -/
theorem switch_finds_cluster {cfg : AgentConf} (named : PlainNames cfg)
    {etcd : Etcd} {keys : List Key} (plainKeys : ∀ key ∈ keys, PlainKey key)
    (covers : ∀ key, etcd.entries key ≠ none → key ∈ keys)
    (normal : etcd.entries .spmPath = none) {host port : String} (noColon : ':' ∉ host.toList)
    (noColon' : ':' ∉ port.toList)
    (leader : text etcd .leaderPath = some (host ++ ":" ++ port)) {s : Registry.State}
    (run : Run (Registry.step (rootPath (createAgentConf cfg).etcdRootPath
      (createAgentConf cfg).clusterName)) Isolated {} s)
    (inhabited : ∃ id, registered id s.history ≠ none)
    (addressed : ∀ id : String, registered id s.history ≠ none → Addressed id.toList)
    {slaves : List Text}
    (lists : Lists s.etcd ((createAgentConf cfg).etcdRootPath.toList ++
      (createAgentConf cfg).clusterName.toList ++ "/slave".toList) slaves) :
    ∃ nodes, findNodes (createAgentConf cfg).etcdRootPath (createAgentConf cfg).clusterName
        (listing (createAgentConf cfg).etcdRootPath (createAgentConf cfg).clusterName keys etcd)
        slaves = .ok nodes ∧
      nodes.ip = host.toList ∧ nodes.port = port.toList ∧ nodes.slaves.Nodup ∧
      ∀ id : String, id.toList ∈ nodes.slaves ↔
        registered id s.history ≠ none ∧ id ≠ host ++ ":" ++ port := by
  obtain ⟨nodup, known⟩ := listed_of_run named run lists
  obtain ⟨filled, listed⟩ := addressed_of_listed known inhabited addressed
  refine ⟨_, findNodes_eq named plainKeys covers normal noColon noColon' leader filled listed,
    rfl, rfl, nodup.filter _, fun id => ?_⟩
  have text : id = host ++ ":" ++ port ↔ id.toList = host.toList ++ ':' :: port.toList := by
    rw [← String.toList_inj]
    simp
  rw [List.mem_filter, known, decide_eq_true_eq, ne_eq id, text]

/-! ### A cluster of two -/

def sampleConf : AgentConf :=
  ⟨"10.0.0.1", "3306", "app", "proxy", "http://10.0.0.9:2379", "root", "", "agent", "", "repl", ""⟩

theorem plain_sampleConf : PlainNames sampleConf := ⟨by decide, by decide, by decide⟩

def sampleRoot : Text :=
  rootPath (createAgentConf sampleConf).etcdRootPath (createAgentConf sampleConf).clusterName

/-- Two nodes register, the first with the given internal host. -/
def sampleSteps (internalHost : String) : List Registry.Action :=
  [.grant 1, .register 1 "10.0.0.1:3306" internalHost "10.0.0.1:3306" true,
    .register 1 "10.0.0.2:3306" "10.0.0.2:3306" "10.0.0.2:3306" false]

/-- etcd with the leader key. -/
def sampleEtcd : Etcd :=
  (Store.empty.commit ⟨[], [.put .leaderPath (.text "10.0.0.1:3306") none]⟩).1

theorem leader_sampleEtcd :
    text sampleEtcd .leaderPath = some ("10.0.0.1" ++ ":" ++ "3306") := rfl

theorem sampleEtcd_entries {key : Key} (stored : sampleEtcd.entries key ≠ none) :
    key = .leaderPath := by
  by_contra other
  apply stored
  simp [sampleEtcd, Store.commit, Op.changes, Op.leaseLive, Store.write, applyOps, Op.apply,
    Function.update_of_ne other, Store.empty]

def registersPlain (_ : Registry.State) : Registry.Action → Bool
  | .register _ nodeID _ _ _ => decide (Plain nodeID.toList)
  | .grant _ | .expire _ => true
  | _ => false

theorem isolated_of_registersPlain {s : Registry.State} {action : Registry.Action}
    (allowed : registersPlain s action = true) : Isolated s action := by
  cases action with
  | register => simpa [registersPlain, Isolated] using allowed
  | grant | expire => trivial
  | unregister | refresh => cases allowed

section Sample
variable {s : Registry.State} {internalHost : String}
  (history : s.history = (sampleSteps internalHost).reverse)
include history

theorem mem_sample_iff (id : String) :
    id ∈ ["10.0.0.1:3306", "10.0.0.2:3306"] ↔ registered id s.history ≠ none := by
  rw [history]
  simp only [sampleSteps, List.reverse_cons, List.reverse_nil, List.nil_append,
    List.cons_append, registered, List.mem_cons, List.not_mem_nil, or_false]
  by_cases second : "10.0.0.2:3306" = id
  · simp [second]
  · by_cases first : "10.0.0.1:3306" = id
    · simp [second, first]
    · simp [second, first, Ne.symm second, Ne.symm first]

theorem addressed_sample (id : String) (held : registered id s.history ≠ none) :
    Addressed id.toList := by
  rcases List.mem_pair.mp ((mem_sample_iff history id).mpr held) with rfl | rfl
  · exact ⟨"10.0.0.1".toList, "3306".toList, by simp, by decide, by decide⟩
  · exact ⟨"10.0.0.2".toList, "3306".toList, by simp, by decide, by decide⟩

theorem lists_sample (run : Run (Registry.step sampleRoot) Isolated {} s) :
    Lists s.etcd ((createAgentConf sampleConf).etcdRootPath.toList ++
        (createAgentConf sampleConf).clusterName.toList ++ "/slave".toList)
      (["10.0.0.1:3306", "10.0.0.2:3306"].map (registerKey sampleRoot)) := by
  obtain ⟨refines, keyed, plain⟩ := facts_of_run run
  rw [← directory_eq plain_sampleConf]
  exact lists_registered (cleaned_join _) refines keyed (by decide) (mem_sample_iff history) plain

end Sample

/-- The first node leads; the switch finds it, and the second one as its slave. -/
theorem switch_finds_cluster_of_two :
    ∃ slaves nodes, findNodes (createAgentConf sampleConf).etcdRootPath
        (createAgentConf sampleConf).clusterName
        (listing (createAgentConf sampleConf).etcdRootPath
          (createAgentConf sampleConf).clusterName [.leaderPath] sampleEtcd) slaves = .ok nodes ∧
      nodes.ip = "10.0.0.1".toList ∧ nodes.port = "3306".toList ∧
      ∀ id : String, id.toList ∈ nodes.slaves ↔ id = "10.0.0.2:3306" := by
  have ran : (exec (restrict (Registry.step sampleRoot) registersPlain) {}
      (sampleSteps "10.0.0.1:3306")).any
      (fun t => t.history == (sampleSteps "10.0.0.1:3306").reverse) = true := by
    decide +kernel
  obtain ⟨s, run, found⟩ := exists_run_of_exec (fun _ _ => isolated_of_registersPlain) ran
  have history := beq_iff_eq.mp found
  have held := mem_sample_iff history
  obtain ⟨nodes, result, ip, port, _, slaves⟩ := switch_finds_cluster plain_sampleConf
    (fun key _ id owner => by cases key <;> simp_all [Recovery.owner])
    (fun key stored => List.mem_singleton.mpr (sampleEtcd_entries stored))
    rfl (by decide) (by decide) leader_sampleEtcd run
    ⟨"10.0.0.1:3306", (held _).mp (by simp)⟩ (addressed_sample history)
    (lists_sample history run)
  refine ⟨_, nodes, result, ip, port, fun id => ?_⟩
  rw [slaves, ← held id]
  constructor
  · rintro ⟨listed, other⟩
    rcases List.mem_pair.mp listed with rfl | rfl
    · exact absurd rfl other
    · rfl
  · rintro rfl
    exact ⟨by simp, by decide⟩

end Moha.Deployment
