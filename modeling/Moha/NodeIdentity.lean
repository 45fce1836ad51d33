import Moha.LeaderView
import Moha.TearDown
import Moha.Registry

/-! The identity of a node. `node.go::NewAgentNode` takes it from the file `.node` of
the data directory; without the file from the option `node-id`, or from the external
host, which it then writes to the file. `cleaner.go::StartClean` has the file alone.
Both find the entries of the data directory as `os.Stat` does, behind links, and
`.node` and `.lock` are two files. Parsing the etcd URLs is a function of their text. -/
namespace Moha.NodeIdentity
open KeyValueStore LeaderRecord LeaderView TearDown PathText Registry

/-- What is found under a name: an error of `os.Stat`, or a file that can be read or
not. -/
inductive Entry where
  | missing
  | directory
  | file (content : String) (readable : Bool)
  deriving DecidableEq, Repr

/-- The data directory, by the names in it. -/
abbrev DataDir := String → Entry

def nodeIDFile : String := ".node"

def lockFile : String := ".lock"

/-- The part of `config.go::Config` that identifies and describes the node. -/
structure Config where
  clusterName : String
  nodeID : String
  etcdURLs : String
  etcdRootPath : String
  refreshInterval : Int
  registerTTL : Int
  internalServiceHost : String
  externalServiceHost : String
  deriving DecidableEq, Repr

/-- `node.go::agentNode`, with the root path of its client. -/
structure AgentNode where
  id : NodeID
  internalHost : String
  externalHost : String
  registerTTL : Int
  refreshInterval : Int
  rootPath : Text
  deriving DecidableEq, Repr

/-- A nanosecond count. -/
def second : Int := 10 ^ 9

def agentNode (cfg : Config) (id : NodeID) : AgentNode where
  id := id
  internalHost := cfg.internalServiceHost
  externalHost := cfg.externalServiceHost
  registerTTL := cfg.registerTTL
  refreshInterval := (cfg.refreshInterval * second).bmod (2 ^ 64)
  rootPath := rootPath cfg.etcdRootPath cfg.clusterName

/-- "local nodeID file not exist" is a NotFound error, "local nodeID file is wrong" is
none. -/
inductive ReadError where
  | notExist
  | wrong
  deriving DecidableEq, Repr

/-- `util.go::checkFileExist`. -/
def checkFileExist : Entry → Bool
  | .missing | .directory => false
  | .file _ _ => true

/-- `node.go::readLocalNodeID`. -/
def readLocalNodeID (dir : DataDir) : Except ReadError NodeID :=
  if checkFileExist (dir nodeIDFile) then
    match dir nodeIDFile with
    | .file content true => .ok content
    | _ => .error .wrong
  else .error .notExist

/-- `file.TryLockFile`: the file cannot be opened, or its lock is taken, or it is ours. -/
inductive Lock where
  | notOpened
  | taken
  | ours
  deriving DecidableEq, Repr

/-- What the system does for a start. `written` is none when `ioutil.WriteFile`
succeeds, and else what it leaves behind. -/
structure Outcomes where
  mkdirAll : Bool
  lock : Lock
  client : Bool
  mkdirAgain : Bool
  written : Option Entry
  deriving DecidableEq, Repr

inductive StartError where
  | mkdirAll
  | lock
  | etcdURLs
  | client
  | nodeID
  | writeFile
  deriving DecidableEq, Repr

/-- The lock file is created where it is missing, with nothing in it. -/
def openLock (dir : DataDir) : DataDir :=
  if dir lockFile = .missing then Function.update dir lockFile (.file "" true) else dir

/-- `node.go::checkExclusive`. -/
def checkExclusive (dir : DataDir) (outcomes : Outcomes) : DataDir × Option StartError :=
  if outcomes.mkdirAll then
    match outcomes.lock with
    | .notOpened => (dir, some .lock)
    | .taken => (openLock dir, some .lock)
    | .ours => (openLock dir, none)
  else (dir, some .mkdirAll)

/-- `node.go::generateLocalNodeID`. The file is created for its owner to read. -/
def generateLocalNodeID (cfg : Config) (dir : DataDir) (outcomes : Outcomes) :
    DataDir × Except StartError NodeID :=
  if outcomes.mkdirAgain then
    match dir nodeIDFile, outcomes.written with
    | .directory, _ => (dir, .error .writeFile)
    | _, some left => (Function.update dir nodeIDFile left, .error .writeFile)
    | _, none =>
      let id := cfg.externalServiceHost
      (Function.update dir nodeIDFile (.file id true), .ok id)
  else (dir, .error .mkdirAll)

/-- The identity that `node.go::NewAgentNode` retrieves: the file before the option, and
the option, which is not written down, before a new file. -/
def retrieveNodeID (cfg : Config) (dir : DataDir) (outcomes : Outcomes) :
    DataDir × Except StartError NodeID :=
  match readLocalNodeID dir with
  | .ok nodeID => (dir, .ok nodeID)
  | .error err =>
    if cfg.nodeID ≠ "" then (dir, .ok cfg.nodeID)
    else
      match err with
      | .notExist => generateLocalNodeID cfg dir outcomes
      | .wrong => (dir, .error .nodeID)

section Start
variable (urls : String → Option (List String)) (cfg : Config)

/-- `node.go::NewAgentNode`. -/
def newAgentNode (dir : DataDir) (outcomes : Outcomes) : DataDir × Except StartError AgentNode :=
  match checkExclusive dir outcomes with
  | (dir, some err) => (dir, .error err)
  | (dir, none) =>
    match urls cfg.etcdURLs, outcomes.client with
    | none, _ => (dir, .error .etcdURLs)
    | some _, false => (dir, .error .client)
    | some _, true =>
      let (dir, nodeID) := retrieveNodeID cfg dir outcomes
      (dir, nodeID.map (agentNode cfg))

/-- `cleaner.go::StartClean`, with the node ID that it reads. -/
def startClean (dir : DataDir) (etcd : Etcd) (outcome : CleanOutcome) : Etcd × Option CleanError :=
  match urls cfg.etcdURLs with
  | none => (etcd, some .client)
  | some _ => TearDown.startClean etcd (readLocalNodeID dir).toOption outcome

/-- The data directory after some starts, whether or not they succeed. -/
def restarted (dir : DataDir) (starts : List Outcomes) : DataDir :=
  starts.foldl (fun dir outcomes => (newAgentNode urls cfg dir outcomes).1) dir

/-- The cleaner reads this ID, and where the leader key names it and etcd answers,
removes that key and no other. -/
def CleansFor (dir : DataDir) (id : NodeID) : Prop :=
  readLocalNodeID dir = .ok id ∧
    ∀ etcd : Etcd, text etcd .leaderPath = some id →
      ∃ after : Etcd, startClean urls cfg dir etcd .committed = (after, none) ∧
        after.entries = Function.update etcd.entries .leaderPath none

/-- The start has the lock and a client. -/
def Outcomes.Available (outcomes : Outcomes) : Prop :=
  outcomes.mkdirAll = true ∧ outcomes.lock = .ours ∧ outcomes.client = true

/-- A start that has the lock and a client gives this node, and no start another. -/
def StartsAs (dir : DataDir) (node : AgentNode) : Prop :=
  ∀ outcomes : Outcomes,
    (outcomes.Available → (newAgentNode urls cfg dir outcomes).2 = .ok node) ∧
      ∀ other, (newAgentNode urls cfg dir outcomes).2 = .ok other → other = node

end Start

/-! ### The cleaner -/

theorem startClean_deletes {etcd : Etcd} {id : NodeID} (led : text etcd .leaderPath = some id) :
    ∃ after : Etcd, TearDown.startClean etcd (some id) .committed = (after, none) ∧
      after.entries = Function.update etcd.entries .leaderPath none := by
  obtain ⟨entry, held, named⟩ : (view etcd).LedBy id := ledBy_iff_asText.mpr led
  have stored : etcd.value .leaderPath = some (.text id) := by
    rw [Store.value, show etcd.entries .leaderPath = some entry from held, Option.map_some, named]
  have succeeded : (etcd.commit (Request.startClean id etcd.revision).txn).2 = .done true := by
    simp [Store.commit, Request.txn, Cmp.holds, Op.leaseLive, stored]
  obtain ⟨-, left⟩ := Store.commit_succeeded succeeded
  rcases committed : etcd.commit (Request.startClean id etcd.revision).txn with ⟨after, reply⟩
  rw [committed] at succeeded left
  cases succeeded
  refine ⟨after, ?_, left⟩
  simp only [TearDown.startClean, committed]

theorem cleansFor_of_read {urls : String → Option (List String)} {cfg : Config} {dir : DataDir}
    {id : NodeID} {endpoints : List String} (parsed : urls cfg.etcdURLs = some endpoints)
    (read : readLocalNodeID dir = .ok id) : CleansFor urls cfg dir id := by
  refine ⟨read, fun etcd led => ?_⟩
  rw [startClean, parsed, read]
  exact startClean_deletes led

/-! ### The file -/

section Files
variable {cfg : Config} {dir dir' : DataDir} {outcomes : Outcomes} {id : NodeID}

theorem readLocalNodeID_congr (same : dir' nodeIDFile = dir nodeIDFile) :
    readLocalNodeID dir' = readLocalNodeID dir := by
  simp only [readLocalNodeID, same]

theorem readLocalNodeID_update (content : String) :
    readLocalNodeID (Function.update dir nodeIDFile (.file content true)) = .ok content := by
  simp [readLocalNodeID, checkFileExist]

theorem openLock_nodeIDFile : openLock dir nodeIDFile = dir nodeIDFile := by
  unfold openLock
  split
  · exact Function.update_of_ne (by decide) _ _
  · rfl

theorem checkExclusive_nodeIDFile :
    (checkExclusive dir outcomes).1 nodeIDFile = dir nodeIDFile := by
  unfold checkExclusive
  split
  · cases outcomes.lock with
    | notOpened => rfl
    | taken => exact openLock_nodeIDFile
    | ours => exact openLock_nodeIDFile
  · rfl

theorem locked_of_checkExclusive (checked : checkExclusive dir outcomes = (dir', none)) :
    outcomes.mkdirAll = true ∧ outcomes.lock = .ours := by
  unfold checkExclusive at checked
  split at checked
  · rename_i made
    cases ours : outcomes.lock <;> simp [ours] at checked
    exact ⟨made, rfl⟩
  · simp at checked

/-- A generated identity is in the file. -/
theorem generated (written : generateLocalNodeID cfg dir outcomes = (dir', .ok id)) :
    readLocalNodeID dir' = .ok id := by
  unfold generateLocalNodeID at written
  split at written
  · split at written
    · simp at written
    · simp at written
    · simp only [Prod.mk.injEq, Except.ok.injEq] at written
      obtain ⟨rfl, rfl⟩ := written
      exact readLocalNodeID_update _
  · simp at written

/-- Either the file names the node, or no file can be read and the option does. -/
def Settled (cfg : Config) (dir : DataDir) (id : NodeID) : Prop :=
  readLocalNodeID dir = .ok id ∨
    (∃ err, readLocalNodeID dir = .error err) ∧ cfg.nodeID ≠ "" ∧ cfg.nodeID = id

theorem Settled.congr (settled : Settled cfg dir id) (same : dir' nodeIDFile = dir nodeIDFile) :
    Settled cfg dir' id := by
  rwa [Settled, readLocalNodeID_congr same]

theorem Settled.retrieve (settled : Settled cfg dir id) :
    retrieveNodeID cfg dir outcomes = (dir, .ok id) := by
  rcases settled with read | ⟨⟨err, failed⟩, given, rfl⟩
  · simp only [retrieveNodeID, read]
  · simp only [retrieveNodeID, failed, if_pos given]

theorem settled_of_retrieve (retrieved : retrieveNodeID cfg dir outcomes = (dir', .ok id)) :
    Settled cfg dir' id := by
  unfold retrieveNodeID at retrieved
  cases read : readLocalNodeID dir with
  | ok found =>
    simp only [read, Prod.mk.injEq, Except.ok.injEq] at retrieved
    obtain ⟨rfl, rfl⟩ := retrieved
    exact .inl read
  | error err =>
    simp only [read] at retrieved
    split at retrieved
    · rename_i given
      simp only [Prod.mk.injEq, Except.ok.injEq] at retrieved
      obtain ⟨rfl, rfl⟩ := retrieved
      exact .inr ⟨⟨err, read⟩, given, rfl⟩
    · cases err with
      | notExist => exact .inl (generated retrieved)
      | wrong => simp at retrieved

/-- The identity is in the file afterwards unless the option stood in for it. -/
theorem read_of_retrieve_iff (retrieved : retrieveNodeID cfg dir outcomes = (dir', .ok id)) :
    readLocalNodeID dir' = .ok id ↔ cfg.nodeID = "" ∨ ∃ found, readLocalNodeID dir = .ok found := by
  have settled := settled_of_retrieve retrieved
  cases read : readLocalNodeID dir with
  | ok found =>
    have settled' : Settled cfg dir found := .inl read
    rw [settled'.retrieve] at retrieved
    cases retrieved
    exact iff_of_true read (.inr ⟨id, rfl⟩)
  | error err =>
    by_cases given : cfg.nodeID = ""
    · have stored : readLocalNodeID dir' = .ok id :=
        settled.resolve_right fun option => option.2.1 given
      exact iff_of_true stored (.inl given)
    · -- the option is taken, and the file is still one that cannot be read
      have settled' : Settled cfg dir cfg.nodeID := .inr ⟨⟨err, read⟩, given, rfl⟩
      rw [settled'.retrieve] at retrieved
      cases retrieved
      simp [read, given]

end Files

section Restarts
variable {urls : String → Option (List String)} {cfg : Config} {dir dir' : DataDir}
  {outcomes : Outcomes} {id : NodeID} {node : AgentNode} {endpoints : List String}

theorem newAgentNode_of_available (parsed : urls cfg.etcdURLs = some endpoints)
    (available : outcomes.Available) :
    newAgentNode urls cfg dir outcomes =
      ((retrieveNodeID cfg (openLock dir) outcomes).1,
        (retrieveNodeID cfg (openLock dir) outcomes).2.map (agentNode cfg)) := by
  obtain ⟨made, ours, client⟩ := available
  simp only [newAgentNode, checkExclusive, made, ours, client, parsed, if_true]

/-- A start that fails before it comes to the identity leaves the file alone. -/
theorem newAgentNode_of_unavailable
    (stopped : ¬ (outcomes.Available ∧ ∃ endpoints, urls cfg.etcdURLs = some endpoints)) :
    (newAgentNode urls cfg dir outcomes).1 nodeIDFile = dir nodeIDFile ∧
      ∃ err, (newAgentNode urls cfg dir outcomes).2 = .error err := by
  have kept : (checkExclusive dir outcomes).1 nodeIDFile = dir nodeIDFile :=
    checkExclusive_nodeIDFile
  unfold newAgentNode
  -- only the lock file may have been created by then
  rcases checked : checkExclusive dir outcomes with ⟨dir', _ | err⟩ <;> rw [checked] at kept
  · cases parsed : urls cfg.etcdURLs with
    | none => exact ⟨kept, _, rfl⟩
    | some endpoints =>
      cases client : outcomes.client with
      | false => exact ⟨kept, _, rfl⟩
      | true =>
        obtain ⟨made, ours⟩ := locked_of_checkExclusive checked
        exact absurd ⟨⟨made, ours, client⟩, endpoints, parsed⟩ stopped
  · exact ⟨kept, err, rfl⟩

theorem started_available (started : newAgentNode urls cfg dir outcomes = (dir', .ok node)) :
    outcomes.Available ∧ ∃ endpoints, urls cfg.etcdURLs = some endpoints := by
  by_contra stopped
  have failed : ∃ err, (newAgentNode urls cfg dir outcomes).2 = .error err :=
    (newAgentNode_of_unavailable stopped).2
  simp [started] at failed

/-- What a start retrieves when it succeeds. -/
theorem retrieve_of_started (started : newAgentNode urls cfg dir outcomes = (dir', .ok node)) :
    retrieveNodeID cfg (openLock dir) outcomes = (dir', .ok node.id) ∧
      node = agentNode cfg node.id := by
  obtain ⟨available, endpoints, parsed⟩ := started_available started
  rw [newAgentNode_of_available parsed available] at started
  rcases retrieved : retrieveNodeID cfg (openLock dir) outcomes with ⟨left, err | id⟩
  · simp [retrieved, Except.map] at started
  · simp only [retrieved, Except.map, Prod.mk.injEq, Except.ok.injEq] at started
    obtain ⟨rfl, rfl⟩ := started
    exact ⟨rfl, rfl⟩

/-- Once the identity is settled a start leaves the file alone, whether or not it
succeeds. -/
theorem Settled.newAgentNode_nodeIDFile (settled : Settled cfg dir id) :
    (newAgentNode urls cfg dir outcomes).1 nodeIDFile = dir nodeIDFile := by
  by_cases reached : outcomes.Available ∧ ∃ endpoints, urls cfg.etcdURLs = some endpoints
  · obtain ⟨available, endpoints, parsed⟩ := reached
    have opened : Settled cfg (openLock dir) id := settled.congr openLock_nodeIDFile
    rw [newAgentNode_of_available parsed available, opened.retrieve]
    exact openLock_nodeIDFile
  · exact (newAgentNode_of_unavailable reached).1

theorem Settled.restarted_nodeIDFile (settled : Settled cfg dir id) (starts : List Outcomes) :
    restarted urls cfg dir starts nodeIDFile = dir nodeIDFile := by
  -- the directory varies over the starts, and its identity stays settled
  induction starts generalizing dir with
  | nil => rfl
  | cons outcomes rest ih =>
    have kept : (newAgentNode urls cfg dir outcomes).1 nodeIDFile = dir nodeIDFile :=
      settled.newAgentNode_nodeIDFile
    exact (ih (settled.congr kept)).trans kept

theorem Settled.startsAs (settled : Settled cfg dir id)
    (parsed : urls cfg.etcdURLs = some endpoints) : StartsAs urls cfg dir (agentNode cfg id) := by
  have opened : Settled cfg (openLock dir) id := settled.congr openLock_nodeIDFile
  refine fun outcomes => ⟨fun available => ?_, fun other started => ?_⟩
  · rw [newAgentNode_of_available parsed available, opened.retrieve]
    rfl
  · obtain ⟨retrieved, same⟩ := retrieve_of_started (Prod.ext rfl started)
    rw [opened.retrieve, Prod.mk.injEq, Except.ok.injEq] at retrieved
    rw [retrieved.2, ← same]

theorem settled_of_started (started : newAgentNode urls cfg dir outcomes = (dir', .ok node)) :
    Settled cfg dir' node.id :=
  settled_of_retrieve (retrieve_of_started started).1

/-- A start leaves its identity in the file, unless the option stood in for a file. -/
theorem read_of_started_iff (started : newAgentNode urls cfg dir outcomes = (dir', .ok node)) :
    readLocalNodeID dir' = .ok node.id ↔
      cfg.nodeID = "" ∨ ∃ found, readLocalNodeID dir = .ok found := by
  have opened : readLocalNodeID (openLock dir) = readLocalNodeID dir :=
    readLocalNodeID_congr openLock_nodeIDFile
  rw [read_of_retrieve_iff (retrieve_of_started started).1, opened]

/-- After a start, and any number of others in the same data directory, the cleaner acts
for the node and a start gives it again, exactly when the option did not stand in for a
file. The option is stable over starts, and only the cleaner does not know it. -/
theorem cleaner_acts_for_agent_iff
    (started : newAgentNode urls cfg dir outcomes = (dir', .ok node)) :
    (∀ starts : List Outcomes,
      CleansFor urls cfg (restarted urls cfg dir' starts) node.id ∧
        StartsAs urls cfg (restarted urls cfg dir' starts) node) ↔
      cfg.nodeID = "" ∨ ∃ found, readLocalNodeID dir = .ok found := by
  obtain ⟨-, endpoints, parsed⟩ := started_available started
  have same : node = agentNode cfg node.id := (retrieve_of_started started).2
  rw [← read_of_started_iff started]
  constructor
  · intro acts
    exact (acts []).1.1
  · intro read starts
    have settled := settled_of_started started
    have kept : restarted urls cfg dir' starts nodeIDFile = dir' nodeIDFile :=
      settled.restarted_nodeIDFile starts
    refine ⟨cleansFor_of_read parsed ((readLocalNodeID_congr kept).trans read), ?_⟩
    rw [same]
    exact (settled.congr kept).startsAs parsed

/-- Where the option stood in for a file, the cleaner changes nothing. -/
theorem startClean_of_option (started : newAgentNode urls cfg dir outcomes = (dir', .ok node))
    (given : cfg.nodeID ≠ "") (unread : ∀ found, readLocalNodeID dir ≠ .ok found) (etcd : Etcd)
    (outcome : CleanOutcome) :
    ∃ err, startClean urls cfg dir' etcd outcome = (etcd, some err) := by
  obtain ⟨-, endpoints, parsed⟩ := started_available started
  have missing : ¬ readLocalNodeID dir' = .ok node.id := by
    simp [read_of_started_iff started, given, unread]
  obtain ⟨⟨err, failed⟩, -⟩ := (settled_of_started started).resolve_left missing
  rw [startClean, parsed, failed]
  cases outcome with
  | noClient => exact ⟨.client, rfl⟩
  | noAnswer => exact ⟨.nodeID, rfl⟩
  | committed => exact ⟨.nodeID, rfl⟩

end Restarts

/-- One URL, as it stands. -/
def oneURL (text : String) : Option (List String) := some [text]

def sampleConfig (nodeID : String) : Config where
  clusterName := "mysql"
  nodeID := nodeID
  etcdURLs := "http://127.0.0.1:2379"
  etcdRootPath := "/dbproxy"
  refreshInterval := 2
  registerTTL := 60
  internalServiceHost := "127.0.0.1:3306"
  externalServiceHost := "10.0.0.1:3306"

def emptyDir : DataDir := fun _ => .missing

def granted : Outcomes where
  mkdirAll := true
  lock := .ours
  client := true
  mkdirAgain := true
  written := none

/-- Without the option the external host is written down, and the cleaner finds it. -/
theorem cleaner_acts_for_generated_id :
    (newAgentNode oneURL (sampleConfig "") emptyDir granted).2 =
        .ok (agentNode (sampleConfig "") "10.0.0.1:3306") ∧
      ∀ starts : List Outcomes,
        CleansFor oneURL (sampleConfig "")
            (restarted oneURL (sampleConfig "")
              (newAgentNode oneURL (sampleConfig "") emptyDir granted).1 starts)
            "10.0.0.1:3306" ∧
          StartsAs oneURL (sampleConfig "")
            (restarted oneURL (sampleConfig "")
              (newAgentNode oneURL (sampleConfig "") emptyDir granted).1 starts)
            (agentNode (sampleConfig "") "10.0.0.1:3306") := by
  have started : (newAgentNode oneURL (sampleConfig "") emptyDir granted).2 =
      .ok (agentNode (sampleConfig "") "10.0.0.1:3306") := by rfl
  exact ⟨started, (cleaner_acts_for_agent_iff (Prod.ext rfl started)).mpr (.inl rfl)⟩

/-- With the option and an empty data directory the agent runs as "a", and the cleaner
leaves the leader key that names "a". -/
theorem cleaner_misses_option :
    (newAgentNode oneURL (sampleConfig "a") emptyDir granted).2 =
        .ok (agentNode (sampleConfig "a") "a") ∧
      text sampleState.etcd .leaderPath = some "a" ∧
      (startClean oneURL (sampleConfig "a")
        (newAgentNode oneURL (sampleConfig "a") emptyDir granted).1
        sampleState.etcd .committed).2 = some .nodeID ∧
      text (startClean oneURL (sampleConfig "a")
        (newAgentNode oneURL (sampleConfig "a") emptyDir granted).1
        sampleState.etcd .committed).1 .leaderPath = some "a" := by
  decide +kernel

end Moha.NodeIdentity
