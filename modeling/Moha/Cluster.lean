import Moha.LeaderLoop
import Moha.Runs

/-! The cluster: any number of nodes and the one etcd they share. A step is one
call of one goroutine, with what the call came back with, or one move of the
environment. Between two steps of a node any other goroutine, node or the
environment may move.

A request to etcd is answered, or applied without the caller learning it, or
lost: then the caller sees an error, and the request stays in limbo, from where
it may still be applied at any later time. -/
namespace Moha.Cluster
open KeyValueStore LeaderRecord Election LeaderLoop Runs

/-- What became of a request to etcd. -/
inductive Resolution where
  | answered
  | unanswered
  | lost
  deriving DecidableEq, Repr

inductive Action where
  | call (n : NodeID) (call : Call)
  | grant (n : NodeID) (lease : LeaseID)
  | etcd (n : NodeID) (resolution : Resolution)
  | handlerEtcd (n : NodeID) (index : Nat) (resolution : Resolution)
  | clean (n : NodeID) (resolution : Resolution)
  | late (index : Nat)
  | expire (lease : LeaseID)
  | start (n : NodeID) (uuid : String)
  | serviceStop (n : NodeID)
  | report (n : NodeID) (reports : Reports)
  deriving DecidableEq, Repr

/-- Every node has an ID that is not empty, as `node.go::NewAgentNode` sees to. -/
structure State where
  nodes : List NodeID
  named : "" ∉ nodes
  etcd : Etcd
  agents : NodeID → Agent
  limbo : List Request

/-- Nothing is stored and nothing runs. -/
def init (nodes : List NodeID) (named : "" ∉ nodes) (cfg : NodeID → Config) : State where
  nodes := nodes
  named := named
  etcd := .empty
  agents := fun id => { server := { id := id, cfg := cfg id } }
  limbo := []

/-- The lease and threshold of `etc/docker-compose/agent/node01.toml`, to start
concrete runs from. -/
def sampleCfg (_ : NodeID) : Config := ⟨false, 10, 5⟩

def State.set (c : State) (n : NodeID) (agent : Agent) : State :=
  { c with agents := Function.update c.agents n agent }

/-- A node goes on, or its process ends and what it had at etcd is in limbo. -/
def State.proceed (c : State) (n : NodeID) (next : Next) : State :=
  { c.set n next.after with limbo := c.limbo ++ next.abandoned }

/-- What a request does to etcd and limbo. -/
def State.resolve (c : State) (request : Request) : Resolution → State
  | .lost => { c with limbo := c.limbo ++ [request] }
  | _ => { c with etcd := (c.etcd.commit request.txn).1 }

/-- What the caller of a request sees of it. -/
def State.reply (c : State) (request : Request) : Resolution → Reply
  | .answered => (c.etcd.commit request.txn).2
  | _ => .error

/-- A step of the cluster; `none` when the action is not enabled. -/
def step (c : State) : Action → Option State
  | .call n call =>
    if (c.agents n).running then
      ((c.agents n).move c.etcd c.nodes call).map (c.proceed n)
    else none
  | .grant n lease =>
    if (c.agents n).running ∧ 0 ≤ lease ∧ c.etcd.leases lease = .unused then
      ((c.agents n).afterGrant lease).map ({ c with etcd := c.etcd.grant lease : State }.set n)
    else none
  | .etcd n resolution =>
    if (c.agents n).running then
      (c.agents n).pending.map fun request =>
        (c.resolve request resolution).set n
          ((c.agents n).afterRequest (c.resolve request resolution).etcd.revision
            (c.reply request resolution))
    else none
  | .handlerEtcd n index resolution =>
    if (c.agents n).running then
      ((c.agents n).handlers[index]?.bind (Handler.request (c.agents n).server.id)).map
        fun request =>
          (c.resolve request resolution).set n ((c.agents n).setHandler index .changeMasterStop)
    else none
  | .clean n resolution =>
    if n ∈ c.nodes then some (c.resolve (.startClean n c.etcd.revision) resolution) else none
  | .late index =>
    c.limbo[index]?.map fun request =>
      { c with etcd := (c.etcd.commit request.txn).1, limbo := c.limbo.eraseIdx index }
  | .expire lease =>
    if c.etcd.leases lease = .live then some { c with etcd := c.etcd.expire lease } else none
  | .start n uuid =>
    if n ∈ c.nodes ∧ (c.agents n).running = false then
      some (c.set n ((c.agents n).started uuid))
    else none
  | .serviceStop n => some (c.set n { c.agents n with writable := false })
  | .report n reports => some (c.set n { c.agents n with reports := reports })

/-- A lone node wins twice, the second time as single point master. -/
def becomesSinglePoint : List Action :=
  [.start "a" "u", .call "a" .read, .grant "a" 1, .etcd "a" .answered, .call "a" .crash, .expire 1,
    .start "a" "u", .report "a" { master := some ⟨"u", "u:1-5", 6⟩ }, .call "a" .read,
    .call "a" .upload, .etcd "a" .answered, .call "a" (.download ["a"]), .etcd "a" .answered]

/-! ### When a step is taken -/

section Taken
variable {c c' : State} {n : NodeID} {lease : LeaseID} {resolution : Resolution} {index : Nat}

theorem step_call {call : Call} (taken : step c (.call n call) = some c') :
    (c.agents n).running = true ∧
      ∃ next, (c.agents n).move c.etcd c.nodes call = some next ∧ c' = c.proceed n next := by
  simp only [step] at taken
  split at taken
  · rename_i running
    obtain ⟨next, moved, rfl⟩ := Option.map_eq_some_iff.mp taken
    exact ⟨running, next, moved, rfl⟩
  · contradiction

/-- A call that only moves the loop of the process on. -/
theorem step_advance {call : Call} (taken : step c (.call n call) = some c')
    (moves : (c.agents n).move c.etcd c.nodes call =
      ((c.agents n).advance c.etcd c.nodes call).map .continues) :
    (c.agents n).running = true ∧
      (c.agents n).advance c.etcd c.nodes call = some (c'.agents n) ∧ c'.etcd = c.etcd := by
  obtain ⟨running, next, moved, rfl⟩ := step_call taken
  rw [moves] at moved
  obtain ⟨after, advanced, rfl⟩ := Option.map_eq_some_iff.mp moved
  refine ⟨running, ?_, rfl⟩
  simpa [State.proceed, State.set, Next.after] using advanced

theorem step_grant (taken : step c (.grant n lease) = some c') :
    (c.agents n).running = true ∧ 0 ≤ lease ∧ c.etcd.leases lease = .unused ∧
      ∃ after, (c.agents n).afterGrant lease = some after ∧
        c' = { c with etcd := c.etcd.grant lease : State }.set n after := by
  simp only [step] at taken
  split at taken
  · rename_i enabled
    obtain ⟨after, granted, rfl⟩ := Option.map_eq_some_iff.mp taken
    exact ⟨enabled.1, enabled.2.1, enabled.2.2, after, granted, rfl⟩
  · contradiction

theorem step_etcd (taken : step c (.etcd n resolution) = some c') :
    (c.agents n).running = true ∧
      ∃ request, (c.agents n).pending = some request ∧
        c' = (c.resolve request resolution).set n
          ((c.agents n).afterRequest (c.resolve request resolution).etcd.revision
            (c.reply request resolution)) := by
  simp only [step] at taken
  split at taken
  · rename_i running
    obtain ⟨request, pending, rfl⟩ := Option.map_eq_some_iff.mp taken
    exact ⟨running, request, pending, rfl⟩
  · contradiction

theorem step_handlerEtcd (taken : step c (.handlerEtcd n index resolution) = some c') :
    (c.agents n).running = true ∧
      ∃ issued, (c.agents n).handlers[index]? = some (.changeMasterDelete issued) ∧
        c' = (c.resolve (.deleteLeaderKey (c.agents n).server.id issued) resolution).set n
          ((c.agents n).setHandler index .changeMasterStop) := by
  simp only [step] at taken
  split at taken
  · rename_i running
    obtain ⟨request, handled, rfl⟩ := Option.map_eq_some_iff.mp taken
    obtain ⟨handler, held, asked⟩ := Option.bind_eq_some_iff.mp handled
    cases handler <;> cases asked
    exact ⟨running, _, held, rfl⟩
  · contradiction

theorem step_clean (taken : step c (.clean n resolution) = some c') :
    n ∈ c.nodes ∧ c' = c.resolve (.startClean n c.etcd.revision) resolution := by
  simp only [step] at taken
  split at taken
  · rename_i member
    cases taken
    exact ⟨member, rfl⟩
  · contradiction

theorem step_late (taken : step c (.late index) = some c') :
    ∃ request, c.limbo[index]? = some request ∧
      c' = { c with
        etcd := (c.etcd.commit request.txn).1, limbo := c.limbo.eraseIdx index } := by
  obtain ⟨request, held, rfl⟩ := Option.map_eq_some_iff.mp taken
  exact ⟨request, held, rfl⟩

theorem step_expire (taken : step c (.expire lease) = some c') :
    c.etcd.leases lease = .live ∧ c' = { c with etcd := c.etcd.expire lease } := by
  simp only [step] at taken
  split at taken
  · rename_i live
    cases taken
    exact ⟨live, rfl⟩
  · contradiction

theorem step_start {uuid : String} (taken : step c (.start n uuid) = some c') :
    n ∈ c.nodes ∧ (c.agents n).running = false ∧
      c' = c.set n ((c.agents n).started uuid) := by
  simp only [step] at taken
  split at taken
  · rename_i enabled
    cases taken
    exact ⟨enabled.1, enabled.2, rfl⟩
  · contradiction

theorem step_serviceStop (taken : step c (.serviceStop n) = some c') :
    c' = c.set n { c.agents n with writable := false } := by
  cases taken
  rfl

theorem step_report {reports : Reports} (taken : step c (.report n reports) = some c') :
    c' = c.set n { c.agents n with reports := reports } := by
  cases taken
  rfl

end Taken

/-- The request an action applies at etcd. -/
def applied (c : State) : Action → Option Request
  | .etcd n resolution => if resolution = .lost then none else (c.agents n).pending
  | .handlerEtcd n index resolution =>
    if resolution = .lost then none
    else (c.agents n).handlers[index]?.bind (Handler.request (c.agents n).server.id)
  | .clean n resolution =>
    if resolution = .lost then none else some (.startClean n c.etcd.revision)
  | .late index => c.limbo[index]?
  | _ => none

/-- The action applies a request whose guard holds and whose lease is live. -/
def TakesEffect (c : State) (a : Action) (request : Request) : Prop :=
  applied c a = some request ∧ (c.etcd.commit request.txn).2 = .done true

instance (c : State) (a : Action) (request : Request) : Decidable (TakesEffect c a request) :=
  inferInstanceAs (Decidable (_ ∧ _))

/-- Every request is applied before its caller's next step, or never. -/
def InTime (_ : State) (a : Action) : Prop := ∀ index, a ≠ .late index

def isLate : Action → Bool
  | .late _ => true
  | _ => false

theorem inTime_of_not_isLate {c : State} {a : Action} (prompt : (!isLate a) = true) :
    InTime c a := by
  rintro index rfl
  cases prompt

end Moha.Cluster
