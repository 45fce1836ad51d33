import Moha.ClusterSteps

/-! The global term grows with every campaign, as long as the campaigns that
win are of the current term. A campaign compares only that the leader key is
gone and puts the campaigner's own term plus one, so a node that joins without
a stored term, or lags behind, wins a term that was won before. When the
winners are current, nothing else lowers the global term: a resume puts it back
as it was, since the node that resumes has nothing on its way that could win
the key behind its back. -/
namespace Moha.TermGrowth
open KeyValueStore DecimalText LeaderRecord LeaderView Election LeaderLoop Cluster ClusterSteps Runs

/-- A term as it is stored: nothing stands for zero. -/
def Stored (text : Option String) (term : UInt64) : Prop :=
  text = some (sprint term) ∨ text = none ∧ term = 0

/-- The number under `election/master/term`. -/
def globalTerm (etcd : Etcd) : UInt64 := ((text etcd .termPath).bind parseUint).getD 0

/-- A campaign wins only under the term that is stored, and no resume is applied
after its caller went on. -/
def CurrentWins (c : State) (a : Action) : Prop :=
  (∀ request s, TakesEffect c a request → request.campaigner = some s →
    Stored (text c.etcd .termPath) s.term) ∧
  ∀ index request, a = .late index → c.limbo[index]? = some request → request.resumer = none

theorem Stored.read {text : Option String} {term : UInt64} (stored : Stored text term) :
    (text.bind parseUint).getD 0 = term := by
  rcases stored with rfl | ⟨rfl, rfl⟩
  · simp
  · rfl

theorem Stored.unique {text : Option String} {first second : UInt64} (stored : Stored text first)
    (again : Stored text second) : first = second :=
  stored.read.symm.trans again.read

theorem Stored.globalTerm {etcd : Etcd} {term : UInt64}
    (stored : Stored (view etcd).record.term term) : globalTerm etcd = term := stored.read

/-- A campaign that may still win: of a term that was reached, and of an earlier
term if its node leads already. -/
structure MayWin (etcd : Etcd) (n : NodeID) (term : UInt64) : Prop where
  reached : term ≤ globalTerm etcd
  small : term.toNat < 2 ^ 63
  past : (view etcd).LedBy n → term < globalTerm etcd

/-- What the loop of `n` holds against the global term. -/
def LoopBound (c : State) (n : NodeID) : Phase → Prop
  | .checking leader => leader.leaderMeta.term ≤ globalTerm c.etcd ∧
      (c.agents n).server.term ≤ globalTerm c.etcd
  | .following => (c.agents n).server.term ≤ globalTerm c.etcd
  | .campaigning => MayWin c.etcd n (c.agents n).server.term
  | .resuming _ => (c.agents n).server.term ≤ globalTerm c.etcd ∧
      ((view c.etcd).LedBy n → (c.agents n).server.term = globalTerm c.etcd) ∧
      ∀ request ∈ c.limbo, ∀ s, request.campaigner = some s → s.id = n →
        s.term < (c.agents n).server.term
  | .idle | .promoting => True

structure TermBound (c : State) : Prop where
  formed : WellFormed c
  global : Stored (view c.etcd).record.term (globalTerm c.etcd)
  small : (globalTerm c.etcd).toNat ≤ 2 ^ 63
  published : ∀ n, (view c.etcd).LedBy n → (view c.etcd).record.term ≠ none
  terms : ∀ n, ∃ term, Stored ((view c.etcd).terms n) term ∧ term ≤ globalTerm c.etcd
  loops : ∀ n, (c.agents n).running = true → LoopBound c n (phase (c.agents n).loop)
  campaigns : ∀ request ∈ c.limbo, ∀ s, request.campaigner = some s → MayWin c.etcd s.id s.term
  persists : ∀ s, .persistMyTerm s ∈ c.limbo → s.term ≤ globalTerm c.etcd

theorem termBound_init (nodes : List NodeID) (named : "" ∉ nodes) (cfg : NodeID → Config) :
    TermBound (init nodes named cfg) where
  formed := wellFormed_init nodes named cfg
  global := .inr ⟨rfl, rfl⟩
  small := Nat.zero_le _
  published := by
    rintro n ⟨entry, held, _⟩
    cases held
  terms := fun n => ⟨0, .inr ⟨rfl, rfl⟩, UInt64.le_refl 0⟩
  loops := by
    intro n running
    cases running
  campaigns := by
    intro request member
    cases member
  persists := by
    intro s member
    cases member

/-! ### What a step does to the terms -/

/-- A campaign that is on its way. -/
def OnItsWay (c : State) (request : Request) : Prop :=
  request ∈ c.limbo ∨
    ∃ n, (c.agents n).running = true ∧ (c.agents n).pending = some request

inductive TermMove (c c' : State) : Prop where
  | same (term : (view c'.etcd).record.term = (view c.etcd).record.term)
      (led : ∀ n, (view c'.etcd).LedBy n → (view c.etcd).LedBy n)
      (terms : ∀ n, (view c'.etcd).terms n = (view c.etcd).terms n ∨
        ∃ term, Stored ((view c'.etcd).terms n) term ∧ term ≤ globalTerm c.etcd)
  | raised {request : Request} {s : Server} (onItsWay : OnItsWay c request)
      (campaigns : request.campaigner = some s) (current : s.term = globalTerm c.etcd)
      (small : s.term.toNat < 2 ^ 63)
      (term : (view c'.etcd).record.term = some (sprint (s.term + 1)))
      (led : ∀ n, (view c'.etcd).LedBy n → s.id = n)
      (terms : ∀ n, (view c'.etcd).terms n = (view c.etcd).terms n ∨
        (view c'.etcd).terms n = some (sprint (s.term + 1)))

theorem onItsWay_of_campaigner {c c' : State} {a : Action} {request : Request} {s : Server}
    (taken : step c a = some c') (effect : TakesEffect c a request)
    (campaigns : request.campaigner = some s) : OnItsWay c request := by
  cases applier taken effect.1 with
  | loop _ running pending => exact .inr ⟨_, running, pending⟩
  | handler _ _ _ asked => subst asked; cases campaigns
  | cleaner _ asked => subst asked; cases campaigns
  | late _ held => exact .inl (List.mem_of_getElem? held)

theorem TermBound.mayWin {c : State} {request : Request} {s : Server} (bound : TermBound c)
    (onItsWay : OnItsWay c request) (campaigns : request.campaigner = some s) :
    MayWin c.etcd s.id s.term := by
  rcases onItsWay with limbo | ⟨n, running, pending⟩
  · exact bound.campaigns request limbo s campaigns
  · obtain ⟨rfl, campaigning⟩ := pending_campaigner pending campaigns
    have loop := bound.loops n running
    rw [campaigning] at loop
    rw [bound.formed.id n]
    exact loop

/-- A resume puts the global term back as it was. -/
private theorem resume_keeps_term {c c' : State} {a : Action} {request : Request} {s : Server}
    (bound : TermBound c) (wins : CurrentWins c a) (taken : step c a = some c')
    (effect : TakesEffect c a request) (resumes : request.resumer = some s)
    (led : (view c.etcd).LedBy s.id) :
    (view c.etcd).record.term = some (sprint s.term) := by
  cases applier taken effect.1 with
  | @loop n _ _ running pending =>
    obtain ⟨rfl, resuming⟩ := pending_resumer pending resumes
    have loop := bound.loops n running
    rw [resuming] at loop
    rw [bound.formed.id n] at led
    rw [loop.2.1 led]
    exact bound.global.resolve_right fun absent => bound.published n led absent.1
  | handler _ _ _ asked => subst asked; cases resumes
  | cleaner _ asked => subst asked; cases resumes
  | late action held =>
    rw [wins.2 _ request action held] at resumes
    cases resumes

/-- A stored term that a request other than a campaign puts was reached. -/
private theorem terms_kept {c c' : State} {a : Action} {request : Request} (bound : TermBound c)
    (taken : step c a = some c') (effect : TakesEffect c a request)
    (campaigns : request.campaigner = none) (n : NodeID) :
    (act (c.etcd.revision + 1) (view c.etcd) request).terms n = (view c.etcd).terms n ∨
      ∃ term, Stored ((act (c.etcd.revision + 1) (view c.etcd) request).terms n) term ∧
        term ≤ globalTerm c.etcd := by
  cases request with
  | campaignLeader | campaignLeaderAsSinglePoint => cases campaigns
  | resumeLeaderAsSinglePoint s =>
    by_cases same : n = s.id
    · exact .inr ⟨0, .inl (by simp [act, View.setTerm, same]), UInt64.zero_le⟩
    · exact .inl (by simp [act, View.setTerm, View.publish, Function.update_of_ne same])
  | persistMyTerm s =>
    by_cases same : n = s.id
    · refine .inr ⟨s.term, .inl (by simp [act, View.setTerm, same]), ?_⟩
      cases applier taken effect.1 with
      | @loop m _ _ running pending =>
        obtain ⟨rfl, following⟩ := pending_persistMyTerm pending
        have loop := bound.loops m running
        rw [following] at loop
        exact loop
      | handler _ _ _ asked => cases asked
      | cleaner _ asked => cases asked
      | late _ held => exact bound.persists s (List.mem_of_getElem? held)
    · exact .inl (by simp [act, View.setTerm, Function.update_of_ne same])
  | resumeLeader | deleteLeaderKey | startClean | removeSPM | uploadLogForElection
  | uploadPromotionBinlog => exact .inl rfl

theorem step_term {c c' : State} {a : Action} (bound : TermBound c) (wins : CurrentWins c a)
    (taken : step c a = some c') : TermMove c c' := by
  cases step_view bound.formed taken with
  | same unchanged =>
    exact .same (by rw [unchanged]) (fun n led => unchanged ▸ led) fun n => .inl (by rw [unchanged])
  | expire _ expired =>
    refine .same (by rw [expired]; rfl) (fun n led => ?_) fun n => .inl (by rw [expired]; rfl)
    rw [expired] at led
    exact led.of_expire
  | @effect request effect guard acted =>
    rcases request_kinds request with ⟨s, campaigns⟩ | ⟨s, resumes⟩ | ⟨id, removes⟩ | other
    · have onItsWay := onItsWay_of_campaigner taken effect campaigns
      have current := Stored.globalTerm (wins.1 request s effect campaigns)
      have small := (bound.mayWin onItsWay campaigns).small
      refine .raised onItsWay campaigns current.symm small ?_ ?_ ?_
      · rw [acted, record_act_campaigner campaigns]
        rfl
      · intro n led
        rw [acted] at led
        exact led_act (.inl campaigns) led
      · intro n
        rw [acted, terms_act_campaigner campaigns]
        by_cases same : n = s.id
        · exact .inr (by rw [same, Function.update_self])
        · exact .inl (Function.update_of_ne same _ _)
    · have campaigns : request.campaigner = none := by
        cases request <;> cases resumes <;> rfl
      have before := guard_resumer resumes guard
      refine .same ?_ ?_ ?_
      · rw [acted, record_act_resumer resumes]
        exact (resume_keeps_term bound wins taken effect resumes before).symm
      · intro n led
        rw [acted] at led
        rw [← led_act (.inr resumes) led]
        exact before
      · intro n
        rw [acted]
        exact terms_kept bound taken effect campaigns n
    · have campaigns : request.campaigner = none := by
        cases request <;> cases removes <;> rfl
      refine .same (by rw [acted, (act_remover removes).2.1]) ?_ ?_
      · intro n led
        rw [acted] at led
        exact absurd led (led_act_remover removes)
      · intro n
        rw [acted]
        exact terms_kept bound taken effect campaigns n
    · refine .same (by rw [acted, (act_other other.1 other.2.1 other.2.2).2.2]) ?_ ?_
      · intro n led
        rw [acted] at led
        exact (led_act_other other).mp led
      · intro n
        rw [acted]
        exact terms_kept bound taken effect other.1 n

private theorem globalTerm_of_same {c c' : State}
    (term : (view c'.etcd).record.term = (view c.etcd).record.term) :
    globalTerm c'.etcd = globalTerm c.etcd := by
  change ((view c'.etcd).record.term.bind parseUint).getD 0 = _
  rw [term]
  rfl

private theorem globalTerm_of_raised {c' : State} {s : Server} (small : s.term.toNat < 2 ^ 63)
    (term : (view c'.etcd).record.term = some (sprint (s.term + 1))) :
    globalTerm c'.etcd = s.term + 1 ∧ (s.term + 1).toNat = s.term.toNat + 1 := by
  refine ⟨Stored.globalTerm (.inl term), ?_⟩
  rw [UInt64.toNat_add]
  change (s.term.toNat + 1) % 2 ^ 64 = _
  omega

theorem TermMove.le {c c' : State} (move : TermMove c c') :
    globalTerm c.etcd ≤ globalTerm c'.etcd := by
  cases move with
  | same term => rw [globalTerm_of_same term]; exact UInt64.le_refl _
  | raised _ _ current small term =>
    obtain ⟨raised, next⟩ := globalTerm_of_raised small term
    rw [raised, ← current, UInt64.le_iff_toNat_le, next]
    exact Nat.le_succ _

/-- Only a campaign under way for the node itself can make a node lead. -/
theorem TermMove.led {c c' : State} {n : NodeID} (move : TermMove c c')
    (led : (view c'.etcd).LedBy n) :
    (view c.etcd).LedBy n ∧ globalTerm c'.etcd = globalTerm c.etcd ∨
      ∃ request s, OnItsWay c request ∧ request.campaigner = some s ∧ s.id = n ∧
        s.term = globalTerm c.etcd ∧ globalTerm c.etcd < globalTerm c'.etcd := by
  cases move with
  | same term before => exact .inl ⟨before n led, globalTerm_of_same term⟩
  | @raised request s onItsWay campaigns current small term name =>
    obtain ⟨raised, next⟩ := globalTerm_of_raised small term
    refine .inr ⟨request, s, onItsWay, campaigns, name n led, current, ?_⟩
    rw [raised, ← current, UInt64.lt_iff_toNat_lt, next]
    exact Nat.lt_succ_self _

private theorem MayWin.step {c c' : State} {n : NodeID} {term : UInt64} (move : TermMove c c')
    (mayWin : MayWin c.etcd n term) : MayWin c'.etcd n term where
  reached := UInt64.le_trans mayWin.reached move.le
  small := mayWin.small
  past := by
    intro led
    rcases move.led led with ⟨before, same⟩ | ⟨_, _, _, _, _, _, grown⟩
    · rw [same]
      exact mayWin.past before
    · exact UInt64.lt_of_le_of_lt mayWin.reached grown

private theorem campaigns_step {c c' : State} {a : Action} (bound : TermBound c)
    (move : TermMove c c') (taken : step c a = some c') {request : Request}
    (member : request ∈ c'.limbo) {s : Server} (campaigns : request.campaigner = some s) :
    MayWin c'.etcd s.id s.term := by
  refine MayWin.step move ?_
  rcases step_limbo taken request member with before | ⟨n, running, outstanding⟩ | ⟨_, _, rfl⟩
  · exact bound.campaigns request before s campaigns
  · obtain ⟨rfl, campaigning⟩ := outstanding_campaigner outstanding campaigns
    have loop := bound.loops n running
    rw [campaigning] at loop
    rw [bound.formed.id n]
    exact loop
  · cases campaigns

private theorem persists_step {c c' : State} {a : Action} (bound : TermBound c)
    (move : TermMove c c') (taken : step c a = some c') {s : Server}
    (member : .persistMyTerm s ∈ c'.limbo) : s.term ≤ globalTerm c'.etcd := by
  refine UInt64.le_trans ?_ move.le
  rcases step_limbo taken _ member with before | ⟨n, running, outstanding⟩ | ⟨_, _, clean⟩
  · exact bound.persists s before
  · obtain ⟨rfl, following⟩ := outstanding_persistMyTerm outstanding
    have loop := bound.loops n running
    rw [following] at loop
    exact loop
  · cases clean

/-- The campaigns in limbo after a step that a node does not make as a
campaigner were in limbo before. -/
private theorem limbo_campaign {c c' : State} {a : Action} (formed : WellFormed c)
    (taken : step c a = some c') {request : Request} (member : request ∈ c'.limbo) {s : Server}
    (campaigns : request.campaigner = some s)
    (elsewhere : phase (c.agents s.id).loop ≠ .campaigning) : request ∈ c.limbo := by
  rcases step_limbo taken request member with before | ⟨n, running, outstanding⟩ | ⟨_, _, rfl⟩
  · exact before
  · obtain ⟨rfl, campaigning⟩ := outstanding_campaigner outstanding campaigns
    rw [formed.id n] at elsewhere
    exact absurd campaigning elsewhere
  · cases campaigns

/-- A loop that does not move keeps its bound. -/
private theorem LoopBound.step {c c' : State} {a : Action} {n : NodeID} {place : Phase}
    (bound : TermBound c) (move : TermMove c c') (taken : step c a = some c')
    (stood : phase (c.agents n).loop = place)
    (term : (c'.agents n).server.term = (c.agents n).server.term)
    (loop : LoopBound c n place) : LoopBound c' n place := by
  cases place with
  | idle | promoting => trivial
  | checking leader =>
    exact ⟨UInt64.le_trans loop.1 move.le, term ▸ UInt64.le_trans loop.2 move.le⟩
  | following =>
    rw [LoopBound, term]
    exact UInt64.le_trans loop move.le
  | campaigning =>
    rw [LoopBound, term]
    exact MayWin.step move loop
  | resuming singlePoint =>
    obtain ⟨reached, leading, earlier⟩ := loop
    refine ⟨term ▸ UInt64.le_trans reached move.le, ?_, ?_⟩
    · intro led
      rw [term]
      rcases move.led led with ⟨before, same⟩ | ⟨request, s, onItsWay, campaigns, name, current, _⟩
      · rw [same]
        exact leading before
      · exfalso
        rcases onItsWay with limbo | ⟨m, _, pending⟩
        · -- an earlier campaign of a node that resumes is not of the current term
          have past := earlier request limbo s campaigns name
          rw [current] at past
          exact absurd (UInt64.lt_of_lt_of_le past reached) (UInt64.lt_irrefl _)
        · obtain ⟨rfl, campaigning⟩ := pending_campaigner pending campaigns
          rw [bound.formed.id m] at name
          subst name
          rw [stood] at campaigning
          cases campaigning
    · intro request member s campaigns name
      rw [term]
      have away : phase (c.agents s.id).loop ≠ .campaigning := by
        rw [name, stood]
        simp
      have before := limbo_campaign bound.formed taken member campaigns away
      exact earlier request before s campaigns name

theorem preWatch_term (s : Server) (reports : Reports) (leader : Leader) :
    (preWatch s reports leader).1.term = s.term ∨
      (preWatch s reports leader).1.term = leader.leaderMeta.term := by
  obtain ⟨loaded, same, after | after⟩ := preWatch_fst s reports leader
  · rw [after]
    rcases same with rfl | ⟨info, rfl⟩
    · exact .inl rfl
    · exact .inl rfl
  · exact .inr (by rw [after])

/-- What a read finds is within the bounds: the global term, and a stored term
that was reached. -/
private theorem read_bound {c : State} {n : NodeID} {leader : Leader} {myTerm : UInt64}
    (bound : TermBound c)
    (found : (c.agents n).server.getLeaderAndMyTerm c.etcd = .ok (leader, myTerm)) :
    leader.leaderMeta.term = globalTerm c.etcd ∧ (globalTerm c.etcd).toNat < 2 ^ 63 ∧
      myTerm ≤ globalTerm c.etcd ∧ leader.name = (asText (view c.etcd).leader).getD "" := by
  obtain ⟨term, parsed, mine, rfl⟩ := Server.getLeaderAndMyTerm_eq_ok found
  obtain ⟨stored, held, reached⟩ := bound.terms n
  have global : term = globalTerm c.etcd ∧ (globalTerm c.etcd).toNat < 2 ^ 63 := by
    rcases bound.global with published | ⟨absent, zero⟩
    · exact readTerm_stored published parsed
    · rw [zero]
      exact ⟨readTerm_absent absent parsed, by decide⟩
  have own : myTerm = stored := by
    rw [bound.formed.id n] at mine
    rcases held with held | ⟨absent, rfl⟩
    · exact readMyTerm_stored held mine
    · exact readMyTerm_absent absent mine
  exact ⟨global.1, global.2, own ▸ reached, rfl⟩

private theorem loops_read {c c' : State} {a : Action} {n : NodeID} {leader : Leader}
    {myTerm : UInt64} (bound : TermBound c) (taken : step c a = some c')
    (unchanged : view c'.etcd = view c.etcd) (running : (c.agents n).running = true)
    (idle : (c.agents n).loop = .getLeader)
    (found : (c.agents n).server.getLeaderAndMyTerm c.etcd = .ok (leader, myTerm))
    (result : c'.agents n = (c.agents n).afterRead leader myTerm) :
    LoopBound c' n (phase (c'.agents n).loop) := by
  obtain ⟨published, small, own, name⟩ := read_bound bound found
  have sameTerm : globalTerm c'.etcd = globalTerm c.etcd := globalTerm_of_same (by rw [unchanged])
  have move := afterRead_move (c.agents n) leader myTerm
  rw [← result] at move
  cases move with
  | itself present self loop term =>
    rw [loop]
    refine ⟨?_, ?_, ?_⟩
    · rw [term, published, sameTerm]
      exact UInt64.le_refl _
    · intro _
      rw [term, published, sameTerm]
    · intro request member s campaigns same
      rw [term, published]
      have away : phase (c.agents s.id).loop ≠ .campaigning := by
        rw [same, idle]
        simp [phase]
      have before := limbo_campaign bound.formed taken member campaigns away
      refine (bound.campaigns request before s campaigns).past ?_
      rw [ledBy_iff_asText, same]
      rw [bound.formed.id n] at self
      cases held : asText (view c.etcd).leader with
      | none =>
        rw [held] at name
        exact absurd name present
      | some other =>
        rw [held] at name
        rw [← self, name]
        rfl
  | another _ _ loop memory =>
    rw [loop]
    refine ⟨?_, ?_⟩
    · rw [published, sameTerm]
      exact UInt64.le_refl _
    · rw [memory.term, sameTerm]
      exact own
  | vacant absent loop memory =>
    rcases loop with loop | loop
    · rw [loop]
      trivial
    · rw [loop, LoopBound, memory.term]
      refine ⟨sameTerm ▸ own, ?_, ?_⟩
      · exact Nat.lt_of_le_of_lt (UInt64.le_iff_toNat_le.mp own) small
      · intro led
        rw [unchanged, ledBy_iff_asText] at led
        rw [led, absent] at name
        -- the name of a running node is not empty
        have member := bound.formed.member n running
        rw [← (show "" = n from name)] at member
        exact absurd member c.named

private theorem loops_step {c c' : State} {a : Action} (bound : TermBound c)
    (move : TermMove c c') (taken : step c a = some c') {n : NodeID}
    (running : (c'.agents n).running = true) : LoopBound c' n (phase (c'.agents n).loop) := by
  cases step_move taken n with
  | kept same memory kept =>
    rcases kept with kept | idle
    · rw [kept]
      exact LoopBound.step bound move taken rfl memory.term (bound.loops n (same ▸ running))
    · rw [idle]
      trivial
  | stopped _ stopped => rw [stopped] at running; contradiction
  | started _ _ _ result =>
    rw [result]
    trivial
  | read was action idle found result =>
    have unchanged : view c'.etcd = view c.etcd := by
      subst action
      obtain ⟨_, _, _, rfl⟩ := step_call taken
      rfl
    exact loops_read bound taken unchanged was idle found result
  | @preWatched leader was _ stood result =>
    have loop := bound.loops n was
    rw [stood] at loop
    obtain ⟨published, own⟩ := loop
    have reached : (c'.agents n).server.term ≤ globalTerm c'.etcd := by
      refine UInt64.le_trans ?_ move.le
      rw [result]
      rcases preWatch_term (c.agents n).server (c.agents n).reports leader with same | lifted
      · exact same ▸ own
      · exact lifted ▸ published
    have place : phase (c'.agents n).loop = .following ∨ phase (c'.agents n).loop = .idle := by
      rw [result]
      dsimp only
      split
      · exact .inl rfl
      · exact .inr rfl
    rcases place with place | place
    · rw [place]
      exact reached
    · rw [place]
      trivial
  | @uploaded info former was _ stood result =>
    have loop := bound.loops n was
    rw [stood] at loop
    have place : phase (c'.agents n).loop = .campaigning := by rw [result]; rfl
    rw [place]
    exact LoopBound.step bound move taken (by rw [stood]; rfl) (by rw [result]; rfl) loop
  | won _ _ _ _ _ _ promoting =>
    rw [promoting]
    trivial

private theorem terms_step {c c' : State} (bound : TermBound c) (move : TermMove c c')
    (n : NodeID) :
    ∃ term, Stored ((view c'.etcd).terms n) term ∧ term ≤ globalTerm c'.etcd := by
  have kept : (view c'.etcd).terms n = (view c.etcd).terms n →
      ∃ term, Stored ((view c'.etcd).terms n) term ∧ term ≤ globalTerm c'.etcd := by
    intro same
    obtain ⟨term, stored, reached⟩ := bound.terms n
    exact ⟨term, same ▸ stored, UInt64.le_trans reached move.le⟩
  have grown := move.le
  cases move with
  | same _ _ terms =>
    rcases terms n with same | ⟨term, stored, reached⟩
    · exact kept same
    · exact ⟨term, stored, UInt64.le_trans reached grown⟩
  | raised _ _ _ _ term _ terms =>
    rcases terms n with same | put
    · exact kept same
    · exact ⟨_, .inl put, by rw [Stored.globalTerm (.inl term)]; exact UInt64.le_refl _⟩

theorem termBound_step {c c' : State} {a : Action} (bound : TermBound c)
    (wins : CurrentWins c a) (taken : step c a = some c') : TermBound c' := by
  have move := step_term bound wins taken
  refine ⟨wellFormed_step bound.formed taken, ?_, ?_, ?_, terms_step bound move,
    fun n running => loops_step bound move taken running,
    fun request member s campaigns => campaigns_step bound move taken member campaigns,
    fun s member => persists_step bound move taken member⟩
  · cases move with
    | same term => rw [term, globalTerm_of_same term]; exact bound.global
    | raised _ _ _ _ term => rw [Stored.globalTerm (.inl term)]; exact .inl term
  · cases move with
    | same term => rw [globalTerm_of_same term]; exact bound.small
    | raised _ _ _ small term =>
      obtain ⟨raised, next⟩ := globalTerm_of_raised small term
      rw [raised, next]
      exact small
  · intro n led
    cases move with
    | same term before => rw [term]; exact bound.published n (before n led)
    | raised _ _ _ _ term => rw [term]; simp

/-- As long as the winners are of the current term, each campaign that wins puts
a term above every term that was stored before. -/
theorem campaign_raises_global_term {nodes : List NodeID} {named : "" ∉ nodes}
    {cfg : NodeID → Config} {earlier c c' : State} {a : Action} {request : Request} {s : Server}
    (first : Run step CurrentWins (init nodes named cfg) earlier)
    (second : Run step CurrentWins earlier c) (current : CurrentWins c a)
    (taken : step c a = some c') (effect : TakesEffect c a request)
    (campaigns : request.campaigner = some s) :
    text c'.etcd .termPath = some (sprint (s.term + 1)) ∧
      globalTerm earlier.etcd < globalTerm c'.etcd := by
  have start : TermBound earlier := first.invariant (termBound_init nodes named cfg) termBound_step
  have here : TermBound c := second.invariant start termBound_step
  have grown : globalTerm earlier.etcd ≤ globalTerm c.etcd :=
    second.monotone (fun c => globalTerm c.etcd) start termBound_step UInt64.le_refl
      UInt64.le_trans fun bound wins taken => (step_term bound wins taken).le
  have put : (view c'.etcd).record.term = some (sprint (s.term + 1)) := by
    rw [etcd_of_applied taken effect.1, (view_commit effect.2).2, record_act_campaigner campaigns]
    rfl
  have small := (here.mayWin (onItsWay_of_campaigner taken effect campaigns) campaigns).small
  obtain ⟨raised, next⟩ := globalTerm_of_raised small put
  have same : globalTerm c.etcd = s.term :=
    Stored.globalTerm (current.1 request s effect campaigns)
  refine ⟨put, UInt64.lt_of_le_of_lt grown ?_⟩
  rw [same, raised, UInt64.lt_iff_toNat_lt, next]
  exact Nat.lt_succ_self _

/-- The leader of term one is gone, and a node without a stored term wins term
one again. -/
theorem newcomer_wins_old_term :
    ∃ c c' request, Run step InTime (init ["a", "b"] (by decide) sampleCfg) c ∧
      step c (.etcd "b" .answered) = some c' ∧
      TakesEffect c (.etcd "b" .answered) request ∧ request.campaigner.isSome = true ∧
      globalTerm c.etcd = 1 ∧ globalTerm c'.etcd = 1 := by
  have ran : (exec (restrict step fun _ a => !isLate a) (init ["a", "b"] (by decide) sampleCfg)
      [.start "a" "u", .call "a" .read, .grant "a" 1, .etcd "a" .answered, .call "a" .crash,
        .expire 1, .start "b" "v", .call "b" .read, .call "b" .upload, .etcd "b" .answered,
        .call "b" (.download ["a", "b"])]).any
      (fun c => (step c (.etcd "b" .answered)).any (fun c' => globalTerm c'.etcd == 1) &&
        (((c.agents "b").pending.any fun request =>
          decide (TakesEffect c (.etcd "b" .answered) request) && request.campaigner.isSome) &&
          globalTerm c.etcd == 1)) = true := by
    decide +kernel
  obtain ⟨c, run, found⟩ := exists_run_of_exec (fun _ _ => inTime_of_not_isLate) ran
  simp only [Bool.and_eq_true, beq_iff_eq] at found
  obtain ⟨after, wins, before⟩ := found
  cases taken : step c (.etcd "b" .answered) with
  | none => simp [taken] at after
  | some c' =>
    cases pending : (c.agents "b").pending with
    | none => simp [pending] at wins
    | some request =>
      rw [pending] at wins
      obtain ⟨effect, campaigns⟩ := Bool.and_eq_true_iff.mp wins
      exact ⟨c, c', request, run, taken, of_decide_eq_true effect, campaigns, before,
        by simpa [taken] using after⟩

private def currentWins (c : State) (a : Action) : Bool :=
  !isLate a && (applied c a).all fun request => request.campaigner.all fun s =>
    text c.etcd .termPath == some (sprint s.term) ||
      text c.etcd .termPath == none && s.term == 0

private theorem currentWins_of_check {c : State} {a : Action} (check : currentWins c a = true) :
    CurrentWins c a := by
  obtain ⟨prompt, wins⟩ := Bool.and_eq_true_iff.mp check
  refine ⟨?_, fun index _ late _ => absurd late (inTime_of_not_isLate (c := c) prompt index)⟩
  intro request s effect campaigns
  rw [effect.1] at wins
  simp only [Option.all_some, campaigns] at wins
  simpa [Stored] using wins

/-- The first leader is gone and wins again, now with a term of its own. -/
theorem campaign_raises_global_term_twice :
    ∃ c c' s, Run step CurrentWins (init ["a"] (by decide) sampleCfg) c ∧
      globalTerm c.etcd = 1 ∧ step c (.etcd "a" .answered) = some c' ∧
      text c'.etcd .termPath = some (sprint (s + 1)) ∧
      globalTerm c.etcd < globalTerm c'.etcd := by
  have ran : (exec (restrict step currentWins) (init ["a"] (by decide) sampleCfg)
      (becomesSinglePoint.dropLast)).any
      (fun c => (step c (.etcd "a" .answered)).isSome &&
        (((c.agents "a").pending.any fun request =>
          decide (TakesEffect c (.etcd "a" .answered) request) && request.campaigner.isSome) &&
          (currentWins c (.etcd "a" .answered) && globalTerm c.etcd == 1))) = true := by
    decide +kernel
  obtain ⟨c, run, found⟩ := exists_run_of_exec (fun _ _ => currentWins_of_check) ran
  simp only [Bool.and_eq_true, beq_iff_eq] at found
  obtain ⟨enabled, wins, current, before⟩ := found
  obtain ⟨c', taken⟩ := Option.isSome_iff_exists.mp enabled
  cases pending : (c.agents "a").pending with
  | none => simp [pending] at wins
  | some request =>
    rw [pending] at wins
    obtain ⟨effect, campaigns⟩ := Bool.and_eq_true_iff.mp wins
    obtain ⟨s, campaigns⟩ := Option.isSome_iff_exists.mp campaigns
    exact ⟨c, c', s.term, run, before, taken, campaign_raises_global_term run (.refl _)
      (currentWins_of_check current) taken (of_decide_eq_true effect) campaigns⟩

end Moha.TermGrowth
