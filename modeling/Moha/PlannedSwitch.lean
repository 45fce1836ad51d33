import Mathlib.Logic.Basic
import Mathlib.Data.List.OfFn

/-! The planned switch of `moctl/switch.go`: `main` sets the master read-only,
waits up to ten rounds for its slaves to catch up, and asks it to give up the
leader key; when that fails it sets the master writable again. The checks and the
calls to the agent's HTTP interface are outcomes from outside, and the result is
the sequence of requests and checks. -/
namespace Moha.PlannedSwitch

/-- The agent's handlers that `main` calls. -/
inductive Api where
  | setReadOnly
  | setReadWrite
  | changeMaster
  deriving DecidableEq, Repr

/-- `getMysqlAgent`: a status of 200 with a success in the body, any other
response, or none at all, on which it dereferences a nil response and panics. -/
inductive HttpOutcome where
  | success
  | failure
  | noResponse
  deriving DecidableEq, Repr

/-- The result of `checkConsistency`. -/
inductive Consistency where
  | consistent
  | inconsistent
  | error
  deriving DecidableEq, Repr

inductive Event where
  | request (api : Api) (outcome : HttpOutcome)
  | check (result : Consistency)
  deriving DecidableEq, Repr

/-- What the calls of one round would come back with. -/
structure Iteration where
  consistency : Consistency
  changeMaster : HttpOutcome
  setReadWrite : HttpOutcome
  deriving DecidableEq, Repr

structure Outcomes where
  isSingleMode : Bool
  checkResult : Bool
  setReadOnly : HttpOutcome
  iterations : Fin 10 → Iteration
  setReadWrite : HttpOutcome

/-- The rounds of `main`, with the last `setReadWrite` after them. A failed
`changeMaster` does not end the loop. -/
def loop (setReadWrite : HttpOutcome) : List Iteration → List Event
  | [] => [.request .setReadWrite setReadWrite]
  | it :: rest =>
    .check it.consistency ::
      match it.consistency with
      | .error => [.request .setReadWrite it.setReadWrite]
      | .inconsistent => loop setReadWrite rest
      | .consistent =>
        .request .changeMaster it.changeMaster ::
          match it.changeMaster with
          | .success | .noResponse => []
          | .failure =>
            .request .setReadWrite it.setReadWrite ::
              match it.setReadWrite with
              | .noResponse => []
              | _ => loop setReadWrite rest

/-- `switch.go::main` from `getSingleMasterMode` on. -/
def main (o : Outcomes) : List Event :=
  if o.isSingleMode then []
  else if o.checkResult then
    .request .setReadOnly o.setReadOnly ::
      if o.setReadOnly = .success then loop o.setReadWrite (List.ofFn o.iterations) else []
  else []

/-! ### The protocol -/

/-- The last successful mode change was `setReadOnly`, and a check after it found
the slaves consistent. -/
structure Mode where
  readOnly : Bool
  consistent : Bool
  deriving DecidableEq, Repr

def Mode.next (mode : Mode) : Event → Mode
  | .request .setReadOnly .success => ⟨true, false⟩
  | .request .setReadWrite .success => ⟨false, false⟩
  | .check .consistent => { mode with consistent := true }
  | _ => mode

def modeAfter (events : List Event) : Mode := events.foldl Mode.next ⟨false, false⟩

/-- Every `changeMaster` is sent to a master that was set read-only and found
consistent since. -/
def SentWhenReady (events : List Event) : Prop :=
  ∀ before outcome after, events = before ++ .request .changeMaster outcome :: after →
    (modeAfter before).readOnly = true ∧ (modeAfter before).consistent = true

def modeRequest (last : Option Api) : Event → Option Api
  | .request .setReadOnly _ => some .setReadOnly
  | .request .setReadWrite _ => some .setReadWrite
  | _ => last

/-- A master that was set read-only and did not give up the key is asked to be
writable at the end. -/
def Restored (events : List Event) : Prop :=
  .request .setReadOnly .success ∈ events → .request .changeMaster .success ∉ events →
    events.foldl modeRequest none = some .setReadWrite

/-- The round is followed by another one. -/
def Iteration.continues (it : Iteration) : Bool :=
  match it.consistency with
  | .error => false
  | .inconsistent => true
  | .consistent => it.changeMaster == .failure && it.setReadWrite != .noResponse

/-- The rounds that the loop goes through. -/
def executed : List Iteration → List Iteration
  | [] => []
  | it :: rest => it :: if it.continues then executed rest else []

/-- The round set the master writable again. -/
def Iteration.Reopens (it : Iteration) : Prop :=
  it.consistency = .consistent ∧ it.setReadWrite = .success

/-- No round after one that set the master writable again finds the slaves
consistent, and the first `changeMaster` gets a response. -/
def Heeded (iterations : List Iteration) : Prop :=
  (executed iterations).Pairwise (fun it later => it.Reopens → later.consistency ≠ .consistent) ∧
    ∀ it, (executed iterations).find? (fun it => it.consistency == .consistent) = some it →
      it.changeMaster ≠ .noResponse

/-! ### The rounds against the protocol -/

private def ReadyFrom (mode : Mode) (events : List Event) : Prop :=
  ∀ before outcome after, events = before ++ .request .changeMaster outcome :: after →
    (before.foldl Mode.next mode).readOnly = true ∧ (before.foldl Mode.next mode).consistent = true

private theorem readyFrom_nil (mode : Mode) : ReadyFrom mode [] := by
  intro before outcome after split
  simp at split

/-- One event at a time: it is judged by the mode before it. -/
private theorem readyFrom_cons (mode : Mode) (event : Event) (rest : List Event) :
    ReadyFrom mode (event :: rest) ↔
      ((∃ outcome, event = .request .changeMaster outcome) →
        mode.readOnly = true ∧ mode.consistent = true) ∧ ReadyFrom (mode.next event) rest := by
  constructor
  · intro ready
    refine ⟨?_, fun before outcome after split => ?_⟩
    · rintro ⟨outcome, rfl⟩
      exact ready [] outcome rest rfl
    · exact ready (event :: before) outcome after (by rw [split]; rfl)
  · rintro ⟨here, later⟩ before outcome after split
    cases before with
    | nil =>
      cases split
      exact here ⟨outcome, rfl⟩
    | cons first before =>
      cases split
      exact later before outcome after rfl

/-- Once the master is writable again, the loop is in order only if no check that
it still makes finds the slaves consistent. -/
private theorem readyFrom_loop_reopened (setReadWrite : HttpOutcome) (its : List Iteration)
    (consistent : Bool) :
    ReadyFrom ⟨false, consistent⟩ (loop setReadWrite its) ↔
      ∀ it ∈ executed its, it.consistency ≠ .consistent := by
  induction its generalizing consistent with
  | nil => cases setReadWrite <;> simp [loop, executed, readyFrom_cons, readyFrom_nil]
  | cons it rest ih =>
    obtain ⟨consistency, changeMaster, readWrite⟩ := it
    cases consistency with
    | error =>
      simp [loop, executed, Iteration.continues, readyFrom_cons, readyFrom_nil]
    | inconsistent =>
      simp [loop, executed, Iteration.continues, readyFrom_cons, Mode.next, ih]
    | consistent =>
      simp [loop, executed, readyFrom_cons, Mode.next]

private theorem readyFrom_loop (setReadWrite : HttpOutcome) (its : List Iteration)
    (consistent : Bool) :
    ReadyFrom ⟨true, consistent⟩ (loop setReadWrite its) ↔
      (executed its).Pairwise fun it later => it.Reopens → later.consistency ≠ .consistent := by
  induction its generalizing consistent with
  | nil => cases setReadWrite <;> simp [loop, executed, readyFrom_cons, readyFrom_nil]
  | cons it rest ih =>
    obtain ⟨consistency, changeMaster, readWrite⟩ := it
    cases consistency with
    | error =>
      simp [loop, executed, Iteration.continues, readyFrom_cons, readyFrom_nil]
    | inconsistent =>
      simp [loop, executed, Iteration.continues, readyFrom_cons, Mode.next, ih, Iteration.Reopens]
    | consistent =>
      cases changeMaster with
      | success | noResponse =>
        simp [loop, executed, Iteration.continues, readyFrom_cons, readyFrom_nil, Mode.next]
      | failure =>
        cases readWrite with
        | noResponse =>
          simp [loop, executed, Iteration.continues, readyFrom_cons, readyFrom_nil, Mode.next]
        | failure =>
          simp [loop, executed, Iteration.continues, readyFrom_cons, Mode.next, ih,
            Iteration.Reopens]
        | success =>
          have none : (∀ later ∈ executed rest, later.consistency ≠ .consistent) →
              (executed rest).Pairwise fun it later =>
                it.Reopens → later.consistency ≠ .consistent := fun all =>
            List.Pairwise.imp_of_mem (fun _ present _ _ => all _ present)
              (List.pairwise_of_forall (R := fun _ _ => True) fun _ _ => trivial)
          have ready : ReadyFrom ⟨true, consistent⟩
              (loop setReadWrite (⟨.consistent, .failure, .success⟩ :: rest)) ↔
              ∀ later ∈ executed rest, later.consistency ≠ .consistent := by
            simp [loop, readyFrom_cons, Mode.next, readyFrom_loop_reopened]
          have rounds : executed (⟨.consistent, .failure, .success⟩ :: rest) =
              ⟨.consistent, .failure, .success⟩ :: executed rest := rfl
          rw [ready, rounds, List.pairwise_cons]
          exact ⟨fun all => ⟨fun later member _ => all later member, none all⟩,
            fun both later member => both.1 later member ⟨rfl, rfl⟩⟩

/-- After one `setReadWrite` the last mode request stays `setReadWrite`. -/
private theorem lastRequest_loop_reopened (setReadWrite : HttpOutcome) (its : List Iteration) :
    (loop setReadWrite its).foldl modeRequest (some .setReadWrite) = some .setReadWrite := by
  induction its with
  | nil => rfl
  | cons it rest ih =>
    obtain ⟨consistency, changeMaster, readWrite⟩ := it
    cases consistency with
    | error => rfl
    | inconsistent => exact ih
    | consistent =>
      cases changeMaster with
      | success | noResponse => rfl
      | failure =>
        cases readWrite with
        | noResponse => rfl
        | success | failure => exact ih

private theorem lastRequest_loop (setReadWrite : HttpOutcome) (its : List Iteration) :
    (.request .changeMaster .success ∉ loop setReadWrite its →
      (loop setReadWrite its).foldl modeRequest (some .setReadOnly) = some .setReadWrite) ↔
    ∀ it, (executed its).find? (fun it => it.consistency == .consistent) = some it →
      it.changeMaster ≠ .noResponse := by
  induction its with
  | nil => simp [loop, executed, modeRequest]
  | cons it rest ih =>
    obtain ⟨consistency, changeMaster, readWrite⟩ := it
    cases consistency with
    | error => simp [loop, executed, Iteration.continues, modeRequest]
    | inconsistent =>
      have skipped : executed (⟨.inconsistent, changeMaster, readWrite⟩ :: rest) =
          ⟨.inconsistent, changeMaster, readWrite⟩ :: executed rest := rfl
      rw [skipped, List.find?_cons_of_neg (by simp), ← ih]
      simp [loop, modeRequest]
    | consistent =>
      -- this is the first round that sends a request
      have found : (executed (⟨.consistent, changeMaster, readWrite⟩ :: rest)).find?
          (fun it => it.consistency == .consistent) =
            some ⟨.consistent, changeMaster, readWrite⟩ := rfl
      rw [found]
      cases changeMaster with
      | success => simp [loop]
      | noResponse => simp [loop, modeRequest]
      | failure =>
        refine iff_of_true (fun _ => ?_) (by rintro it ⟨⟩; simp)
        cases readWrite with
        | noResponse => rfl
        | success | failure => exact lastRequest_loop_reopened setReadWrite rest

/-- The planned switch keeps its protocol exactly when no round after a failed
`changeMaster` whose `setReadWrite` succeeded finds the slaves consistent, and the
first `changeMaster` gets a response. -/
theorem planned_switch_protocol_iff (o : Outcomes) :
    SentWhenReady (main o) ∧ Restored (main o) ↔
      (o.isSingleMode = false ∧ o.checkResult = true ∧ o.setReadOnly = .success →
        Heeded (List.ofFn o.iterations)) := by
  have idle : SentWhenReady [] ∧ Restored [] :=
    ⟨readyFrom_nil ⟨false, false⟩, fun member => nomatch member⟩
  unfold main
  split
  · rename_i single
    exact iff_of_true idle fun switches => nomatch single.symm.trans switches.1
  · rename_i multiple
    split
    · rename_i checked
      split
      · rename_i readOnly
        rw [readOnly]
        have ready : SentWhenReady
            (.request .setReadOnly .success :: loop o.setReadWrite (List.ofFn o.iterations)) ↔
            ReadyFrom ⟨true, false⟩ (loop o.setReadWrite (List.ofFn o.iterations)) := by
          refine (readyFrom_cons ⟨false, false⟩ _ _).trans ?_
          simp [Mode.next]
        have restored : Restored
            (.request .setReadOnly .success :: loop o.setReadWrite (List.ofFn o.iterations)) ↔
            (.request .changeMaster .success ∉ loop o.setReadWrite (List.ofFn o.iterations) →
              (loop o.setReadWrite (List.ofFn o.iterations)).foldl modeRequest
                (some .setReadOnly) = some .setReadWrite) := by
          simp [Restored, modeRequest]
        rw [ready, restored, readyFrom_loop, lastRequest_loop]
        exact ⟨fun heeded _ => heeded,
          fun heeded => heeded ⟨by simpa using multiple, checked, rfl⟩⟩
      · rename_i notReadOnly
        refine iff_of_true ⟨?_, ?_⟩ fun switches => absurd switches.2.2 notReadOnly
        · refine (readyFrom_cons ⟨false, false⟩ _ _).mpr ⟨?_, readyFrom_nil _⟩
          rintro ⟨_, ⟨⟩⟩
        · intro member
          simp [Ne.symm notReadOnly] at member
    · rename_i unchecked
      exact iff_of_true idle fun switches => absurd switches.2.1 unchecked

/-- Ten rounds that all come back with the same. -/
def sampleOutcomes (it : Iteration) : Outcomes := ⟨false, true, .success, fun _ => it, .success⟩

/-- A `changeMaster` that fails while the master is set writable again is followed,
a round later, by another one to the writable master; and a `changeMaster` without
a response ends `main` and leaves the master read-only. -/
theorem changes_master_while_writable :
    ¬ SentWhenReady (main (sampleOutcomes ⟨.consistent, .failure, .success⟩)) ∧
      ¬ Restored (main (sampleOutcomes ⟨.consistent, .noResponse, .success⟩)) := by
  constructor
  · intro sent
    have second := sent
      [.request .setReadOnly .success, .check .consistent, .request .changeMaster .failure,
        .request .setReadWrite .success, .check .consistent] .failure
      ((main (sampleOutcomes ⟨.consistent, .failure, .success⟩)).drop 6) (by decide)
    exact absurd second.1 (by decide)
  · intro restored
    exact absurd (restored (by decide) (by decide)) (by decide)

end Moha.PlannedSwitch
