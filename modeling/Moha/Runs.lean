import Mathlib.Logic.Basic

/-! Runs of a labelled machine whose steps are a partial function. A run
carries a condition on the steps it takes, stated in the state before the step,
so that one development can speak about all runs, about the runs an assumption
admits, and about the runs that avoid a given kind of step. -/
namespace Moha.Runs

variable {σ α : Type}

/-- `t` is reached from `s` by steps of the machine that each meet `Allowed`
where they are taken. -/
inductive Run (step : σ → α → Option σ) (Allowed : σ → α → Prop) : σ → σ → Prop where
  | refl (s : σ) : Run step Allowed s s
  | snoc {s t u : σ} {a : α} (before : Run step Allowed s t) (allowed : Allowed t a)
      (taken : step t a = some u) : Run step Allowed s u

variable {step : σ → α → Option σ} {Allowed Weaker : σ → α → Prop} {s t u : σ} {a : α}

theorem Run.single (allowed : Allowed s a) (taken : step s a = some t) :
    Run step Allowed s t :=
  (Run.refl s).snoc allowed taken

theorem Run.trans (first : Run step Allowed s t) (second : Run step Allowed t u) :
    Run step Allowed s u := by
  induction second with
  | refl => exact first
  | snoc _ allowed taken ih => exact ih.snoc allowed taken

/-- A run stays a run when the condition on its steps is relaxed. -/
theorem Run.weaken (run : Run step Allowed s t)
    (weaker : ∀ state action, Allowed state action → Weaker state action) :
    Run step Weaker s t := by
  induction run with
  | refl => exact .refl _
  | snoc _ allowed taken ih => exact ih.snoc (weaker _ _ allowed) taken

/-- The induction behind every safety result: what the allowed steps preserve
holds in every state of a run that starts in it. -/
theorem Run.invariant {Inv : σ → Prop} (run : Run step Allowed s t) (initial : Inv s)
    (preserved : ∀ {before after action}, Inv before → Allowed before action →
      step before action = some after → Inv after) : Inv t := by
  induction run with
  | refl => exact initial
  | snoc _ allowed taken ih => exact preserved ih allowed taken

/-- A quantity that no allowed step lowers is at the end of a run at least what
it was at its start. The invariant may be used at every step. -/
theorem Run.monotone {β : Type} {le : β → β → Prop} {Inv : σ → Prop}
    (run : Run step Allowed s t) (measure : σ → β) (initial : Inv s)
    (preserved : ∀ {before after action}, Inv before → Allowed before action →
      step before action = some after → Inv after)
    (reflexive : ∀ value, le value value)
    (transitive : ∀ {first second third}, le first second → le second third → le first third)
    (grows : ∀ {before after action}, Inv before → Allowed before action →
      step before action = some after → le (measure before) (measure after)) :
    le (measure s) (measure t) := by
  induction run with
  | refl => exact reflexive _
  | snoc before allowed taken ih =>
    exact transitive ih (grows (before.invariant initial preserved) allowed taken)

/-! ### Runs with their steps -/

/-- The run that takes the listed actions, each in the state listed with it. -/
inductive Trace (step : σ → α → Option σ) (Allowed : σ → α → Prop) :
    σ → List (σ × α) → σ → Prop where
  | refl (s : σ) : Trace step Allowed s [] s
  | snoc {s t u : σ} {a : α} {trace : List (σ × α)} (before : Trace step Allowed s trace t)
      (allowed : Allowed t a) (taken : step t a = some u) :
      Trace step Allowed s (trace ++ [(t, a)]) u

theorem Trace.run {trace : List (σ × α)} (traced : Trace step Allowed s trace t) :
    Run step Allowed s t := by
  induction traced with
  | refl => exact .refl _
  | snoc _ allowed taken ih => exact ih.snoc allowed taken

theorem Run.trace (run : Run step Allowed s t) : ∃ trace, Trace step Allowed s trace t := by
  induction run with
  | refl => exact ⟨[], .refl _⟩
  | snoc _ allowed taken ih =>
    obtain ⟨trace, traced⟩ := ih
    exact ⟨_, traced.snoc allowed taken⟩

/-! ### Runs along given actions -/

/-- Taking a list of actions one after the other. -/
def exec (step : σ → α → Option σ) : σ → List α → Option σ
  | s, [] => some s
  | s, action :: rest => (step s action).bind fun next => exec step next rest

/-- The machine that refuses the steps a decidable condition does not allow. -/
def restrict (step : σ → α → Option σ) (allowed : σ → α → Bool) : σ → α → Option σ :=
  fun s action => if allowed s action then step s action else none

/-- Executing a list of actions on the restricted machine is a run whose steps
all meet the condition. -/
theorem run_of_exec_restrict {allowed : σ → α → Bool} {actions : List α}
    (sound : ∀ state action, allowed state action = true → Allowed state action)
    (ran : exec (restrict step allowed) s actions = some t) : Run step Allowed s t := by
  induction actions generalizing s with
  | nil =>
    cases ran
    exact .refl _
  | cons action rest ih =>
    obtain ⟨next, taken, after⟩ := Option.bind_eq_some_iff.mp ran
    unfold restrict at taken
    split at taken
    · rename_i held
      exact (Run.single (sound s action held) taken).trans (ih after)
    · contradiction

/-- What a check finds at the end of such an execution, it finds at the end of a
run. -/
theorem exists_run_of_exec {allowed : σ → α → Bool} {actions : List α} {check : σ → Bool}
    (sound : ∀ state action, allowed state action = true → Allowed state action)
    (ran : (exec (restrict step allowed) s actions).any check = true) :
    ∃ t, Run step Allowed s t ∧ check t = true := by
  obtain ⟨t, reached, found⟩ := (Option.any_eq_true _ _).mp ran
  exact ⟨t, run_of_exec_restrict sound reached, found⟩

end Moha.Runs
