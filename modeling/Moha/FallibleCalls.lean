import Mathlib.Logic.Basic

/-! Queries and calls that may come back with an error, and the ways in which a program puts
calls that change a state together: it stops at the first error, it goes on whatever the error
was, or it tries again a bounded number of times. -/
namespace Moha.FallibleCalls

variable {σ ε : Type}

/-- How a query for one row comes back: with an error, with no row that arrives and can be
read, or with the row. -/
inductive Rows where
  | failed
  | lost
  | row
  deriving DecidableEq, Repr

/-- One call: the state it leaves and the error it returns. -/
abbrev Call (σ ε : Type) := σ → σ × Option ε

/-- The second call is made only if the first returns no error. -/
def Call.andThen (first second : Call σ ε) : Call σ ε := fun s =>
  match first s with
  | (s, some error) => (s, some error)
  | (s, none) => second s

/-- The second call is made whatever the first returns, and its error is the result. -/
def Call.regardless (first second : Call σ ε) : Call σ ε := fun s => second (first s).1

/-- A state with the states before it, the latest first. -/
structure History (σ : Type) where
  now : σ
  past : List σ

/-- The call leaves the state in which it was made in the history. -/
def Call.recorded (call : Call σ ε) : Call (History σ) ε := fun history =>
  let (now, error) := call history.now
  (⟨now, history.now :: history.past⟩, error)

@[simp] theorem Call.recorded_now (call : Call σ ε) (history : History σ) :
    (call.recorded history).1.now = (call history.now).1 := rfl

@[simp] theorem Call.recorded_past (call : Call σ ε) (history : History σ) :
    (call.recorded history).1.past = history.now :: history.past := rfl

/-- Up to `retries` attempts more, from the `k`-th on, until one returns no error. -/
def again (attempt : Nat → Call σ ε) : Nat → Nat → σ × Option ε → σ × Option ε
  | 0, _, result => result
  | _ + 1, _, (s, none) => (s, none)
  | retries + 1, k, (s, some _) => again attempt retries (k + 1) (attempt k s)

/-- A first attempt and up to `retries` more. -/
def retry (attempt : Nat → Call σ ε) (retries : Nat) : Call σ ε := fun s =>
  again attempt retries 1 (attempt 0 s)

/-- The state in which the `k`-th attempt is made if it is made at all. -/
def stateBefore (attempt : Nat → Call σ ε) (s : σ) : Nat → σ
  | 0 => s
  | k + 1 => (attempt k (stateBefore attempt s k)).1

/-- The error of the `k`-th attempt. -/
def errorOf (attempt : Nat → Call σ ε) (s : σ) (k : Nat) : Option ε :=
  (attempt k (stateBefore attempt s k)).2

section Retry
variable {attempt : Nat → Call σ ε} {s : σ}

/-- The loop ends with the first attempt that returns no error, or with the last. -/
private theorem again_cases (retries k : Nat) :
    ∃ j, k ≤ j ∧ j ≤ k + retries ∧ (∀ i, k ≤ i → i < j → errorOf attempt s i ≠ none) ∧
      (errorOf attempt s j = none ∨ j = k + retries) ∧
      again attempt retries (k + 1) (stateBefore attempt s (k + 1), errorOf attempt s k) =
        (stateBefore attempt s (j + 1), errorOf attempt s j) := by
  induction retries generalizing k with
  | zero => exact ⟨k, by omega, by omega, by omega, .inr rfl, rfl⟩
  | succ retries ih =>
    cases error : errorOf attempt s k with
    | none =>
      refine ⟨k, by omega, by omega, by omega, .inl error, ?_⟩
      rw [error]
      rfl
    | some e =>
      obtain ⟨j, low, high, failed, stopped, result⟩ := ih (k + 1)
      refine ⟨j, by omega, by omega, fun i past before => ?_, ?_, ?_⟩
      · rcases Nat.eq_or_lt_of_le past with rfl | later
        · rw [error]
          simp
        · exact failed i later before
      · exact stopped.imp_right fun last => by omega
      · rw [← result]
        rfl

/-- A retried call comes back with the first attempt that returns no error, and with
the last one if there is none. -/
theorem retry_cases (attempt : Nat → Call σ ε) (retries : Nat) (s : σ) :
    ∃ k, k ≤ retries ∧ (∀ i < k, errorOf attempt s i ≠ none) ∧
      (errorOf attempt s k = none ∨ k = retries) ∧
      retry attempt retries s = (stateBefore attempt s (k + 1), errorOf attempt s k) := by
  obtain ⟨k, _, high, failed, stopped, result⟩ := @again_cases σ ε attempt s retries 0
  refine ⟨k, by omega, fun i before => failed i (Nat.zero_le i) before, ?_, result⟩
  exact stopped.imp_right fun last => by omega

/-- With an attempt that returns no error among them, the first such one decides. -/
theorem retry_of_success {retries k : Nat} (within : k ≤ retries)
    (failed : ∀ i < k, errorOf attempt s i ≠ none) (succeeds : errorOf attempt s k = none) :
    retry attempt retries s = (stateBefore attempt s (k + 1), none) := by
  obtain ⟨j, _, before, stopped, result⟩ := retry_cases attempt retries s
  have same : j = k := by
    rcases Nat.lt_trichotomy j k with less | same | more
    · rcases stopped with none | last
      · exact absurd none (failed j less)
      · omega
    · exact same
    · exact absurd succeeds (before k more)
  rw [result, same, succeeds]

end Retry

end Moha.FallibleCalls
