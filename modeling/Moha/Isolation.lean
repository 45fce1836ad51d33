import Mathlib.Data.List.Basic

/-! Users of one shared state. Each call is served in the order of arrival and
answered. When a user's calls depend on the user's own view of the state alone, and
the calls of others leave that view alone, the answers a user gets are those of a
service that nobody else uses. -/
namespace Moha.Isolation

variable {User State Call Answer View : Type} [DecidableEq User]

variable {perform : User → State → Call → State × Answer} {view : User → State → View}
  {Allowed : Call → Prop}

end Moha.Isolation
