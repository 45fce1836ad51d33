import Moha.MysqlService
import Mathlib.Data.List.Induction

/-! The `readonly` flag of the MySQL service manager against the server's `read_only`,
over any sequence of calls, and what a manual read-only request leaves behind. A mode
change is two statements and the flag follows only if both succeed, so a `SetReadWrite`
that is cut in two leaves a writable service behind a flag that says read-only. -/
namespace Moha.ReadOnlyFlag
open MysqlService

/-- A call of the manager, with what comes back for its statements. -/
inductive ManagerCall where
  | setReadOnly (o : ModeChange)
  | setReadWrite (o : ModeChange)
  | setReadOnlyManually (o : ManualOutcomes)
  deriving DecidableEq, Repr

def ManagerCall.run (m : Manager) : ManagerCall → Manager
  | .setReadOnly o => (m.setReadOnly o).1
  | .setReadWrite o => (m.setReadWrite o).1
  | .setReadOnlyManually o => (m.setReadOnlyManually o).manager

/-- The manager of a database after a sequence of calls. -/
def after (db : Database) (calls : List ManagerCall) : Manager :=
  calls.foldl ManagerCall.run (newMySQLServiceManager db)

/-- The flag does not overstate. -/
def Sound (m : Manager) : Prop := m.isReadOnly = true → m.db.readOnly = true

/-- The call turns `read_only` off behind a set flag: a `SetReadWrite`, its own or the
rollback of a manual request, stops after its first statement. -/
def ManagerCall.tears (m : Manager) : ManagerCall → Bool
  | .setReadOnly _ => false
  | .setReadWrite o => m.readonly && o.torn
  | .setReadOnlyManually o =>
    o.rollsBack && ((m.readonly || o.change.whole) && o.rollback.torn)

/-! ### One call -/

private theorem sound_setReadOnly {m : Manager} (sound : Sound m) (o : ModeChange) :
    Sound (m.setReadOnly o).1 := by
  intro flag
  rw [setReadOnly_manager] at flag ⊢
  rcases (Bool.or_eq_true _ _).mp flag with before | whole
  · exact Bool.or_eq_true_iff.mpr (.inl (sound before))
  · exact Bool.or_eq_true_iff.mpr (.inr (Bool.and_eq_true_iff.mp whole).1)

private theorem sound_setReadWrite_iff {m : Manager} (sound : Sound m) (o : ModeChange) :
    Sound (m.setReadWrite o).1 ↔ (m.readonly && o.torn) = false := by
  unfold Sound Manager.isReadOnly at *
  rw [setReadWrite_manager]
  cases flag : m.readonly with
  | false => simp
  | true =>
    obtain ⟨first, second⟩ := o
    cases first <;> cases second <;> simp [ModeChange.whole, ModeChange.torn, sound flag]

/-- A call keeps the flag sound exactly if it does not tear. -/
theorem sound_run_iff {m : Manager} (sound : Sound m) (call : ManagerCall) :
    Sound (call.run m) ↔ call.tears m = false := by
  cases call with
  | setReadOnly o => simp [ManagerCall.run, ManagerCall.tears, sound_setReadOnly sound o]
  | setReadWrite o => exact sound_setReadWrite_iff sound o
  | setReadOnlyManually o =>
    unfold ManagerCall.run ManagerCall.tears
    rcases setReadOnlyManually_cases m o with
      ⟨refused, error, plain, result⟩ | ⟨succeeds, result⟩ | ⟨rollsBack, error, plain, result⟩
    · simp [result, ManualOutcomes.rollsBack, refused, sound]
    · simp only [ManualOutcomes.succeeds, Bool.and_eq_true] at succeeds
      simp [result, ManualOutcomes.rollsBack, succeeds, sound_setReadOnly sound o.change]
    · have back := sound_setReadWrite_iff (sound_setReadOnly sound o.change) o.rollback
      simp only [result, rollsBack, failAfterRollback_manager, back, Bool.true_and]
      rw [setReadOnly_manager]

/-! ### Every sequence of calls -/

theorem sound_new (db : Database) : Sound (newMySQLServiceManager db) := by
  intro flag
  cases flag

theorem after_snoc (db : Database) (calls : List ManagerCall) (call : ManagerCall) :
    after db (calls ++ [call]) = call.run (after db calls) := by
  simp [after]

/-- The flag is sound after calls none of which tears. -/
theorem sound_after {db : Database} {calls : List ManagerCall}
    (whole : ∀ made call, made ++ [call] <+: calls → call.tears (after db made) = false) :
    Sound (after db calls) := by
  induction calls using List.reverseRecOn with
  | nil => exact sound_new db
  | append_singleton calls last ih =>
    have before := ih fun made call within =>
      whole made call (within.trans (List.prefix_append calls [last]))
    rw [after_snoc]
    exact (sound_run_iff before last).mpr (whole calls last List.prefix_rfl)

/-- From the start on, the flag is sound after every call exactly if no call turns
`read_only` off behind a set flag. -/
theorem isReadOnly_sound_iff (db : Database) (calls : List ManagerCall) :
    (∀ made, made <+: calls → made ≠ [] →
      (after db made).isReadOnly = true → (after db made).db.readOnly = true) ↔
    ∀ made call, made ++ [call] <+: calls → call.tears (after db made) = false := by
  constructor
  · intro sound made call within
    have before : Sound (after db made) := by
      by_cases none : made = []
      · subst none
        exact sound_new db
      · exact sound made ((List.prefix_append made [call]).trans within) none
    apply (sound_run_iff before call).mp
    rw [← after_snoc]
    exact sound _ within (by simp)
  · intro whole made within _
    exact sound_after fun earlier call first => whole earlier call (first.trans within)

/-- The service is set read-only and then read-write, and the second statement of the
latter fails: `read_only` is off and the flag says read-only. -/
theorem isReadOnly_overstates :
    let db : Database := ⟨false, false, ⟨"10.0.0.1", "3306"⟩, false⟩
    let m := after db [.setReadOnly ⟨true, true⟩, .setReadWrite ⟨true, false⟩]
    m.isReadOnly = true ∧ m.db.readOnly = false := by
  decide

/-! ### Manual requests -/

/-- The modes of two managers are the same. -/
def SameModes (m m' : Manager) : Prop :=
  m'.db.readOnly = m.db.readOnly ∧ m'.db.superReadOnly = m.db.superReadOnly ∧
    m'.readonly = m.readonly

/-- Every mode is off. -/
def ReadWrite (m : Manager) : Prop :=
  m.db.readOnly = false ∧ m.db.superReadOnly = false ∧ m.readonly = false

/-- Every mode is on. -/
def ReadOnly (m : Manager) : Prop :=
  m.db.readOnly = true ∧ m.db.superReadOnly = true ∧ m.readonly = true

private theorem readOnly_of_whole {m : Manager} {o : ModeChange} (whole : o.whole = true) :
    ReadOnly (m.setReadOnly o).1 := by
  have first := (Bool.and_eq_true_iff.mp whole).1
  simp [ReadOnly, setReadOnly_manager, whole, first]

private theorem readWrite_of_whole {m : Manager} {o : ModeChange} (whole : o.whole = true) :
    ReadWrite (m.setReadWrite o).1 := by
  have first := (Bool.and_eq_true_iff.mp whole).1
  simp [ReadWrite, setReadWrite_manager, whole, first]

private theorem sameModes_iff {m m' : Manager} (writes : ReadWrite m') :
    SameModes m m' ↔ ReadWrite m := by
  obtain ⟨readOnly, superReadOnly, flag⟩ := writes
  simp only [SameModes, ReadWrite, readOnly, superReadOnly, flag, eq_comm]

/-- No process of the list runs an `ALTER`. -/
def Idle (count : DDLCount) : Prop := ∀ p ∈ count.processes, p.alters = false

/-- The query tells of every process that runs an `ALTER`. -/
def Sees (count : DDLCount) : Prop :=
  ∀ p ∈ count.processes, p.alters = true → count.rows = .row ∧ p.counted = true

/-- A count that is read as zero means that no `ALTER` runs exactly if the query tells of all
of them. -/
private theorem idle_of_passes {count : DDLCount} (passes : count.passes = true) :
    Idle count ↔ Sees count := by
  constructor
  · intro idle p member alters
    cases (idle p member).symm.trans alters
  · intro sees p member
    by_contra running
    obtain ⟨row, counted⟩ := sees p member (by simpa using running)
    simp only [DDLCount.passes, row, decide_eq_true_eq] at passes
    exact absurd counted (List.countP_eq_zero.mp passes p member)

/-- A manual request that fails leaves the modes as they were, and one that succeeds
leaves a read-only service without a running `ALTER`, exactly if a request that is rolled
back found the service read-write, and the second count of one that succeeds tells of every
running `ALTER`: its row is not lost, and nobody whom the query leaves out runs one. -/
theorem setReadOnlyManually_restores_iff (m : Manager) (o : ManualOutcomes) :
    ((((m.setReadOnlyManually o).success = false →
        (m.setReadOnlyManually o).rollbackFailed = false →
        SameModes m (m.setReadOnlyManually o).manager)) ∧
      ((m.setReadOnlyManually o).success = true →
        ReadOnly (m.setReadOnlyManually o).manager ∧ Idle o.after)) ↔
    (o.rollsBack = true → o.rollback.whole = true → ReadWrite m) ∧
      (o.succeeds = true → Sees o.after) := by
  rcases setReadOnlyManually_cases m o with
    ⟨refused, error, plain, result⟩ | ⟨succeeds, result⟩ | ⟨rollsBack, error, plain, result⟩
  · simp [result, ManualOutcomes.rollsBack, ManualOutcomes.succeeds, refused, SameModes]
  · have stages := succeeds
    simp only [ManualOutcomes.succeeds, Bool.and_eq_true] at stages
    have rollsBack : o.rollsBack = false := by simp [ManualOutcomes.rollsBack, stages]
    rw [result, ← idle_of_passes stages.2.2]
    simp [succeeds, rollsBack, readOnly_of_whole stages.2.1]
  · have succeeds : o.succeeds = false := by
      simp only [ManualOutcomes.rollsBack, Bool.and_eq_true, Bool.not_eq_true'] at rollsBack
      simp [ManualOutcomes.succeeds, rollsBack]
    simp only [result, rollsBack, succeeds, failAfterRollback_success,
      failAfterRollback_manager, rollbackFailed_failAfterRollback _ _ plain]
    cases whole : o.rollback.whole with
    | false => simp
    | true => simp [sameModes_iff (readWrite_of_whole whole)]

/-- A service that is read-only already, asked once more while an `ALTER` starts, comes
back with an error and is read-write. -/
theorem setReadOnlyManually_releases :
    let m : Manager := ⟨⟨true, true, ⟨"10.0.0.1", "3306"⟩, false⟩, true⟩
    let alter : Process := ⟨.other "app", true, true⟩
    let result := m.setReadOnlyManually
      ⟨⟨[], .row⟩, ⟨true, true⟩, ⟨[alter], .row⟩, ⟨true, true⟩⟩
    result.success = false ∧ result.rollbackFailed = false ∧ m.db.readOnly = true ∧
      result.manager.db.readOnly = false ∧ result.manager.readonly = false := by
  decide

end Moha.ReadOnlyFlag
