import Moha.BinlogList
import Mathlib.Logic.Function.Basic

/-! The flashback loops of `main` in `moctl/recovery.go`. The first loop has the tool write
one reversing log for each binlog and keeps a list of names; the second replays the names
of that list, first to last. Only the first name is the one that the tool wrote: the others
are spelled `.falshback`. -/
namespace Moha.Flashback
open PathText BinlogList

section Loops
variable {State : Type}

/-- The files with a reversing log, by name. -/
abbrev Files (State : Type) := Text → Option (State → State)

def flashbackExt : Text := ['.', 'f', 'l', 'a', 's', 'h', 'b', 'a', 'c', 'k']

def falshbackExt : Text := ['.', 'f', 'a', 'l', 's', 'h', 'b', 'a', 'c', 'k']

/-- The name that is kept for the `j`-th binlog. -/
def keptName (destfile : Text) (j : Nat) : Text :=
  if j = 0 then destfile ++ flashbackExt else destfile ++ falshbackExt

/-- The loop that calls the tool, from the `j`-th binlog on. `reversal` is what the tool
writes for a binlog, for the first one from the start position on. -/
def flashbackLoop (binlogbackupdir : Text) (reversal : Text → State → State) :
    Nat → List Text → Files State → Files State × List Text
  | _, [], files => (files, [])
  | j, binlog :: rest, files =>
    let destfile := binlogbackupdir ++ binlog
    let written := Function.update files (destfile ++ flashbackExt) (some (reversal binlog))
    let (files, binlogFlashbackSlice) :=
      flashbackLoop binlogbackupdir reversal (j + 1) rest written
    (files, keptName destfile j :: binlogFlashbackSlice)

/-- `mysqlbinlog` of a name into `mysql`; without the file nothing is applied. -/
def replay (files : Files State) (s : State) (name : Text) : State :=
  match files name with
  | none => s
  | some log => log s

/-- Both loops of `main`. -/
def flashback (binlogbackupdir : Text) (reversal : Text → State → State)
    (binlogRecoverSlice : List Text) (files : Files State) (s : State) : State :=
  let (files, binlogFlashbackSlice) :=
    flashbackLoop binlogbackupdir reversal 0 binlogRecoverSlice files
  binlogFlashbackSlice.foldl (replay files) s

end Loops

/-- Whatever the binlogs do, and whatever else is on the disk, logs that reverse them
exactly take the database back to where it was before them. -/
def Restores (binlogs : List Text) : Prop :=
  ∀ (State : Type) (effect reversal : Text → State → State),
    (∀ binlog ∈ binlogs, ∀ s, reversal binlog (effect binlog s) = s) →
      ∀ (binlogbackupdir : Text) (files : Files State) (s : State),
        flashback binlogbackupdir reversal binlogs files
          (binlogs.foldl (fun s binlog => effect binlog s) s) = s

/-! ### What the loops do -/

section Lemmas
variable {State : Type} {dir : Text} {reversal : Text → State → State}

/-- The tool does not write a name with the other spelling. -/
theorem flashbackLoop_falshback (j : Nat) (binlogs : List Text) (files : Files State)
    (name : Text) :
    (flashbackLoop dir reversal j binlogs files).1 (name ++ falshbackExt) =
      files (name ++ falshbackExt) := by
  induction binlogs generalizing j files with
  | nil => rfl
  | cons binlog rest ih =>
    have apart : name ++ falshbackExt ≠ dir ++ binlog ++ flashbackExt := by
      intro same
      have ends := List.append_inj_right' same rfl
      exact absurd ends (by decide)
    refine (ih (j + 1) _).trans ?_
    exact Function.update_of_ne apart _ _

/-- After the first binlog every name that is kept has the other spelling. -/
theorem flashbackLoop_slice {j : Nat} (later : j ≠ 0) (binlogs : List Text)
    (files : Files State) :
    (flashbackLoop dir reversal j binlogs files).2 =
      binlogs.map fun binlog => dir ++ binlog ++ falshbackExt := by
  induction binlogs generalizing j files with
  | nil => rfl
  | cons binlog rest ih =>
    have others := ih (Nat.succ_ne_zero j)
      (Function.update files (dir ++ binlog ++ flashbackExt) (some (reversal binlog)))
    simp only [flashbackLoop, others, keptName, later, if_false, List.map_cons]

/-- A file that the tool has written holds the log of a binlog from then on. -/
theorem flashbackLoop_written {name : Text} {files : Files State} (j : Nat) (binlogs : List Text)
    (written : ∃ binlog, files name = some (reversal binlog)) :
    ∃ binlog, (flashbackLoop dir reversal j binlogs files).1 name = some (reversal binlog) := by
  induction binlogs generalizing j files with
  | nil => exact written
  | cons binlog rest ih =>
    refine ih (j + 1) ?_
    by_cases same : name = dir ++ binlog ++ flashbackExt
    · subst same
      exact ⟨binlog, Function.update_self _ _ _⟩
    · rw [Function.update_of_ne same]
      exact written

theorem foldl_replay_absent {files : Files State} {names : List Text}
    (absent : ∀ name ∈ names, files name = none) (s : State) :
    names.foldl (replay files) s = s := by
  induction names with
  | nil => rfl
  | cons name rest ih =>
    have skipped : replay files s name = s := by
      simp [replay, absent name List.mem_cons_self]
    rw [List.foldl_cons, skipped]
    exact ih fun other member => absent other (List.mem_cons_of_mem name member)

/-- Of a list of binlogs one log is replayed, if no name with the other spelling is on the
disk already. -/
theorem flashback_cons {files : Files State} (binlog : Text) (rest : List Text)
    (clean : ∀ name, files (name ++ falshbackExt) = none) (s : State) :
    ∃ replayed, flashback dir reversal (binlog :: rest) files s = reversal replayed s := by
  let written := Function.update files (dir ++ binlog ++ flashbackExt) (some (reversal binlog))
  have slice := @flashbackLoop_slice State dir reversal 1 (by decide) rest written
  obtain ⟨replayed, held⟩ := @flashbackLoop_written State dir reversal
    (dir ++ binlog ++ flashbackExt) written 1 rest ⟨binlog, Function.update_self _ _ _⟩
  have first : replay (flashbackLoop dir reversal 1 rest written).1 s
      (dir ++ binlog ++ flashbackExt) = reversal replayed s := by
    simp only [replay, held]
  have others : ∀ name ∈ rest.map fun binlog => dir ++ binlog ++ falshbackExt,
      (flashbackLoop dir reversal 1 rest written).1 name = none := by
    intro name member
    obtain ⟨other, _, rfl⟩ := List.mem_map.mp member
    exact (flashbackLoop_falshback 0 (binlog :: rest) files _).trans (clean _)
  refine ⟨replayed, ?_⟩
  show ((dir ++ binlog ++ flashbackExt) :: (flashbackLoop dir reversal 1 rest written).2).foldl
    (replay (flashbackLoop dir reversal 1 rest written).1) s = _
  rw [slice, List.foldl_cons, first]
  exact foldl_replay_absent others _

end Lemmas

private theorem length_foldl_cons (binlogs s : List Text) :
    (binlogs.foldl (fun s binlog => binlog :: s) s).length = binlogs.length + s.length := by
  induction binlogs generalizing s with
  | nil => simp
  | cons binlog rest ih =>
    rw [List.foldl_cons, ih]
    simp only [List.length_cons]
    omega

/-- The loops take back the binlogs of a list exactly if there is at most one of them. -/
theorem flashback_restores_iff (binlogs : List Text) : Restores binlogs ↔ binlogs.length ≤ 1 := by
  constructor
  · intro restores
    -- each binlog puts its name on a stack, and each reversal takes one off
    have stack := restores (List Text) (fun binlog s => binlog :: s) (fun _ s => s.tail)
      (fun _ _ _ => rfl) [] (fun _ => none) []
    cases binlogs with
    | nil => simp
    | cons binlog rest =>
      obtain ⟨_, popped⟩ := @flashback_cons (List Text) [] (fun _ s => s.tail) (fun _ => none)
        binlog rest (fun _ => rfl) ((binlog :: rest).foldl (fun s binlog => binlog :: s) [])
      rw [popped] at stack
      have length := congrArg List.length stack
      rw [List.length_tail, length_foldl_cons] at length
      simpa using length
  · intro short State effect reversal reverses dir files s
    match binlogs, short with
    | [], _ => rfl
    | [binlog], _ =>
      have reversed := reverses binlog List.mem_cons_self s
      simpa [flashback, flashbackLoop, keptName, replay] using reversed

/-- Two binlogs that each put their name on a stack: the second one is not taken back. -/
theorem flashback_keeps_second :
    let base : Text := ['b']
    let binlogs := [binlogName base 1, binlogName base 2]
    getBinlogList (fun _ => some (binlogName base 2)) (binlogName base 1) 3 =
        some (.files binlogs) ∧
      flashback ['/'] (fun _ s => s.tail) binlogs (fun _ => none)
        (binlogs.foldl (fun s binlog => binlog :: s) []) = [binlogName base 1] := by
  decide +kernel

end Moha.Flashback
