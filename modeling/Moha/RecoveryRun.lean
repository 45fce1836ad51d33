import Moha.Flashback
import Moha.Recovery

/-! A whole run of `main` in `moctl/recovery.go`: what the old master has, and what it says it
has, when the tool is done. The tool stops at the first error of what it reads; from the first
command that changes the database on, errors are printed and the run goes on. Its last
statements set the GTID set of the switch, whatever became of the data. -/
namespace Moha.RecoveryRun
open PathText BinlogList Recovery
open Flashback (Files flashbackExt keptName replay)

/-- The old master: its data, and the GTID set that it says it has executed. -/
structure Database (State : Type) where
  data : State
  executed : String

/-- What the commands of a run do. `containers` is the output of the count of the running
containers, `dataDir` the answer of the new master, `answers` those of the old master to the
reads of its status; the others tell for each binlog, by its place in the list, whether it was
copied, whether the tool wrote its reversing log, and whether the log was replayed. -/
structure Outcomes where
  containers : Text
  dataDir : Option Text
  answers : Nat → Option Text
  copied : Nat → Bool
  reversed : Nat → Bool
  replayed : Nat → Bool
  resetMaster : Bool
  setPurged : Bool

inductive Ending where
  | containerRuns
  | switchInfo (failure : Failure)
  | dataDir
  | binlogList (result : Result)
  | copyFile
  | done
  deriving DecidableEq, Repr

section Loops
variable {State : Type}

/-- The loop that calls the tool, from the `j`-th binlog on. -/
def reverseLoop (binlogbackupdir : Text) (reversal : Text → State → State)
    (reversed : Nat → Bool) : Nat → List Text → Files State → Files State × List Text
  | _, [], files => (files, [])
  | j, binlog :: rest, files =>
    let destfile := binlogbackupdir ++ binlog
    let written :=
      if reversed j then Function.update files (destfile ++ flashbackExt) (some (reversal binlog))
      else files
    let (files, binlogFlashbackSlice) :=
      reverseLoop binlogbackupdir reversal reversed (j + 1) rest written
    (files, keptName destfile j :: binlogFlashbackSlice)

/-- The loop that replays the names, from the `j`-th on. -/
def replayLoop (files : Files State) (replayed : Nat → Bool) : Nat → List Text → State → State
  | _, [], s => s
  | j, name :: rest, s =>
    replayLoop files replayed (j + 1) rest (if replayed j then replay files s name else s)

/-- The part of `main` that changes the data. -/
def takeBack (binlogbackupdir : Text) (reversal : Text → State → State) (o : Outcomes)
    (binlogRecoverSlice : List Text) (files : Files State) (s : State) : State :=
  let (files, binlogFlashbackSlice) :=
    reverseLoop binlogbackupdir reversal o.reversed 0 binlogRecoverSlice files
  replayLoop files o.replayed 0 binlogFlashbackSlice s

/-- `reset master` and the GTID set; the server takes the set only if it has executed nothing. -/
def setExecuted (o : Outcomes) (mohaSwitchGtid executed : String) : String :=
  let executed := if o.resetMaster then "" else executed
  if o.setPurged && executed == "" then mohaSwitchGtid else executed

/-- `recovery.go::main` from the look at the containers on; the result is `none` while the loop
of `getBinlogList` is not done. -/
def main (cfg : Config) (kvs : List (Text × LeaderRecord.Value)) (binlogbackupdir : Text)
    (reversal : Text → State → State) (files : Files State) (o : Outcomes) (fuel : Nat)
    (db : Database State) : Option (Database State × Ending) :=
  if o.containers.filter (· ≠ '\n') = ['1'] then some (db, .containerRuns)
  else
    match getEtcdSwitchInfo cfg kvs with
    | .error failure => some (db, .switchInfo failure)
    | .ok info =>
      match o.dataDir with
      | none => some (db, .dataDir)
      | some _ =>
        (getBinlogList o.answers info.mohaSwitchFile.toList fuel).map fun
          | .files binlogRecoverSlice =>
            if (List.range binlogRecoverSlice.length).all o.copied then
              (⟨takeBack binlogbackupdir reversal o binlogRecoverSlice files db.data,
                setExecuted o info.mohaSwitchGtid db.executed⟩, .done)
            else (db, .copyFile)
          | result => (db, .binlogList result)

end Loops

/-- Whatever the binlogs do, and whatever else is on the disk, logs that reverse them exactly
take the database back to where it was before them. -/
def Restores (o : Outcomes) (binlogs : List Text) : Prop :=
  ∀ (State : Type) (effect reversal : Text → State → State),
    (∀ binlog ∈ binlogs, ∀ s, reversal binlog (effect binlog s) = s) →
      ∀ (binlogbackupdir : Text) (files : Files State) (s : State),
        takeBack binlogbackupdir reversal o binlogs files
          (binlogs.foldl (fun s binlog => effect binlog s) s) = s

/-! ### The loops -/

section Lemmas
variable {State : Type} {dir : Text} {reversal : Text → State → State} {o : Outcomes}

/-- If every command does what it should, the loops are those that `Flashback` looks at. -/
theorem takeBack_eq_flashback (reversed : ∀ j, o.reversed j = true)
    (replayed : ∀ j, o.replayed j = true) (binlogs : List Text) (files : Files State) (s : State) :
    takeBack dir reversal o binlogs files s = Flashback.flashback dir reversal binlogs files s := by
  have loop : ∀ j (binlogs : List Text) (files : Files State),
      reverseLoop dir reversal o.reversed j binlogs files =
        Flashback.flashbackLoop dir reversal j binlogs files := by
    intro j binlogs
    induction binlogs generalizing j with
    | nil => intro files; rfl
    | cons binlog rest ih =>
      intro files
      simp only [reverseLoop, Flashback.flashbackLoop, reversed j, ↓reduceIte, ih]
  have replays : ∀ (files : Files State) j (names : List Text) (s : State),
      replayLoop files o.replayed j names s = names.foldl (replay files) s := by
    intro files j names
    induction names generalizing j with
    | nil => intro s; rfl
    | cons name rest ih =>
      intro s
      simp only [replayLoop, replayed j, ↓reduceIte, ih, List.foldl_cons]
  simp only [takeBack, Flashback.flashback, loop, replays]

/-- A file that the tool may have written. -/
theorem reverseLoop_file {name : Text} {files : Files State} (j : Nat) (binlogs : List Text)
    (before : files name = none ∨ ∃ binlog, files name = some (reversal binlog)) :
    (reverseLoop dir reversal o.reversed j binlogs files).1 name = none ∨
      ∃ binlog, (reverseLoop dir reversal o.reversed j binlogs files).1 name =
        some (reversal binlog) := by
  induction binlogs generalizing j files with
  | nil => exact before
  | cons binlog rest ih =>
    refine ih (j + 1) ?_
    split
    · by_cases same : name = dir ++ binlog ++ flashbackExt
      · subst same
        exact .inr ⟨binlog, Function.update_self _ _ _⟩
      · rw [Function.update_of_ne same]
        exact before
    · exact before

/-- The tool does not write a name with the other spelling. -/
theorem reverseLoop_other (j : Nat) (binlogs : List Text) (files : Files State) (name : Text) :
    (reverseLoop dir reversal o.reversed j binlogs files).1 (name ++ Flashback.falshbackExt) =
      files (name ++ Flashback.falshbackExt) := by
  induction binlogs generalizing j files with
  | nil => rfl
  | cons binlog rest ih =>
    have apart : name ++ Flashback.falshbackExt ≠ dir ++ binlog ++ flashbackExt := by
      intro same
      have ends := List.append_inj_right' same rfl
      exact absurd ends (by decide)
    refine (ih (j + 1) _).trans ?_
    split
    · exact Function.update_of_ne apart _ _
    · rfl

theorem reverseLoop_slice {j : Nat} (later : j ≠ 0) (binlogs : List Text) (files : Files State) :
    (reverseLoop dir reversal o.reversed j binlogs files).2 =
      binlogs.map fun binlog => dir ++ binlog ++ Flashback.falshbackExt := by
  induction binlogs generalizing j files with
  | nil => rfl
  | cons binlog rest ih =>
    simp only [reverseLoop, ih (Nat.succ_ne_zero j), keptName, later, if_false, List.map_cons]

theorem replayLoop_absent {files : Files State} {names : List Text}
    (absent : ∀ name ∈ names, files name = none) (j : Nat) (s : State) :
    replayLoop files o.replayed j names s = s := by
  induction names generalizing j with
  | nil => rfl
  | cons name rest ih =>
    have skipped : (if o.replayed j then replay files s name else s) = s := by
      split
      · simp [replay, absent name List.mem_cons_self]
      · rfl
    rw [replayLoop, skipped]
    exact ih (fun other member => absent other (List.mem_cons_of_mem name member)) (j + 1)

/-- Of a list of binlogs at most one log is replayed, if no name with the other spelling is on
the disk already. -/
theorem takeBack_cons {files : Files State} (binlog : Text) (rest : List Text)
    (empty : ∀ name, files name = none) (s : State) :
    takeBack dir reversal o (binlog :: rest) files s = s ∨
      ∃ replayed, takeBack dir reversal o (binlog :: rest) files s = reversal replayed s := by
  have slice : (reverseLoop dir reversal o.reversed 0 (binlog :: rest) files).2 =
      (dir ++ binlog ++ flashbackExt) ::
        rest.map fun binlog => dir ++ binlog ++ Flashback.falshbackExt := by
    simp only [reverseLoop, reverseLoop_slice (Nat.succ_ne_zero 0), keptName, if_true]
  have others : ∀ name ∈ rest.map fun binlog => dir ++ binlog ++ Flashback.falshbackExt,
      (reverseLoop dir reversal o.reversed 0 (binlog :: rest) files).1 name = none := by
    intro name member
    obtain ⟨other, _, rfl⟩ := List.mem_map.mp member
    exact (reverseLoop_other 0 (binlog :: rest) files _).trans (empty _)
  simp only [takeBack, slice, replayLoop, replayLoop_absent others]
  split
  · rcases @reverseLoop_file State dir reversal o (dir ++ binlog ++ flashbackExt) files 0
      (binlog :: rest) (.inl (empty _)) with absent | ⟨replayed, held⟩
    · exact .inl (by simp only [replay, absent])
    · exact .inr ⟨replayed, by simp only [replay, held]⟩
  · exact .inl rfl

end Lemmas

/-- The data is taken back exactly if there is one binlog, the tool wrote its log, and the log
was replayed. -/
theorem restores_iff (o : Outcomes) {binlogs : List Text} (nonempty : binlogs ≠ []) :
    Restores o binlogs ↔
      binlogs.length = 1 ∧ o.reversed 0 = true ∧ o.replayed 0 = true := by
  obtain ⟨binlog, rest, rfl⟩ := List.exists_cons_of_ne_nil nonempty
  constructor
  · intro restores
    -- each binlog puts its name on a stack, and each reversal takes one off
    have stack := restores (List Text) (fun binlog s => binlog :: s) (fun _ s => s.tail)
      (fun _ _ _ => rfl) [] (fun _ => none) []
    have pushed : ((binlog :: rest).foldl (fun s binlog => binlog :: s) ([] : List Text)).length =
        rest.length + 1 := by simp
    have alone : rest = [] := by
      rw [← List.length_eq_zero_iff]
      rcases @takeBack_cons (List Text) [] (fun _ s => s.tail) o (fun _ => none) binlog rest
        (fun _ => rfl) ((binlog :: rest).foldl (fun s binlog => binlog :: s) []) with
        kept | ⟨_, popped⟩
      · rw [kept] at stack
        rw [stack] at pushed
        simp at pushed
      · rw [popped] at stack
        have length := congrArg List.length stack
        rw [List.length_tail, pushed] at length
        simpa using length
    subst alone
    refine ⟨rfl, ?_⟩
    revert stack
    cases reversed : o.reversed 0 <;> cases replayed : o.replayed 0 <;>
      simp [takeBack, reverseLoop, replayLoop, replay, reversed, replayed, keptName]
  · rintro ⟨one, reversed, replayed⟩ State effect reversal reverses dir files s
    have alone : rest = [] := by simpa using one
    subst alone
    have back := reverses binlog List.mem_cons_self s
    simpa [takeBack, reverseLoop, replayLoop, replay, reversed, replayed, keptName] using back

/-! ### The run -/

section Run
variable {State : Type} {cfg : Config} {kvs : List (Text × LeaderRecord.Value)} {dir : Text}
  {reversal : Text → State → State} {files : Files State} {o : Outcomes} {fuel : Nat}

/-- A run that stops early leaves the old master as it was. -/
theorem main_untouched {db db' : Database State} {ending : Ending} (early : ending ≠ .done)
    (ran : main cfg kvs dir reversal files o fuel db = some (db', ending)) : db' = db := by
  unfold main at ran
  split at ran
  · cases ran
    rfl
  · split at ran
    · cases ran
      rfl
    · split at ran
      · cases ran
        rfl
      · obtain ⟨result, _, ended⟩ := Option.map_eq_some_iff.mp ran
        cases result with
        | panics | failed =>
          cases ended
          rfl
        | files binlogs =>
          dsimp only at ended
          split at ended
          · cases ended
            exact absurd rfl early
          · cases ended
            rfl

/-- What the tool finds when nothing stops it: the record of the switch, and an old master
whose status it can read. -/
structure Proceeds (cfg : Config) (kvs : List (Text × LeaderRecord.Value)) (o : Outcomes)
    (info : SwitchInfo) (base : Text) (i j : Nat) : Prop where
  stopped : o.containers.filter (· ≠ '\n') ≠ ['1']
  found : getEtcdSwitchInfo cfg kvs = .ok info
  file : info.mohaSwitchFile.toList = binlogName base i
  plain : '.' ∉ base
  dataDir : o.dataDir ≠ none
  status : ∃ k ≤ 10, (∀ l < k, o.answers l = none) ∧ o.answers k = some (binlogName base j)
  order : i ≤ j
  small : j < 10 ^ 6
  copied : ∀ l, o.copied l = true

theorem main_of_proceeds {info : SwitchInfo} {base : Text} {i j : Nat}
    (proceeds : Proceeds cfg kvs o info base i j) (db : Database State) :
    main cfg kvs dir reversal files o (j + 2 - i) db =
      some (⟨takeBack dir reversal o (binlogNames base i j) files db.data,
        setExecuted o info.mohaSwitchGtid db.executed⟩, .done) := by
  obtain ⟨stopped, found, file, plain, answersDir, ⟨k, within, failed, answered⟩, order, small,
    copied⟩ := proceeds
  obtain ⟨path, dataDir⟩ := Option.ne_none_iff_exists'.mp answersDir
  have listed : getBinlogList o.answers info.mohaSwitchFile.toList (j + 2 - i) =
      some (.files (binlogNames base i j)) := by
    rw [file, getBinlogList_eq plain within failed answered, if_pos (by omega),
      collect_of_lt base small (by omega)]
    rfl
  have all : (List.range (binlogNames base i j).length).all o.copied = true := by simp [copied]
  unfold main
  rw [if_neg stopped, found]
  dsimp only
  rw [dataDir]
  dsimp only
  rw [listed, Option.map_some]
  dsimp only
  rw [if_pos all]

end Run

/-- A run that nothing stops ends, and if its last two statements succeed the old master says
that it has executed the transactions up to the switch and no others; its data is that of the
switch exactly if all its later transactions are in one binlog, and both the tool and the
replay succeeded for it. -/
theorem recovery_ends_at_switch_iff {cfg : Config} {kvs : List (Text × LeaderRecord.Value)}
    {o : Outcomes} {info : SwitchInfo} {base : Text} {i j : Nat}
    (proceeds : Proceeds cfg kvs o info base i j) (reset : o.resetMaster = true)
    (purged : o.setPurged = true) :
    (∀ (State : Type) (reversal : Text → State → State) (dir : Text) (files : Files State)
      (db : Database State), ∃ after,
        main cfg kvs dir reversal files o (j + 2 - i) db =
          some (⟨after, info.mohaSwitchGtid⟩, .done)) ∧
      ((∀ (State : Type) (effect reversal : Text → State → State),
        (∀ binlog ∈ binlogNames base i j, ∀ s, reversal binlog (effect binlog s) = s) →
          ∀ (dir : Text) (files : Files State) (s : State) (executed : String),
            main cfg kvs dir reversal files o (j + 2 - i)
              ⟨(binlogNames base i j).foldl (fun s binlog => effect binlog s) s, executed⟩ =
                some (⟨s, info.mohaSwitchGtid⟩, .done)) ↔
        i = j ∧ o.reversed 0 = true ∧ o.replayed 0 = true) := by
  have executed : ∀ executed, setExecuted o info.mohaSwitchGtid executed = info.mohaSwitchGtid := by
    intro executed
    simp [setExecuted, reset, purged]
  refine ⟨fun State reversal dir files db => ?_, ?_⟩
  · rw [main_of_proceeds proceeds, executed]
    exact ⟨_, rfl⟩
  · have nonempty : binlogNames base i j ≠ [] := by
      have := proceeds.order
      simp [binlogNames]
      omega
    have one : (binlogNames base i j).length = 1 ↔ i = j := by
      have := proceeds.order
      simp [binlogNames]
      omega
    rw [← one, ← restores_iff o nonempty]
    constructor
    · intro ends State effect reversal reverses dir files s
      have ended := ends State effect reversal reverses dir files s ""
      rw [main_of_proceeds proceeds] at ended
      simpa using congrArg (fun result => result.map fun r => r.1.data) ended
    · intro restores State effect reversal reverses dir files s before
      rw [main_of_proceeds proceeds, executed, restores State effect reversal reverses dir files s]

/-- Etcd after a switch from `h:1` to `k:2`. -/
def sampleKvs : List (Text × LeaderRecord.Value) :=
  [("/mha/c/election/master/term".toList, .text "2"),
    ("/mha/c/election/terms/h:1".toList, .text "1"),
    ("/mha/c/switch/1/k:2".toList,
      .position ⟨"b.000007", "154", "u:1-5", "u", 6, true, true, 0⟩)]

/-- One binlog that puts its name on a stack is taken back. -/
theorem recovery_ends_at_switch_with_one_binlog :
    let o : Outcomes := ⟨['0', '\n'], some [], fun _ => some (binlogName ['b'] 7), fun _ => true,
      fun _ => true, fun _ => true, true, true⟩
    main ⟨"/mha/", "c", "h:1"⟩ sampleKvs [] (fun _ s => s.tail) (fun _ => none) o 2
        ⟨[binlogName ['b'] 7], "u:1-9"⟩ =
      some (⟨([] : List Text), "u:1-5"⟩, .done) := by
  intro o
  have proceeds : Proceeds ⟨"/mha/", "c", "h:1"⟩ sampleKvs o
      ⟨"b.000007", "154", "u:1-5", "k".toList, "2".toList⟩ ['b'] 7 7 := by
    refine ⟨by decide +kernel, by decide +kernel, by decide +kernel, by decide, by decide,
      ⟨0, by omega, by omega, rfl⟩, by omega, by omega, fun _ => rfl⟩
  have names : binlogNames ['b'] 7 7 = [binlogName ['b'] 7] := by decide +kernel
  have ends := (recovery_ends_at_switch_iff proceeds rfl rfl).2.mpr ⟨rfl, rfl, rfl⟩
    (List Text) (fun binlog s => binlog :: s) (fun _ s => s.tail) (fun _ _ _ => rfl) []
    (fun _ => none) [] "u:1-9"
  rw [names] at ends
  exact ends

end Moha.RecoveryRun
