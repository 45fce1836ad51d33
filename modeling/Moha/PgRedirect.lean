import Moha.FallibleCalls
import Moha.MysqlService

/-! `becomeSlave` of `agent/server.go` with the PostgreSQL service manager. `RedirectMaster`
stops the server, rewinds its files to the history of the new master, and starts it as a
standby; when `pg_rewind` fails it removes the data directory and copies the master's. The
errors of the removal and of the copy are not looked at: what decides is whether the server
starts, and it also starts on files that could not be removed.

What the programs do is not part of the repository. They are parameters here, one set for
each attempt, and `Manual` has what their manuals promise. -/
namespace Moha.PgRedirect
open FallibleCalls
open MysqlService (Source)

/-- What matters of the files in `/var/lib/postgresql/data`: the server that `recovery.conf`
names, and the server whose history the files are in line with. -/
structure DataDir where
  upstream : Option Source := none
  base : Option Source := none
  deriving DecidableEq, Repr

/-- One node: the files, if there are any, and the server process with the files it was
started on. -/
structure Host where
  data : Option DataDir
  running : Option DataDir
  deriving DecidableEq, Repr

/-- The programs that `RedirectMaster` runs, and the two calls to the operating system:
`ioutil.WriteFile` with the `chown` after it, and `os.RemoveAll`. -/
structure Programs (ε : Type) where
  pgCtlStop : Call Host ε
  pgRewind : Source → Call Host ε
  writeRecoveryConf : Source → Call Host ε
  removeAll : Call Host ε
  pgBasebackup : Source → Call Host ε
  pgCtlStart : Call Host ε

variable {ε : Type}

/-- `postgresql_service_manager.go::RedirectMaster`, with the distributed lock held. -/
def redirectMaster (source : Source) (p : Programs ε) : Call Host ε := fun host =>
  match p.pgRewind source (p.pgCtlStop host).1 with
  | (rewound, none) => (p.writeRecoveryConf source).andThen p.pgCtlStart rewound
  | (failed, some _) =>
    -- the error of the copy is a new variable, which ends with the branch
    p.removeAll.regardless ((p.pgBasebackup source).regardless p.pgCtlStart) failed

/-- `server.go::becomeSlave`; `attempts` are the programs of each attempt. -/
def becomeSlave (source : Source) (attempts : Nat → Programs ε) : Call Host ε :=
  retry (fun k => redirectMaster source (attempts k)) 10

/-- A call neither empties a data directory nor fills an empty one. -/
def Keeps (call : Call Host ε) : Prop := ∀ host, (call host).1.data = none ↔ host.data = none

/-- What the manuals say of a program that reports success, and of what it leaves otherwise.
Nothing is said of the files after a rewind, a write or a removal that has failed. -/
structure Manual (p : Programs ε) : Prop where
  stop : Keeps p.pgCtlStop
  rewind : ∀ source, Keeps (p.pgRewind source)
  /-- The target is in line with the source. -/
  rewound : ∀ {source host}, (p.pgRewind source host).2 = none →
    ∃ data, (p.pgRewind source host).1.data = some data ∧ data.base = some source
  write : ∀ {source host}, host.data ≠ none → ((p.writeRecoveryConf source) host).1.data ≠ none
  written : ∀ {source host}, (p.writeRecoveryConf source host).2 = none →
    (p.writeRecoveryConf source host).1.data =
      host.data.map fun data => { data with upstream := some source }
  /-- A directory that is not there stays so. -/
  remove : ∀ {host}, host.data = none → (p.removeAll host).1.data = none
  removed : ∀ {host}, (p.removeAll host).2 = none → (p.removeAll host).1.data = none
  /-- With `--write-recovery-conf`. -/
  copied : ∀ {source host}, (p.pgBasebackup source host).2 = none →
    (p.pgBasebackup source host).1.data = some ⟨some source, some source⟩
  /-- A directory with files is refused, and what was copied before an error is removed. -/
  uncopied : ∀ {source host}, (p.pgBasebackup source host).2 ≠ none →
    (p.pgBasebackup source host).1.data = host.data
  start : Keeps p.pgCtlStart
  started : ∀ {host}, (p.pgCtlStart host).2 = none →
    ∃ data, host.data = some data ∧ (p.pgCtlStart host).1.running = some data

/-- The server runs as a standby of the source, on files in line with it. -/
def Follows (host : Host) (source : Source) : Prop :=
  ∃ data, host.running = some data ∧ data.upstream = some source ∧ data.base = some source

/-! ### One attempt -/

/-- The rewind of an attempt. -/
def rewind (source : Source) (p : Programs ε) (host : Host) : Host × Option ε :=
  p.pgRewind source (p.pgCtlStop host).1

/-- The removal that follows a rewind which has failed. -/
def removal (source : Source) (p : Programs ε) (host : Host) : Host × Option ε :=
  p.removeAll (rewind source p host).1

/-- The copy that follows the removal. -/
def copy (source : Source) (p : Programs ε) (host : Host) : Host × Option ε :=
  p.pgBasebackup source (removal source p host).1

section Attempt
variable {source : Source} {p : Programs ε} {host : Host}

theorem redirectMaster_of_rewound (rewound : (rewind source p host).2 = none) :
    redirectMaster source p host =
      (p.writeRecoveryConf source).andThen p.pgCtlStart (rewind source p host).1 := by
  unfold redirectMaster
  unfold rewind at rewound ⊢
  split
  · rename_i result
    rw [result]
  · rename_i result
    rw [result] at rewound
    contradiction

theorem redirectMaster_of_failed (failed : (rewind source p host).2 ≠ none) :
    redirectMaster source p host = p.pgCtlStart (copy source p host).1 := by
  unfold redirectMaster copy removal
  unfold rewind at failed ⊢
  split
  · rename_i result
    rw [result] at failed
    exact absurd rfl failed
  · rename_i result
    rw [result]
    rfl

/-- Files in line with the source whose `recovery.conf` names it are started as its standby. -/
theorem Manual.follows (manual : Manual p) (started : (p.pgCtlStart host).2 = none)
    {data : DataDir} (files : host.data = some data) (upstream : data.upstream = some source)
    (base : data.base = some source) : Follows (p.pgCtlStart host).1 source := by
  obtain ⟨found, same, running⟩ := manual.started started
  cases files.symm.trans same
  exact ⟨data, running, upstream, base⟩

theorem Manual.rewind_keeps (manual : Manual p) :
    (PgRedirect.rewind source p host).1.data = none ↔ host.data = none :=
  (manual.rewind source _).trans (manual.stop host)

/-- The files after a failed copy are those that the removal has left. -/
theorem Manual.copy_eq_none_iff (manual : Manual p) :
    (copy source p host).1.data = none ↔
      (copy source p host).2 ≠ none ∧ (removal source p host).1.data = none := by
  constructor
  · intro absent
    have failed : (copy source p host).2 ≠ none := by
      intro succeeded
      cases (manual.copied succeeded).symm.trans absent
    exact ⟨failed, (manual.uncopied failed).symm.trans absent⟩
  · rintro ⟨failed, absent⟩
    exact (manual.uncopied failed).trans absent

/-- The node has no files after the attempt. -/
theorem Manual.lost_iff (manual : Manual p) :
    (redirectMaster source p host).1.data = none ↔
      (copy source p host).2 ≠ none ∧ (host.data = none ∨
        (PgRedirect.rewind source p host).2 ≠ none ∧ (removal source p host).1.data = none) := by
  by_cases rewound : (PgRedirect.rewind source p host).2 = none
  · -- A rewind that has succeeded has found files, and what follows leaves some.
    obtain ⟨data, files, -⟩ := manual.rewound rewound
    have present : (PgRedirect.rewind source p host).1.data ≠ none := by
      rw [show (PgRedirect.rewind source p host).1.data = some data from files]
      simp
    have before : host.data ≠ none := fun absent => present (manual.rewind_keeps.mpr absent)
    have written := @Manual.write _ _ manual source _ present
    have kept : (redirectMaster source p host).1.data ≠ none := by
      rw [redirectMaster_of_rewound rewound]
      unfold Call.andThen
      split
      · rename_i result
        rwa [result] at written
      · rename_i result
        rw [result] at written
        exact fun absent => written ((manual.start _).mp absent)
    simp [kept, before, rewound]
  · rw [redirectMaster_of_failed rewound, manual.start, manual.copy_eq_none_iff]
    refine and_congr_right fun _ => ⟨fun absent => .inr ⟨rewound, absent⟩, ?_⟩
    rintro (absent | ⟨-, absent⟩)
    · exact manual.remove (manual.rewind_keeps.mpr absent)
    · exact absent

/-- An attempt that reports success on files not in line with the source could neither rewind
nor remove nor replace them. -/
theorem Manual.success (manual : Manual p) (succeeded : (redirectMaster source p host).2 = none) :
    Follows (redirectMaster source p host).1 source ∨
      (PgRedirect.rewind source p host).2 ≠ none ∧ (removal source p host).2 ≠ none ∧
        (copy source p host).2 ≠ none ∧ ∃ data, (removal source p host).1.data = some data ∧
          (redirectMaster source p host).1.running = some data := by
  by_cases rewound : (PgRedirect.rewind source p host).2 = none
  · left
    obtain ⟨data, files, base⟩ := manual.rewound rewound
    rw [redirectMaster_of_rewound rewound] at succeeded ⊢
    unfold Call.andThen at succeeded ⊢
    split at succeeded
    · contradiction
    · rename_i host' result
      have named := @Manual.written _ _ manual source (PgRedirect.rewind source p host).1
        (by rw [result])
      rw [result, show (PgRedirect.rewind source p host).1.data = some data from files] at named
      exact manual.follows succeeded named rfl base
  · rw [redirectMaster_of_failed rewound] at succeeded ⊢
    by_cases copied : (copy source p host).2 = none
    · exact .inl (manual.follows succeeded (manual.copied copied) rfl rfl)
    · obtain ⟨data, files, running⟩ := manual.started succeeded
      have left : (removal source p host).1.data = some data :=
        (manual.uncopied copied).symm.trans files
      refine .inr ⟨rewound, fun removed => ?_, copied, data, left, running⟩
      cases (manual.removed removed).symm.trans left

/-- An attempt that reports success leaves files. -/
theorem Manual.present (manual : Manual p)
    (succeeded : (redirectMaster source p host).2 = none) :
    (redirectMaster source p host).1.data ≠ none := by
  intro absent
  obtain ⟨copied, before⟩ := manual.lost_iff.mp absent
  have failed : (PgRedirect.rewind source p host).2 ≠ none := by
    intro rewound
    obtain ⟨data, files, -⟩ := manual.rewound rewound
    have gone : (PgRedirect.rewind source p host).1.data = none :=
      manual.rewind_keeps.mpr (before.resolve_right fun other => other.1 rewound)
    cases gone.symm.trans files
  rw [redirectMaster_of_failed failed] at succeeded absent
  obtain ⟨data, files, -⟩ := manual.started succeeded
  cases ((manual.start _).mp absent).symm.trans files

end Attempt

/-! ### All attempts -/

section Attempts
variable {source : Source} {attempts : Nat → Programs ε} {host : Host}

/-- The node before an attempt, if it is made. -/
def before (source : Source) (attempts : Nat → Programs ε) (host : Host) (k : Nat) : Host :=
  stateBefore (fun k => redirectMaster source (attempts k)) host k

/-- The attempt removes all files because it could not rewind them. -/
def Removes (source : Source) (attempts : Nat → Programs ε) (host : Host) (k : Nat) : Prop :=
  (rewind source (attempts k) (before source attempts host k)).2 ≠ none ∧
    (removal source (attempts k) (before source attempts host k)).1.data = none

/-- The copy of the attempt fails. -/
def Uncopied (source : Source) (attempts : Nat → Programs ε) (host : Host) (k : Nat) : Prop :=
  (copy source (attempts k) (before source attempts host k)).2 ≠ none

/-- The node has no files after an attempt exactly if some attempt up to it removed them and
none from that one on could copy the master's. -/
theorem data_before_eq_none_iff (manual : ∀ k, Manual (attempts k)) (present : host.data ≠ none)
    (k : Nat) :
    (before source attempts host (k + 1)).data = none ↔
      ∃ i ≤ k, Removes source attempts host i ∧
        ∀ j, i ≤ j → j ≤ k → Uncopied source attempts host j := by
  have step : ∀ k, (before source attempts host (k + 1)).data = none ↔
      Uncopied source attempts host k ∧
        ((before source attempts host k).data = none ∨ Removes source attempts host k) :=
    fun k => (manual k).lost_iff
  induction k with
  | zero =>
    rw [step]
    constructor
    · rintro ⟨uncopied, absent | removes⟩
      · exact absurd absent present
      · refine ⟨0, Nat.le_refl 0, removes, fun j _ last => ?_⟩
        rwa [Nat.le_zero.mp last]
    · rintro ⟨i, last, removes, uncopied⟩
      cases Nat.le_zero.mp last
      exact ⟨uncopied 0 (Nat.le_refl 0) (Nat.le_refl 0), .inr removes⟩
  | succ k ih =>
    rw [step]
    constructor
    · rintro ⟨uncopied, absent | removes⟩
      · obtain ⟨i, earlier, removes, since⟩ := ih.mp absent
        refine ⟨i, by omega, removes, fun j after upTo => ?_⟩
        rcases Nat.lt_or_ge k j with new | old
        · rwa [show j = k + 1 by omega]
        · exact since j after old
      · refine ⟨k + 1, Nat.le_refl _, removes, fun j after upTo => ?_⟩
        rwa [show j = k + 1 by omega]
    · rintro ⟨i, upTo, removes, uncopied⟩
      refine ⟨uncopied (k + 1) upTo (Nat.le_refl _), ?_⟩
      rcases Nat.lt_or_ge k i with new | old
      · have last : i = k + 1 := by omega
        exact .inr (last ▸ removes)
      · exact .inl (ih.mpr ⟨i, old, removes, fun j after earlier => uncopied j after (by omega)⟩)

end Attempts

/-- Programs on a node whose files cannot be rewound. -/
private def scripted (removes copies : Bool) : Programs Unit where
  pgCtlStop host := ({ host with running := none }, none)
  pgRewind _ host := (host, some ())
  writeRecoveryConf source host :=
    ({ host with data := host.data.map fun data => { data with upstream := some source } }, none)
  removeAll host := if removes then ({ host with data := none }, none) else (host, some ())
  pgBasebackup source host :=
    if copies ∧ host.data = none then
      ({ host with data := some ⟨some source, some source⟩ }, none)
    else (host, some ())
  pgCtlStart host :=
    match host.data with
    | some data => ({ host with running := some data }, none)
    | none => (host, some ())

private theorem scripted_manual (removes copies : Bool) : Manual (scripted removes copies) where
  stop host := Iff.rfl
  rewind source host := Iff.rfl
  rewound held := by simp [scripted] at held
  write present := by simpa [scripted] using present
  written _ := rfl
  remove absent := by cases removes <;> simp [scripted, absent]
  removed held := by cases removes <;> simp_all [scripted]
  copied held := by
    simp only [scripted] at held ⊢
    split at held
    · rename_i free
      rw [if_pos free]
    · contradiction
  uncopied held := by
    simp only [scripted] at held ⊢
    split at held
    · exact absurd rfl held
    · rename_i refused
      rw [if_neg refused]
  start host := by
    simp only [scripted]
    split <;> simp_all
  started held := by
    simp only [scripted] at held ⊢
    split at held
    · rename_i data files
      exact ⟨data, files, rfl⟩
    · contradiction

/-- A node that had files has none after `becomeSlave` exactly if an error is returned and
some attempt removed them after a failed rewind, with no attempt from that one on that could
copy the master's. -/
theorem becomeSlave_loses_files_iff {source : Source} {attempts : Nat → Programs ε} {host : Host}
    (manual : ∀ k, Manual (attempts k)) (present : host.data ≠ none) :
    (becomeSlave source attempts host).1.data = none ↔
      (becomeSlave source attempts host).2 ≠ none ∧
        ∃ i ≤ 10, Removes source attempts host i ∧
          ∀ j, i ≤ j → j ≤ 10 → Uncopied source attempts host j := by
  obtain ⟨k, _, _, stopped, result⟩ :=
    retry_cases (fun k => redirectMaster source (attempts k)) 10 host
  have lost := @data_before_eq_none_iff ε source attempts host manual present k
  unfold becomeSlave
  rw [result]
  constructor
  · intro absent
    have failed : errorOf (fun k => redirectMaster source (attempts k)) host k ≠ none :=
      fun succeeded => (manual k).present succeeded absent
    have last : k = 10 := stopped.resolve_left failed
    subst last
    exact ⟨failed, lost.mp absent⟩
  · rintro ⟨failed, removed⟩
    have last : k = 10 := stopped.resolve_left failed
    subst last
    exact lost.mpr removed

/-- The new master cannot be reached: the node is left without files. -/
theorem becomeSlave_loses_files_of_unreachable_master :
    let source : Source := ⟨"10.0.0.2", "5432"⟩
    (becomeSlave source (fun _ => scripted true false) ⟨some {}, some {}⟩).1.data = none := by
  intro source
  refine (becomeSlave_loses_files_iff (fun _ => scripted_manual true false) (by simp)).mpr
    ⟨by decide, 0, by omega, ?_, fun _ _ _ => ?_⟩
  · exact ⟨by simp [rewind, scripted], rfl⟩
  · simp [Uncopied, copy, scripted]

end Moha.PgRedirect
