import Moha.LatestLog
import Mathlib.Data.List.Dedup

/-! The transactions that a MySQL server has executed, without gaps and in order, and
the text of their GTID set. `GetTxnIDFromGTIDStr` reads the number after the last
transaction of a server UUID back from that text. -/
namespace Moha.TransactionLog
open DecimalText GtidText

/-- A server UUID as MySQL prints it. -/
structure ServerUUID where
  text : String
  canonical : canonicalUUID text.toList = some text.toList
  deriving DecidableEq

structure Txn where
  uuid : ServerUUID
  number : Nat
  deriving DecidableEq

/-- How many transactions of a server are in the log. -/
def count (uuid : ServerUUID) (log : List Txn) : Nat := log.countP fun txn => txn.uuid = uuid

/-- The transactions of a server are numbered from one on. -/
def intervalText (count : Nat) : List Char :=
  if count = 1 then ['1'] else '1' :: '-' :: (sprint count.toUInt64).toList

def uuidSetText (log : List Txn) (uuid : ServerUUID) : List Char :=
  uuid.text.toList ++ ':' :: intervalText (count uuid log)

/-- The GTID set of a log. MySQL also breaks the line behind a comma, which the parser
trims. -/
def gtidText (log : List Txn) : String :=
  String.ofList ([','].intercalate ((log.map Txn.uuid).dedup.map (uuidSetText log)))

/-! ### The characters of the text -/

/-- Hexadecimal digits in lower case, and the hyphen. -/
def Printed (c : Char) : Prop :=
  c.toNat = 45 ∨ (48 ≤ c.toNat ∧ c.toNat ≤ 57) ∨ (97 ≤ c.toNat ∧ c.toNat ≤ 102)

theorem Printed.isSpace {c : Char} (printed : Printed c) : isSpace c = false := by
  unfold Printed at printed
  simp [GtidText.isSpace]
  omega

theorem Printed.ne_separator {c : Char} (printed : Printed c) : c ≠ ',' ∧ c ≠ ':' := by
  constructor <;> rintro rfl <;> revert printed <;> unfold Printed <;> decide

theorem printed_hexDigit {c digit : Char} (read : hexDigit c = some digit) : Printed digit := by
  unfold hexDigit at read
  split at read
  · rename_i lower
    cases read
    simp only [Bool.or_eq_true, Bool.and_eq_true, decide_eq_true_eq, Char.isDigit, Char.le_def,
      UInt32.le_iff_toNat_le, ge_iff_le] at lower
    exact .inr lower
  · split at read
    · rename_i upper
      cases read
      simp only [Bool.and_eq_true, decide_eq_true_eq, Char.le_def, UInt32.le_iff_toNat_le] at upper
      have shifted : ∀ n < 71, 65 ≤ n → Printed (Char.ofNat n).toLower := by
        unfold Printed
        decide
      simpa using shifted c.toNat (Nat.lt_succ_of_le upper.2) upper.1
    · contradiction

theorem printed_hashLike {digits text : List Char} (read : hashLike digits = some text) :
    ∀ c ∈ text, Printed c := by
  unfold hashLike at read
  split at read
  · obtain ⟨printed, mapped, rfl⟩ := Option.map_eq_some_iff.mp read
    have hyphen : Printed '-' := .inl rfl
    intro c member
    have part : c = '-' ∨ c ∈ printed := by
      simp only [List.append_assoc, List.cons_append, List.mem_append, List.mem_cons] at member
      grind [List.mem_of_mem_take, List.mem_of_mem_drop]
    rcases part with rfl | member
    · exact hyphen
    · obtain ⟨digit, _, read⟩ := exists_of_mem_mapM mapped member
      exact printed_hexDigit read
  · contradiction

theorem ServerUUID.printed (uuid : ServerUUID) : ∀ c ∈ uuid.text.toList, Printed c := by
  have canonical := uuid.canonical
  simp only [canonicalUUID] at canonical
  split at canonical
  · split at canonical
    · split at canonical
      · split at canonical
        · exact printed_hashLike canonical
        · contradiction
      · exact printed_hashLike canonical
    · contradiction
  · split at canonical
    · split at canonical
      · exact printed_hashLike canonical
      · contradiction
    · exact printed_hashLike canonical

theorem isDigit_sprint (n : UInt64) : ∀ c ∈ (sprint n).toList, c.isDigit = true := by
  intro c member
  rw [sprint_toList] at member
  exact Nat.isDigit_of_mem_toDigits (by decide) (by decide) member

theorem printed_sprint (n : UInt64) : ∀ c ∈ (sprint n).toList, Printed c := by
  intro c member
  have digit := isDigit_sprint n c member
  simp only [Char.isDigit, Bool.and_eq_true, decide_eq_true_eq, UInt32.le_iff_toNat_le,
    ge_iff_le] at digit
  exact .inr (.inl digit)

theorem printed_intervalText (n : Nat) : ∀ c ∈ intervalText n, Printed c := by
  have one : Printed '1' := .inr (.inl (by decide))
  unfold intervalText
  split
  · simpa using one
  · simpa using ⟨one, .inl rfl, printed_sprint n.toUInt64⟩

/-! ### Reading the text back -/

/-- What the parser reads from the interval of the first `n` transactions. -/
def firstTxns (n : Nat) : Interval := ⟨1, Int64.ofNat (n + 1)⟩

theorem parseInterval_intervalText {n : Nat} (positive : 1 ≤ n) (small : n + 1 < 2 ^ 63) :
    parseInterval (intervalText n) = some (firstTxns n) := by
  have ordered : (1 : Int64) < Int64.ofNat (n + 1) := by
    rw [Int64.lt_iff_toInt_lt, Int64.toInt_ofNat_of_lt small]
    simp only [Int64.toInt_one]
    omega
  have one : parseInt ['1'] = (1, true) := by decide
  unfold intervalText
  split
  · rename_i single
    subst single
    decide
  · have size : n.toUInt64.toNat = n :=
      UInt64.toNat_ofNat_of_lt' (Nat.lt_of_lt_of_le (by omega) (by decide : 2 ^ 63 ≤ UInt64.size))
    have number : parseInt (sprint n.toUInt64).toList = ((n : Int), true) := by
      rw [parseInt_sprint (by omega), size]
    have split : ('1' :: '-' :: (sprint n.toUInt64).toList).splitOn '-' =
        [['1'], (sprint n.toUInt64).toList] := by
      have noHyphen : '-' ∉ (sprint n.toUInt64).toList := fun member =>
        absurd (isDigit_sprint _ _ member) (by decide)
      simpa [List.intercalate_cons_cons] using @List.splitOn_intercalate _
        [['1'], (sprint n.toUInt64).toList] _ _ '-' (by simpa using noHyphen) (by simp)
    have stop : Int64.ofInt n + 1 = Int64.ofNat (n + 1) := by
      simp [Int64.ofInt_eq_ofNat]
    simp only [parseInterval, split, one, number, stop]
    simpa [firstTxns] using ordered

theorem normalize_single (interval : Interval) : GtidText.normalize [interval] = [interval] := by
  simp [GtidText.normalize, mergeIntervals]

theorem trimSpace_of_printed {text : List Char} (inked : ∀ c ∈ text, isSpace c = false) :
    trimSpace text = text := by
  have whole : ∀ {chars : List Char}, (∀ c ∈ chars, isSpace c = false) →
      chars.dropWhile isSpace = chars := by
    intro chars none
    cases chars with
    | nil => rfl
    | cons first rest => simp [none first List.mem_cons_self]
  rw [trimSpace, whole inked, whole (by simpa using inked), List.reverse_reverse]

theorem parseUUIDSet_uuidSetText {log : List Txn} {uuid : ServerUUID}
    (positive : 1 ≤ count uuid log) (small : count uuid log + 1 < 2 ^ 63) :
    parseUUIDSet (uuidSetText log uuid) =
      some (uuid.text.toList, [firstTxns (count uuid log)]) := by
  have printed := uuid.printed
  have interval := printed_intervalText (count uuid log)
  have inked : ∀ c ∈ uuidSetText log uuid, isSpace c = false := by
    intro c member
    rcases List.mem_append.mp member with member | member
    · exact (printed c member).isSpace
    · rcases List.mem_cons.mp member with rfl | member
      · decide
      · exact (interval c member).isSpace
  have split : (uuidSetText log uuid).splitOn ':' =
      [uuid.text.toList, intervalText (count uuid log)] := by
    have noColon : ∀ part ∈ [uuid.text.toList, intervalText (count uuid log)], ':' ∉ part := by
      simp only [List.forall_mem_cons, List.not_mem_nil, false_implies, implies_true, and_true]
      exact ⟨fun member => (printed _ member).ne_separator.2 rfl,
        fun member => (interval _ member).ne_separator.2 rfl⟩
    simpa [uuidSetText, List.intercalate_cons_cons] using
      List.splitOn_intercalate ':' noColon (by simp)
  simp only [parseUUIDSet, trimSpace_of_printed inked, split]
  simp [uuid.canonical, parseInterval_intervalText positive small, normalize_single]

/-- What the parser holds of a UUID of the log. -/
def parsedSet (log : List Txn) (uuid : ServerUUID) : List Char × List Interval :=
  (uuid.text.toList, [firstTxns (count uuid log)])

theorem lookup_parsedSet (log : List Txn) (uuids : List ServerUUID) (uuid : ServerUUID) :
    (uuids.map (parsedSet log)).lookup uuid.text.toList =
      if uuid ∈ uuids then some [firstTxns (count uuid log)] else none := by
  induction uuids with
  | nil => rfl
  | cons first rest ih =>
    by_cases same : uuid = first
    · simp [parsedSet, same]
    · have apart : (uuid.text.toList == first.text.toList) = false := by
        refine beq_eq_false_iff_ne.mpr fun texts => same ?_
        cases uuid
        cases first
        cases String.toList_inj.mp texts
        rfl
      simp [parsedSet, List.lookup_cons, apart, same, ← ih]

/-- Each set of the text is of another UUID, so that it is added as it is. -/
theorem foldlM_uuidSetText {log : List Txn} {uuids held : List ServerUUID}
    (positive : ∀ uuid ∈ uuids, 1 ≤ count uuid log)
    (small : ∀ uuid, count uuid log + 1 < 2 ^ 63) (distinct : (held ++ uuids).Nodup) :
    (uuids.map (uuidSetText log)).foldlM
        (fun sets part => (parseUUIDSet part).map (addSet sets)) (held.map (parsedSet log)) =
      some ((held ++ uuids).map (parsedSet log)) := by
  induction uuids generalizing held with
  | nil => simp
  | cons first rest ih =>
    have fresh : first ∉ held := fun member =>
      (List.nodup_append.mp distinct).2.2 first member first List.mem_cons_self rfl
    have added : addSet (held.map (parsedSet log)) (parsedSet log first) =
        (held ++ [first]).map (parsedSet log) := by
      have absent := lookup_parsedSet log held first
      rw [if_neg fresh] at absent
      simp [addSet, show (parsedSet log first).1 = first.text.toList from rfl, absent]
    have set := parseUUIDSet_uuidSetText (positive first List.mem_cons_self) (small first)
    rw [List.map_cons, List.foldlM_cons, set, Option.map_some]
    refine (congrArg (fun sets => (rest.map (uuidSetText log)).foldlM _ sets) added).trans ?_
    have others := @ih (held ++ [first])
      (fun uuid member => positive uuid (List.mem_cons_of_mem _ member)) (by simpa using distinct)
    simpa using others

theorem count_pos_iff {uuid : ServerUUID} {log : List Txn} :
    1 ≤ count uuid log ↔ uuid ∈ log.map Txn.uuid := by
  simp [count, Nat.one_le_iff_ne_zero]

theorem splitOn_gtidText {log : List Txn} (executed : log ≠ []) :
    (gtidText log).toList.splitOn ',' = (log.map Txn.uuid).dedup.map (uuidSetText log) := by
  rw [gtidText, String.toList_ofList]
  refine List.splitOn_intercalate ',' ?_ (by simpa using executed)
  intro part member
  obtain ⟨uuid, known, rfl⟩ := List.mem_map.mp member
  intro comma
  rcases List.mem_append.mp comma with comma | comma
  · exact (uuid.printed _ comma).ne_separator.1 rfl
  · rcases List.mem_cons.mp comma with same | comma
    · cases same
    · exact (printed_intervalText _ _ comma).ne_separator.1 rfl

theorem parseMysqlGTIDSet_gtidText {log : List Txn}
    (small : ∀ uuid, count uuid log + 1 < 2 ^ 63) :
    parseMysqlGTIDSet (gtidText log) =
      some ((log.map Txn.uuid).dedup.map (parsedSet log)) := by
  by_cases executed : log = []
  · subst executed
    rfl
  have split := splitOn_gtidText executed
  have nonempty : gtidText log ≠ "" := by
    intro empty
    rw [empty] at split
    have part : [] ∈ (log.map Txn.uuid).dedup.map (uuidSetText log) :=
      split ▸ List.mem_singleton_self []
    obtain ⟨uuid, _, text⟩ := List.mem_map.mp part
    simp [uuidSetText] at text
  rw [parseMysqlGTIDSet, if_neg nonempty, split]
  exact @foldlM_uuidSetText log _ []
    (fun uuid member => count_pos_iff.mpr (List.mem_dedup.mp member)) small (List.nodup_dedup _)

/-- A load of the replication info of a server succeeds when the log has a transaction
of it, and counts the transactions of it. -/
theorem replicationInfo_gtidText {log : List Txn} {uuid : ServerUUID}
    (small : ∀ uuid, count uuid log + 1 < 2 ^ 63) :
    LatestLog.replicationInfo uuid.text (gtidText log) =
      if 1 ≤ count uuid log then
        some ⟨uuid.text, gtidText log, UInt64.ofNat (count uuid log + 1)⟩
      else none := by
  have held := lookup_parsedSet log (log.map Txn.uuid).dedup uuid
  rw [LatestLog.replicationInfo, getTxnIDFromGTIDStr, parseMysqlGTIDSet_gtidText small]
  by_cases positive : 1 ≤ count uuid log
  · rw [if_pos (List.mem_dedup.mpr (count_pos_iff.mp positive))] at held
    simp only [held, List.getLast?_singleton, firstTxns, if_pos positive]
    rfl
  · rw [if_neg (fun member => positive (count_pos_iff.mpr (List.mem_dedup.mp member)))] at held
    simp [held, positive]

/-! ### Logs in order -/

/-- Every transaction is numbered behind those of its server that precede it. -/
def Sequential (log : List Txn) : Prop :=
  ∀ before txn, before ++ [txn] <+: log → txn.number = count txn.uuid before + 1

theorem sequential_nil : Sequential [] := by
  intro before txn start
  simp at start

theorem count_concat (uuid : ServerUUID) (log : List Txn) (txn : Txn) :
    count uuid (log ++ [txn]) = count uuid log + if txn.uuid = uuid then 1 else 0 := by
  simp [count, List.countP_append, List.countP_singleton]

theorem Sequential.concat {log : List Txn} {txn : Txn} (sequential : Sequential log)
    (number : txn.number = count txn.uuid log + 1) : Sequential (log ++ [txn]) := by
  intro before last start
  rcases List.prefix_concat_iff.mp start with whole | earlier
  · obtain ⟨rfl, same⟩ := List.append_inj' whole rfl
    cases same
    exact number
  · exact sequential before last earlier

theorem Sequential.number_le {log : List Txn} {txn : Txn} (sequential : Sequential log)
    (member : txn ∈ log) : txn.number ≤ count txn.uuid log := by
  obtain ⟨before, after, rfl⟩ := List.append_of_mem member
  rw [sequential before txn ⟨after, by simp⟩]
  simp only [count, List.countP_append, List.countP_cons, decide_true, if_pos]
  omega

/-- The first transaction that a server lacks of a log it has the first part of is the
next one. -/
theorem Sequential.next {log own : List Txn} {txn : Txn} (sequential : Sequential log)
    (held : own <+: log) (found : log.find? (fun txn => txn ∉ own) = some txn) :
    own ++ [txn] <+: log := by
  obtain ⟨rest, rfl⟩ := held
  have skipped : own.find? (fun txn => txn ∉ own) = none := by simp
  rw [List.find?_append, skipped, Option.none_or] at found
  cases rest with
  | nil => contradiction
  | cons first rest =>
    have lacked : first ∉ own := by
      intro member
      have number := sequential own first ⟨rest, by simp⟩
      have bound := Sequential.number_le (fun before txn start =>
        sequential before txn (start.trans (List.prefix_append own _))) member
      omega
    rw [List.find?_cons_of_pos (by simpa using lacked)] at found
    cases found
    exact ⟨rest, by simp⟩

/-- Two first parts of one log compare by the transactions of a server, once the part
with more of them has the base from which on the log is all that server's. -/
theorem prefix_of_count_le {uuid : ServerUUID} {base written first second : List Txn}
    (own : ∀ txn ∈ written, txn.uuid = uuid) (whole : base <+: second)
    (start : first <+: base ++ written) (start' : second <+: base ++ written)
    (le : count uuid first ≤ count uuid second) : first <+: second := by
  rcases List.prefix_or_prefix_of_prefix start start' with shorter | ⟨more, rfl⟩
  · exact shorter
  · obtain ⟨middle, rfl⟩ := whole
    have part : ∀ txn ∈ more, txn.uuid = uuid := by
      intro txn member
      obtain ⟨rest, same⟩ := start
      have tail : middle ++ more ++ rest = written :=
        @List.append_cancel_left _ base _ _ (by simpa using same)
      exact own txn (tail ▸ by simp [member])
    have all : more.countP (fun txn => txn.uuid = uuid) = more.length :=
      List.countP_eq_length.mpr (by simpa using part)
    have none : more = [] := by
      simp only [count, List.countP_append, all] at le
      exact List.length_eq_zero_iff.mp (by omega)
    simp [none]

end Moha.TransactionLog
