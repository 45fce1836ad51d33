import Moha.DecimalText
import Moha.FallibleCalls
import Moha.PathText

/-! The binlogs that a recovery takes back: `getBinlogList` of `moctl/recovery.go` reads the
number of the start file and of the current file of the old master, and rebuilds the names
in between. The names are built by a case split on the number of digits that goes up to
six; a number with more digits is reported on the console and left out. -/
namespace Moha.BinlogList
open DecimalText FallibleCalls PathText

/-- `strconv.FormatInt`. -/
def formatInt (i : Int64) : Text :=
  if i < 0 then '-' :: Nat.toDigits 10 i.toInt.natAbs else Nat.toDigits 10 i.toInt.natAbs

/-- The name of one number, in the body of the loop. -/
def binlogFileName (binlogPreName : Text) (i : Int64) : Option Text :=
  let iStr := formatInt i
  match iStr.length with
  | 1 => some (binlogPreName ++ '.' :: '0' :: '0' :: '0' :: '0' :: '0' :: iStr)
  | 2 => some (binlogPreName ++ '.' :: '0' :: '0' :: '0' :: '0' :: iStr)
  | 3 => some (binlogPreName ++ '.' :: '0' :: '0' :: '0' :: iStr)
  | 4 => some (binlogPreName ++ '.' :: '0' :: '0' :: iStr)
  | 5 => some (binlogPreName ++ '.' :: '0' :: iStr)
  | 6 => some (binlogPreName ++ '.' :: iStr)
  | _ => none

/-- The loop from `i` on. It does not end if `binlogStpNum` is the largest number. -/
def collect (binlogPreName : Text) (binlogStpNum : Int64) : Nat → Int64 → Option (List Text)
  | 0, _ => none
  | fuel + 1, i =>
    if i ≤ binlogStpNum then
      (collect binlogPreName binlogStpNum fuel (i + 1)).map
        ((binlogFileName binlogPreName i).toList ++ ·)
    else some []

/-- `GetMasterStatus`, for the name of the file; `none` is an error. -/
def getMasterStatus (answer : Option Text) : Call Text Unit := fun _ =>
  match answer with
  | none => ([], some ())
  | some name => (name, none)

inductive Result where
  | panics
  | failed
  | files (binlogSlice : List Text)
  deriving DecidableEq, Repr

/-- `recovery.go::getBinlogList`; `answers` is what comes back in each attempt to read the
status of the old master, and the result is `none` while the loop is not done. -/
def getBinlogList (answers : Nat → Option Text) (strBinlogFile : Text) (fuel : Nat) :
    Option Result :=
  match (strBinlogFile.splitOn '.')[1]? with
  | none => some .panics
  | some binlogStrStr =>
    let binlogPreName := (strBinlogFile.splitOn '.').headD []
    let binlogStrNum := parseInt binlogStrStr
    if binlogStrNum.2 then
      match retry (fun k => getMasterStatus (answers k)) 10 [] with
      | (_, some _) => some .failed
      | (oldMasterLastBinlogFile, none) =>
        match (oldMasterLastBinlogFile.splitOn '.')[1]? with
        | none => some .panics
        | some numbered =>
          let binlogStpNum := parseInt ((numbered.splitOn '"').headD [])
          if binlogStpNum.2 then
            (collect binlogPreName (Int64.ofInt binlogStpNum.1) fuel
              (Int64.ofInt binlogStrNum.1)).map .files
          else some .failed
    else some .failed

/-! ### Names as MySQL gives them -/

/-- A number in decimal, with zeros before it up to six digits. -/
def padded (n : Nat) : Text :=
  List.replicate (6 - (Nat.toDigits 10 n).length) '0' ++ Nat.toDigits 10 n

def binlogName (base : Text) (n : Nat) : Text := base ++ '.' :: padded n

/-- The names from one number to another, in their order. -/
def binlogNames (base : Text) (i j : Nat) : List Text :=
  (List.range' i (j + 1 - i)).map (binlogName base)

theorem isDigit_padded (n : Nat) : ∀ c ∈ padded n, c.isDigit = true := by
  intro c member
  rcases List.mem_append.mp member with zero | digit
  · rw [List.eq_of_mem_replicate zero]
    decide
  · exact List.all_eq_true.mp (all_isDigit_toDigits n) c digit

theorem not_mem_padded {c : Char} (other : c.isDigit = false) (n : Nat) : c ∉ padded n := by
  intro member
  have digit := isDigit_padded n c member
  rw [other] at digit
  cases digit

theorem digitsValue_padded (n : Nat) : digitsValue (padded n) = some n := by
  have zeros : ∀ k, Nat.ofDigitChars 10 (List.replicate k '0') 0 = 0 := by
    intro k
    induction k with
    | zero => rfl
    | succ k ih => simp [List.replicate_succ, Nat.ofDigitChars_cons, ih]
  have digits : (padded n).all Char.isDigit = true := List.all_eq_true.mpr (isDigit_padded n)
  have nonempty : padded n ≠ [] := by simp [padded, Nat.toDigits_ne_nil]
  rw [digitsValue, if_pos ⟨nonempty, digits⟩, padded, Nat.ofDigitChars_append, zeros,
    Nat.ofDigitChars_toDigits (by decide) (by decide)]

theorem splitOn_binlogName {base : Text} (plain : '.' ∉ base) (n : Nat) :
    (binlogName base n).splitOn '.' = [base, padded n] := by
  have joined : binlogName base n = ['.'].intercalate [base, padded n] := by
    simp [binlogName, List.intercalate]
  rw [joined, List.splitOn_intercalate '.' _ (by simp)]
  simp [plain, not_mem_padded (c := '.') rfl n]

theorem splitOn_quote_padded (n : Nat) : (padded n).splitOn '"' = [padded n] := by
  have plain : ∀ part ∈ [padded n], '"' ∉ part := by
    simpa using not_mem_padded (c := '"') rfl n
  have split := List.splitOn_intercalate '"' plain (by simp)
  simpa [List.intercalate] using split

/-! ### The loop -/

private theorem toInt_ofInt {n : Nat} (small : n < 2 ^ 63) : (Int64.ofInt n).toInt = n :=
  Int64.toInt_ofInt_of_le (by omega) (by omega)

/-- Up to six digits the name is the one that MySQL gives. -/
theorem binlogFileName_of_lt (base : Text) {n : Nat} (small : n < 10 ^ 6) :
    binlogFileName base (Int64.ofInt n) = some (binlogName base n) := by
  have positive : ¬ Int64.ofInt n < 0 := by
    rw [Int64.lt_iff_toInt_lt, toInt_ofInt (by omega)]
    simp
  have digits : formatInt (Int64.ofInt n) = Nat.toDigits 10 n := by
    rw [formatInt, if_neg positive, toInt_ofInt (by omega), Int.natAbs_natCast]
  have short : (Nat.toDigits 10 n).length ≤ 6 :=
    (Nat.length_toDigits_le_iff (by decide) (by decide)).mpr small
  have some : 0 < (Nat.toDigits 10 n).length := Nat.length_toDigits_pos
  unfold binlogFileName binlogName padded
  rw [digits]
  generalize Nat.toDigits 10 n = text at short some ⊢
  have lengths : text.length = 1 ∨ text.length = 2 ∨ text.length = 3 ∨ text.length = 4 ∨
      text.length = 5 ∨ text.length = 6 := by
    omega
  rcases lengths with length | length | length | length | length | length <;>
    simp [length, List.replicate]

/-- A name that is built has six digits. -/
theorem length_binlogFileName {base name : Text} {i : Int64}
    (built : binlogFileName base i = some name) : name.length = base.length + 7 := by
  unfold binlogFileName at built
  dsimp only at built
  split at built <;> cases built <;> rename_i digits <;> simp [digits]

theorem binlogNames_succ (base : Text) {i j : Nat} (le : i ≤ j) :
    binlogNames base i j = binlogName base i :: binlogNames base (i + 1) j := by
  have count : j + 1 - i = j + 1 - (i + 1) + 1 := by omega
  rw [binlogNames, count, List.range'_succ]
  rfl

private theorem ofInt_le_iff {m n : Nat} (small : m < 2 ^ 63) (small' : n < 2 ^ 63) :
    Int64.ofInt m ≤ Int64.ofInt n ↔ m ≤ n := by
  rw [Int64.le_iff_toInt_le, toInt_ofInt small, toInt_ofInt small']
  exact Int.ofNat_le

/-- Below a million the loop collects every name. -/
theorem collect_of_lt (base : Text) {i j : Nat} (small : j < 10 ^ 6) (le : i ≤ j + 1) :
    collect base (Int64.ofInt j) (j + 2 - i) (Int64.ofInt i) = some (binlogNames base i j) := by
  induction gap : j + 1 - i generalizing i with
  | zero =>
    have fuel : j + 2 - i = 1 := by omega
    have past : ¬ Int64.ofInt i ≤ Int64.ofInt j := by
      rw [ofInt_le_iff (by omega) (by omega)]
      omega
    simp [fuel, collect, past, binlogNames, gap]
  | succ gap ih =>
    have fuel : j + 2 - i = j + 2 - (i + 1) + 1 := by omega
    have within : Int64.ofInt i ≤ Int64.ofInt j := by
      rw [ofInt_le_iff (by omega) (by omega)]
      omega
    have next : Int64.ofInt i + 1 = Int64.ofInt (i + 1 : Nat) := by
      rw [Int.natCast_add, Int64.ofInt_add]
      rfl
    have order : i ≤ j := by omega
    rw [binlogNames_succ base order, fuel, collect, if_pos within,
      binlogFileName_of_lt base (by omega), next, ih (by omega) (by omega)]
    rfl

theorem length_of_mem_collect {base : Text} {stop i : Int64} {fuel : Nat} {names : List Text}
    (collected : collect base stop fuel i = some names) :
    ∀ name ∈ names, name.length = base.length + 7 := by
  induction fuel generalizing i names with
  | zero => cases collected
  | succ fuel ih =>
    rw [collect] at collected
    split at collected
    · obtain ⟨rest, more, rfl⟩ := Option.map_eq_some_iff.mp collected
      intro name member
      rcases List.mem_append.mp member with here | later
      · exact length_binlogFileName (Option.mem_toList.mp here)
      · exact ih more name later
    · cases collected
      simp

/-! ### The list -/

private theorem retry_getMasterStatus {answers : Nat → Option Text} {name : Text} {k : Nat}
    (within : k ≤ 10) (failed : ∀ l < k, answers l = none) (answered : answers k = some name) :
    retry (fun k => getMasterStatus (answers k)) 10 [] = (name, none) := by
  have result := @retry_of_success _ _ (fun k => getMasterStatus (answers k)) [] 10 k within
    (fun l earlier => by simp [errorOf, getMasterStatus, failed l earlier])
    (by simp [errorOf, getMasterStatus, answered])
  rw [result]
  simp [stateBefore, getMasterStatus, answered]

section Files
variable {base : Text} {answers : Nat → Option Text} {i j k : Nat}

/-- Both numbers are read back from the names, as far as they are in range. -/
theorem getBinlogList_eq (plain : '.' ∉ base) (within : k ≤ 10)
    (failed : ∀ l < k, answers l = none) (answered : answers k = some (binlogName base j))
    (fuel : Nat) :
    getBinlogList answers (binlogName base i) fuel =
      if i < 2 ^ 63 ∧ j < 2 ^ 63 then
        (collect base (Int64.ofInt j) fuel (Int64.ofInt i)).map .files
      else some .failed := by
  have first := parseInt_of_digitsValue (digitsValue_padded i)
  have last := parseInt_of_digitsValue (digitsValue_padded j)
  unfold getBinlogList
  rw [splitOn_binlogName plain, retry_getMasterStatus within failed answered]
  simp only [List.getElem?_cons_succ, List.getElem?_cons_zero, List.headD_cons,
    splitOn_binlogName plain, splitOn_quote_padded]
  by_cases smallI : i < 2 ^ 63 <;> by_cases smallJ : j < 2 ^ 63 <;>
    simp only [first, last, smallI, smallJ, and_self, and_true, and_false, ↓reduceIte,
      Bool.false_eq_true]

/-- For a base without a dot and a start file not after the current one, the list has
exactly the names from the one to the other, in their order, if and only if the number of
the current file has at most six digits. -/
theorem getBinlogList_complete_iff (plain : '.' ∉ base) (order : i ≤ j)
    (within : k ≤ 10) (failed : ∀ l < k, answers l = none)
    (answered : answers k = some (binlogName base j)) :
    (∃ fuel, getBinlogList answers (binlogName base i) fuel =
      some (.files (binlogNames base i j))) ↔ j < 10 ^ 6 := by
  constructor
  · rintro ⟨fuel, listed⟩
    rw [getBinlogList_eq plain within failed answered] at listed
    split at listed
    · obtain ⟨names, collected, same⟩ := Option.map_eq_some_iff.mp listed
      cases same
      have member : binlogName base j ∈ binlogNames base i j :=
        List.mem_map.mpr ⟨j, List.mem_range'_1.mpr (by omega), rfl⟩
      have length := length_of_mem_collect collected _ member
      have short : (Nat.toDigits 10 j).length ≤ 6 := by
        simp only [binlogName, padded, List.length_append, List.length_cons,
          List.length_replicate] at length
        omega
      exact (Nat.length_toDigits_le_iff (by decide) (by decide)).mp short
    · cases listed
  · intro small
    refine ⟨j + 2 - i, ?_⟩
    rw [getBinlogList_eq plain within failed answered, if_pos (by omega),
      collect_of_lt base small (by omega)]
    rfl

end Files

private def sampleBase : Text := ['m', 'y', 's', 'q', 'l', '-', 'b', 'i', 'n']

theorem getBinlogList_complete_of_nine_to_twelve :
    (∃ fuel, getBinlogList (fun k => if k = 0 then none else some (binlogName sampleBase 12))
        (binlogName sampleBase 9) fuel = some (.files (binlogNames sampleBase 9 12))) ↔
      12 < 10 ^ 6 :=
  getBinlogList_complete_iff (k := 1) (by decide +kernel) (by decide) (by decide) (by simp)
    (by simp)

/-- The millionth binlog is left out of the list. -/
theorem getBinlogList_drops_millionth :
    getBinlogList (fun _ => some (binlogName sampleBase 1000000)) (binlogName sampleBase 999999) 3 =
        some (.files [binlogName sampleBase 999999]) ∧
      binlogNames sampleBase 999999 1000000 =
        [binlogName sampleBase 999999, binlogName sampleBase 1000000] := by
  decide +kernel

end Moha.BinlogList
