import Moha.EntryMap
import Moha.GtidPosition
import Moha.LatestLog

/-! The GTID set that a master publishes. The server's text is parsed, printed from the
parsed sets and parsed again for the position; printing walks a map, so that each print
may have the sets in another order. What parsing leaves is a normal form that printing
spells out exactly: no order of the map changes a transaction or a position. -/
namespace Moha.GtidPrint
open DecimalText GtidText GtidPosition
open LeaderRecord (Position)

/-! ### Printing -/

/-- `Interval.String`: the stop is exclusive in memory and inclusive in the text. -/
def intervalText (interval : Interval) : List Char :=
  if interval.stop = interval.start + 1 then (Int.repr interval.start.toInt).toList
  else (Int.repr interval.start.toInt).toList ++
    '-' :: (Int.repr (interval.stop - 1).toInt).toList

/-- `UUIDSet.Bytes`. -/
def uuidSetText (set : List Char × List Interval) : List Char :=
  set.1 ++ set.2.flatMap fun interval => ':' :: intervalText interval

/-- `MysqlGTIDSet.String`, for one order of the map. -/
def gtidSetText (order : GTIDSet) : String :=
  String.ofList ([','].intercalate (order.map uuidSetText))

/-! ### Intervals in normal form -/

/-- The intervals hold the transaction number. -/
def Covers (intervals : List Interval) (number : Int) : Prop :=
  ∃ interval ∈ intervals, interval.start.toInt ≤ number ∧ number < interval.stop.toInt

/-- What `Normalize` leaves: between two intervals at least one number is missing. -/
structure Normal (intervals : List Interval) : Prop where
  nonempty : intervals ≠ []
  populated : Populated intervals
  separated : intervals.Pairwise fun a b => a.stop.toInt < b.start.toInt

theorem covers_cons {interval : Interval} {rest : List Interval} {number : Int} :
    Covers (interval :: rest) number ↔
      (interval.start.toInt ≤ number ∧ number < interval.stop.toInt) ∨ Covers rest number := by
  simp [Covers]

theorem covers_append {first second : List Interval} {number : Int} :
    Covers (first ++ second) number ↔ Covers first number ∨ Covers second number := by
  simp [Covers, or_and_right, exists_or]

theorem covers_perm {first second : List Interval} (perm : first.Perm second) {number : Int} :
    Covers first number ↔ Covers second number := by
  simp [Covers, perm.mem_iff]

/-- Sorted by their starts, as the merging loop gets them. -/
def Sorted (intervals : List Interval) : Prop :=
  intervals.Pairwise fun a b => a.start.toInt ≤ b.start.toInt

theorem sorted_merged {last next : Interval} {rest : List Interval} {stop : Int64}
    (sorted : Sorted (last :: next :: rest)) : Sorted (⟨last.start, stop⟩ :: rest) := by
  obtain ⟨first, others⟩ := List.pairwise_cons.mp sorted
  exact List.pairwise_cons.mpr
    ⟨fun later member => first later (List.mem_cons_of_mem _ member), others.of_cons⟩

theorem start_le_of_mem_mergeIntervals {last : Interval} {rest : List Interval}
    (sorted : Sorted (last :: rest)) :
    ∀ interval ∈ mergeIntervals last rest, last.start.toInt ≤ interval.start.toInt := by
  induction rest generalizing last with
  | nil => simp [mergeIntervals]
  | cons next rest ih =>
    unfold mergeIntervals
    split
    · intro interval member
      rcases List.mem_cons.mp member with rfl | member
      · exact le_rfl
      · obtain ⟨first, others⟩ := List.pairwise_cons.mp sorted
        exact (first next List.mem_cons_self).trans (ih others interval member)
    · exact ih (sorted_merged sorted)

/-- An interval stays apart from all that the loop makes of later ones, because none of
them starts before the next. -/
theorem mergeIntervals_separated {last : Interval} {rest : List Interval}
    (sorted : Sorted (last :: rest)) :
    (mergeIntervals last rest).Pairwise fun a b => a.stop.toInt < b.start.toInt := by
  induction rest generalizing last with
  | nil => simp [mergeIntervals]
  | cons next rest ih =>
    unfold mergeIntervals
    split
    · rename_i apart
      rw [Int64.lt_iff_toInt_lt] at apart
      refine List.pairwise_cons.mpr ⟨fun interval member => ?_, ih sorted.of_cons⟩
      exact apart.trans_le (start_le_of_mem_mergeIntervals sorted.of_cons interval member)
    · exact ih (sorted_merged sorted)

theorem covers_mergeIntervals {last : Interval} {rest : List Interval}
    (sorted : Sorted (last :: rest)) (populated : Populated (last :: rest)) {number : Int} :
    Covers (mergeIntervals last rest) number ↔ Covers (last :: rest) number := by
  induction rest generalizing last with
  | nil => rfl
  | cons next rest ih =>
    obtain ⟨lastOk, others⟩ := List.forall_mem_cons.mp populated
    obtain ⟨nextOk, restOk⟩ := List.forall_mem_cons.mp others
    have order := (List.pairwise_cons.mp sorted).1 next List.mem_cons_self
    unfold mergeIntervals
    split
    · rw [covers_cons, ih sorted.of_cons others, ← covers_cons]
    · -- the two intervals touch, so that together they have no gap
      rename_i touching
      rw [Int64.lt_iff_toInt_lt] at touching
      have mergedOk : Populated (⟨last.start, max last.stop next.stop⟩ :: rest) := by
        refine List.forall_mem_cons.mpr ⟨?_, restOk⟩
        simp only [toInt_max]
        omega
      rw [ih (sorted_merged sorted) mergedOk, covers_cons, covers_cons, covers_cons, ← or_assoc]
      refine or_congr_left ?_
      simp only [toInt_max]
      omega

theorem atMost_iff {a b : Interval} : a.atMost b = true ↔
    a.start.toInt < b.start.toInt ∨
      (a.start.toInt = b.start.toInt ∧ a.stop.toInt ≤ b.stop.toInt) := by
  simp [Interval.atMost, Int64.lt_iff_toInt_lt, Int64.le_iff_toInt_le, ← Int64.toInt_inj]

theorem sorted_mergeSort (intervals : List Interval) :
    Sorted (intervals.mergeSort Interval.atMost) := by
  refine (List.pairwise_mergeSort ?_ ?_ intervals).imp ?_
  · simp only [atMost_iff]
    omega
  · simp only [Bool.or_eq_true, atMost_iff]
    omega
  · simp only [atMost_iff]
    omega

/-- Normalizing a nonempty list of intervals gives a normal form of the same
transactions. -/
theorem normalize_normal {intervals : List Interval} (populated : Populated intervals)
    (nonempty : intervals ≠ []) :
    Normal (GtidText.normalize intervals) ∧
      ∀ number, Covers (GtidText.normalize intervals) number ↔ Covers intervals number := by
  obtain ⟨stop, ends⟩ := normalize_endsAs populated nonempty
  have ended : GtidText.normalize intervals ≠ [] := by
    obtain ⟨final, atEnd, _⟩ := ends.last
    rintro empty
    rw [empty] at atEnd
    cases atEnd
  have kept := ends.populated
  have perm := intervals.mergeSort_perm Interval.atMost
  have sorted := sorted_mergeSort intervals
  unfold GtidText.normalize at ended kept ⊢
  cases merging : intervals.mergeSort Interval.atMost with
  | nil =>
    rw [merging] at perm
    exact absurd perm.symm.eq_nil nonempty
  | cons first rest =>
    rw [merging] at perm sorted ended kept
    have sortedOk : Populated (first :: rest) := fun interval member =>
      populated interval (perm.subset member)
    exact ⟨⟨ended, kept, mergeIntervals_separated sorted⟩, fun number =>
      (covers_mergeIntervals sorted sortedOk).trans (covers_perm perm)⟩

theorem mergeIntervals_of_separated {last : Interval} {rest : List Interval}
    (separated : (last :: rest).Pairwise fun a b => a.stop.toInt < b.start.toInt) :
    mergeIntervals last rest = last :: rest := by
  induction rest generalizing last with
  | nil => rfl
  | cons next rest ih =>
    have apart := (List.pairwise_cons.mp separated).1 next List.mem_cons_self
    rw [mergeIntervals, if_pos (Int64.lt_iff_toInt_lt.mpr apart), ih separated.of_cons]

/-- A normal form is normalized already. -/
theorem Normal.normalize_eq {intervals : List Interval} (normal : Normal intervals) :
    GtidText.normalize intervals = intervals := by
  have sorted : intervals.Pairwise fun a b => a.atMost b = true := by
    refine List.Pairwise.imp_of_mem ?_ normal.separated
    intro a b member _ apart
    rw [atMost_iff]
    have inside := normal.populated a member
    omega
  unfold GtidText.normalize
  rw [List.mergeSort_of_pairwise sorted]
  have separated := normal.separated
  cases intervals with
  | nil => rfl
  | cons first rest => exact mergeIntervals_of_separated separated

/-! ### Numbers and UUIDs in the text -/

theorem mapM_printed {α β : Type} {print : β → α} {read : α → Option β} {values : List β}
    (back : ∀ value ∈ values, read (print value) = some value) :
    (values.map print).mapM read = some values := by
  induction values with
  | nil => rfl
  | cons value rest ih =>
    obtain ⟨first, others⟩ := List.forall_mem_cons.mp back
    rw [List.map_cons, List.mapM_cons, first, ih others]
    rfl

theorem repr_toList {n : Int} (natural : 0 ≤ n) :
    (Int.repr n).toList = Nat.toDigits 10 n.toNat := by
  obtain ⟨m, rfl⟩ := Int.eq_ofNat_of_zero_le natural
  show (Nat.repr m).toList = _
  rw [Nat.repr_eq_ofList_toDigits, String.toList_ofList, Int.toNat_natCast]

theorem isDigit_of_mem_repr {n : Int} (natural : 0 ≤ n) :
    ∀ c ∈ (Int.repr n).toList, c.isDigit = true := by
  rw [repr_toList natural]
  exact List.all_eq_true.mp (all_isDigit_toDigits _)

theorem parseInt_repr {n : Int} (natural : 0 ≤ n) (small : n < 2 ^ 63) :
    parseInt (Int.repr n).toList = (n, true) := by
  rw [repr_toList natural, parseInt_of_digitsValue (digitsValue_toDigits _),
    if_pos (by omega), Int.toNat_of_nonneg natural]

private theorem dash_not_mem_repr {n : Int} (natural : 0 ≤ n) : '-' ∉ (Int.repr n).toList :=
  fun member => absurd (isDigit_of_mem_repr natural '-' member) (by decide)

theorem intercalate_cons_eq (separator : Char) (first : List Char) (rest : List (List Char)) :
    [separator].intercalate (first :: rest) = first ++ rest.flatMap (separator :: ·) := by
  induction rest generalizing first with
  | nil => simp [List.intercalate]
  | cons next rest ih =>
    have step : [separator].intercalate (first :: next :: rest) =
        first ++ separator :: [separator].intercalate (next :: rest) := by
      simp [List.intercalate, List.intersperse]
    rw [step, ih, List.flatMap_cons, List.cons_append]

/-- Pieces joined by a character that none of them has are split again. -/
theorem splitOn_joined {separator : Char} {first : List Char} {rest : List (List Char)}
    (without : ∀ piece ∈ first :: rest, separator ∉ piece) :
    (first ++ rest.flatMap (separator :: ·)).splitOn separator = first :: rest := by
  rw [← intercalate_cons_eq]
  exact List.splitOn_intercalate separator without (List.cons_ne_nil _ _)

theorem toInt_stop_sub_one {interval : Interval} (natural : 0 ≤ interval.start.toInt)
    (populated : interval.start.toInt < interval.stop.toInt) :
    (interval.stop - 1).toInt = interval.stop.toInt - 1 := by
  refine Int64.toInt_sub_of_le _ _ (by decide) (Int64.le_iff_toInt_le.mpr ?_)
  have one : (1 : Int64).toInt = 1 := rfl
  omega

/-- A printed interval is read back, whichever of the two forms it has. -/
theorem parseInterval_intervalText {interval : Interval} (natural : 0 ≤ interval.start.toInt)
    (populated : interval.start.toInt < interval.stop.toInt) :
    parseInterval (intervalText interval) = some interval := by
  have before := toInt_stop_sub_one natural populated
  have startRead := parseInt_repr natural interval.start.toInt_lt
  have order := Int64.lt_iff_toInt_lt.mpr populated
  unfold parseInterval
  by_cases single : interval.stop = interval.start + 1
  · rw [intervalText, if_pos single, List.splitOn_eq_singleton (dash_not_mem_repr natural)]
    dsimp only
    rw [startRead, Int64.ofInt_toInt, ← single]
    simp [order]
  · have stopNatural : 0 ≤ (interval.stop - 1).toInt := by omega
    have stopRead := parseInt_repr stopNatural (interval.stop - 1).toInt_lt
    have pieces := @splitOn_joined '-' (Int.repr interval.start.toInt).toList
      [(Int.repr (interval.stop - 1).toInt).toList]
      (List.forall_mem_cons.mpr ⟨dash_not_mem_repr natural,
        List.forall_mem_singleton.mpr (dash_not_mem_repr stopNatural)⟩)
    rw [List.flatMap_singleton] at pieces
    rw [intervalText, if_neg single, pieces]
    dsimp only
    rw [startRead, stopRead, Int64.ofInt_toInt, Int64.ofInt_toInt, Int64.sub_add_cancel]
    simp [order]

/-- A hexadecimal digit as `hex.Encode` writes it. -/
def isHex (c : Char) : Bool := c.isDigit || ('a' ≤ c && c ≤ 'f')

theorem hexDigit_of_isHex {c : Char} (hex : isHex c = true) : hexDigit c = some c := by
  unfold hexDigit
  unfold isHex at hex
  rw [if_pos hex]

theorem isHex_of_hexDigit {c d : Char} (read : hexDigit c = some d) : isHex d = true := by
  unfold hexDigit at read
  split at read
  · rename_i hex
    cases read
    exact hex
  · split at read
    · rename_i upper
      cases read
      have cases : c = 'A' ∨ c = 'B' ∨ c = 'C' ∨ c = 'D' ∨ c = 'E' ∨ c = 'F' := by
        simp only [Bool.and_eq_true, decide_eq_true_eq, Char.le_def, UInt32.le_iff_toNat_le,
          Char.ext_iff, ← UInt32.toNat_inj] at upper ⊢
        generalize c.val.toNat = code at upper ⊢
        simp at upper ⊢
        omega
      rcases cases with rfl | rfl | rfl | rfl | rfl | rfl <;> decide
    · contradiction

/-- Thirty-two digits with the dashes of the canonical form. -/
def dashed (digits : List Char) : List Char :=
  digits.take 8 ++ '-' :: (digits.drop 8).take 4 ++ '-' :: (digits.drop 12).take 4 ++
    '-' :: (digits.drop 16).take 4 ++ '-' :: digits.drop 20

theorem mapM_hexDigit {digits : List Char} (hex : ∀ c ∈ digits, isHex c = true) :
    digits.mapM hexDigit = some digits := by
  have all := @mapM_printed _ _ id _ _ fun c member => hexDigit_of_isHex (hex c member)
  rwa [List.map_id] at all

theorem hashLike_of_isHex {digits : List Char} (length : digits.length = 32)
    (hex : ∀ c ∈ digits, isHex c = true) : hashLike digits = some (dashed digits) := by
  rw [hashLike, if_pos length, mapM_hexDigit hex]
  rfl

theorem length_of_mapM {α β : Type} {f : α → Option β} {texts : List α} {read : List β}
    (all : texts.mapM f = some read) : read.length = texts.length := by
  induction texts generalizing read with
  | nil =>
    cases all
    rfl
  | cons text rest ih =>
    simp only [List.mapM_cons, Option.pure_def, Option.bind_eq_bind, Option.bind_eq_some_iff,
      Option.some.injEq] at all
    obtain ⟨first, _, others, more, rfl⟩ := all
    rw [List.length_cons, List.length_cons, ih more]

theorem exists_dashed_of_hashLike {text uuid : List Char} (read : hashLike text = some uuid) :
    ∃ digits, digits.length = 32 ∧ (∀ c ∈ digits, isHex c = true) ∧ uuid = dashed digits := by
  unfold hashLike at read
  split at read
  · rename_i length
    obtain ⟨digits, all, rfl⟩ := Option.map_eq_some_iff.mp read
    refine ⟨digits, (length_of_mapM all).trans length, fun c member => ?_, rfl⟩
    obtain ⟨_, _, found⟩ := exists_of_mem_mapM all member
    exact isHex_of_hexDigit found
  · contradiction

theorem exists_dashed_of_canonicalUUID {text uuid : List Char}
    (read : canonicalUUID text = some uuid) :
    ∃ digits, digits.length = 32 ∧ (∀ c ∈ digits, isHex c = true) ∧ uuid = dashed digits := by
  unfold canonicalUUID at read
  dsimp only at read
  split at read
  · split at read
    · split at read
      · split at read
        · exact exists_dashed_of_hashLike read
        · contradiction
      · exact exists_dashed_of_hashLike read
    · contradiction
  · split at read
    · split at read
      · exact exists_dashed_of_hashLike read
      · contradiction
    · exact exists_dashed_of_hashLike read

/-- The canonical form of a UUID is read as itself. -/
theorem canonicalUUID_dashed {digits : List Char} (length : digits.length = 32)
    (hex : ∀ c ∈ digits, isHex c = true) :
    canonicalUUID (dashed digits) = some (dashed digits) := by
  have long : (dashed digits).length = 36 := by simp [dashed, length]
  have dashes : (dashed digits)[8]? = some '-' ∧ (dashed digits)[13]? = some '-' ∧
      (dashed digits)[18]? = some '-' ∧ (dashed digits)[23]? = some '-' := by
    simp [dashed, length]
  have undashed : (dashed digits).take 8 ++ ((dashed digits).drop 9).take 4 ++
      ((dashed digits).drop 14).take 4 ++ ((dashed digits).drop 19).take 4 ++
        (dashed digits).drop 24 = digits := by
    have glued (n : Nat) : (digits.drop n).take 4 ++ digits.drop (n + 4) = digits.drop n := by
      rw [← List.drop_drop, List.take_append_drop]
    simp [dashed, List.drop_append, List.drop_take, length, glued 16, glued 12, glued 8]
  unfold canonicalUUID
  dsimp only
  rw [if_neg (by omega), if_pos long, if_pos dashes, undashed, hashLike_of_isHex length hex]

/-! ### A printed set is read back -/

/-- A set as parsing leaves it in the map. -/
structure ParsedSet (set : List Char × List Interval) : Prop where
  uuid : ∃ digits, digits.length = 32 ∧ (∀ c ∈ digits, isHex c = true) ∧ set.1 = dashed digits
  normal : Normal set.2

/-- A character that stands inside a printed set, between its colons. -/
def Inner (c : Char) : Prop := isHex c = true ∨ c = '-'

theorem Inner.plain {c : Char} (inner : Inner c) : isSpace c = false ∧ c ≠ ':' ∧ c ≠ ',' := by
  have code : (48 ≤ c.toNat ∧ c.toNat ≤ 57) ∨ (97 ≤ c.toNat ∧ c.toNat ≤ 102) ∨ c.toNat = 45 := by
    rcases inner with hex | rfl
    · simp only [isHex, Char.isDigit, Bool.or_eq_true, Bool.and_eq_true, decide_eq_true_eq,
        ge_iff_le, Char.le_def, UInt32.le_iff_toNat_le] at hex
      exact hex.imp id .inl
    · exact .inr (.inr rfl)
  refine ⟨?_, ?_, ?_⟩
  · unfold isSpace
    generalize c.toNat = n at code
    simp
    omega
  · rintro rfl
    revert code
    decide
  · rintro rfl
    revert code
    decide

theorem inner_of_mem_dashed {digits : List Char} (hex : ∀ c ∈ digits, isHex c = true) :
    ∀ c ∈ dashed digits, Inner c := by
  intro c member
  simp only [dashed, List.mem_append, List.mem_cons] at member
  have digit : c ∈ digits ∨ c = '-' := by
    rcases member with (((taken | rfl | taken) | rfl | taken) | rfl | taken) | rfl | dropped
    · exact .inl (List.mem_of_mem_take taken)
    · exact .inr rfl
    · exact .inl (List.mem_of_mem_drop (List.mem_of_mem_take taken))
    · exact .inr rfl
    · exact .inl (List.mem_of_mem_drop (List.mem_of_mem_take taken))
    · exact .inr rfl
    · exact .inl (List.mem_of_mem_drop (List.mem_of_mem_take taken))
    · exact .inr rfl
    · exact .inl (List.mem_of_mem_drop dropped)
  exact digit.imp (hex c) id

theorem ParsedSet.inner_uuid {set : List Char × List Interval} (parsed : ParsedSet set) :
    ∀ c ∈ set.1, Inner c := by
  obtain ⟨digits, _, hex, same⟩ := parsed.uuid
  rw [same]
  exact inner_of_mem_dashed hex

theorem inner_of_mem_repr {n : Int} (natural : 0 ≤ n) : ∀ c ∈ (Int.repr n).toList, Inner c := by
  intro c member
  left
  rw [isHex, isDigit_of_mem_repr natural c member, Bool.true_or]

theorem inner_of_mem_intervalText {interval : Interval} (natural : 0 ≤ interval.start.toInt)
    (populated : interval.start.toInt < interval.stop.toInt) :
    ∀ c ∈ intervalText interval, Inner c := by
  intro c member
  unfold intervalText at member
  split at member
  · exact inner_of_mem_repr natural c member
  · rcases List.mem_append.mp member with low | high
    · exact inner_of_mem_repr natural c low
    · rcases List.mem_cons.mp high with rfl | high
      · exact .inr rfl
      · refine inner_of_mem_repr ?_ c high
        rw [toInt_stop_sub_one natural populated]
        omega

theorem trimSpace_of_plain {text : List Char} (plain : ∀ c ∈ text, isSpace c = false) :
    trimSpace text = text := by
  have kept : ∀ {chars : List Char}, (∀ c ∈ chars, isSpace c = false) →
      chars.dropWhile isSpace = chars := by
    intro chars plain
    cases chars with
    | nil => rfl
    | cons c rest => rw [List.dropWhile_cons, plain c List.mem_cons_self, if_neg (by decide)]
  rw [trimSpace, kept plain, kept (fun c member => plain c (List.mem_reverse.mp member)),
    List.reverse_reverse]

theorem uuidSetText_eq (set : List Char × List Interval) :
    uuidSetText set = set.1 ++ (set.2.map intervalText).flatMap (':' :: ·) := by
  rw [uuidSetText, List.flatMap_map]

/-- Every character of a printed set is a colon or stands between the colons. -/
theorem ParsedSet.mem_text {set : List Char × List Interval} (parsed : ParsedSet set) :
    ∀ c ∈ uuidSetText set, Inner c ∨ c = ':' := by
  intro c member
  rcases List.mem_append.mp member with uuid | text
  · exact .inl (parsed.inner_uuid c uuid)
  · obtain ⟨interval, inside, spelled⟩ := List.mem_flatMap.mp text
    obtain ⟨natural, populated⟩ := parsed.normal.populated interval inside
    rcases List.mem_cons.mp spelled with rfl | spelled
    · exact .inr rfl
    · exact .inl (inner_of_mem_intervalText natural populated c spelled)

/-- A printed set is read back as it was in the map. -/
theorem readPart_uuidSetText {set : List Char × List Interval} (parsed : ParsedSet set) :
    readPart (uuidSetText set) = some set := by
  have trimmed : trimSpace (uuidSetText set) = uuidSetText set := by
    refine trimSpace_of_plain fun c member => ?_
    rcases parsed.mem_text c member with inner | rfl
    · exact inner.plain.1
    · decide
  have pieces : (uuidSetText set).splitOn ':' = set.1 :: set.2.map intervalText := by
    rw [uuidSetText_eq]
    refine splitOn_joined (List.forall_mem_cons.mpr ⟨?_, ?_⟩)
    · exact fun member => (parsed.inner_uuid ':' member).plain.2.1 rfl
    · intro piece member colon
      obtain ⟨interval, inside, rfl⟩ := List.mem_map.mp member
      obtain ⟨natural, populated⟩ := parsed.normal.populated interval inside
      exact (inner_of_mem_intervalText natural populated ':' colon).plain.2.1 rfl
  obtain ⟨digits, length, hex, uuid⟩ := parsed.uuid
  have canonical : canonicalUUID set.1 = some set.1 := by
    rw [uuid, canonicalUUID_dashed length hex]
  have intervals := mapM_printed fun interval inside =>
    parseInterval_intervalText (parsed.normal.populated interval inside).1
      (parsed.normal.populated interval inside).2
  have some_interval := parsed.normal.nonempty
  obtain ⟨name, held⟩ := set
  cases held with
  | nil => exact absurd rfl some_interval
  | cons interval rest =>
    unfold readPart
    rw [trimmed, pieces, List.map_cons]
    dsimp only at canonical intervals ⊢
    rw [canonical, ← List.map_cons, intervals]
    rfl

/-! ### The whole set -/

/-- The map of a parsed text, in some order. -/
structure ParsedSets (sets : GTIDSet) : Prop where
  distinct : (sets.map Prod.fst).Nodup
  each : ∀ set ∈ sets, ParsedSet set

theorem ParsedSets.perm {sets order : GTIDSet} (parsed : ParsedSets sets)
    (perm : order.Perm sets) : ParsedSets order :=
  ⟨(perm.map Prod.fst).nodup_iff.mpr parsed.distinct, fun set member =>
    parsed.each set (perm.subset member)⟩

theorem ParsedSets.lookup_perm {sets order : GTIDSet} (parsed : ParsedSets sets)
    (perm : order.Perm sets) (uuid : List Char) : order.lookup uuid = sets.lookup uuid := by
  refine Option.ext fun intervals => ?_
  rw [EntryMap.lookup_iff_mem (parsed.perm perm).distinct, EntryMap.lookup_iff_mem parsed.distinct,
    perm.mem_iff]

theorem readParts_gtidSetText {order : GTIDSet} (parsed : ParsedSets order) :
    readParts (gtidSetText order) = some order := by
  cases order with
  | nil => rfl
  | cons first rest =>
    have commas : ∀ text ∈ (first :: rest).map uuidSetText, ',' ∉ text := by
      intro text member comma
      obtain ⟨set, inside, rfl⟩ := List.mem_map.mp member
      rcases (parsed.each set inside).mem_text ',' comma with inner | colon
      · exact inner.plain.2.2 rfl
      · exact absurd colon (by decide)
    have pieces := List.splitOn_intercalate ',' commas (List.cons_ne_nil _ _)
    have filled : gtidSetText (first :: rest) ≠ "" := by
      intro empty
      have blank : [','].intercalate ((first :: rest).map uuidSetText) = [] :=
        String.toList_ofList.symm.trans (congrArg String.toList empty)
      rw [blank, List.splitOn_nil, List.map_cons] at pieces
      have nothing : readPart (uuidSetText first) = none := by
        rw [← (List.cons.inj pieces).1]
        rfl
      rw [readPart_uuidSetText (parsed.each first List.mem_cons_self)] at nothing
      cases nothing
    rw [readParts, if_neg filled, gtidSetText, String.toList_ofList, pieces]
    exact mapM_printed fun set member => readPart_uuidSetText (parsed.each set member)

theorem addPart_fresh {sets : GTIDSet} {set : List Char × List Interval} (normal : Normal set.2)
    (fresh : set.1 ∉ sets.map Prod.fst) : addPart sets set = sets ++ [set] := by
  have absent : sets.lookup set.1 = none := by
    cases found : sets.lookup set.1 with
    | none => rfl
    | some held => exact absurd (List.mem_map_of_mem (EntryMap.mem_of_lookup found)) fresh
  rw [addPart, normal.normalize_eq, addSet, absent]

theorem foldl_addPart {order : GTIDSet} (parsed : ParsedSets order) :
    order.foldl addPart [] = order := by
  induction order using List.reverseRecOn with
  | nil => rfl
  | append_singleton order set ih =>
    have distinct := parsed.distinct
    rw [List.map_append, List.nodup_append] at distinct
    obtain ⟨earlier, _, apart⟩ := distinct
    rw [List.foldl_append, List.foldl_cons, List.foldl_nil,
      ih ⟨earlier, fun held member => parsed.each held (List.mem_append_left _ member)⟩]
    refine addPart_fresh (parsed.each set (by simp)).normal fun member => ?_
    exact apart set.1 member set.1 (by simp) rfl

/-- Printing in any order and parsing gives the sets in that order. -/
theorem parse_gtidSetText {order : GTIDSet} (parsed : ParsedSets order) :
    parseMysqlGTIDSet (gtidSetText order) = some order := by
  rw [parseMysqlGTIDSet_eq, readParts_gtidSetText parsed, Option.map_some, foldl_addPart parsed]

/-! ### What parsing leaves -/

/-- The sets hold the transaction of the UUID. -/
def CoversOf (sets : GTIDSet) (uuid : List Char) (number : Int) : Prop :=
  ∃ intervals, sets.lookup uuid = some intervals ∧ Covers intervals number

theorem not_mem_keys_of_lookup {sets : GTIDSet} {uuid : List Char}
    (absent : sets.lookup uuid = none) : uuid ∉ sets.map Prod.fst := by
  intro member
  obtain ⟨⟨key, intervals⟩, inside, rfl⟩ := List.mem_map.mp member
  exact absurd rfl (bne_iff_ne.mp (List.lookup_eq_none_iff.mp absent _ inside))

theorem ParsedSets.addSet {sets : GTIDSet} (parsed : ParsedSets sets)
    {set : List Char × List Interval} (new : ParsedSet set) :
    ParsedSets (GtidText.addSet sets set) := by
  unfold GtidText.addSet
  split
  · rename_i absent
    constructor
    · rw [List.map_append, List.nodup_append]
      refine ⟨parsed.distinct, List.nodup_singleton _, ?_⟩
      intro uuid held other single same
      rw [List.map_cons, List.map_nil, List.mem_singleton] at single
      rw [same, single] at held
      exact not_mem_keys_of_lookup absent held
    · exact List.forall_mem_append.mpr ⟨parsed.each, List.forall_mem_singleton.mpr new⟩
  · constructor
    · have keys : (sets.map fun held => if held.1 = set.1 then
          (held.1, GtidText.normalize (held.2 ++ set.2)) else held).map Prod.fst =
            sets.map Prod.fst := by
        rw [List.map_map]
        refine List.map_congr_left fun held _ => ?_
        rw [Function.comp_apply]
        split <;> rfl
      rw [keys]
      exact parsed.distinct
    · intro changed member
      obtain ⟨held, inside, rfl⟩ := List.mem_map.mp member
      have before := parsed.each held inside
      split
      · refine ⟨before.uuid, (normalize_normal ?_ ?_).1⟩
        · exact List.forall_mem_append.mpr ⟨before.normal.populated, new.normal.populated⟩
        · exact List.append_ne_nil_of_left_ne_nil before.normal.nonempty _
      · exact before

theorem coversOf_addSet {sets : GTIDSet} (parsed : ParsedSets sets)
    {set : List Char × List Interval} (new : ParsedSet set) (uuid : List Char) (number : Int) :
    CoversOf (addSet sets set) uuid number ↔
      CoversOf sets uuid number ∨ (set.1 = uuid ∧ Covers set.2 number) := by
  unfold CoversOf
  rw [lookup_addSet]
  by_cases same : uuid = set.1
  · subst same
    cases found : sets.lookup set.1 with
    | none => simp
    | some held =>
      have before := (parsed.each _ (EntryMap.mem_of_lookup found)).normal
      have merged := (@normalize_normal (held ++ set.2)
        (List.forall_mem_append.mpr ⟨before.populated, new.normal.populated⟩)
        (List.append_ne_nil_of_left_ne_nil before.nonempty _)).2 number
      simp [merged, covers_append]
  · simp [same, Ne.symm same]

theorem canonicalUUID_of_readPart {text : List Char} {part : List Char × List Interval}
    (read : readPart text = some part) : ∃ sid, canonicalUUID sid = some part.1 := by
  unfold readPart at read
  split at read
  · simp only [Option.bind_eq_bind, Option.bind_eq_some_iff, Option.pure_def,
      Option.some.injEq] at read
    obtain ⟨uuid, canonical, intervals, _, rfl⟩ := read
    exact ⟨_, canonical⟩
  · contradiction

theorem ParsedSet.of_readPart {text : List Char} {part : List Char × List Interval}
    (read : readPart text = some part) :
    ParsedSet (part.1, GtidText.normalize part.2) ∧
      ∀ number, Covers (GtidText.normalize part.2) number ↔ Covers part.2 number := by
  obtain ⟨populated, nonempty⟩ := readPart_populated read
  obtain ⟨normal, same⟩ := normalize_normal populated nonempty
  obtain ⟨sid, canonical⟩ := canonicalUUID_of_readPart read
  exact ⟨⟨exists_dashed_of_canonicalUUID canonical, normal⟩, same⟩

/-- What one part adds to the map, and by induction what a whole text leaves there: sets in
normal form that hold exactly the transactions of the parts. -/
theorem foldl_addPart_parsed {parts : List (List Char × List Interval)}
    (read : ∀ part ∈ parts, ∃ text, readPart text = some part) :
    ParsedSets (parts.foldl addPart []) ∧ ∀ uuid number,
      CoversOf (parts.foldl addPart []) uuid number ↔ Covers (gathered uuid parts) number := by
  induction parts using List.reverseRecOn with
  | nil =>
    exact ⟨⟨List.nodup_nil, by simp⟩, fun uuid number => by simp [CoversOf, Covers, gathered]⟩
  | append_singleton parts part ih =>
    obtain ⟨parsed, held⟩ := ih fun earlier member => read earlier (List.mem_append_left _ member)
    obtain ⟨text, found⟩ := read part (by simp)
    obtain ⟨new, same⟩ := ParsedSet.of_readPart found
    rw [List.foldl_append, List.foldl_cons, List.foldl_nil]
    refine ⟨parsed.addSet new, fun uuid number => ?_⟩
    rw [addPart, coversOf_addSet parsed new, held, gathered_snoc, covers_append, same]
    by_cases own : part.1 = uuid
    · simp [own]
    · simp [own, Covers]

theorem ParsedSets.of_parse {gtidStr : String} {sets : GTIDSet}
    (parse : parseMysqlGTIDSet gtidStr = some sets) :
    ParsedSets sets ∧ ∀ (uuid : String) number,
      Names gtidStr uuid number ↔ CoversOf sets uuid.toList number := by
  rw [parseMysqlGTIDSet_eq] at parse
  obtain ⟨parts, read, rfl⟩ := Option.map_eq_some_iff.mp parse
  have texts : ∀ part ∈ parts, ∃ text, readPart text = some part := by
    unfold readParts at read
    split at read
    · cases read
      simp
    · intro part member
      obtain ⟨text, _, found⟩ := exists_of_mem_mapM read member
      exact ⟨text, found⟩
  obtain ⟨parsed, held⟩ := foldl_addPart_parsed texts
  exact ⟨parsed, fun uuid number => (names_iff read number).trans (held uuid.toList number).symm⟩

theorem getTxnIDFromGTIDStr_congr {first second : String} {firstSets secondSets : GTIDSet}
    (firstParse : parseMysqlGTIDSet first = some firstSets)
    (secondParse : parseMysqlGTIDSet second = some secondSets)
    (same : ∀ uuid, firstSets.lookup uuid = secondSets.lookup uuid) (uuid : String) :
    getTxnIDFromGTIDStr first uuid = getTxnIDFromGTIDStr second uuid := by
  simp only [getTxnIDFromGTIDStr, firstParse, secondParse, same]

/-- Printing what a text was parsed to, in any order of the map, keeps all that a reader of
the text can learn: it parses again, names the same transactions of every server and puts
every server at the same position. -/
theorem printed_set_reads_back {gtidStr : String} {sets order : GTIDSet}
    (parse : parseMysqlGTIDSet gtidStr = some sets) (perm : order.Perm sets) :
    parseMysqlGTIDSet (gtidSetText order) = some order ∧
      (∀ uuid number, Names (gtidSetText order) uuid number ↔ Names gtidStr uuid number) ∧
      ∀ uuid, getTxnIDFromGTIDStr (gtidSetText order) uuid = getTxnIDFromGTIDStr gtidStr uuid := by
  obtain ⟨parsed, named⟩ := ParsedSets.of_parse parse
  have back := parse_gtidSetText (parsed.perm perm)
  refine ⟨back, fun uuid number => ?_, ?_⟩
  · rw [(ParsedSets.of_parse back).2, named, CoversOf, parsed.lookup_perm perm, CoversOf]
  · exact getTxnIDFromGTIDStr_congr back parse (parsed.lookup_perm perm)

/-- Two servers, one of them with capital digits, are printed the other way round. -/
theorem printed_set_reads_back_of_two_servers :
    let gtidStr := "3E11FA47-71CA-11E1-9E33-C80AA9429562:1-6,\n" ++
      "00000000-0000-0000-0000-00000000000b:9-9"
    let printed := "00000000-0000-0000-0000-00000000000b:9," ++
      "3e11fa47-71ca-11e1-9e33-c80aa9429562:1-6"
    (∀ uuid number, Names printed uuid number ↔ Names gtidStr uuid number) ∧
      ∀ uuid, getTxnIDFromGTIDStr printed uuid = getTxnIDFromGTIDStr gtidStr uuid := by
  intro gtidStr printed
  have parse : parseMysqlGTIDSet gtidStr = some
      [("3e11fa47-71ca-11e1-9e33-c80aa9429562".toList, [⟨1, 7⟩]),
        ("00000000-0000-0000-0000-00000000000b".toList, [⟨9, 10⟩])] := by
    decide +kernel
  have print : gtidSetText [("00000000-0000-0000-0000-00000000000b".toList, [⟨9, 10⟩]),
      ("3e11fa47-71ca-11e1-9e33-c80aa9429562".toList, [⟨1, 7⟩])] = printed := by
    decide +kernel
  have result := (printed_set_reads_back parse (List.Perm.swap _ _ [])).2
  rwa [print] at result

/-! ### The status of a master -/

/-- A row of `SHOW MASTER STATUS`; a missing text is a column that is null. -/
structure StatusRow where
  file : String
  position : Nat
  gtid : Option String

/-- The rows of one answer, and whether reading them ended in an error. -/
structure StatusTable where
  columns : Nat
  rows : List StatusRow
  broken : Bool

structure BinlogPosition where
  name : String
  pos : UInt32
  deriving DecidableEq, Repr

/-- `rows.Scan` of `GetMasterStatus`. Without a fifth column the text stays empty. -/
def scan (columns : Nat) (row : StatusRow) : Option (BinlogPosition × String) :=
  if row.position < 2 ^ 32 then
    if columns = 5 then row.gtid.map (⟨row.file, UInt32.ofNat row.position⟩, ·)
    else if columns = 4 then some (⟨row.file, UInt32.ofNat row.position⟩, "")
    else none
  else none

/-- The loop of `GetMasterStatus`: each row replaces what the one before it left. The set is
a nil pointer until a row is read. -/
def readRows (columns : Nat) (held : BinlogPosition × Option GTIDSet) :
    List StatusRow → Option (BinlogPosition × Option GTIDSet)
  | [] => some held
  | row :: rest => do
    let (binlogPos, gtid) ← scan columns row
    let sets ← parseMysqlGTIDSet gtid
    readRows columns (binlogPos, some sets) rest

/-- `mysql.go::GetMasterStatus` on the answer of its query. -/
def getMasterStatus (answer : Option StatusTable) : Option (BinlogPosition × Option GTIDSet) := do
  let table ← answer
  let status ← readRows table.columns (⟨"", 0⟩, none) table.rows
  if table.broken then none else some status

/-- One order in which a print walks the map. -/
structure Iteration where
  order : GTIDSet → GTIDSet
  perm : ∀ sets, (order sets).Perm sets

inductive Outcome (α : Type) where
  | failed
  | crashed
  | loaded (value : α)
  deriving DecidableEq, Repr

/-- `service_manager.go::LoadMasterStatusFromDB`. The print of a nil set crashes, before the
server's UUID is asked for. -/
def loadMasterStatusFromDB (print : Iteration) (answer : Option StatusTable)
    (serverUUID : Option String) : Outcome Position :=
  match getMasterStatus answer with
  | none => .failed
  | some (_, none) => .crashed
  | some (binlogPos, some sets) =>
    let gtid := gtidSetText (print.order sets)
    match serverUUID with
    | none => .failed
    | some uuid =>
      match getTxnIDFromGTIDStr gtid uuid with
      | .error _ => .failed
      | .ok endTxnID =>
        .loaded ⟨binlogPos.name, binlogPos.pos.toNat.repr, gtid, uuid, endTxnID.toUInt64, false,
          false, 0⟩

/-- `service_manager.go::LoadReplicationInfoOfMaster`. The set is printed once for the
position and once more for the record. -/
def loadReplicationInfoOfMaster (first second : Iteration) (answer : Option StatusTable)
    (serverUUID : Option String) : Outcome Election.ReplicationInfo :=
  match getMasterStatus answer with
  | none => .failed
  | some (_, gtidSet) =>
    match serverUUID with
    | none => .failed
    | some uuid =>
      match gtidSet with
      | none => .crashed
      | some sets =>
        match getTxnIDFromGTIDStr (gtidSetText (first.order sets)) uuid with
        | .error _ => .failed
        | .ok endTxnID =>
          .loaded ⟨uuid, gtidSetText (second.order sets), endTxnID.toUInt64⟩

/-- What the loop leaves is that of the last row. -/
theorem readRows_cases {columns : Nat} {rows : List StatusRow}
    {held status : BinlogPosition × Option GTIDSet}
    (read : readRows columns held rows = some status) :
    (rows = [] ∧ status = held) ∨ ∃ row binlogPos column sets, rows.getLast? = some row ∧
      scan columns row = some (binlogPos, column) ∧ parseMysqlGTIDSet column = some sets ∧
        status = (binlogPos, some sets) := by
  induction rows generalizing held with
  | nil => exact .inl ⟨rfl, (Option.some.inj read).symm⟩
  | cons row rest ih =>
    simp only [readRows, Option.bind_eq_bind, Option.bind_eq_some_iff] at read
    obtain ⟨⟨binlogPos, column⟩, scanned, sets, parse, later⟩ := read
    right
    rcases ih later with ⟨rfl, rfl⟩ | ⟨last, _, _, _, atEnd, others⟩
    · exact ⟨row, binlogPos, column, sets, rfl, scanned, parse, rfl⟩
    · exact ⟨last, _, _, _, by rw [List.getLast?_cons, atEnd, Option.getD_some], others⟩

/-- The text from which the status has its set. -/
def Column (answer : Option StatusTable) (column : String) : Prop :=
  ∃ table row binlogPos, answer = some table ∧ table.rows.getLast? = some row ∧
    scan table.columns row = some (binlogPos, column)

theorem getMasterStatus_cases {answer : Option StatusTable}
    {status : BinlogPosition × Option GTIDSet} (read : getMasterStatus answer = some status) :
    (status.2 = none ∧ ∃ table, answer = some table ∧ table.rows = [] ∧ table.broken = false) ∨
      ∃ column sets, Column answer column ∧ parseMysqlGTIDSet column = some sets ∧
        status.2 = some sets := by
  simp only [getMasterStatus, Option.bind_eq_bind, Option.bind_eq_some_iff,
    Option.ite_none_left_eq_some, Bool.not_eq_true] at read
  obtain ⟨table, rfl, left, rows, whole, same⟩ := read
  cases same
  rcases readRows_cases rows with
    ⟨empty, rfl⟩ | ⟨row, binlogPos, column, sets, last, scanned, parse, rfl⟩
  · exact .inl ⟨rfl, table, rfl, empty, whole⟩
  · exact .inr ⟨column, sets, ⟨table, row, binlogPos, rfl, last, scanned⟩, parse, rfl⟩

/-- A query answered without a row, as it is with the binlog off, ends the process. -/
theorem loadMasterStatusFromDB_crashed_iff {print : Iteration} {answer : Option StatusTable}
    {serverUUID : Option String} :
    loadMasterStatusFromDB print answer serverUUID = .crashed ↔
      ∃ table, answer = some table ∧ table.rows = [] ∧ table.broken = false := by
  constructor
  · intro crashed
    unfold loadMasterStatusFromDB at crashed
    split at crashed
    · contradiction
    · rename_i read
      rcases getMasterStatus_cases read with ⟨_, empty⟩ | ⟨_, _, _, _, parsed⟩
      · exact empty
      · cases parsed
    · dsimp only at crashed
      split at crashed
      · contradiction
      · split at crashed <;> contradiction
  · rintro ⟨table, rfl, empty, whole⟩
    simp [loadMasterStatusFromDB, getMasterStatus, empty, whole, readRows]

theorem toNat_toUInt64 {stop : Int64} (natural : 0 ≤ stop.toInt) :
    (stop.toUInt64.toNat : Int) = stop.toInt := by
  have value : stop.toInt = stop.toBitVec.toInt := rfl
  have bits : stop.toUInt64.toNat = stop.toBitVec.toNat := rfl
  rw [value] at natural ⊢
  rw [bits]
  rw [BitVec.toInt_eq_toNat_cond] at natural ⊢
  split at natural
  · rename_i small
    rw [if_pos small]
  · have bound := stop.toBitVec.isLt
    omega

/-- Whatever orders the prints have, a master publishes exactly the transactions that its
server reports, at the position after its own last one, and the position it keeps for
itself is the published one. -/
theorem master_publishes_its_transactions {first second third : Iteration}
    {answer : Option StatusTable} {serverUUID : Option String} {info : Election.ReplicationInfo}
    (loaded : loadReplicationInfoOfMaster first second answer serverUUID = .loaded info) :
    ∃ column, Column answer column ∧ serverUUID = some info.masterUUID ∧
      (∀ server number, Names info.executedGTID server number ↔ Names column server number) ∧
      IsGreatest { number | Names column info.masterUUID number } (info.endTxnID.toNat - 1) ∧
      LatestLog.loadReplicationInfoOfMaster (some info.executedGTID) serverUUID = some info ∧
      ∃ position, loadMasterStatusFromDB third answer serverUUID = .loaded position ∧
        position.endTxnID = info.endTxnID ∧ position.uuid = info.masterUUID ∧
        ∀ server number, Names position.gtid server number ↔ Names column server number := by
  unfold loadReplicationInfoOfMaster at loaded
  cases read : getMasterStatus answer with
  | none =>
    rw [read] at loaded
    cases loaded
  | some status =>
    obtain ⟨binlogPos, gtidSet⟩ := status
    rw [read] at loaded
    cases serverUUID with
    | none => cases loaded
    | some uuid =>
      rcases getMasterStatus_cases read with ⟨none, _⟩ | ⟨column, sets, text, parse, same⟩
      · dsimp only at none
        subst none
        cases loaded
      · dsimp only at same
        subst same
        -- each print stands for the column, so that one position serves all of them
        have published (print : Iteration) := printed_set_reads_back parse (print.perm sets)
        dsimp only at loaded
        rw [(published first).2.2] at loaded
        cases position : getTxnIDFromGTIDStr column uuid with
        | error failure =>
          rw [position] at loaded
          cases loaded
        | ok stop =>
          rw [position] at loaded
          cases loaded
          have greatest : IsGreatest { number | Names column uuid number } (stop.toInt - 1) := by
            rcases txnID_cases column uuid with ⟨_, _, failed⟩ | ⟨_, _, _, failed⟩ |
              ⟨last, _, found, greatest⟩
            · rw [position] at failed
              cases failed
            · rw [position] at failed
              cases failed
            · rw [position] at found
              cases found
              exact greatest
          have natural := names_nonneg greatest.1
          refine ⟨column, text, rfl, (published second).2.1, ?_, ?_, ?_⟩
          · rwa [@toNat_toUInt64 stop (by omega)]
          · simp [LatestLog.loadReplicationInfoOfMaster, LatestLog.replicationInfo,
              (published second).2.2, position]
          · refine ⟨⟨binlogPos.name, binlogPos.pos.toNat.repr, gtidSetText (third.order sets), uuid,
              stop.toUInt64, false, false, 0⟩, ?_, rfl, rfl, (published third).2.1⟩
            simp only [loadMasterStatusFromDB, read, (published third).2.2, position]

/-- A server that has its own transactions and those of an earlier master. -/
theorem master_publishes_its_transactions_after_failover :
    let answer : Option StatusTable := some ⟨5, [⟨"ON.000002", 4822,
      some ("00000000-0000-0000-0000-00000000000b:1-9,\n" ++
        "00000000-0000-0000-0000-00000000000a:1-46")⟩], false⟩
    ∃ column, Column answer column ∧
      IsGreatest { number | Names column "00000000-0000-0000-0000-00000000000a" number } 46 := by
  intro answer
  let asRead : Iteration := ⟨id, fun sets => .refl sets⟩
  let reversed : Iteration := ⟨List.reverse, fun sets => sets.reverse_perm⟩
  have loaded : loadReplicationInfoOfMaster asRead reversed answer
      (some "00000000-0000-0000-0000-00000000000a") = .loaded
        ⟨"00000000-0000-0000-0000-00000000000a", "00000000-0000-0000-0000-00000000000a:1-46," ++
          "00000000-0000-0000-0000-00000000000b:1-9", 47⟩ := by
    decide +kernel
  obtain ⟨column, text, _, _, greatest, _⟩ :=
    @master_publishes_its_transactions asRead reversed asRead answer _ _ loaded
  exact ⟨column, text, greatest⟩

end Moha.GtidPrint
