import Moha.GtidText
import Moha.PathText
import Mathlib.Data.List.Induction
import Mathlib.Data.Int.Order.Basic
import Mathlib.Order.Bounds.Basic
import Mathlib.Order.MinMax

/-! The position of a server UUID in a GTID set, as `pkg/mysql` and `moctl/switch.go` each
compute it: one more than the largest transaction number of the UUID, whatever the order,
overlap or repetition in the text. The copies differ on a UUID that is not in the set:
`moctl` returns the error of the parser, which is nil by then. -/
namespace Moha.GtidPosition
open DecimalText GtidText

/-- `switch.go::getTxnIDFromGTIDStr`. A UUID that is missing, or has no intervals, is
position zero without an error. -/
def moctlGetTxnIDFromGTIDStr (gtidStr serverUUID : String) : Except TxnIDError Int64 :=
  match parseMysqlGTIDSet gtidStr with
  | none => .error .unparsable
  | some sets =>
    match sets.lookup serverUUID.toList with
    | none => .ok 0
    | some intervals =>
      match intervals.getLast? with
      | none => .ok 0
      | some last => .ok last.stop

/-! ### The transactions that a text names -/

/-- One part of the text as it is written, before its intervals are sorted and merged. -/
def readPart (text : List Char) : Option (List Char × List Interval) :=
  match (trimSpace text).splitOn ':' with
  | sid :: first :: rest => do
    let uuid ← canonicalUUID sid
    let intervals ← (first :: rest).mapM parseInterval
    pure (uuid, intervals)
  | _ => none

/-- The parts of a text in their order. -/
def readParts (gtidStr : String) : Option (List (List Char × List Interval)) :=
  if gtidStr = "" then some [] else (gtidStr.toList.splitOn ',').mapM readPart

/-- The text names the transaction of the server. -/
def Names (gtidStr serverUUID : String) (number : Int) : Prop :=
  ∃ parts, readParts gtidStr = some parts ∧ ∃ part ∈ parts, part.1 = serverUUID.toList ∧
    ∃ interval ∈ part.2, interval.start.toInt ≤ number ∧ number < interval.stop.toInt

/-! ### Merging keeps the last stop -/

/-- Every interval has a transaction, and no number is negative. -/
def Populated (intervals : List Interval) : Prop :=
  ∀ interval ∈ intervals,
    0 ≤ interval.start.toInt ∧ interval.start.toInt < interval.stop.toInt

def stops (intervals : List Interval) : Set Int :=
  { stop | ∃ interval ∈ intervals, interval.stop.toInt = stop }

/-- A list of intervals that ends where the intervals it was merged from end. -/
structure EndsAs (intervals merged : List Interval) (stop : Int64) : Prop where
  populated : Populated intervals
  last : ∃ interval, intervals.getLast? = some interval ∧ interval.stop = stop
  greatest : IsGreatest (stops intervals) stop.toInt
  merged : IsGreatest (stops merged) stop.toInt

theorem stops_cons (interval : Interval) (rest : List Interval) :
    stops (interval :: rest) = {interval.stop.toInt} ∪ stops rest := by
  ext stop
  simp [stops, eq_comm]

theorem stops_append (first second : List Interval) :
    stops (first ++ second) = stops first ∪ stops second := by
  ext stop
  simp [stops, or_and_right, exists_or]

theorem stops_perm {first second : List Interval} (perm : first.Perm second) :
    stops first = stops second := by
  ext stop
  simp [stops, perm.mem_iff]

theorem toInt_max (a b : Int64) : (max a b).toInt = max a.toInt b.toInt := by
  have order : max a b = if a ≤ b then b else a := rfl
  rw [order]
  split <;> rename_i compared <;> rw [Int64.le_iff_toInt_le] at compared <;> omega

private theorem greatest_cons {interval : Interval} {rest : List Interval} {stop : Int}
    (greatest : IsGreatest (stops rest) stop) (below : interval.stop.toInt ≤ stop) :
    IsGreatest (stops (interval :: rest)) stop := by
  rw [stops_cons]
  have both := (@isGreatest_singleton Int _ interval.stop.toInt).union greatest
  rwa [max_eq_right below] at both

private theorem greatest_of_merged {last next : Interval} {rest : List Interval} {stop : Int}
    (greatest : IsGreatest (stops (⟨last.start, max last.stop next.stop⟩ :: rest)) stop) :
    IsGreatest (stops (last :: next :: rest)) stop := by
  rw [stops_cons, toInt_max] at greatest
  rw [stops_cons, stops_cons]
  have below : max last.stop.toInt next.stop.toInt ≤ stop := greatest.2 (.inl rfl)
  constructor
  · rcases greatest.1 with merged | later
    · rcases max_choice last.stop.toInt next.stop.toInt with same | same
      · exact .inl (merged.trans same)
      · exact .inr (.inl (merged.trans same))
    · exact .inr (.inr later)
  · rintro other (rfl | rfl | later)
    · exact (le_max_left _ _).trans below
    · exact (le_max_right _ _).trans below
    · exact greatest.2 (.inr later)

theorem mergeIntervals_endsAs {last : Interval} {rest : List Interval}
    (populated : Populated (last :: rest)) :
    ∃ stop, EndsAs (mergeIntervals last rest) (last :: rest) stop := by
  induction rest generalizing last with
  | nil =>
    have only : IsGreatest (stops [last]) last.stop.toInt := by
      simp [stops, IsGreatest, upperBounds]
    exact ⟨last.stop, populated, ⟨last, rfl, rfl⟩, only, only⟩
  | cons next rest ih =>
    obtain ⟨lastOk, others⟩ := List.forall_mem_cons.mp populated
    obtain ⟨nextOk, restOk⟩ := List.forall_mem_cons.mp others
    unfold mergeIntervals
    split
    · rename_i apart
      rw [Int64.lt_iff_toInt_lt] at apart
      obtain ⟨stop, ends⟩ := ih others
      obtain ⟨final, atEnd, stopped⟩ := ends.last
      have nextBelow : next.stop.toInt ≤ stop.toInt :=
        ends.merged.2 ⟨next, List.mem_cons_self, rfl⟩
      have below : last.stop.toInt ≤ stop.toInt := by omega
      refine ⟨stop, List.forall_mem_cons.mpr ⟨lastOk, ends.populated⟩, ⟨final, ?_, stopped⟩, ?_, ?_⟩
      · rw [List.getLast?_cons, atEnd, Option.getD_some]
      · exact greatest_cons ends.greatest below
      · exact greatest_cons ends.merged below
    · have mergedOk : Populated (⟨last.start, max last.stop next.stop⟩ :: rest) := by
        refine List.forall_mem_cons.mpr ⟨?_, restOk⟩
        simp only [toInt_max]
        omega
      obtain ⟨stop, ends⟩ := ih mergedOk
      exact ⟨stop, ends.populated, ends.last, ends.greatest, greatest_of_merged ends.merged⟩

/-- Sorting and merging keep the last stop. -/
theorem normalize_endsAs {intervals : List Interval} (populated : Populated intervals)
    (nonempty : intervals ≠ []) :
    ∃ stop, EndsAs (GtidText.normalize intervals) intervals stop := by
  have perm := intervals.mergeSort_perm Interval.atMost
  unfold GtidText.normalize
  cases sorted : intervals.mergeSort Interval.atMost with
  | nil =>
    rw [sorted] at perm
    exact absurd perm.symm.eq_nil nonempty
  | cons first rest =>
    rw [sorted] at perm
    have sortedOk : Populated (first :: rest) := fun interval member =>
      populated interval (perm.subset member)
    obtain ⟨stop, ends⟩ := mergeIntervals_endsAs sortedOk
    exact ⟨stop, ends.populated, ends.last, ends.greatest, stops_perm perm ▸ ends.merged⟩

/-- Merging what was merged before with what is new is merging all of it. -/
theorem EndsAs.append {held heldFrom new newFrom : List Interval} {heldStop newStop : Int64}
    (heldEnds : EndsAs held heldFrom heldStop) (newEnds : EndsAs new newFrom newStop) :
    ∃ stop, EndsAs (GtidText.normalize (held ++ new)) (heldFrom ++ newFrom) stop := by
  have populated : Populated (held ++ new) := fun interval member =>
    (List.mem_append.mp member).elim (heldEnds.populated interval) (newEnds.populated interval)
  have nonempty : held ++ new ≠ [] := by
    obtain ⟨final, atEnd, _⟩ := heldEnds.last
    rintro empty
    rw [(List.append_eq_nil_iff.mp empty).1] at atEnd
    cases atEnd
  obtain ⟨stop, ends⟩ := normalize_endsAs populated nonempty
  have same : stop.toInt = max heldStop.toInt newStop.toInt := by
    refine ends.merged.unique ?_
    rw [stops_append]
    exact heldEnds.greatest.union newEnds.greatest
  refine ⟨stop, ends.populated, ends.last, ends.greatest, ?_⟩
  rw [stops_append, same]
  exact heldEnds.merged.union newEnds.merged

/-! ### Reading a text -/

private theorem parseInt_unsigned {chars : List Char} (unsigned : '-' ∉ chars) :
    0 ≤ (parseInt chars).1 ∧ (parseInt chars).1 < 2 ^ 63 := by
  have positive : ∀ i, signedValue chars = some i → 0 ≤ i := by
    intro i read
    unfold signedValue at read
    split at read
    · exact absurd List.mem_cons_self unsigned
    all_goals
      obtain ⟨_, cast, rfl⟩ := Option.map_eq_some_iff.mp read
      obtain ⟨n, _, same⟩ := Option.bind_eq_some_iff.mp cast
      cases same
      exact Int.natCast_nonneg n
  unfold parseInt
  split
  · decide
  · rename_i i read
    have low := positive i read
    split
    · omega
    · split
      · decide
      · simp only
        omega

private theorem toInt_ofInt_parseInt {chars : List Char} (unsigned : '-' ∉ chars) :
    0 ≤ (Int64.ofInt (parseInt chars).1).toInt := by
  obtain ⟨low, high⟩ := parseInt_unsigned unsigned
  rw [Int64.toInt_ofInt_of_le (by omega) (by omega)]
  exact low

theorem parseInterval_populated {text : List Char} {interval : Interval}
    (read : parseInterval text = some interval) :
    0 ≤ interval.start.toInt ∧ interval.start.toInt < interval.stop.toInt := by
  have unsigned : ∀ piece ∈ text.splitOn '-', '-' ∉ piece := fun _ =>
    PathText.not_mem_of_mem_splitOn
  unfold parseInterval at read
  generalize text.splitOn '-' = pieces at read unsigned
  simp only [Option.ite_none_right_eq_some, Bool.and_eq_true, decide_eq_true_eq,
    Option.some.injEq] at read
  obtain ⟨⟨ok, populated⟩, same⟩ := read
  rw [same] at populated
  refine ⟨?_, Int64.lt_iff_toInt_lt.mp populated⟩
  rw [← same]
  -- whichever form the text has, the start is read from its first piece
  rcases pieces with _ | ⟨first, _ | ⟨second, _ | ⟨third, rest⟩⟩⟩
  · cases ok
  · exact toInt_ofInt_parseInt (unsigned first List.mem_cons_self)
  · exact toInt_ofInt_parseInt (unsigned first List.mem_cons_self)
  · cases ok

theorem readPart_populated {text : List Char} {part : List Char × List Interval}
    (read : readPart text = some part) : Populated part.2 ∧ part.2 ≠ [] := by
  unfold readPart at read
  split at read
  · simp only [Option.bind_eq_bind, Option.bind_eq_some_iff, Option.pure_def,
      Option.some.injEq] at read
    obtain ⟨uuid, _, intervals, parsed, rfl⟩ := read
    constructor
    · intro interval member
      obtain ⟨piece, _, found⟩ := exists_of_mem_mapM parsed member
      exact parseInterval_populated found
    · rintro rfl
      simp [List.mapM_cons, Option.bind_eq_some_iff] at parsed
  · contradiction

theorem parseUUIDSet_eq (text : List Char) :
    parseUUIDSet text = (readPart text).map fun part => (part.1, GtidText.normalize part.2) := by
  unfold parseUUIDSet readPart
  rcases (trimSpace text).splitOn ':' with _ | ⟨sid, _ | ⟨first, rest⟩⟩
  · rfl
  · rfl
  · dsimp only
    generalize canonicalUUID sid = uuid
    generalize (first :: rest).mapM parseInterval = intervals
    cases uuid <;> cases intervals <;> rfl

private theorem foldlM_map {α β σ : Type} (read : α → Option β) (add : σ → β → σ) (s : σ)
    (texts : List α) :
    texts.foldlM (fun s text => (read text).map (add s)) s =
      (texts.mapM read).map (List.foldl add s) := by
  induction texts generalizing s with
  | nil => rfl
  | cons text rest ih =>
    rw [List.foldlM_cons, List.mapM_cons]
    cases read text with
    | none => rfl
    | some part =>
      simp only [Option.map_some, Option.bind_eq_bind, Option.bind_some, ih]
      cases rest.mapM read <;> rfl

/-- A part joins the set of its UUID, sorted and merged. -/
def addPart (sets : GTIDSet) (part : List Char × List Interval) : GTIDSet :=
  addSet sets (part.1, GtidText.normalize part.2)

theorem parseMysqlGTIDSet_eq (gtidStr : String) :
    parseMysqlGTIDSet gtidStr = (readParts gtidStr).map (List.foldl addPart []) := by
  unfold parseMysqlGTIDSet readParts
  split
  · rfl
  · rw [← foldlM_map]
    simp only [parseUUIDSet_eq, Option.map_map]
    rfl

private theorem lookup_map_if (sets : GTIDSet) (uuid key : List Char)
    (f : List Interval → List Interval) :
    (sets.map fun held => if held.1 = key then (held.1, f held.2) else held).lookup uuid =
      if uuid = key then (sets.lookup uuid).map f else sets.lookup uuid := by
  induction sets with
  | nil => simp
  | cons held rest ih =>
    obtain ⟨name, intervals⟩ := held
    rw [List.map_cons, List.lookup_cons]
    by_cases same : uuid = name
    · subst same
      by_cases found : uuid = key <;> simp [found]
    · have apart : (uuid == name) = false := beq_false_of_ne same
      by_cases found : name = key
      · subst found
        simp [List.lookup_cons, apart, ih, same]
      · simp [found, List.lookup_cons, apart, ih]

theorem lookup_addSet (sets : GTIDSet) (set : List Char × List Interval) (uuid : List Char) :
    (addSet sets set).lookup uuid =
      if uuid = set.1 then
        some ((sets.lookup uuid).elim set.2 fun held => GtidText.normalize (held ++ set.2))
      else sets.lookup uuid := by
  obtain ⟨name, intervals⟩ := set
  unfold addSet
  by_cases same : uuid = name
  · subst same
    cases found : sets.lookup uuid with
    | none => simp [found, List.lookup_append]
    | some held =>
      have mapped := lookup_map_if sets uuid uuid fun held => GtidText.normalize (held ++ intervals)
      simpa [found] using mapped
  · have apart : (uuid == name) = false := beq_false_of_ne same
    cases found : sets.lookup name with
    | none => simp [same, List.lookup_append, List.lookup_cons, apart]
    | some held =>
      have mapped := lookup_map_if sets uuid name fun held => GtidText.normalize (held ++ intervals)
      simpa [found, same] using mapped

/-! ### The position -/

/-- All intervals of a UUID, as the parts have them. -/
def gathered (uuid : List Char) (parts : List (List Char × List Interval)) : List Interval :=
  (parts.filter fun part => part.1 = uuid).flatMap Prod.snd

theorem gathered_snoc (uuid : List Char) (parts : List (List Char × List Interval))
    (part : List Char × List Interval) :
    gathered uuid (parts ++ [part]) =
      gathered uuid parts ++ if part.1 = uuid then part.2 else [] := by
  by_cases same : part.1 = uuid <;> simp [gathered, same]

theorem gathered_populated {parts : List (List Char × List Interval)}
    (populated : ∀ part ∈ parts, Populated part.2 ∧ part.2 ≠ []) (uuid : List Char) :
    Populated (gathered uuid parts) := by
  intro interval member
  obtain ⟨part, kept, inside⟩ := List.mem_flatMap.mp member
  exact (populated part (List.mem_of_mem_filter kept)).1 interval inside

/-- The set of a UUID ends where the last of its intervals in the text does. -/
theorem lookup_addParts {parts : List (List Char × List Interval)}
    (populated : ∀ part ∈ parts, Populated part.2 ∧ part.2 ≠ []) (uuid : List Char) :
    ((parts.foldl addPart []).lookup uuid = none ∧ gathered uuid parts = []) ∨
      ∃ intervals stop, (parts.foldl addPart []).lookup uuid = some intervals ∧
        EndsAs intervals (gathered uuid parts) stop := by
  induction parts using List.reverseRecOn with
  | nil => exact .inl ⟨rfl, rfl⟩
  | append_singleton parts part ih =>
    have before := ih fun earlier member => populated earlier (List.mem_append_left _ member)
    obtain ⟨partOk, nonempty⟩ := populated part (by simp)
    obtain ⟨stop, ends⟩ := normalize_endsAs partOk nonempty
    rw [List.foldl_append, List.foldl_cons, List.foldl_nil, addPart, lookup_addSet, gathered_snoc]
    by_cases same : uuid = part.1
    · subst same
      rw [if_pos rfl, if_pos rfl]
      rcases before with ⟨absent, none⟩ | ⟨held, heldStop, found, heldEnds⟩
      · rw [absent, none]
        exact .inr ⟨_, stop, rfl, ends⟩
      · rw [found]
        obtain ⟨stop, ends⟩ := heldEnds.append ends
        exact .inr ⟨_, stop, rfl, ends⟩
    · rw [if_neg same, if_neg (Ne.symm same), List.append_nil]
      exact before

theorem readParts_populated {gtidStr : String} {parts : List (List Char × List Interval)}
    (read : readParts gtidStr = some parts) : ∀ part ∈ parts, Populated part.2 ∧ part.2 ≠ [] := by
  unfold readParts at read
  split at read
  · cases read
    simp
  · intro part member
    obtain ⟨text, _, found⟩ := exists_of_mem_mapM read member
    exact readPart_populated found

theorem names_iff {gtidStr serverUUID : String}
    {parts : List (List Char × List Interval)} (read : readParts gtidStr = some parts)
    (number : Int) :
    Names gtidStr serverUUID number ↔ ∃ interval ∈ gathered serverUUID.toList parts,
      interval.start.toInt ≤ number ∧ number < interval.stop.toInt := by
  simp only [Names, read, Option.some.injEq, exists_eq_left', gathered, List.mem_flatMap,
    List.mem_filter, decide_eq_true_eq]
  constructor
  · rintro ⟨part, member, same, interval, inside, within⟩
    exact ⟨interval, ⟨part, ⟨member, same⟩, inside⟩, within⟩
  · rintro ⟨interval, ⟨part, ⟨member, same⟩, inside⟩, within⟩
    exact ⟨part, member, same, interval, inside, within⟩

/-- The position of a UUID is one more than its largest transaction number; the copies
differ on a UUID of which the text names no transaction. -/
theorem txnID_cases (gtidStr serverUUID : String) :
    (parseMysqlGTIDSet gtidStr = none ∧
      moctlGetTxnIDFromGTIDStr gtidStr serverUUID = .error .unparsable ∧
      getTxnIDFromGTIDStr gtidStr serverUUID = .error .unparsable) ∨
    (parseMysqlGTIDSet gtidStr ≠ none ∧ (∀ number, ¬ Names gtidStr serverUUID number) ∧
      moctlGetTxnIDFromGTIDStr gtidStr serverUUID = .ok 0 ∧
      getTxnIDFromGTIDStr gtidStr serverUUID = .error .unknownUUID) ∨
    ∃ stop, moctlGetTxnIDFromGTIDStr gtidStr serverUUID = .ok stop ∧
      getTxnIDFromGTIDStr gtidStr serverUUID = .ok stop ∧
      IsGreatest { number | Names gtidStr serverUUID number } (stop.toInt - 1) := by
  unfold moctlGetTxnIDFromGTIDStr getTxnIDFromGTIDStr
  rw [parseMysqlGTIDSet_eq]
  cases read : readParts gtidStr with
  | none => exact .inl ⟨rfl, rfl, rfl⟩
  | some parts =>
    refine .inr ?_
    simp only [Option.map_some]
    rcases lookup_addParts (readParts_populated read) serverUUID.toList with
      ⟨absent, none⟩ | ⟨intervals, stop, found, ends⟩
    · refine .inl ⟨by simp, fun number named => ?_, by simp [absent], by simp [absent]⟩
      rw [names_iff read, none] at named
      simp at named
    · obtain ⟨last, atEnd, stopped⟩ := ends.last
      refine .inr ⟨stop, by simp [found, atEnd, stopped], by simp [found, atEnd, stopped], ?_⟩
      obtain ⟨⟨final, member, ending⟩, bound⟩ := ends.merged
      constructor
      · have started := gathered_populated (readParts_populated read) _ final member
        exact (names_iff read _).mpr ⟨final, member, by omega, by omega⟩
      · intro number named
        obtain ⟨interval, inside, _, below⟩ := (names_iff read number).mp named
        have limit := bound ⟨interval, inside, rfl⟩
        omega

theorem names_nonneg {gtidStr serverUUID : String} {number : Int}
    (named : Names gtidStr serverUUID number) : 0 ≤ number := by
  obtain ⟨parts, read, _⟩ := id named
  obtain ⟨interval, member, above, _⟩ := (names_iff read number).mp named
  exact (gathered_populated (readParts_populated read) _ interval member).1.trans above

/-- A position is not negative, so that differences of positions do not overflow. -/
theorem moctlGetTxnIDFromGTIDStr_nonneg {gtidStr serverUUID : String} {position : Int64}
    (found : moctlGetTxnIDFromGTIDStr gtidStr serverUUID = .ok position) :
    0 ≤ position.toInt := by
  rcases txnID_cases gtidStr serverUUID with
    ⟨_, here, _⟩ | ⟨_, _, here, _⟩ | ⟨stop, here, _, greatest⟩
  · rw [here] at found
    cases found
  · rw [here] at found
    cases found
    decide
  · rw [here] at found
    cases found
    have largest := names_nonneg greatest.1
    omega

/-- The copies return an error for the same texts and UUIDs, and otherwise the same
number, one more than the largest transaction number of the UUID, exactly for the texts
that do not parse and the UUIDs of which the text names a transaction. -/
theorem txnID_copies_agree_iff (gtidStr serverUUID : String) :
    (((∃ error, moctlGetTxnIDFromGTIDStr gtidStr serverUUID = .error error) ↔
        ∃ error, getTxnIDFromGTIDStr gtidStr serverUUID = .error error) ∧
      ∀ a b, moctlGetTxnIDFromGTIDStr gtidStr serverUUID = .ok a →
        getTxnIDFromGTIDStr gtidStr serverUUID = .ok b →
          a = b ∧ IsGreatest { number | Names gtidStr serverUUID number } (b.toInt - 1)) ↔
    (parseMysqlGTIDSet gtidStr = none ∨ ∃ number, Names gtidStr serverUUID number) := by
  rcases txnID_cases gtidStr serverUUID with
    ⟨unparsable, here, there⟩ | ⟨parsed, unnamed, here, there⟩ | ⟨stop, here, there, greatest⟩
  · simp [unparsable, here, there]
  · simp [parsed, unnamed, here, there]
  · have named : ∃ number, Names gtidStr serverUUID number := ⟨_, greatest.1⟩
    simp only [here, there, named, or_true, iff_true]
    refine ⟨by simp, fun a b first second => ?_⟩
    cases first
    cases second
    exact ⟨rfl, greatest⟩

/-- A UUID that is not in the set has position zero for the one copy and none for the
other. -/
theorem txnID_copies_differ :
    let gtidStr := "3e11fa47-71ca-11e1-9e33-c80aa9429562:1-5"
    let serverUUID := "4e11fa47-71ca-11e1-9e33-c80aa9429562"
    moctlGetTxnIDFromGTIDStr gtidStr serverUUID = .ok 0 ∧
      getTxnIDFromGTIDStr gtidStr serverUUID = .error .unknownUUID := by
  decide +kernel

end Moha.GtidPosition
