import Moha.DecimalText

/-! The GTID text form read by `pkg/mysql`: the vendored set parser, and
`GetTxnIDFromGTIDStr`, which reduces a set to one counter of one server UUID.
Only logs and leader records of the older schema version go through it. -/
namespace Moha.GtidText
open DecimalText

/-- A half-open interval `[start, stop)` of transaction numbers. -/
structure Interval where
  start : Int64
  stop : Int64
  deriving DecidableEq, Repr

/-- `mysql_gtid.go::parseInterval`. In the two-part form the error of the first
number is overwritten by the second's. -/
def parseInterval (text : List Char) : Option Interval :=
  let parsed : Interval × Bool :=
    match text.splitOn '-' with
    | [first] =>
      let start := parseInt first
      (⟨Int64.ofInt start.1, Int64.ofInt start.1 + 1⟩, start.2)
    | [first, second] =>
      let start := parseInt first
      let stop := parseInt second
      (⟨Int64.ofInt start.1, Int64.ofInt stop.1 + 1⟩, stop.2)
    | _ => (⟨0, 0⟩, false)
  if parsed.2 && decide (parsed.1.start < parsed.1.stop) then some parsed.1 else none

/-- `IntervalSlice.Less`, reflexive form: by start, then by stop. -/
def Interval.atMost (a b : Interval) : Bool :=
  decide (a.start < b.start) || (decide (a.start = b.start) && decide (a.stop ≤ b.stop))

/-- The merging loop of `IntervalSlice.Normalize`, with `last` the interval
appended most recently. -/
def mergeIntervals (last : Interval) : List Interval → List Interval
  | [] => [last]
  | next :: rest =>
    if last.stop < next.start then last :: mergeIntervals next rest
    else mergeIntervals ⟨last.start, max last.stop next.stop⟩ rest

/-- `IntervalSlice.Normalize`. -/
def normalize (intervals : List Interval) : List Interval :=
  match intervals.mergeSort Interval.atMost with
  | [] => []
  | first :: rest => mergeIntervals first rest

def hexDigit (c : Char) : Option Char :=
  if c.isDigit || ('a' ≤ c && c ≤ 'f') then some c
  else if 'A' ≤ c && c ≤ 'F' then some c.toLower
  else none

/-- Thirty-two hexadecimal digits, printed back in the canonical form. -/
def hashLike (digits : List Char) : Option (List Char) :=
  if digits.length = 32 then
    (digits.mapM hexDigit).map fun d =>
      d.take 8 ++ '-' :: (d.drop 8).take 4 ++ '-' :: (d.drop 12).take 4 ++
        '-' :: (d.drop 16).take 4 ++ '-' :: d.drop 20
  else none

/-- `uuid.FromString` followed by `UUID.String`. The URN forms contain a colon,
which the caller has already split at, so they never reach this point. -/
def canonicalUUID (text : List Char) : Option (List Char) :=
  let plain (t : List Char) :=
    if t.length = 36 then
      if t[8]? = some '-' ∧ t[13]? = some '-' ∧ t[18]? = some '-' ∧ t[23]? = some '-' then
        hashLike (t.take 8 ++ (t.drop 9).take 4 ++ (t.drop 14).take 4 ++ (t.drop 19).take 4 ++
          t.drop 24)
      else none
    else hashLike t
  if text.length = 38 then
    if text.head? = some (Char.ofNat 123) ∧ text.getLast? = some (Char.ofNat 125) then
      plain ((text.drop 1).dropLast)
    else none
  else plain text

/-- `unicode.IsSpace`. -/
def isSpace (c : Char) : Bool :=
  let n := c.toNat
  (9 ≤ n && n ≤ 13) || n == 32 || n == 0x85 || n == 0xA0 || n == 0x1680 ||
    (0x2000 ≤ n && n ≤ 0x200A) || n == 0x2028 || n == 0x2029 || n == 0x202F || n == 0x205F ||
    n == 0x3000

def trimSpace (text : List Char) : List Char :=
  ((text.dropWhile isSpace).reverse.dropWhile isSpace).reverse

/-- `mysql_gtid.go::ParseUUIDSet`. -/
def parseUUIDSet (text : List Char) : Option (List Char × List Interval) :=
  match (trimSpace text).splitOn ':' with
  | sid :: first :: rest => do
    let uuid ← canonicalUUID sid
    let intervals ← (first :: rest).mapM parseInterval
    pure (uuid, normalize intervals)
  | _ => none

/-- The sets of one parsed text, by UUID. -/
abbrev GTIDSet := List (List Char × List Interval)

/-- `MysqlGTIDSet.AddSet`. -/
def addSet (sets : GTIDSet) (set : List Char × List Interval) : GTIDSet :=
  match sets.lookup set.1 with
  | none => sets ++ [set]
  | some _ => sets.map fun held =>
    if held.1 = set.1 then (held.1, normalize (held.2 ++ set.2)) else held

/-- `mysql_gtid.go::ParseMysqlGTIDSet`. -/
def parseMysqlGTIDSet (text : String) : Option GTIDSet :=
  if text = "" then some []
  else (text.toList.splitOn ',').foldlM (fun sets part => (parseUUIDSet part).map (addSet sets)) []

inductive TxnIDError where
  | unparsable
  | unknownUUID
  | noIntervals
  deriving DecidableEq, Repr

/-- `mysql.go::GetTxnIDFromGTIDStr`: the number after the last transaction of
the server in the set. -/
def getTxnIDFromGTIDStr (gtidStr serverUUID : String) : Except TxnIDError Int64 :=
  match parseMysqlGTIDSet gtidStr with
  | none => .error .unparsable
  | some sets =>
    match sets.lookup serverUUID.toList with
    | none => .error .unknownUUID
    | some intervals =>
      match intervals.getLast? with
      | none => .error .noIntervals
      | some last => .ok last.stop

theorem exists_of_mem_mapM {α β : Type} {f : α → Option β} {texts : List α} {read : List β}
    (all : texts.mapM f = some read) {b : β} (member : b ∈ read) : ∃ a ∈ texts, f a = some b := by
  induction texts generalizing read with
  | nil =>
    cases all
    cases member
  | cons text rest ih =>
    simp only [List.mapM_cons, Option.pure_def, Option.bind_eq_bind, Option.bind_eq_some_iff,
      Option.some.injEq] at all
    obtain ⟨first, one, others, more, rfl⟩ := all
    rcases List.mem_cons.mp member with rfl | member
    · exact ⟨text, List.mem_cons_self, one⟩
    · obtain ⟨a, inside, found⟩ := ih more member
      exact ⟨a, List.mem_cons_of_mem text inside, found⟩

end Moha.GtidText
