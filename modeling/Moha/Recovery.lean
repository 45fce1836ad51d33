import Moha.Registry
import Mathlib.Data.List.Dedup

/-! The recovery of a former master, `moctl/recovery.go::GetEtcdSwitchInfo`. It looks
in etcd for the position that the next master uploaded when it was promoted. The
agent joins the parts of a key with `path.Join`; this program concatenates them, and
it takes the last key that begins with the term it looks for. -/
namespace Moha.Recovery
open KeyValueStore DecimalText PathText LeaderRecord Registry

/-! ### The text of the keys -/

/-- The parts of a key below the root path. -/
def parts : Key → List Text
  | .leaderPath => ["master".toList]
  | .termPath => ["election".toList, "master".toList, "term".toList]
  | .idPath => ["election".toList, "master".toList, "id".toList]
  | .lastUUIDPath => ["election".toList, "master".toList, "last_uuid".toList]
  | .lastGTIDPath => ["election".toList, "master".toList, "last_gtid".toList]
  | .lastTxnIDPath => ["election".toList, "master".toList, "last_txnid".toList]
  | .metaVersionPath => ["election".toList, "master".toList, "meta_version".toList]
  | .spmPath => ["single_point_master".toList]
  | .myTermPath id => ["election".toList, "terms".toList, id.toList]
  | .nodesPath id => ["election".toList, "nodes".toList, id.toList]
  | .switchPath term id => ["switch".toList, (sprint term).toList, id.toList]

/-- The paths of `leader.go`, `single_point.go`, `campaign.go` and `server.go`. -/
def relativeKey : Key → Text
  | .leaderPath => "master".toList
  | .spmPath => "single_point_master".toList
  | .myTermPath id => join [join ["election".toList, "terms".toList], id.toList]
  | key => join (parts key)

/-- `leader.go::fullPathOf`. -/
def keyText (root clusterName : String) (key : Key) : Text :=
  keyWithRootPath (rootPath root clusterName) (relativeKey key)

/-- The node that a key is about. -/
def owner : Key → Option NodeID
  | .myTermPath id | .nodesPath id | .switchPath _ id => some id
  | _ => none

/-- The node IDs in a key are plain. -/
def PlainKey (key : Key) : Prop := ∀ id, owner key = some id → Plain id.toList

theorem plain_sprint (n : UInt64) : Plain (sprint n).toList := by
  have digits : ∀ char ∈ (sprint n).toList, char.isDigit = true := by
    intro char member
    rw [sprint_toList] at member
    exact Nat.isDigit_of_mem_toDigits (by decide) (by decide) member
  refine ⟨?_, ?_, ?_, fun slash => absurd (digits _ slash) (by decide)⟩
  · rw [sprint_toList]
    exact Nat.toDigits_ne_nil
  · intro dot
    exact absurd (digits '.' (by simp [dot])) (by decide)
  · intro dots
    exact absurd (digits '.' (by simp [dots])) (by decide)

theorem plain_parts {key : Key} (plain : PlainKey key) : ∀ part ∈ parts key, Plain part := by
  cases key with
  | myTermPath id | nodesPath id =>
    have plainID : Plain id.toList := plain id rfl
    simp only [parts, List.forall_mem_cons, List.not_mem_nil, false_implies, implies_true, and_true]
    exact ⟨by decide, by decide, plainID⟩
  | switchPath term id =>
    have plainID : Plain id.toList := plain id rfl
    simp only [parts, List.forall_mem_cons, List.not_mem_nil, false_implies, implies_true, and_true]
    exact ⟨by decide, plain_sprint term, plainID⟩
  | _ => decide

theorem parts_ne_nil (key : Key) : parts key ≠ [] := by
  cases key <;> simp [parts]

theorem join_join {first second third : Text} (plainFirst : Plain first)
    (plainSecond : Plain second) (plainThird : Plain third) :
    join [join [first, second], third] = ['/'].intercalate [first, second, third] := by
  have pair := join_plain_pair plainFirst plainSecond
  have shape : ∀ part ∈ [first, second], part ≠ [] ∧ '/' ∉ part := by
    simp [plainFirst.shape, plainSecond.shape]
  have last := (head_intercalate (List.cons_ne_nil first [second]) shape).2
  have below : under (join [first, second]) = join [first, second] ++ ['/'] := by
    rw [pair]
    simp only [List.intercalate_cons_cons, List.intercalate_singleton, List.append_assoc,
      List.singleton_append] at last
    have notDot : first ++ '/' :: second ≠ ['.'] := by
      intro dot
      have member : '/' ∈ ['.'] := dot ▸ (by simp)
      exact absurd member (by decide)
    rw [under, if_neg (by simp [notDot]), closed, if_neg (by simpa only [beq_iff_eq] using last)]
  have appended := @join_under (join [first, second]) [third] (cleaned_join _)
    (by simp [plainThird]) (by simp)
  rw [below, pair, List.intercalate_singleton] at appended
  rw [pair, appended]
  simp [List.intercalate_cons_cons]

theorem relativeKey_eq {key : Key} (plain : PlainKey key) :
    relativeKey key = ['/'].intercalate (parts key) := by
  have joined := join_plain (plain_parts plain) (parts_ne_nil key)
  cases key with
  | leaderPath | spmPath => exact List.intercalate_singleton.symm
  | myTermPath id =>
    exact @join_join "election".toList "terms".toList _ (by decide) (by decide)
      (plain id rfl)
  | _ => exact joined

/-- The agent's key is the parts behind the root path. -/
theorem keyText_eq {root clusterName : String} {key : Key} (plain : PlainKey key) :
    keyText root clusterName key =
      under (rootPath root clusterName) ++ ['/'].intercalate (parts key) := by
  rw [keyText, relativeKey_eq plain]
  exact join_under (cleaned_join _) (plain_parts plain) (parts_ne_nil key)

theorem parts_injective {key other : Key} (same : parts key = parts other) : key = other := by
  cases key <;> cases other <;> simp_all [parts, String.toList_inj]
  exact sprint_injective same.1

theorem keyText_injective {root clusterName : String} {key other : Key} (plain : PlainKey key)
    (plainOther : PlainKey other)
    (same : keyText root clusterName key = keyText root clusterName other) : key = other := by
  rw [keyText_eq plain, keyText_eq plainOther] at same
  have texts := congrArg (List.splitOn '/') (List.append_cancel_left same)
  rw [List.splitOn_intercalate '/' (fun part m => (plain_parts plain part m).noSlash)
      (parts_ne_nil key),
    List.splitOn_intercalate '/' (fun part m => (plain_parts plainOther part m).noSlash)
      (parts_ne_nil other)] at texts
  exact parts_injective texts

/-! ### Reading etcd by text -/

/-- The keys and values of etcd as text keys: `keys` has every key that is stored. -/
def listing (root clusterName : String) (keys : List Key) (etcd : Etcd) : List (Text × Value) :=
  keys.dedup.filterMap fun key =>
    (etcd.value key).map fun value => (keyText root clusterName key, value)

/-- `Get` of a key. -/
def get (kvs : List (Text × Value)) (key : Text) : Option Value := kvs.lookup key

/-- `Get` with a prefix, sorted by descending keys, of one key. -/
def getLast (kvs : List (Text × Value)) (start : Text) : Option (Text × Value) :=
  (kvs.filter fun kv => start.isPrefixOf kv.1).foldl (fun last kv =>
    match last with
    | none => some kv
    | some held => if held.1 < kv.1 then some kv else some held) none

/-- A stored value as text. A record is JSON, which is no number. -/
def valueText : Value → String
  | .text text => text
  | _ => ""

/-- `recovery.go::MysqlCurrentStat`, as far as it is used. -/
structure MysqlCurrentStat where
  binlogFile : String := ""
  binlogPos : String := ""
  binlogGtid : String := ""
  deriving DecidableEq, Repr

/-- `json.Unmarshal`, whose error is ignored. -/
def unmarshalStat : Value → MysqlCurrentStat
  | .position position => ⟨position.file, position.pos, position.gtid⟩
  | _ => {}

/-- The part of `recovery.go::Config` that is used. -/
structure Config where
  etcdRootPath : String
  etcdCluster : String
  etcdHostPort : String

structure SwitchInfo where
  mohaSwitchFile : String
  mohaSwitchPost : String
  mohaSwitchGtid : String
  mohaNewMasterIp : Text
  mohaNewMasterPort : Text
  deriving DecidableEq, Repr

inductive Failure where
  | panics
  | exits
  | noIPPort
  deriving DecidableEq, Repr

/-- `recovery.go::GetEtcdSwitchInfo` when etcd answers. The results of `Atoi` are used
whatever their error, and the difference of two of them is one of `int`. -/
def getEtcdSwitchInfo (cfg : Config) (kvs : List (Text × Value)) : Except Failure SwitchInfo :=
  let path := cfg.etcdRootPath.toList ++ cfg.etcdCluster.toList
  match get kvs (path ++ "/election/master/term".toList) with
  | none => .error .panics
  | some currentterm =>
    let intCurrentTerm := (parseInt (valueText currentterm).toList).1
    match get kvs (path ++ "/election/terms/".toList ++ cfg.etcdHostPort.toList) with
    | none => .error .exits
    | some recoveryNodeTerm =>
      let strRecoveryTerm := valueText recoveryNodeTerm
      let intRecoveryTerm := (parseInt strRecoveryTerm.toList).1
      if intRecoveryTerm ≠ (intCurrentTerm - 1).bmod (2 ^ 64) then .error .exits
      else
        match getLast kvs (path ++ "/switch/".toList ++ strRecoveryTerm.toList) with
        | none => .error .exits
        | some (key, value) =>
          let currentstat := unmarshalStat value
          let mohaSwitchIPPort := (key.splitOn '/').getLastD []
          if mohaSwitchIPPort = [] then .error .noIPPort
          else
            match mohaSwitchIPPort.splitOn ':' with
            | ip :: port :: _ =>
              .ok ⟨currentstat.binlogFile, currentstat.binlogPos, currentstat.binlogGtid, ip, port⟩
            | _ => .error .panics

theorem lookup_filterMap {keys : List Key} {key : Key} {value : Key → Option Value}
    {text : Key → Text} (injective : ∀ other ∈ keys, text other = text key → other = key) :
    (keys.filterMap fun key => (value key).map fun v => (text key, v)).lookup (text key) =
      if key ∈ keys then value key else none := by
  induction keys with
  | nil => rfl
  | cons first rest ih =>
    have tail := ih fun other member => injective other (List.mem_cons_of_mem first member)
    by_cases same : first = key
    · subst same
      cases stored : value first with
      | none => simp [stored, tail]
      | some v => simp [stored]
    · have apart : (text key == text first) = false := by
        refine beq_eq_false_iff_ne.mpr fun texts => ?_
        exact same (injective first List.mem_cons_self texts.symm)
      have member : key ∈ first :: rest ↔ key ∈ rest := by simp [Ne.symm same]
      cases stored : value first with
      | none => simp [stored, tail, member]
      | some v => simp [stored, tail, member, List.lookup_cons, apart]

section Listing

variable {root clusterName : String} {keys : List Key} {etcd : Etcd}

/-- The value under the text of a key is the value of the key. -/
theorem get_listing {key : Key} (plain : ∀ other ∈ keys, PlainKey other) (plainKey : PlainKey key)
    (covers : ∀ other, etcd.entries other ≠ none → other ∈ keys) :
    get (listing root clusterName keys etcd) (keyText root clusterName key) = etcd.value key := by
  have found := @lookup_filterMap keys.dedup key etcd.value (keyText root clusterName)
    fun other member same =>
      keyText_injective (plain other (List.mem_dedup.mp member)) plainKey same
  rw [get, listing, found]
  split
  · rfl
  · rename_i absent
    have free : etcd.entries key = none := by
      by_contra held
      exact absent (List.mem_dedup.mpr (covers key held))
    simp [Store.value, free]

theorem mem_listing {text : Text} {value : Value}
    (member : (text, value) ∈ listing root clusterName keys etcd) :
    ∃ key ∈ keys, keyText root clusterName key = text ∧ etcd.value key = some value := by
  obtain ⟨key, held, found⟩ := List.mem_filterMap.mp member
  obtain ⟨stored, value', pair⟩ := Option.map_eq_some_iff.mp found
  cases pair
  exact ⟨key, List.mem_dedup.mp held, rfl, value'⟩

theorem mem_listing_of_value {key : Key} {value : Value} (member : key ∈ keys)
    (stored : etcd.value key = some value) :
    (keyText root clusterName key, value) ∈ listing root clusterName keys etcd :=
  List.mem_filterMap.mpr ⟨key, List.mem_dedup.mpr member, by simp [stored]⟩

end Listing

/-- A single match is the last one. -/
theorem getLast_unique {kvs : List (Text × Value)} {start : Text} {kv : Text × Value}
    (member : kv ∈ kvs) (begun : start <+: kv.1)
    (unique : ∀ other ∈ kvs, start <+: other.1 → other = kv) : getLast kvs start = some kv := by
  have only : ∀ other ∈ kvs.filter (fun kv => start.isPrefixOf kv.1), other = kv := by
    intro other found
    obtain ⟨held, matched⟩ := List.mem_filter.mp found
    exact unique other held (List.isPrefixOf_iff_prefix.mp matched)
  have present : kv ∈ kvs.filter (fun kv => start.isPrefixOf kv.1) :=
    List.mem_filter.mpr ⟨member, List.isPrefixOf_iff_prefix.mpr begun⟩
  unfold getLast
  generalize kvs.filter (fun kv => start.isPrefixOf kv.1) = found at only present
  -- once the match is held, every further one is the same
  have held : ∀ rest : List (Text × Value), (∀ other ∈ rest, other = kv) →
      rest.foldl (fun last kv =>
        match last with
        | none => some kv
        | some held => if held.1 < kv.1 then some kv else some held) (some kv) = some kv := by
    intro rest same
    induction rest with
    | nil => rfl
    | cons first later ih =>
      obtain rfl := same first List.mem_cons_self
      rw [List.foldl_cons]
      simp only [ite_self]
      exact ih fun other member => same other (List.mem_cons_of_mem _ member)
  cases found with
  | nil => cases present
  | cons first rest =>
    obtain rfl := only first List.mem_cons_self
    exact held rest fun other member => only other (List.mem_cons_of_mem _ member)

theorem prefix_of_prefix_slash {start text rest : Text} (noSlash : '/' ∉ start)
    (begun : start <+: text ++ '/' :: rest) : start <+: text := by
  induction text generalizing start with
  | nil =>
    cases start with
    | nil => exact List.nil_prefix
    | cons char chars =>
      obtain ⟨rfl, _⟩ := List.cons_prefix_cons.mp begun
      exact absurd List.mem_cons_self noSlash
  | cons first later ih =>
    cases start with
    | nil => exact List.nil_prefix
    | cons char chars =>
      obtain ⟨rfl, tail⟩ := List.cons_prefix_cons.mp begun
      exact List.cons_prefix_cons.mpr
        ⟨rfl, ih (fun slash => noSlash (List.mem_cons_of_mem _ slash)) tail⟩

/-- Only promotion records begin with the switch path, and the term with them. -/
theorem switch_of_begun {key : Key} {term : Text} (noSlash : '/' ∉ term)
    (begun : "switch/".toList ++ term <+: ['/'].intercalate (parts key)) :
    ∃ k id, key = .switchPath k id ∧ term <+: (sprint k).toList := by
  have switch : "switch/".toList = 's' :: 'w' :: "itch/".toList := by decide
  cases key with
  | switchPath k id =>
    refine ⟨k, id, rfl, prefix_of_prefix_slash noSlash (?_ : _ <+: _ ++ '/' :: id.toList)⟩
    have path : "switch/".toList = "switch".toList ++ ['/'] := by decide
    simpa only [parts, List.intercalate_cons_cons, List.intercalate_singleton, path,
      List.append_assoc, List.prefix_append_right_inj, List.singleton_append,
      List.cons_prefix_cons, true_and] using begun
  | spmPath =>
    have text : "single_point_master".toList = 's' :: 'i' :: "ngle_point_master".toList := by
      decide
    simp [parts, switch, text] at begun
  | leaderPath =>
    have text : "master".toList = 'm' :: "aster".toList := by decide
    simp [parts, switch, text] at begun
  | _ =>
    have text : "election".toList = 'e' :: "lection".toList := by decide
    simp only [parts, List.intercalate_cons_cons, switch, text, List.cons_append,
      List.cons_prefix_cons, Char.reduceEq, false_and] at begun

/-- The last element of a key is the node's ID. -/
theorem lastElement {start id : Text} (plain : Plain id) :
    ((start ++ '/' :: id).splitOn '/').getLastD [] = id := by
  have own : id.splitOn '/' = [id] := by
    simpa using @List.splitOn_intercalate _ [id] _ _ '/' (by simpa using plain.noSlash) (by simp)
  rw [List.splitOn, List.splitOnP_append_cons _ _ (by simp)]
  rw [List.splitOn] at own
  rw [own]
  simp

theorem splitOn_colon {text : Text} (colon : ':' ∈ text) :
    ∃ ip port rest, text.splitOn ':' = ip :: port :: rest := by
  obtain ⟨before, after, rfl⟩ := List.append_of_mem colon
  rw [List.splitOn, List.splitOnP_append_cons _ _ (by simp)]
  obtain ⟨ip, others, first⟩ := List.exists_cons_of_ne_nil
    (List.splitOnP_ne_nil (· == ':') before)
  obtain ⟨port, rest, second⟩ := List.exists_cons_of_ne_nil
    (List.splitOnP_ne_nil (· == ':') after)
  rw [first, second]
  cases others with
  | nil => exact ⟨ip, port, rest, rfl⟩
  | cons other later => exact ⟨ip, other, later ++ port :: rest, rfl⟩

section Found

variable {root clusterName : String} {keys : List Key} {etcd : Etcd} {n r : NodeID} {term : UInt64}
  {position : Position}

/-- The record of the promotion to a term is found, when no other record begins with
the number before it. -/
theorem getEtcdSwitchInfo_found
    (rooted : root.toList ++ clusterName.toList ++ ['/'] = under (rootPath root clusterName))
    (plain : ∀ key ∈ keys, PlainKey key)
    (covers : ∀ key, etcd.entries key ≠ none → key ∈ keys)
    (plainN : Plain n.toList) (host : ':' ∈ n.toList) (plainR : Plain r.toList)
    (positive : 1 ≤ term.toNat) (small : term.toNat < 2 ^ 63)
    (current : etcd.value .termPath = some (number term))
    (previous : etcd.value (.myTermPath r) = some (number (term - 1)))
    (uploaded : etcd.value (.switchPath (term - 1) n) = some (.position position))
    (alone : ∀ k id, etcd.entries (.switchPath k id) ≠ none →
      (sprint (term - 1)).toList <+: (sprint k).toList → k = term - 1 ∧ id = n) :
    ∃ ip port rest, n.toList.splitOn ':' = ip :: port :: rest ∧
      getEtcdSwitchInfo ⟨root, clusterName, r⟩ (listing root clusterName keys etcd) =
        .ok ⟨position.file, position.pos, position.gtid, ip, port⟩ := by
  obtain ⟨ip, port, rest, split⟩ := splitOn_colon host
  refine ⟨ip, port, rest, split, ?_⟩
  -- the texts that are concatenated are the agent's
  have below : ∀ text : Text, root.toList ++ clusterName.toList ++ '/' :: text =
      under (rootPath root clusterName) ++ text := by
    intro text
    rw [← rooted]
    simp
  have termKey : root.toList ++ clusterName.toList ++ "/election/master/term".toList =
      keyText root clusterName .termPath := by
    rw [keyText_eq (by simp [PlainKey, owner]), ← below]
    simp [parts, List.intercalate_cons_cons]
  have myTermKey : root.toList ++ clusterName.toList ++ "/election/terms/".toList ++ r.toList =
      keyText root clusterName (.myTermPath r) := by
    rw [keyText_eq (by simpa [PlainKey, owner] using plainR), ← below]
    simp [parts, List.intercalate_cons_cons]
  have switchKey : root.toList ++ clusterName.toList ++ "/switch/".toList ++
      (sprint (term - 1)).toList =
      under (rootPath root clusterName) ++ ("switch/".toList ++ (sprint (term - 1)).toList) := by
    rw [← below]
    simp
  have plainSwitch : PlainKey (.switchPath (term - 1) n) := by
    simpa [PlainKey, owner] using plainN
  have switchText : keyText root clusterName (.switchPath (term - 1) n) =
      (under (rootPath root clusterName) ++ ("switch/".toList ++ (sprint (term - 1)).toList)) ++
        '/' :: n.toList := by
    rw [keyText_eq plainSwitch]
    simp [parts, List.intercalate_cons_cons]
  have termValue : get (listing root clusterName keys etcd) (keyText root clusterName .termPath) =
      some (number term) :=
    (get_listing plain (by simp [PlainKey, owner]) covers).trans current
  have myTermValue : get (listing root clusterName keys etcd)
      (keyText root clusterName (.myTermPath r)) = some (number (term - 1)) :=
    (get_listing plain (by simpa [PlainKey, owner] using plainR) covers).trans previous
  have record : getLast (listing root clusterName keys etcd)
      (under (rootPath root clusterName) ++ ("switch/".toList ++ (sprint (term - 1)).toList)) =
      some (keyText root clusterName (.switchPath (term - 1) n), .position position) := by
    refine getLast_unique (mem_listing_of_value ?_ uploaded) ?_ ?_
    · refine covers _ fun absent => ?_
      simp [Store.value, absent] at uploaded
    · rw [switchText]
      exact List.prefix_append _ _
    · rintro ⟨text, value⟩ member begun
      obtain ⟨key, held, rfl, stored⟩ := mem_listing member
      dsimp only at begun
      rw [keyText_eq (plain key held), List.prefix_append_right_inj] at begun
      obtain ⟨k, id, rfl, starts⟩ := switch_of_begun (plain_sprint _).noSlash begun
      have present : etcd.entries (.switchPath k id) ≠ none := by
        intro absent
        simp [Store.value, absent] at stored
      obtain ⟨rfl, rfl⟩ := alone k id present starts
      cases stored.symm.trans uploaded
      rfl
  -- the two terms follow each other
  have before : (term - 1).toNat = term.toNat - 1 :=
    UInt64.toNat_sub_of_le term 1 (UInt64.le_iff_toNat_le.mpr positive)
  have currentTerm : (parseInt (sprint term).toList).1 = (term.toNat : Int) := by
    rw [parseInt_sprint small]
  have recoveryTerm : (parseInt (sprint (term - 1)).toList).1 = (term.toNat : Int) - 1 := by
    rw [parseInt_sprint (by omega), before]
    omega
  have difference : ((term.toNat : Int) - 1).bmod (2 ^ 64) = (term.toNat : Int) - 1 :=
    Int.bmod_eq_of_le (by omega) (by omega)
  simp only [getEtcdSwitchInfo, termKey, myTermKey, termValue, myTermValue, number, valueText,
    switchKey, record, currentTerm, recoveryTerm, difference, ne_eq, not_true_eq_false, if_false]
  rw [switchText, lastElement plainN, if_neg plainN.nonempty, split]
  rfl

end Found

end Moha.Recovery
