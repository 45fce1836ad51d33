import Moha.Recovery
import Moha.Election
import Moha.EntryMap

/-! The keys of the election logs as text. `uploadLogForElection` puts a log below
the root path of the cluster, `PrefixGet` trims the root path off again, and
`getAllLogsForElection` trims the directory. That last step is `strings.TrimLeft`,
which cuts every leading character of its set and so goes on into the node ID. -/
namespace Moha.ElectionKeys
open EntryMap PathText LeaderRecord Election Registry Recovery

/-- The keys and values of etcd, each key once. -/
abbrev KVs := List (Text × Value)

def nodesDirectory : Text := join ["election".toList, "nodes".toList]

/-- The relative key of a node's log. -/
def nodesKey (id : NodeID) : Text := join ["election".toList, "nodes".toList, id.toList]

/-- `campaign.go::uploadLogForElection`. -/
def uploadLogForElection (root clusterName : String) (kvs : KVs) (id : NodeID)
    (log : LogForElection) : KVs :=
  assign kvs (keyWithRootPath (rootPath root clusterName) (nodesKey id)) (.electionLog log)

/-- `etcd.go::PrefixGet`. -/
def prefixGet (rootPath : Text) (kvs : KVs) (start : Text) : KVs :=
  (kvs.filter fun kv => (keyWithRootPath rootPath start).isPrefixOf kv.1).foldl
    (fun r kv => assign r (trim (closed rootPath) kv.1) kv.2) []

/-- `strings.TrimLeft`. -/
def trimLeft (text cutset : Text) : Text := text.dropWhile fun char => cutset.contains char

def cutset : Text := join ["election".toList, "nodes/".toList]

/-- `campaign.go::getAllLogsForElection` on the map of `PrefixGet`, in the order in
which its entries are visited. -/
def getAllLogs (visited : KVs) : Logs :=
  visited.foldl (fun r kv =>
    match kv.2 with
    | .electionLog log => insertLog r (String.ofList (trimLeft kv.1 cutset)) log
    | _ => r) []

/-- The ID under which the log of a node comes back. -/
def cutID (id : NodeID) : NodeID := String.ofList (trimLeft id.toList cutset)

theorem cutset_eq : cutset = "election/nodes".toList := by decide

private theorem plainKey_nodesPath {id : NodeID} (plain : Plain id.toList) :
    PlainKey (.nodesPath id) := by
  intro owned owns
  cases Option.some.inj owns
  exact plain

theorem nodesKey_eq {id : NodeID} (plain : Plain id.toList) :
    nodesKey id = "election/nodes/".toList ++ id.toList := by
  have start :
      "election/nodes/".toList = "election".toList ++ '/' :: ("nodes".toList ++ ['/']) := by
    decide
  refine (relativeKey_eq (plainKey_nodesPath plain)).trans ?_
  rw [start, parts, List.intercalate_cons_cons, List.intercalate_cons_cons,
    List.intercalate_singleton]
  simp only [List.append_assoc, List.cons_append, List.nil_append]

theorem trimLeft_nodesKey {id : NodeID} (plain : Plain id.toList) :
    String.ofList (trimLeft (nodesKey id) cutset) = cutID id := by
  rw [nodesKey_eq plain, cutID, trimLeft, trimLeft, List.dropWhile_append_of_pos]
  rw [cutset_eq]
  exact List.all_eq_true.mp (by decide)

/-! ### What is downloaded -/

/-- Every log uploaded, one after the other. -/
def uploadAll (root clusterName : String) (kvs : KVs) (uploads : Logs) : KVs :=
  uploads.foldl (fun kvs entry => uploadLogForElection root clusterName kvs entry.1 entry.2) kvs

section Download
variable {root clusterName : String}

theorem fullKey_eq {id : NodeID} (plain : Plain id.toList) :
    keyWithRootPath (rootPath root clusterName) (nodesKey id) =
      under (rootPath root clusterName) ++ ("election/nodes/".toList ++ id.toList) := by
  have plainKey := plainKey_nodesPath plain
  rw [← nodesKey_eq plain]
  exact (keyText_eq plainKey).trans (congrArg _ (relativeKey_eq plainKey).symm)

theorem fullKey_injective {id other : NodeID} (plain : Plain id.toList)
    (plainOther : Plain other.toList)
    (same : keyWithRootPath (rootPath root clusterName) (nodesKey id) =
      keyWithRootPath (rootPath root clusterName) (nodesKey other)) : id = other := by
  rw [fullKey_eq plain, fullKey_eq plainOther] at same
  exact String.toList_inj.mp (List.append_cancel_left (List.append_cancel_left same))

theorem nodesKey_injective {id other : NodeID} (plain : Plain id.toList)
    (plainOther : Plain other.toList) (same : nodesKey id = nodesKey other) : id = other :=
  @fullKey_injective "" "" id other plain plainOther (congrArg _ same)

/-- `PrefixGet` finds the key of every log, and trims the root path off. -/
theorem fullKey_found {id : NodeID} (plain : Plain id.toList) :
    (keyWithRootPath (rootPath root clusterName) nodesDirectory).isPrefixOf
        (keyWithRootPath (rootPath root clusterName) (nodesKey id)) = true ∧
      trim (closed (rootPath root clusterName))
        (keyWithRootPath (rootPath root clusterName) (nodesKey id)) = nodesKey id := by
  have directory : keyWithRootPath (rootPath root clusterName) nodesDirectory =
      under (rootPath root clusterName) ++ "election/nodes".toList := by
    have pair := @keyWithRootPath_pair (rootPath root clusterName) "election".toList
      "nodes".toList (cleaned_join _) (by decide) (by decide)
    rw [List.append_assoc] at pair
    exact pair
  constructor
  · rw [directory, fullKey_eq plain, List.isPrefixOf_iff_prefix, List.prefix_append_right_inj]
    exact ⟨'/' :: id.toList, by simp⟩
  · have plainKey := plainKey_nodesPath plain
    have path := PlainPath.of_parts (plain_parts plainKey) (parts_ne_nil _)
    rw [← relativeKey_eq plainKey] at path
    exact path.trim_join (cleaned_join _)

/-- The logs that `PrefixGet` returns, where none was stored before. -/
theorem prefixGet_uploadAll {kvs : KVs} {uploads : Logs}
    (fresh : ∀ kv ∈ kvs,
      (keyWithRootPath (rootPath root clusterName) nodesDirectory).isPrefixOf kv.1 = false)
    (plain : ∀ entry ∈ uploads, Plain entry.1.toList)
    (distinct : (uploads.map Prod.fst).Nodup) :
    prefixGet (rootPath root clusterName) (uploadAll root clusterName kvs uploads)
        nodesDirectory =
      uploads.map fun entry => (nodesKey entry.1, .electionLog entry.2) := by
  have found := fun entry member =>
    @fullKey_found root clusterName _ (plain entry member)
  have fullDistinct : (uploads.map fun entry =>
      keyWithRootPath (rootPath root clusterName) (nodesKey entry.1)).Nodup :=
    (List.nodup_map_iff_inj_on distinct.of_map).mpr fun entry member other inside same =>
      List.inj_on_of_nodup_map distinct member inside
        (fullKey_injective (plain entry member) (plain other inside) same)
  have keyDistinct : (uploads.map fun entry => nodesKey entry.1).Nodup :=
    (List.nodup_map_iff_inj_on distinct.of_map).mpr fun entry member other inside same =>
      List.inj_on_of_nodup_map distinct member inside
        (nodesKey_injective (plain entry member) (plain other inside) same)
  have stored : (uploadAll root clusterName kvs uploads).filter (fun kv =>
      (keyWithRootPath (rootPath root clusterName) nodesDirectory).isPrefixOf kv.1) =
      (uploads.map fun entry => (keyWithRootPath (rootPath root clusterName) (nodesKey entry.1),
        Value.electionLog entry.2)).reverse := by
    have none : kvs.filter (fun kv =>
        (keyWithRootPath (rootPath root clusterName) nodesDirectory).isPrefixOf kv.1) = [] := by
      refine List.filter_eq_nil_iff.mpr fun kv member => ?_
      rw [fresh kv member]
      exact Bool.false_ne_true
    have filtered := @filter_foldl_assign _ Value _ _
      (fun entry : String × LogForElection =>
        keyWithRootPath (rootPath root clusterName) (nodesKey entry.1))
      (fun entry => .electionLog entry.2) uploads kvs
      (keyWithRootPath (rootPath root clusterName) nodesDirectory).isPrefixOf
      (fun entry member => (found entry member).1)
    refine filtered.trans ?_
    rw [none, foldl_assign_fresh fullDistinct (by simp), List.append_nil]
  rw [prefixGet, stored, foldl_assign_fresh]
  · rw [List.append_nil, ← List.map_reverse, List.reverse_reverse, List.map_map]
    refine List.map_congr_left fun entry member => ?_
    simp [(found entry member).2]
  · rw [List.map_reverse, List.nodup_reverse, List.map_map]
    refine (List.map_congr_left fun entry member => ?_) ▸ keyDistinct
    exact ((found entry member).2).symm
  · simp

end Download

/-! ### The IDs that come back -/

/-- The log of an entry, under the ID it is trimmed to. -/
private def decoded (kv : Text × Value) : Option (NodeID × LogForElection) :=
  match kv.2 with
  | .electionLog log => some (String.ofList (trimLeft kv.1 cutset), log)
  | _ => none

private theorem getAllLogs_eq (visited : KVs) :
    getAllLogs visited =
      (visited.filterMap decoded).foldl (fun logs entry => assign logs entry.1 entry.2) [] := by
  rw [List.foldl_filterMap, getAllLogs]
  congr 1
  funext logs kv
  unfold decoded
  cases kv.2 <;> rfl

private theorem decoded_perm {visited : KVs} {uploads : Logs}
    (plain : ∀ entry ∈ uploads, Plain entry.1.toList)
    (order : visited.Perm (uploads.map fun entry => (nodesKey entry.1, .electionLog entry.2))) :
    (visited.filterMap decoded).Perm (uploads.map fun entry => (cutID entry.1, entry.2)) := by
  refine (order.filterMap decoded).trans (.of_eq ?_)
  rw [List.filterMap_map, ← List.filterMap_eq_map]
  refine List.filterMap_congr fun entry member => ?_
  simp [decoded, trimLeft_nodesKey (plain entry member)]

theorem cutID_length (id : NodeID) :
    (cutID id).length = (id.toList.dropWhile fun char => cutset.contains char).length := by
  rw [cutID, trimLeft, String.length_ofList]

theorem cutID_length_le (id : NodeID) : (cutID id).length ≤ id.length := by
  rw [cutID_length, ← String.length_toList]
  exact (List.dropWhile_suffix _).length_le

theorem cutID_length_eq_iff {id : NodeID} :
    (cutID id).length = id.length ↔ ∀ char, id.toList.head? = some char → char ∉ cutset := by
  rw [cutID_length, ← String.length_toList]
  cases id.toList with
  | nil => simp
  | cons first rest =>
    by_cases cut : first ∈ cutset
    · have shorter := (rest.dropWhile_suffix fun char => cutset.contains char).length_le
      simp only [List.dropWhile_cons, List.contains_eq_mem, cut, decide_true, ↓reduceIte,
        List.length_cons, List.head?_cons, Option.some.injEq, forall_eq', not_true_eq_false,
        iff_false]
      simp only [List.contains_eq_mem] at shorter
      omega
    · simp [cut]

theorem cutID_of_length_eq {id : NodeID} (same : (cutID id).length = id.length) :
    cutID id = id := by
  apply String.toList_inj.mp
  rw [cutID, String.toList_ofList]
  refine (List.dropWhile_suffix _).eq_of_length ?_
  rw [cutID_length, ← String.length_toList] at same
  exact same

theorem trimmedKey_eq {id : NodeID} (plain : Plain id.toList) : trimmedKey id = cutID id := by
  rw [← trimLeft_nodesKey plain, nodesKey_eq plain, cutset_eq]
  rfl

/-- What the candidates of an election read is the text of the keys, trimmed. -/
theorem getAllLogsForElection_eq {etcd : Etcd} {order : List NodeID}
    (plain : ∀ id ∈ order, Plain id.toList) :
    getAllLogsForElection etcd order = getAllLogs (order.filterMap fun id =>
      (etcd.value (.nodesPath id)).map fun value => (nodesKey id, value)) := by
  rw [getAllLogs, List.foldl_filterMap, getAllLogsForElection]
  refine List.foldl_ext _ _ [] fun logs id member => ?_
  cases stored : etcd.value (.nodesPath id) with
  | none => rfl
  | some value =>
    have trimmed :=
      (trimmedKey_eq (plain id member)).trans (trimLeft_nodesKey (plain id member)).symm
    cases value with
    | electionLog log => simp [trimmed]
    | text | position => rfl

/-- The logs come back under the IDs that uploaded them, in whatever order the
answer is visited, exactly if no ID begins with a character of `election/nodes`. -/
theorem logs_returned_under_ids_iff {root clusterName : String} {kvs visited : KVs}
    {uploads : Logs}
    (fresh : ∀ kv ∈ kvs,
      (keyWithRootPath (rootPath root clusterName) nodesDirectory).isPrefixOf kv.1 = false)
    (plain : ∀ entry ∈ uploads, Plain entry.1.toList)
    (distinct : (uploads.map Prod.fst).Nodup)
    (order : visited.Perm (prefixGet (rootPath root clusterName)
      (uploadAll root clusterName kvs uploads) nodesDirectory)) :
    (∀ id log, (id, log) ∈ getAllLogs visited ↔ (id, log) ∈ uploads) ↔
      ∀ entry ∈ uploads, ∀ char, entry.1.toList.head? = some char →
        char ∉ "election/nodes".toList := by
  rw [prefixGet_uploadAll fresh plain distinct] at order
  have entries := decoded_perm plain order
  rw [getAllLogs_eq, ← cutset_eq]
  simp only [← cutID_length_eq_iff]
  constructor
  · intro same
    -- the IDs that come back are the cut ones, so cutting maps the IDs onto themselves
    have onto : (uploads.map Prod.fst).toFinset.image cutID = (uploads.map Prod.fst).toFinset := by
      ext id
      have keys := @mem_keys_foldl_assign _ _ _ _ Prod.fst Prod.snd (visited.filterMap decoded)
        [] id
      rw [(entries.map Prod.fst).mem_iff] at keys
      simpa [same] using keys.symm
    intro entry member
    exact size_eq_of_image_eq (fun id _ => cutID_length_le id) onto entry.1
      (List.mem_toFinset.mpr (List.mem_map_of_mem member))
  · intro uncut id log
    have kept : (uploads.map fun entry => (cutID entry.1, entry.2)) = uploads := by
      refine (List.map_congr_left fun entry member => ?_).trans uploads.map_id
      rw [cutID_of_length_eq (uncut entry member)]
      rfl
    rw [kept] at entries
    have distinctEntries := ((entries.map Prod.fst).nodup_iff).mpr distinct
    rw [foldl_assign_fresh distinctEntries (by simp)]
    simpa using entries.mem_iff

private def logs (first second : NodeID) : Logs :=
  [(first, ⟨3, "u", "u:1-5", 6, 2⟩), (second, ⟨3, "u", "u:1-7", 8, 2⟩)]

private def led : KVs := [(keyText "/mha" "c" .leaderPath, .text "h:1")]

private theorem heads_of_check {uploads : Logs}
    (check : uploads.all (fun entry => entry.1.toList.head?.all fun char =>
      !"election/nodes".toList.contains char) = true) :
    ∀ entry ∈ uploads, ∀ char, entry.1.toList.head? = some char →
      char ∉ "election/nodes".toList := by
  intro entry member char head
  have checked := List.all_eq_true.mp check entry member
  rw [head, Option.all_some, Bool.not_eq_true'] at checked
  intro inside
  rw [List.contains_iff_mem.mpr inside] at checked
  contradiction

/-- Two nodes upload beside the leader key, and the answer is visited backwards. -/
theorem logs_returned_under_ids_iff_of_two :
    (∀ entry ∈ logs "h:1" "k:2", Plain entry.1.toList) ∧
      ∀ id log, (id, log) ∈ getAllLogs (prefixGet (rootPath "/mha" "c")
          (uploadAll "/mha" "c" led (logs "h:1" "k:2")) nodesDirectory).reverse ↔
        (id, log) ∈ logs "h:1" "k:2" := by
  have plain : ∀ entry ∈ logs "h:1" "k:2", Plain entry.1.toList := by decide +kernel
  refine ⟨plain, ?_⟩
  exact (logs_returned_under_ids_iff (by decide +kernel) plain (by decide)
    (List.reverse_perm _)).mpr (heads_of_check (by decide +kernel))

/-- The logs of two nodes come back as one, under the ID of the second. -/
theorem logs_returned_under_one_id :
    getAllLogs (prefixGet (rootPath "/mha" "c") (uploadAll "/mha" "c" [] (logs "db:1" "b:1"))
      nodesDirectory) = [("b:1", ⟨3, "u", "u:1-7", 8, 2⟩)] := by
  decide +kernel

end Moha.ElectionKeys
