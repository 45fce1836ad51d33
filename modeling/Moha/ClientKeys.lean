import Moha.ElectionKeys

/-! The keys of the etcd client, `pkg/etcd/etcd.go`, for values of any type. A key is
joined to the root path with `path.Join`, which cleans both. `PrefixGet` and
`MultiGet` make the keys of an answer relative again by trimming the text of the root
path and a slash. The two are inverse for every root and cluster name, even where
cleaning leaves nothing of them to stand before a key. -/
namespace Moha.ClientKeys
open EntryMap PathText Registry

/-- What etcd holds, in the order in which it answers. -/
structure Contents (V : Type) where
  kvs : List (Text × V)
  distinct : (kvs.map Prod.fst).Nodup

variable {V : Type}

def Contents.get (etcd : Contents V) (key : Text) : Option V := etcd.kvs.lookup key

/-- The answer to a `Get` of one key. -/
def Contents.find (etcd : Contents V) (key : Text) : Option (Text × V) :=
  (etcd.get key).map fun value => (key, value)

/-- The answer to a `Get` with a prefix. -/
def Contents.range (etcd : Contents V) (start : Text) : List (Text × V) :=
  etcd.kvs.filter fun kv => start.isPrefixOf kv.1

/-- The loops over the answers: a map from the keys without the root path. -/
def collect (rootPath : Text) (answer : List (Text × V)) : List (Text × V) :=
  answer.foldl (fun r kv => assign r (trim (closed rootPath) kv.1) kv.2) []

/-- `etcd.go::PrefixGet`. -/
def prefixGet (rootPath : Text) (etcd : Contents V) (start : Text) : List (Text × V) :=
  collect rootPath (etcd.range (keyWithRootPath rootPath start))

/-- `etcd.go::MultiGet`; answers without a key are passed over. -/
def multiGet (rootPath : Text) (etcd : Contents V) (keys : List Text) : List (Text × V) :=
  collect rootPath (keys.filterMap fun key => etcd.find (keyWithRootPath rootPath key))

/-! ### Answers -/

section Answers
variable {root key : Text} {value : V} {answer : List (Text × V)} {etcd : Contents V}

/-- An answer from below the root is collected under the keys behind it. -/
theorem lookup_collect (distinct : (answer.map Prod.fst).Nodup)
    (below : ∀ kv ∈ answer, ∃ relative, kv.1 = under root ++ relative ∧
      ¬ ['/'] <+: relative ∧ ¬ ['.', '/'] <+: relative) :
    (collect root answer).lookup key = some value ↔ (under root ++ key, value) ∈ answer := by
  have restored : ∀ kv ∈ answer, kv.1 = under root ++ trim (closed root) kv.1 := by
    intro kv member
    obtain ⟨relative, text, notRooted, notDot⟩ := below kv member
    rw [text, trim_under notRooted notDot]
  have relatives : (answer.map fun kv => trim (closed root) kv.1).Nodup := by
    refine (List.nodup_map_iff_inj_on distinct.of_map).mpr fun kv member other inside same => ?_
    have keys : kv.1 = other.1 := by rw [restored kv member, restored other inside, same]
    exact List.inj_on_of_nodup_map distinct member inside keys
  rw [collect, lookup_foldl_assign relatives]
  constructor
  · rintro ⟨kv, member, rfl, rfl⟩
    rw [← restored kv member]
    exact member
  · intro member
    refine ⟨_, member, ?_, rfl⟩
    exact (List.append_cancel_left (restored _ member)).symm

theorem get_eq_some_iff : etcd.get key = some value ↔ (key, value) ∈ etcd.kvs :=
  lookup_iff_mem etcd.distinct

theorem mem_range_iff {start : Text} :
    (key, value) ∈ etcd.range start ↔ start <+: key ∧ etcd.get key = some value := by
  rw [Contents.range, List.mem_filter, List.isPrefixOf_iff_prefix, get_eq_some_iff, and_comm]

theorem find_eq_some_iff {kv : Text × V} :
    etcd.find key = some kv ↔ kv.1 = key ∧ etcd.get key = some kv.2 := by
  rw [Contents.find, Option.map_eq_some_iff]
  constructor
  · rintro ⟨value, found, rfl⟩
    exact ⟨rfl, found⟩
  · rintro ⟨rfl, found⟩
    exact ⟨kv.2, found, rfl⟩

/-- `PrefixGet` returns what is stored below the root and begins with the prefix. -/
theorem lookup_prefixGet {start : Text} (cleaned : Cleaned root) (plain : PlainPath start) :
    (prefixGet root etcd start).lookup key = some value ↔
      start <+: key ∧ etcd.get (under root ++ key) = some value := by
  have absolute : keyWithRootPath root start = under root ++ start := plain.join_under cleaned
  have distinct : ((etcd.range (keyWithRootPath root start)).map Prod.fst).Nodup :=
    etcd.distinct.sublist (List.filter_sublist.map _)
  rw [prefixGet, lookup_collect distinct, mem_range_iff, absolute, List.prefix_append_right_inj]
  intro kv member
  obtain ⟨rest, text⟩ := (mem_range_iff.mp member).1
  rw [absolute, List.append_assoc] at text
  exact ⟨start ++ rest, text.symm, plain.start (List.prefix_append start rest)⟩

/-- `MultiGet` returns the requested keys that are stored. -/
theorem lookup_multiGet {keys : List Text} (cleaned : Cleaned root)
    (plain : ∀ key ∈ keys, PlainPath key) (different : keys.Nodup) :
    (multiGet root etcd keys).lookup key = some value ↔
      key ∈ keys ∧ etcd.get (keyWithRootPath root key) = some value := by
  have absolute : ∀ key ∈ keys, keyWithRootPath root key = under root ++ key :=
    fun key member => (plain key member).join_under cleaned
  have answered : ∀ kv, kv ∈ (keys.filterMap fun key => etcd.find (keyWithRootPath root key)) ↔
      ∃ key ∈ keys, kv.1 = under root ++ key ∧ etcd.get (keyWithRootPath root key) = some kv.2 := by
    intro kv
    rw [List.mem_filterMap]
    refine exists_congr fun key => and_congr_right fun member => ?_
    rw [find_eq_some_iff, absolute key member]
  have distinct :
      ((keys.filterMap fun key => etcd.find (keyWithRootPath root key)).map Prod.fst).Nodup := by
    refine (List.pairwise_map.mpr (List.pairwise_filterMap.mpr ?_))
    refine different.imp_of_mem fun {first second} member inside differ => ?_
    intro kv found other also same
    have texts := (find_eq_some_iff.mp found).1.symm.trans
      (same.trans (find_eq_some_iff.mp also).1)
    rw [absolute first member, absolute second inside] at texts
    exact differ (List.append_cancel_left texts)
  rw [multiGet, lookup_collect distinct, answered]
  · constructor
    · rintro ⟨asked, member, text, found⟩
      cases List.append_cancel_left text
      exact ⟨member, found⟩
    · rintro ⟨member, found⟩
      exact ⟨key, member, rfl, found⟩
  · intro kv member
    obtain ⟨asked, inside, text, _⟩ := (answered kv).mp member
    exact ⟨asked, text, (plain asked inside).start List.prefix_rfl⟩

end Answers

/-- For every root and cluster name: plain relative keys have different keys in etcd,
`MultiGet` returns the values of the requested ones that are stored, and `PrefixGet`
those of the keys behind the root that begin with the prefix, all under the relative
keys. -/
theorem relative_keys_round_trip (root clusterName : String) (etcd : Contents V) :
    (∀ key, PlainPath key → keyWithRootPath (rootPath root clusterName) key =
      under (rootPath root clusterName) ++ key) ∧
    Set.InjOn (keyWithRootPath (rootPath root clusterName)) {key | PlainPath key} ∧
    (∀ keys : List Text, keys.Nodup → (∀ key ∈ keys, PlainPath key) → ∀ key value,
      (multiGet (rootPath root clusterName) etcd keys).lookup key = some value ↔
        key ∈ keys ∧ etcd.get (keyWithRootPath (rootPath root clusterName) key) = some value) ∧
    ∀ start, PlainPath start → ∀ key value,
      (prefixGet (rootPath root clusterName) etcd start).lookup key = some value ↔
        start <+: key ∧ etcd.get (under (rootPath root clusterName) ++ key) = some value := by
  have cleaned : Cleaned (rootPath root clusterName) := cleaned_join _
  refine ⟨fun key plain => plain.join_under cleaned, ?_, ?_, ?_⟩
  · intro key plain other plainOther same
    rw [keyWithRootPath, keyWithRootPath, PlainPath.join_under plain cleaned,
      PlainPath.join_under plainOther cleaned] at same
    exact List.append_cancel_left same
  · intro keys different plain key value
    exact lookup_multiGet cleaned plain different
  · intro start plain key value
    exact lookup_prefixGet cleaned plain

private def samples : Contents Nat where
  kvs := [("a".toList, 1), ("a/b".toList, 2), ("a/b.c/d".toList, 3), ("ab".toList, 4)]
  distinct := by decide +kernel

/-- A root that is cleaned away, and one that the keys repeat. -/
theorem relative_keys_round_trip_of_samples :
    (multiGet (rootPath "./" "") samples ["ab".toList, "c".toList]).lookup "ab".toList = some 4 ∧
    (prefixGet (rootPath "x/.." ".") samples "a/b".toList).lookup "a/b.c/d".toList = some 3 ∧
    (prefixGet (rootPath "" "a//") samples "b".toList).lookup "b.c/d".toList = some 3 := by
  obtain ⟨_, _, multi, _⟩ := relative_keys_round_trip "./" "" samples
  obtain ⟨_, _, _, dotted⟩ := relative_keys_round_trip "x/.." "." samples
  obtain ⟨_, _, _, named⟩ := relative_keys_round_trip "" "a//" samples
  refine ⟨?_, ?_, ?_⟩
  · exact (multi ["ab".toList, "c".toList] (by decide) (by decide +kernel) _ _).mpr
      ⟨by decide +kernel, by decide +kernel⟩
  · exact (dotted "a/b".toList (by decide +kernel) _ _).mpr ⟨by decide +kernel, by decide +kernel⟩
  · exact (named "b".toList (by decide +kernel) _ _).mpr ⟨by decide +kernel, by decide +kernel⟩

/-! ### The reads of the agent -/

/-- The election logs are read with this `PrefixGet`. -/
theorem prefixGet_election {root start : Text} {kvs : ElectionKeys.KVs}
    (distinct : (kvs.map Prod.fst).Nodup) :
    ElectionKeys.prefixGet root kvs start = prefixGet root ⟨kvs, distinct⟩ start := rfl

private theorem lookup_foldl_registry {root : Text} {etcd : Registers} {contents : Contents Record}
    (shows : ∀ key, contents.get key = etcd.value key) {keys : List Text}
    {held other : List (Text × Record)} (same : ∀ key, held.lookup key = other.lookup key)
    (key : Text) :
    (keys.foldl (fun values key =>
      match etcd.entries (keyWithRootPath root key) with
      | none => values
      | some entry => (trim (closed root) (keyWithRootPath root key), entry.value) :: values)
      held).lookup key =
    ((keys.filterMap fun key => contents.find (keyWithRootPath root key)).foldl
      (fun r kv => assign r (trim (closed root) kv.1) kv.2) other).lookup key := by
  induction keys generalizing held other with
  | nil => exact same key
  | cons first rest ih =>
    have shown := shows (keyWithRootPath root first)
    cases stored : etcd.entries (keyWithRootPath root first) with
    | none =>
      have absent : contents.find (keyWithRootPath root first) = none := by
        simp [Contents.find, shown, KeyValueStore.Store.value, stored]
      simp only [List.filterMap_cons, absent, List.foldl_cons, stored]
      exact ih same
    | some entry =>
      have found : contents.find (keyWithRootPath root first) =
          some (keyWithRootPath root first, entry.value) := by
        simp [Contents.find, shown, KeyValueStore.Store.value, stored]
      simp only [List.filterMap_cons, found, List.foldl_cons, stored]
      refine ih fun asked => ?_
      rw [lookup_assign, List.lookup_cons, ← same asked]
      by_cases equal : asked = trim (closed root) (keyWithRootPath root first)
      · simp [equal]
      · rw [beq_false_of_ne equal, if_neg equal]

/-- The registry reads its records with this `MultiGet`. -/
theorem lookup_multiGet_registry {root : Text} {etcd : Registers} {contents : Contents Record}
    (shows : ∀ key, contents.get key = etcd.value key) (keys : List Text) (key : Text) :
    (Registry.multiGet root etcd keys).lookup key = (multiGet root contents keys).lookup key :=
  lookup_foldl_registry shows (fun _ => rfl) key

end Moha.ClientKeys
