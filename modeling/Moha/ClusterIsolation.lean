import Moha.DirTree
import Moha.Isolation

/-! Several clusters on one etcd. Every client of `pkg/etcd/etcd.go` works below the
root path of its cluster, but with texts: a range is a prefix of a key, and a root
path that begins another would reach into it. When no root path, with its slash,
begins another, the clients of different clusters do not see each other, whatever
they call and in whatever order. -/
namespace Moha.ClusterIsolation
open EntryMap PathText Registry ClientKeys HeapTree Isolation

variable {V : Type}

/-- A call of the client's methods. -/
inductive Call (V : Type) where
  | put (key : Text) (value : Option V)
  | get (key : Text)
  | prefixGet (start : Text)
  | multiGet (keys : List Text)
  | delete (key : Text) (withPrefixMatch : Bool)
  | list (key : Text)

inductive Answer (V : Type) where
  | done
  | value (value : Option V)
  /-- The error carries the key with its root path. -/
  | notFound (key : Text)
  | values (values : List (Text × Option V))
  | tree (heap : Heap Text V)

def Contents.put (etcd : Contents V) (key : Text) (value : V) : Contents V where
  kvs := assign etcd.kvs key value
  distinct := by
    unfold assign
    rw [List.map_cons, List.nodup_cons]
    refine ⟨?_, etcd.distinct.sublist (List.filter_sublist.map _)⟩
    simp

def Contents.deleteWhere (etcd : Contents V) (matched : Text → Bool) : Contents V where
  kvs := etcd.kvs.filter fun kv => !matched kv.1
  distinct := etcd.distinct.sublist (List.filter_sublist.map _)

/-- What etcd holds below a root path. -/
def below (rootPath : Text) (etcd : Contents V) : List (Text × V) :=
  etcd.kvs.filter fun kv => (under rootPath).isPrefixOf kv.1

/-! ### What a client reads -/

section Reads
variable {root key start : Text} {etcd other : Contents V}

end Reads

/-! ### What a client writes -/

section Writes
variable {root key : Text} {value : V} {etcd other : Contents V} {matched : Text → Bool}

end Writes

/-! ### Isolation -/

/-- No root path begins another, each with its slash. -/
def Apart {Client : Type} (roots : Client → Text) : Prop :=
  ∀ client other, client ≠ other → ¬ under (roots client) <+: under (roots other)

/-- A key below one of two such root paths is not below the other. -/
theorem Apart.outside {Client : Type} {roots : Client → Text} (apart : Apart roots)
    {client other : Client} (ne : other ≠ client) {key : Text}
    (inside : under (roots other) <+: key) : ¬ under (roots client) <+: key := by
  intro also
  rcases List.prefix_or_prefix_of_prefix inside also with first | second
  · exact apart other client ne first
  · exact apart client other ne.symm second

/-- The root path of a cluster with a plain name ends with the name. -/
theorem rootPath_eq_render (root name : String) (plain : Plain name.toList) :
    rootPath root name =
      render (isRooted root.toList) (name.toList :: elements root.toList) := by
  unfold rootPath
  by_cases filled : root.toList = []
  · rw [filled]
    have joined : join [[], name.toList] = clean (['/'].intercalate [name.toList]) := by
      simp [join, plain.nonempty]
    rw [joined, clean_plain (by simp [plain]) (by simp)]
    simp [render, isRooted, elements, push]
  · have joined : join [root.toList, name.toList] =
        clean (root.toList ++ '/' :: ['/'].intercalate [name.toList]) := by
      simp [join, filled]
    rw [joined, clean_append filled (by simp [plain]) (by simp)]
    rfl

theorem under_rootPath (root : String) : ∃ start : Text, ∀ name : String,
    Plain name.toList → under (rootPath root name) = start ++ (name.toList ++ ['/']) := by
  have normal := normal_elements root.toList
  refine ⟨(if isRooted root.toList then ['/'] else []) ++
    if elements root.toList = [] then []
    else ['/'].intercalate (elements root.toList).reverse ++ ['/'], fun name plain => ?_⟩
  have named : Normal (isRooted root.toList) (name.toList :: elements root.toList) := by
    have pushed := normal_push normal plain.noSlash
    rwa [push_plain plain] at pushed
  rw [rootPath_eq_render root name plain, under_render named (by simp)]
  by_cases bare : elements root.toList = []
  · cases isRooted root.toList <;> simp [render, bare]
  · have body : ['/'].intercalate ((elements root.toList).reverse ++ [name.toList]) =
        ['/'].intercalate (elements root.toList).reverse ++
          '/' :: ['/'].intercalate [name.toList] :=
      intercalate_append (by simpa using bare) (by simp)
    cases isRooted root.toList <;> simp [render, bare, body]

/-- Two clusters whose names begin alike. -/
private def names (longer : Bool) : String := if longer then "ab" else "a"

end Moha.ClusterIsolation
