import Moha.HeapTree
import Moha.ClientKeys

/-! The directory tree that `pkg/etcd/etcd.go::List` makes of the keys below a prefix.
`parseToDirTree` walks from the root along the parts of a key between its slashes,
creates the nodes that are missing, and returns the last one, whose value `List` then
sets. A part may be empty, and a key may lie on the way to another. -/
namespace Moha.DirTree
open HeapTree PathText Registry ClientKeys

variable {V : Type}

/-- The root of a tree, which `List` allocates first. -/
def root : Address := 0

/-- A turn of the loop of `parseToDirTree`: the heap and `current`. -/
def enter (state : Heap Text V × Address) (dir : Text) : Heap Text V × Address :=
  let heap := makeChildren state.1 state.2
  match child heap state.2 dir with
  | some next => (heap, next)
  | none => (addChild heap state.2 dir, heap.length)

/-- `etcd.go::parseToDirTree`. -/
def parseToDirTree (heap : Heap Text V) (path : Text) : Heap Text V × Address :=
  (path.splitOn '/').foldl enter (heap, root)

/-- The last two lines of the loop of `List`. -/
def insert (heap : Heap Text V) (keySuffix : Text) (value : Option V) : Heap Text V :=
  let (heap, leafNode) := parseToDirTree heap keySuffix
  setValue heap leafNode value

/-- `etcd.go::List`. A value is a slice of bytes, which may be nil. -/
def list (rootPath : Text) (etcd : Contents (Option V)) (key : Text) : Heap Text V :=
  let key := closed (keyWithRootPath rootPath key)
  (etcd.range key).foldl (fun heap kv =>
    if kv.1.length ≤ key.length then heap
    else insert heap (kv.1.drop key.length) kv.2) [{}]

/-- Keys below a prefix, without it, inserted one after the other. -/
def build (entries : List (Text × Option V)) : Heap Text V :=
  entries.foldl (fun heap entry => insert heap entry.1 entry.2) [{}]

/-! ### The walk of an insertion -/

section Enter
variable {heap : Heap Text V} {path : List Text} {address : Address} {dir : Text}

theorem enter_of_child {next : Address} (found : child heap address dir = some next) :
    enter (heap, address) dir = (makeChildren heap address, next) := by
  simp [enter, found]

theorem enter_of_absent (absent : child heap address dir = none) :
    enter (heap, address) dir =
      (addChild (makeChildren heap address) address dir, heap.length) := by
  simp [enter, absent]

/-- A turn of the loop leaves a tree in which the path goes on by one part, and in
which nothing else has changed. -/
theorem enter_spec (tree : Tree heap root) (filled : Filled heap)
    (reached : walk heap root path = some address) :
    Tree (enter (heap, address) dir).1 root ∧ Filled (enter (heap, address) dir).1 ∧
      ∀ probe, walk (enter (heap, address) dir).1 root probe =
        if probe = path ++ [dir] then some (enter (heap, address) dir).2
        else walk heap root probe := by
  have made : childrenAt (makeChildren heap address) address ≠ none := by
    have allocated := List.getElem?_eq_getElem (tree.walk_lt reached)
    simp [childrenAt_makeChildren, allocated]
  cases found : child heap address dir with
  | some next =>
    rw [enter_of_child found]
    refine ⟨tree.congr (by simp) (by simp), filled.makeChildren found, fun probe => ?_⟩
    rw [walk_congr (child_makeChildren heap address)]
    split
    · rename_i same
      rw [same, walk_concat, reached, Option.bind_some, found]
    · rfl
  | none =>
    rw [enter_of_absent found]
    have grows := fun other second => child_addChild other dir second made
    simp only [child_makeChildren, length_makeChildren] at grows
    exact ⟨tree.grown (by simp) grows, filled.addChild address dir,
      tree.walk_grown reached found (Nat.le_refl _) grows⟩

theorem valueAt_enter (other : Address) :
    valueAt (enter (heap, address) dir).1 other = valueAt heap other := by
  cases found : child heap address dir with
  | some next => simp [enter_of_child found]
  | none => simp [enter_of_absent found]

/-- A node that is new holds no value. -/
theorem view_enter (tree : Tree heap root) (filled : Filled heap)
    (reached : walk heap root path = some address) (probe : List Text) :
    view (enter (heap, address) dir).1 root probe =
      if probe = path ++ [dir] then some ((view heap root probe).getD none)
      else view heap root probe := by
  obtain ⟨_, _, walks⟩ := @enter_spec V heap path address dir tree filled reached
  rw [view, walks probe, view]
  split
  · rename_i same
    subst same
    rw [walk_concat, reached, Option.bind_some, Option.map_some, valueAt_enter]
    cases found : child heap address dir with
    | some next => simp [enter_of_child found]
    | none => simp [enter_of_absent found, valueAt]
  · congr 1
    funext other
    exact valueAt_enter other

/-- Part of a path has been walked: the nodes on it are there. -/
structure Walked (heap : Heap Text V) (path : List Text) (state : Heap Text V × Address) :
    Prop where
  tree : Tree state.1 root
  filled : Filled state.1
  reached : walk state.1 root path = some state.2
  view : ∀ probe, view state.1 root probe =
    if probe <+: path then some ((view heap root probe).getD none) else view heap root probe

theorem walked_enter {state : Heap Text V × Address} (walked : Walked heap path state)
    (dir : Text) : Walked heap (path ++ [dir]) (enter state dir) := by
  obtain ⟨tree, filled, reached, shows⟩ := walked
  obtain ⟨grown, kept, walks⟩ := @enter_spec V state.1 path state.2 dir tree filled reached
  refine ⟨grown, kept, ?_, fun probe => ?_⟩
  · rw [walks, if_pos rfl]
  · rw [view_enter tree filled reached, shows]
    by_cases last : probe = path ++ [dir]
    · have beyond : ¬ probe <+: path := by
        intro inside
        have shorter := inside.length_le
        rw [last, List.length_append, List.length_singleton] at shorter
        omega
      rw [if_pos last, if_neg beyond, if_pos (List.prefix_concat_iff.mpr (.inl last))]
    · simp only [List.prefix_concat_iff, last, if_false, false_or]

theorem walked_foldl {state : Heap Text V × Address} (walked : Walked heap path state)
    (dirs : List Text) : Walked heap (path ++ dirs) (dirs.foldl enter state) := by
  induction dirs generalizing path state with
  | nil => simpa using walked
  | cons dir rest ih =>
    have next := ih (walked_enter walked dir)
    rwa [List.append_assoc] at next

end Enter

/-! ### What the tree shows -/

section Insert
variable {heap : Heap Text V}

theorem walked_parseToDirTree (tree : Tree heap root) (filled : Filled heap) (path : Text) :
    Walked heap (path.splitOn '/') (parseToDirTree heap path) := by
  have start : Walked heap [] (heap, root) := by
    refine ⟨tree, filled, rfl, fun probe => ?_⟩
    split
    · rename_i empty
      rw [List.prefix_nil.mp empty]
      rfl
    · rfl
  exact walked_foldl start _

/-- An insertion puts the value at the parts of the key. -/
theorem insert_spec (tree : Tree heap root) (filled : Filled heap) (keySuffix : Text)
    (value : Option V) :
    Tree (insert heap keySuffix value) root ∧ Filled (insert heap keySuffix value) ∧
      view (insert heap keySuffix value) root =
        put (keySuffix.splitOn '/') value (view heap root) := by
  obtain ⟨parsed, kept, reached, shows⟩ := walked_parseToDirTree tree filled keySuffix
  refine ⟨parsed.congr (by simp [insert, setValue]) (by simp [insert]), ?_, ?_⟩
  · intro other children made
    exact kept other children (by simpa [insert] using made)
  · funext probe
    rw [insert, parsed.view_setValue reached, put, shows]

end Insert

theorem view_new : view ([{}] : Heap Text V) root = bare := by
  funext probe
  cases probe with
  | nil => rfl
  | cons dir rest => simp [view, walk, child, childrenAt, bare, root]

theorem new_spec : Tree ([{}] : Heap Text V) root ∧ Filled ([{}] : Heap Text V) := by
  have childless : ∀ address, childrenAt ([{}] : Heap Text V) address = none := by
    intro address
    cases address <;> rfl
  refine ⟨⟨Nat.zero_lt_one, ?_, ?_, ?_⟩, ?_⟩ <;> simp [child, childless, Filled]

theorem build_spec (entries : List (Text × Option V)) :
    Tree (build entries) root ∧ Filled (build entries) ∧
      view (build entries) root =
        entries.foldl (fun shape entry => put (entry.1.splitOn '/') entry.2 shape) bare := by
  induction entries using List.reverseRecOn with
  | nil => exact ⟨new_spec.1, new_spec.2, view_new⟩
  | append_singleton before entry ih =>
    obtain ⟨tree, filled, shows⟩ := ih
    obtain ⟨inserted, kept, put⟩ := insert_spec tree filled entry.1 entry.2
    rw [build, List.foldl_append, List.foldl_append]
    exact ⟨inserted, kept, put.trans (congrArg _ shows)⟩

section Entries
variable {entries : List (Text × Option V)}

/-- An entry at the parts of its key. -/
def parted (entry : Text × Option V) : List Text × Option V := (entry.1.splitOn '/', entry.2)

theorem splitOn_injective {key other : Text} (same : key.splitOn '/' = other.splitOn '/') :
    key = other := by
  rw [← key.intercalate_splitOn '/', same, List.intercalate_splitOn]

theorem parted_distinct (distinct : (entries.map Prod.fst).Nodup) :
    ((entries.map parted).map Prod.fst).Nodup := by
  rw [List.map_map, List.nodup_map_iff_inj_on distinct.of_map]
  intro entry member other inside same
  exact List.inj_on_of_nodup_map distinct member inside (splitOn_injective same)

/-- The tree is the one of the map from the parts of the keys to the values. -/
theorem view_build (distinct : (entries.map Prod.fst).Nodup) :
    view (build entries) root = shapeOf (entries.map parted) := by
  rw [(build_spec entries).2.2, ← foldl_put (parted_distinct distinct), List.foldl_map]
  rfl

theorem view_build_perm {order : List (Text × Option V)} (distinct : (entries.map Prod.fst).Nodup)
    (reordered : order.Perm entries) :
    view (build order) root = shapeOf (entries.map parted) := by
  rw [view_build ((reordered.map Prod.fst).nodup_iff.mpr distinct)]
  exact shapeOf_perm (parted_distinct distinct) (reordered.map parted)

end Entries

/-- The keys below a prefix in an answer, without the prefix. -/
def below (start : Text) (answer : List (Text × Option V)) : List (Text × Option V) :=
  answer.filterMap fun kv =>
    if kv.1.length ≤ start.length then none else some (kv.1.drop start.length, kv.2)

theorem below_distinct (etcd : Contents (Option V)) (start : Text) :
    ((below start (etcd.range start)).map Prod.fst).Nodup := by
  have distinct : ((etcd.range start).map Prod.fst).Nodup :=
    etcd.distinct.sublist (List.filter_sublist.map _)
  refine List.pairwise_map.mpr (List.pairwise_filterMap.mpr ?_)
  refine (List.pairwise_map.mp distinct).imp_of_mem fun {kv other} member inside differ => ?_
  intro entry found another also same
  -- both keys are the prefix and what is left of them
  obtain ⟨rest, text⟩ := (mem_range_iff.mp member).1
  obtain ⟨tail, otherText⟩ := (mem_range_iff.mp inside).1
  cases (Option.ite_none_left_eq_some.mp found).2
  cases (Option.ite_none_left_eq_some.mp also).2
  dsimp only at same
  rw [← text, ← otherText, List.drop_left, List.drop_left] at same
  exact differ (text.symm.trans (same ▸ otherText))

/-- `List` inserts the keys below its prefix in the order of the answer. -/
theorem list_eq_build (rootPath : Text) (etcd : Contents (Option V)) (key : Text) :
    list rootPath etcd key =
      build (below (closed (keyWithRootPath rootPath key))
        (etcd.range (closed (keyWithRootPath rootPath key)))) := by
  rw [build, below, List.foldl_filterMap, list]
  congr 1
  funext heap kv
  split <;> rfl

/-- What `List` returns is the tree of the keys below its prefix. -/
theorem view_list (rootPath : Text) (etcd : Contents (Option V)) (key : Text) :
    view (list rootPath etcd key) root =
      shapeOf ((below (closed (keyWithRootPath rootPath key))
        (etcd.range (closed (keyWithRootPath rootPath key)))).map parted) := by
  rw [list_eq_build]
  exact view_build (below_distinct etcd _)

/-- Whatever the order in which distinct keys are inserted, the parts of each lead to a
node with its value, every node with a value is that of one key, and the trees look
the same. `List` inserts the keys below its prefix. -/
theorem list_builds_trie {entries order : List (Text × Option V)}
    (distinct : (entries.map Prod.fst).Nodup) (reordered : order.Perm entries) :
    (∀ entry ∈ entries, ∃ node, walk (build order) root (entry.1.splitOn '/') = some node ∧
      valueAt (build order) node = entry.2) ∧
    (∀ path node, walk (build order) root path = some node → valueAt (build order) node ≠ none →
      ∃! entry, entry ∈ entries ∧ walk (build order) root (entry.1.splitOn '/') = some node) ∧
    look (build order) root = look (build entries) root ∧
    ∀ rootPath (etcd : Contents (Option V)) key, list rootPath etcd key =
      build (below (closed (keyWithRootPath rootPath key))
        (etcd.range (closed (keyWithRootPath rootPath key)))) := by
  obtain ⟨tree, filled, _⟩ := build_spec order
  have shows := view_build_perm distinct reordered
  refine ⟨fun entry member => ?_, fun path node reached valued => ?_, ?_, list_eq_build⟩
  · have shown := shapeOf_of_mem (parted_distinct distinct) (List.mem_map_of_mem member)
    rw [← shows] at shown
    exact Option.map_eq_some_iff.mp shown
  · obtain ⟨value, held⟩ := Option.ne_none_iff_exists'.mp valued
    have shown : shapeOf (entries.map parted) path = some (some value) := by
      rw [← shows, view, reached, Option.map_some, held]
    obtain ⟨entry, member, same⟩ := List.mem_map.mp (mem_of_shapeOf shown)
    obtain ⟨rfl, _⟩ := Prod.mk.inj same
    refine ⟨entry, ⟨member, reached⟩, ?_⟩
    rintro other ⟨inside, also⟩
    have parts := tree.path_unique also reached
    exact List.inj_on_of_nodup_map distinct inside member (splitOn_injective parts)
  · exact look_eq_of_view filled (build_spec entries).2.1 (shows.trans (view_build distinct).symm)

private def samples : List (Text × Option Nat) :=
  [("a/b".toList, some 1), ("a".toList, some 2), ([], some 3), ("a//b".toList, some 4),
    ("/".toList, none)]

/-- Keys on the way to others, empty parts and an empty key, inserted backwards. -/
theorem list_builds_trie_of_samples :
    (samples.map Prod.fst).Nodup ∧
      (∃ node, walk (build samples.reverse) root ["a".toList, [], "b".toList] = some node ∧
        valueAt (build samples.reverse) node = some 4) ∧
      look (build samples.reverse) root = look (build samples) root := by
  have distinct : (samples.map Prod.fst).Nodup := by decide +kernel
  obtain ⟨holds, _, same, _⟩ := list_builds_trie distinct (List.reverse_perm samples)
  have split : ("a//b".toList).splitOn '/' = ["a".toList, [], "b".toList] := by decide +kernel
  have found := holds ("a//b".toList, some 4) (by decide +kernel)
  rw [split] at found
  exact ⟨distinct, found, same⟩

end Moha.DirTree
