import Moha.EntryMap
import Mathlib.Data.List.Induction

/-! Trees of nodes in memory, over arbitrary labels and values. A node has a value and
a map from labels to the addresses of its children, and each of them may be nil. Nodes
are allocated one after the other and changed in place. Where every node has at most
one parent and the root has none, only one path leads to a node, so that a change of
one node shows at one path. -/
namespace Moha.HeapTree
open EntryMap

abbrev Address := Nat

structure Node (L V : Type) where
  value : Option V := none
  children : Option (List (L × Address)) := none
  deriving DecidableEq, Repr

/-- The node at an address is the one at that place of the list. -/
abbrev Heap (L V : Type) := List (Node L V)

section Heap
variable {L V : Type}

def childrenAt (heap : Heap L V) (address : Address) : Option (List (L × Address)) :=
  heap[address]?.bind Node.children

def valueAt (heap : Heap L V) (address : Address) : Option V := heap[address]?.bind Node.value

def setValue (heap : Heap L V) (address : Address) (value : Option V) : Heap L V :=
  heap.modify address fun node => { node with value }

/-- A map for the children of a node, where it is nil. -/
def makeChildren (heap : Heap L V) (address : Address) : Heap L V :=
  heap.modify address fun node => { node with children := some (node.children.getD []) }

section Operations
variable (heap : Heap L V) (address other : Address)

@[simp] theorem valueAt_makeChildren :
    valueAt (makeChildren heap address) other = valueAt heap other := by
  rw [valueAt, makeChildren, List.getElem?_modify, valueAt]
  cases heap[other]? with
  | none => rfl
  | some node => by_cases same : address = other <;> simp [same]

theorem childrenAt_makeChildren :
    childrenAt (makeChildren heap address) other =
      if address = other then heap[other]?.map fun node => node.children.getD []
      else childrenAt heap other := by
  rw [childrenAt, makeChildren, List.getElem?_modify, childrenAt]
  cases heap[other]? with
  | none => simp
  | some node => by_cases same : address = other <;> simp [same]

@[simp] theorem length_makeChildren : (makeChildren heap address).length = heap.length := by
  simp [makeChildren]

@[simp] theorem valueAt_setValue (value : Option V) :
    valueAt (setValue heap address value) other =
      if address = other then heap[other]?.bind fun _ => value else valueAt heap other := by
  rw [valueAt, setValue, List.getElem?_modify, valueAt]
  cases heap[other]? with
  | none => simp
  | some node => by_cases same : address = other <;> simp [same]

@[simp] theorem childrenAt_setValue (value : Option V) :
    childrenAt (setValue heap address value) other = childrenAt heap other := by
  rw [childrenAt, setValue, List.getElem?_modify, childrenAt]
  cases heap[other]? with
  | none => rfl
  | some node => by_cases same : address = other <;> simp [same]

/-- A new node shows only what it has. -/
theorem bind_append_new {β : Type} (read : Node L V → Option β) (nothing : read {} = none) :
    (heap ++ [({} : Node L V)])[other]?.bind read = heap[other]?.bind read := by
  rcases Nat.lt_trichotomy other heap.length with before | rfl | after
  · rw [List.getElem?_append_left before]
  · simp [nothing]
  · rw [List.getElem?_eq_none (by simp; omega), List.getElem?_eq_none (by omega)]

end Operations

variable [DecidableEq L]

def child (heap : Heap L V) (address : Address) (label : L) : Option Address :=
  (childrenAt heap address).bind fun children => children.lookup label

/-- A new node under a label of a node whose map is not nil. -/
def addChild (heap : Heap L V) (address : Address) (label : L) : Heap L V :=
  (heap ++ [({} : Node L V)]).modify address fun node =>
    { node with children := node.children.map fun children => assign children label heap.length }

/-- The node that a path leads to. -/
def walk (heap : Heap L V) (address : Address) : List L → Option Address
  | [] => some address
  | label :: rest => (child heap address label).bind fun next => walk heap next rest

theorem walk_append (heap : Heap L V) (address : Address) (path rest : List L) :
    walk heap address (path ++ rest) =
      (walk heap address path).bind fun next => walk heap next rest := by
  induction path generalizing address with
  | nil => rfl
  | cons label path ih => simp only [List.cons_append, walk, ih, Option.bind_assoc]

theorem walk_concat (heap : Heap L V) (address : Address) (path : List L) (label : L) :
    walk heap address (path ++ [label]) =
      (walk heap address path).bind fun next => child heap next label := by
  simp [walk_append, walk]

/-! ### What the operations change -/

section Operations
variable (heap : Heap L V) (address other : Address) (label second : L)

@[simp] theorem child_makeChildren :
    child (makeChildren heap address) other second = child heap other second := by
  rw [child, childrenAt_makeChildren, child, childrenAt]
  split
  · cases heap[other]? with
    | none => rfl
    | some node => cases held : node.children <;> simp [held]
  · rfl

@[simp] theorem length_addChild : (addChild heap address label).length = heap.length + 1 := by
  simp [addChild]

@[simp] theorem valueAt_addChild :
    valueAt (addChild heap address label) other = valueAt heap other := by
  rw [valueAt, addChild, List.getElem?_modify, valueAt,
    ← bind_append_new heap other Node.value rfl]
  cases (heap ++ [({} : Node L V)])[other]? with
  | none => rfl
  | some node => by_cases same : address = other <;> simp [same]

@[simp] theorem child_setValue (value : Option V) :
    child (setValue heap address value) other second = child heap other second := by
  simp [child]

theorem childrenAt_addChild :
    childrenAt (addChild heap address label) other =
      if address = other then (childrenAt heap other).map fun held => assign held label heap.length
      else childrenAt heap other := by
  rw [childrenAt, addChild, List.getElem?_modify, childrenAt,
    ← bind_append_new heap other Node.children rfl]
  cases (heap ++ [({} : Node L V)])[other]? with
  | none => simp
  | some node => by_cases same : address = other <;> simp [same]

theorem child_addChild {heap : Heap L V} {address : Address}
    (made : childrenAt heap address ≠ none) :
    child (addChild heap address label) other second =
      if other = address ∧ second = label then some heap.length else child heap other second := by
  rw [child, childrenAt_addChild, child]
  by_cases same : address = other
  · subst same
    obtain ⟨held, found⟩ := Option.ne_none_iff_exists'.mp made
    rw [if_pos rfl, found, Option.map_some, Option.bind_some, lookup_assign, Option.bind_some]
    simp only [true_and]
  · rw [if_neg same, if_neg (fun both => same both.1.symm)]

end Operations

/-- The root is no child, and every other node is a child once. -/
structure Tree (heap : Heap L V) (root : Address) : Prop where
  rooted : root < heap.length
  allocated : ∀ {address label next}, child heap address label = some next → next < heap.length
  free : ∀ {address label}, child heap address label ≠ some root
  parent : ∀ {address other label second next}, child heap address label = some next →
    child heap other second = some next → address = other ∧ label = second

/-- The paths of a heap depend on its children alone. -/
theorem walk_congr {heap other : Heap L V}
    (same : ∀ address label, child other address label = child heap address label)
    (address : Address) (path : List L) : walk other address path = walk heap address path := by
  induction path generalizing address with
  | nil => rfl
  | cons label rest ih => simp only [walk, same, ih]

theorem Tree.congr {heap other : Heap L V} {root : Address} (tree : Tree heap root)
    (length : other.length = heap.length)
    (same : ∀ address label, child other address label = child heap address label) :
    Tree other root := by
  constructor
  · exact length ▸ tree.rooted
  · intro address label next found
    exact length ▸ tree.allocated (same address label ▸ found)
  · intro address label
    exact same address label ▸ tree.free
  · intro address another label second next found also
    exact tree.parent (same address label ▸ found) (same another second ▸ also)

/-- No map of children is empty. -/
def Filled (heap : Heap L V) : Prop :=
  ∀ address children, childrenAt heap address = some children → children ≠ []

theorem Filled.makeChildren {heap : Heap L V} {address next : Address} {label : L}
    (filled : Filled heap) (found : child heap address label = some next) :
    Filled (makeChildren heap address) := by
  intro other children made
  rw [childrenAt_makeChildren] at made
  split at made
  · rename_i same
    subst same
    obtain ⟨node, stored, rfl⟩ := Option.map_eq_some_iff.mp made
    obtain ⟨held, map, listed⟩ := Option.bind_eq_some_iff.mp found
    have own : node.children = some held := by simpa [childrenAt, stored] using map
    rw [own]
    exact filled address held map
  · exact filled other children made

theorem Filled.addChild {heap : Heap L V} (filled : Filled heap) (address : Address) (label : L) :
    Filled (addChild (HeapTree.makeChildren heap address) address label) := by
  intro other children made
  rw [childrenAt_addChild] at made
  split at made
  · obtain ⟨held, _, rfl⟩ := Option.map_eq_some_iff.mp made
    exact List.cons_ne_nil _ _
  · rename_i apart
    rw [childrenAt_makeChildren, if_neg apart] at made
    exact filled other children made

section Paths
variable {heap : Heap L V} {root : Address}

/-- Only one path leads to a node. -/
theorem Tree.path_unique (tree : Tree heap root) {path other : List L} {address : Address}
    (reached : walk heap root path = some address) (also : walk heap root other = some address) :
    path = other := by
  induction path using List.reverseRecOn generalizing other address with
  | nil =>
    cases reached
    rcases List.eq_nil_or_concat' other with rfl | ⟨before, label, rfl⟩
    · rfl
    · rw [walk_concat] at also
      obtain ⟨next, _, found⟩ := Option.bind_eq_some_iff.mp also
      exact absurd found tree.free
  | append_singleton path label ih =>
    rw [walk_concat] at reached
    obtain ⟨above, first, found⟩ := Option.bind_eq_some_iff.mp reached
    rcases List.eq_nil_or_concat' other with rfl | ⟨before, second, rfl⟩
    · cases also
      exact absurd found tree.free
    · rw [walk_concat] at also
      obtain ⟨upper, led, held⟩ := Option.bind_eq_some_iff.mp also
      obtain ⟨rfl, rfl⟩ := tree.parent found held
      rw [ih first led]

theorem Tree.walk_lt (tree : Tree heap root) {path : List L} {address : Address}
    (reached : walk heap root path = some address) : address < heap.length := by
  rcases List.eq_nil_or_concat' path with rfl | ⟨before, label, rfl⟩
  · cases reached
    exact tree.rooted
  · rw [walk_concat] at reached
    obtain ⟨next, _, found⟩ := Option.bind_eq_some_iff.mp reached
    exact tree.allocated found

/-- A node that is new under a label shows at its path and nowhere else. -/
theorem Tree.walk_grown (tree : Tree heap root) {grown : Heap L V} {path : List L} {label : L}
    {address next : Address} (reached : walk heap root path = some address)
    (absent : child heap address label = none) (new : heap.length ≤ next)
    (grows : ∀ other second, child grown other second =
      if other = address ∧ second = label then some next else child heap other second)
    (probe : List L) :
    walk grown root probe =
      if probe = path ++ [label] then some next else walk heap root probe := by
  have childless : ∀ second, child heap next second = none := by
    intro second
    simp [child, childrenAt, List.getElem?_eq_none new]
  induction probe using List.reverseRecOn with
  | nil => simp [walk]
  | append_singleton probe second ih =>
    have split : probe ++ [second] = path ++ [label] ↔ probe = path ∧ second = label := by simp
    rw [walk_concat, walk_concat, ih]
    by_cases beyond : probe = path ++ [label]
    · have apart : address ≠ next := Nat.ne_of_lt (Nat.lt_of_lt_of_le (tree.walk_lt reached) new)
      have longer : ¬ (probe = path ∧ second = label) := fun same => by simp [same.1] at beyond
      rw [if_pos beyond, Option.bind_some, grows, if_neg (fun same => apart same.1.symm),
        childless, if_neg (split.not.mpr longer), beyond, walk_concat, reached,
        Option.bind_some, absent, Option.bind_none]
    · rw [if_neg beyond]
      cases found : walk heap root probe with
      | none =>
        have elsewhere : ¬ (probe = path ∧ second = label) := by
          rintro ⟨rfl, rfl⟩
          cases found.symm.trans reached
        rw [if_neg (split.not.mpr elsewhere), Option.bind_none, Option.bind_none]
      | some other =>
        rw [Option.bind_some, Option.bind_some, grows]
        have here : other = address ↔ probe = path := by
          constructor
          · rintro rfl
            exact tree.path_unique found reached
          · rintro rfl
            exact Option.some.inj (found.symm.trans reached)
        simp only [split, here]

/-- A tree stays one when a new node is put under a label. -/
theorem Tree.grown (tree : Tree heap root) {grown : Heap L V} {label : L} {address : Address}
    (larger : grown.length = heap.length + 1)
    (grows : ∀ other second, child grown other second =
      if other = address ∧ second = label then some heap.length else child heap other second) :
    Tree grown root := by
  -- a child is the new node under the label, or one of before, at another address
  have cases : ∀ {other second next}, child grown other second = some next →
      (other = address ∧ second = label ∧ next = heap.length) ∨
        (child heap other second = some next ∧ next < heap.length) := by
    intro other second next found
    rw [grows] at found
    split at found
    · rename_i here
      exact .inl ⟨here.1, here.2, (Option.some.inj found).symm⟩
    · exact .inr ⟨found, tree.allocated found⟩
  constructor
  · exact larger ▸ Nat.lt_succ_of_lt tree.rooted
  · intro other second next found
    rw [larger]
    rcases cases found with ⟨_, _, rfl⟩ | ⟨_, allocated⟩
    · exact Nat.lt_succ_self _
    · exact Nat.lt_succ_of_lt allocated
  · intro other second found
    rcases cases found with ⟨_, _, same⟩ | ⟨held, _⟩
    · exact absurd same (Nat.ne_of_lt tree.rooted)
    · exact tree.free held
  · intro other another second third next found also
    rcases cases found with ⟨rfl, rfl, rfl⟩ | ⟨held, allocated⟩
    · rcases cases also with ⟨rfl, rfl, _⟩ | ⟨_, impossible⟩
      · exact ⟨rfl, rfl⟩
      · exact absurd impossible (Nat.lt_irrefl _)
    · rcases cases also with ⟨_, _, rfl⟩ | ⟨kept, _⟩
      · exact absurd allocated (Nat.lt_irrefl _)
      · exact tree.parent held kept

/-- What a path shows: no node, or a node with its value. -/
def view (heap : Heap L V) (root : Address) (path : List L) : Option (Option V) :=
  (walk heap root path).map (valueAt heap)

/-- A value that is set shows at the path of its node and nowhere else. -/
theorem Tree.view_setValue (tree : Tree heap root) {path : List L} {address : Address}
    (reached : walk heap root path = some address) (value : Option V) (probe : List L) :
    view (setValue heap address value) root probe =
      if probe = path then some value else view heap root probe := by
  rw [view, walk_congr fun other label => child_setValue heap address other label value, view]
  split
  · rename_i same
    have allocated := List.getElem?_eq_getElem (tree.walk_lt reached)
    rw [same, reached, Option.map_some, valueAt_setValue, if_pos rfl, allocated, Option.bind_some]
  · rename_i differs
    cases found : walk heap root probe with
    | none => rfl
    | some other =>
      have apart : address ≠ other := by
        rintro rfl
        exact differs (tree.path_unique found reached)
      rw [Option.map_some, Option.map_some, valueAt_setValue, if_neg apart]

/-- All that a path shows apart from addresses: the value of its node, and whether the
map of its children is there. -/
def look (heap : Heap L V) (root : Address) (path : List L) : Option (Option V × Bool) :=
  (walk heap root path).map fun address => (valueAt heap address, (childrenAt heap address).isSome)

theorem Filled.isSome_iff (filled : Filled heap) {address : Address} :
    (childrenAt heap address).isSome = true ↔
      ∃ label, (child heap address label).isSome = true := by
  constructor
  · intro made
    obtain ⟨children, held⟩ := Option.isSome_iff_exists.mp made
    obtain ⟨⟨label, next⟩, rest, rfl⟩ := List.exists_cons_of_ne_nil (filled address _ held)
    exact ⟨label, by simp [child, held]⟩
  · rintro ⟨label, found⟩
    cases made : childrenAt heap address with
    | none => simp [child, made] at found
    | some children => rfl

theorem isSome_child_iff {path : List L} {address : Address} {label : L}
    (reached : walk heap root path = some address) :
    (child heap address label).isSome = (view heap root (path ++ [label])).isSome := by
  rw [view, walk_concat, reached, Option.bind_some, Option.isSome_map]

/-- Trees that show the same values at the same paths look the same. -/
theorem look_eq_of_view {other : Heap L V} {origin : Address} (filled : Filled heap)
    (also : Filled other) (same : view heap root = view other origin) :
    look heap root = look other origin := by
  funext path
  have here := congrFun same path
  rw [view, view] at here
  rw [look, look]
  cases first : walk heap root path with
  | none =>
    rw [first, Option.map_none, eq_comm, Option.map_eq_none_iff] at here
    rw [here, Option.map_none, Option.map_none]
  | some address =>
    rw [first, Option.map_some, eq_comm, Option.map_eq_some_iff] at here
    obtain ⟨second, reached, values⟩ := here
    have children : (childrenAt heap address).isSome = (childrenAt other second).isSome := by
      rw [Bool.eq_iff_iff, filled.isSome_iff, also.isSome_iff]
      refine exists_congr fun label => ?_
      rw [isSome_child_iff first, isSome_child_iff reached, same]
    rw [reached, Option.map_some, Option.map_some, values, children]

end Paths

end Heap

/-! ### The tree of a finite map -/

section Shape
variable {L V : Type} [DecidableEq L]

/-- A value put at a path: the nodes on the way are there, with the values they had. -/
def put (path : List L) (value : Option V) (shape : List L → Option (Option V)) :
    List L → Option (Option V) := fun probe =>
  if probe = path then some value
  else if probe <+: path then some ((shape probe).getD none)
  else shape probe

/-- A root alone. -/
def bare : List L → Option (Option V) := fun probe => if probe = [] then some none else none

/-- The tree of a map from paths: it has the paths of the map with their values, and
what lies on the way to them without one. -/
def shapeOf (entries : List (List L × Option V)) (probe : List L) : Option (Option V) :=
  match entries.lookup probe with
  | some value => some value
  | none => if probe = [] ∨ ∃ entry ∈ entries, probe <+: entry.1 then some none else none

theorem shapeOf_of_mem {entries : List (List L × Option V)} {path : List L} {value : Option V}
    (distinct : (entries.map Prod.fst).Nodup) (member : (path, value) ∈ entries) :
    shapeOf entries path = some value := by
  rw [shapeOf, lookup_of_mem distinct member]

/-- Only the paths of the map have values. -/
theorem mem_of_shapeOf {entries : List (List L × Option V)} {path : List L} {value : V}
    (shown : shapeOf entries path = some (some value)) : (path, some value) ∈ entries := by
  rw [shapeOf] at shown
  split at shown
  · rename_i held found
    cases shown
    exact mem_of_lookup found
  · split at shown <;> cases shown

theorem shapeOf_concat {entries : List (List L × Option V)} {path : List L} {value : Option V}
    (fresh : path ∉ entries.map Prod.fst) :
    shapeOf (entries ++ [(path, value)]) = put path value (shapeOf entries) := by
  have absent : entries.lookup path = none := by
    rw [Option.eq_none_iff_forall_ne_some]
    exact fun held found => fresh (List.mem_map_of_mem (mem_of_lookup found))
  funext probe
  rw [shapeOf, List.lookup_append, put]
  by_cases same : probe = path
  · simp [same, absent]
  · have other : [(path, value)].lookup probe = none := by
      simp [List.lookup_cons, beq_false_of_ne same]
    rw [other, Option.or_none, if_neg same, shapeOf]
    cases entries.lookup probe with
    | some held => simp
    | none =>
      by_cases onTheWay : probe <+: path
      · rw [if_pos onTheWay, if_pos (.inr ⟨(path, value), by simp, onTheWay⟩)]
        simp only [Option.some.injEq]
        split <;> rfl
      · rw [if_neg onTheWay]
        refine if_congr (or_congr_right ?_) rfl rfl
        simp [or_and_right, exists_or, onTheWay]

/-- Putting the entries of a map one after the other builds its tree. -/
theorem foldl_put {entries : List (List L × Option V)} (distinct : (entries.map Prod.fst).Nodup) :
    entries.foldl (fun shape entry => put entry.1 entry.2 shape) bare = shapeOf entries := by
  induction entries using List.reverseRecOn with
  | nil =>
    funext probe
    simp [bare, shapeOf]
  | append_singleton before entry ih =>
    rw [List.map_append, List.map_singleton, List.nodup_append] at distinct
    obtain ⟨earlier, _, apart⟩ := distinct
    rw [List.foldl_append, List.foldl_cons, List.foldl_nil, ih earlier]
    exact (shapeOf_concat fun member => apart _ member _ List.mem_cons_self rfl).symm

/-- The order of the entries does not matter. -/
theorem shapeOf_perm {entries others : List (List L × Option V)}
    (distinct : (entries.map Prod.fst).Nodup) (same : others.Perm entries) :
    shapeOf others = shapeOf entries := by
  have also : (others.map Prod.fst).Nodup := (same.map Prod.fst).nodup_iff.mpr distinct
  funext probe
  have found : others.lookup probe = entries.lookup probe := by
    refine Option.ext fun value => ?_
    rw [lookup_iff_mem also, lookup_iff_mem distinct, same.mem_iff]
  simp only [shapeOf, found, same.mem_iff]

end Shape

end Moha.HeapTree
