import Mathlib.Algebra.Order.BigOperators.Group.Finset

/-! Finite maps as lists of entries, with assignment to a key, over arbitrary keys
and values. Assigning distinct new keys one after the other lists them, and
filtering by key commutes with it. -/
namespace Moha.EntryMap

section Lookup
variable {K V : Type} [BEq K] [LawfulBEq K] {entries : List (K × V)} {key : K} {value : V}

theorem mem_of_lookup (found : entries.lookup key = some value) : (key, value) ∈ entries := by
  obtain ⟨before, after, rfl, _⟩ := List.lookup_eq_some_iff.mp found
  simp

theorem lookup_of_mem (distinct : (entries.map Prod.fst).Nodup) (member : (key, value) ∈ entries) :
    entries.lookup key = some value := by
  induction entries with
  | nil => cases member
  | cons entry rest ih =>
    rw [List.map_cons, List.nodup_cons] at distinct
    rcases List.mem_cons.mp member with rfl | inside
    · simp
    · have differs : key ≠ entry.1 := by
        rintro rfl
        exact distinct.1 (List.mem_map.mpr ⟨_, inside, rfl⟩)
      rw [List.lookup_cons, beq_false_of_ne differs]
      exact ih distinct.2 inside

/-- Where every key is there once, the entries are the map. -/
theorem lookup_iff_mem (distinct : (entries.map Prod.fst).Nodup) :
    entries.lookup key = some value ↔ (key, value) ∈ entries :=
  ⟨mem_of_lookup, lookup_of_mem distinct⟩

end Lookup

section Assign
variable {K V E : Type} [DecidableEq K]

/-- An assignment to a key of a map. -/
def assign (entries : List (K × V)) (key : K) (value : V) : List (K × V) :=
  (key, value) :: entries.filter fun held => held.1 != key

theorem assign_fresh {entries : List (K × V)} {key : K} {value : V}
    (fresh : key ∉ entries.map Prod.fst) : assign entries key value = (key, value) :: entries := by
  rw [assign, List.filter_eq_self.mpr]
  intro held member
  rw [bne_iff_ne]
  rintro rfl
  exact fresh (List.mem_map_of_mem member)

theorem filter_assign {entries : List (K × V)} {key : K} {value : V} {matched : K → Bool}
    (inside : matched key = true) :
    (assign entries key value).filter (fun held => matched held.1) =
      assign (entries.filter fun held => matched held.1) key value := by
  simp [assign, inside, List.filter_filter, Bool.and_comm]

variable {key : E → K} {value : E → V} {entries : List E}

/-- Distinct keys that are new to the map are put in front of it one by one. -/
theorem foldl_assign_fresh {held : List (K × V)} (distinct : (entries.map key).Nodup)
    (fresh : ∀ entry ∈ entries, key entry ∉ held.map Prod.fst) :
    entries.foldl (fun m entry => assign m (key entry) (value entry)) held =
      (entries.map fun entry => (key entry, value entry)).reverse ++ held := by
  induction entries generalizing held with
  | nil => rfl
  | cons first rest ih =>
    obtain ⟨new, others⟩ := List.forall_mem_cons.mp fresh
    rw [List.map_cons, List.nodup_cons] at distinct
    rw [List.foldl_cons, assign_fresh new, ih distinct.2]
    · simp
    · intro entry member
      simp only [List.map_cons, List.mem_cons, not_or]
      refine ⟨?_, others entry member⟩
      intro same
      exact distinct.1 (List.mem_map.mpr ⟨entry, member, same⟩)

/-- What distinct keys are assigned is what the map holds. -/
theorem lookup_foldl_assign [BEq K] [LawfulBEq K] {k : K} {v : V}
    (distinct : (entries.map key).Nodup) :
    (entries.foldl (fun m entry => assign m (key entry) (value entry)) []).lookup k = some v ↔
      ∃ entry ∈ entries, key entry = k ∧ value entry = v := by
  rw [foldl_assign_fresh distinct (by simp), List.append_nil, lookup_iff_mem]
  · simp
  · rw [List.map_reverse, List.nodup_reverse, List.map_map]
    exact distinct

theorem lookup_assign [BEq K] [LawfulBEq K] {held : List (K × V)} {k other : K} {v : V} :
    (assign held k v).lookup other = if other = k then some v else held.lookup other := by
  by_cases same : other = k
  · subst same
    simp [assign]
  · rw [if_neg same, assign, List.lookup_cons, beq_false_of_ne same]
    dsimp only
    induction held with
    | nil => rfl
    | cons entry rest ih =>
      by_cases dropped : entry.1 = k
      · have differs : other ≠ entry.1 := fun equal => same (equal.trans dropped)
        rw [List.filter_cons_of_neg (by simp [dropped]), List.lookup_cons, beq_false_of_ne differs]
        exact ih
      · rw [List.filter_cons_of_pos (by simp [dropped]), List.lookup_cons, List.lookup_cons, ih]

theorem filter_foldl_assign {held : List (K × V)} {matched : K → Bool}
    (inside : ∀ entry ∈ entries, matched (key entry) = true) :
    (entries.foldl (fun m entry => assign m (key entry) (value entry)) held).filter
        (fun held => matched held.1) =
      entries.foldl (fun m entry => assign m (key entry) (value entry))
        (held.filter fun held => matched held.1) := by
  induction entries generalizing held with
  | nil => rfl
  | cons first rest ih =>
    obtain ⟨head, tail⟩ := List.forall_mem_cons.mp inside
    rw [List.foldl_cons, List.foldl_cons, ih tail, filter_assign head]

theorem mem_keys_foldl_assign {held : List (K × V)} {k : K} :
    k ∈ (entries.foldl (fun m entry => assign m (key entry) (value entry)) held).map Prod.fst ↔
      k ∈ entries.map key ∨ k ∈ held.map Prod.fst := by
  induction entries generalizing held with
  | nil => simp
  | cons first rest ih =>
    rw [List.foldl_cons, ih]
    by_cases same : k = key first
    · simp [assign, same]
    · simp [assign, same]

end Assign

/-- A map of a finite set onto itself that enlarges nothing keeps every size. -/
theorem size_eq_of_image_eq {α : Type} [DecidableEq α] {S : Finset α} {f : α → α} {size : α → ℕ}
    (shrinks : ∀ x ∈ S, size (f x) ≤ size x) (onto : S.image f = S) :
    ∀ x ∈ S, size (f x) = size x := by
  have injective : Set.InjOn f S := Finset.card_image_iff.mp (congrArg Finset.card onto)
  have total : ∑ x ∈ S, size (f x) = ∑ x ∈ S, size x := by
    rw [← Finset.sum_image (f := size) injective, onto]
  exact (Finset.sum_eq_sum_iff_of_le shrinks).mp total

end Moha.EntryMap
