import Recast.Foundation.Updates

/-!
# The keys of a sorted list

A loop over the runs of equal keys of a sorted list visits each key once, and
so does dropping every entry that repeats its neighbour. Both therefore count
the keys.
-/

namespace Foundation

section Groups

variable {α : Type*}

/-- The groups of a list that is sorted by key have increasing keys. -/
theorem exists_group_keys {key : α → Nat} {groups : List (List α)}
    (hsorted : groups.flatten.Pairwise fun lhs rhs => key lhs ≤ key rhs)
    (hsame : ∀ group ∈ groups, group ≠ [] ∧ ∀ x ∈ group, ∀ y ∈ group, key x = key y)
    (hchain : groups.IsChain fun first second => ∃ hfirst hsecond,
      (key (first.getLast hfirst) == key (second.head hsecond)) = false) :
    ∃ keys : List Nat, keys.Pairwise (· < ·) ∧
      List.Forall₂ (fun group k => group ≠ [] ∧ ∀ x ∈ group, key x = k) groups keys := by
  induction groups with
  | nil => exact ⟨[], List.Pairwise.nil, List.Forall₂.nil⟩
  | cons group rest ih =>
      obtain ⟨hne, hgroup⟩ := hsame group List.mem_cons_self
      rw [List.flatten_cons, List.pairwise_append] at hsorted
      obtain ⟨-, hsorted, hcross⟩ := hsorted
      obtain ⟨keys, hkeys, hrest⟩ := ih hsorted
        (fun group h => hsame group (List.mem_cons_of_mem _ h)) hchain.tail
      refine ⟨key (group.head hne) :: keys, List.pairwise_cons.mpr ⟨?_, hkeys⟩,
        List.Forall₂.cons ⟨hne, fun x hx => hgroup x hx _ (List.head_mem hne)⟩ hrest⟩
      cases hrest with
      | nil => simp
      | @cons second k rest keys hsecond hrest =>
          obtain ⟨⟨hfirst, hhead, hdiffer⟩, -⟩ := List.isChain_cons_cons.mp hchain
          have hk := hsecond.2 _ (List.head_mem hhead)
          have hlast := hgroup _ (List.getLast_mem hfirst) _ (List.head_mem hne)
          have hle := hcross _ (List.getLast_mem hfirst) (second.head hhead)
            (by rw [List.flatten_cons]; exact List.mem_append_left _ (List.head_mem hhead))
          rw [beq_eq_false_iff_ne] at hdiffer
          have hlt : key (group.head hne) < k := by omega
          intro k' hk'
          rcases List.mem_cons.mp hk' with rfl | hlater
          · exact hlt
          · exact hlt.trans ((List.pairwise_cons.mp hkeys).1 k' hlater)

/-- Cutting a sorted list into runs of equal keys visits every key once, in
order. -/
theorem exists_splitBy_keys {key : α → Nat} {xs : List α}
    (hsorted : xs.Pairwise fun lhs rhs => key lhs ≤ key rhs) :
    ∃ keys : List Nat, keys.Pairwise (· < ·) ∧ (∀ k, k ∈ keys ↔ ∃ x ∈ xs, key x = k) ∧
      List.Forall₂ (fun group k => group ≠ [] ∧ ∀ x ∈ group, key x = k)
        (xs.splitBy fun lhs rhs => key lhs == key rhs) keys := by
  have hflatten := List.flatten_splitBy (fun lhs rhs => key lhs == key rhs) xs
  obtain ⟨keys, hkeys, hgroups⟩ := @exists_group_keys _ key
    (xs.splitBy fun lhs rhs => key lhs == key rhs) (by rwa [hflatten])
    (fun group hgroup => ⟨List.ne_nil_of_mem_splitBy hgroup,
      fun x hx y hy => key_eq_of_mem_splitBy hgroup hx hy⟩)
    (List.isChain_getLast_head_splitBy (fun lhs rhs => key lhs == key rhs) xs)
  refine ⟨keys, hkeys, fun k => ?_, hgroups⟩
  rw [← hflatten]
  generalize xs.splitBy (fun lhs rhs => key lhs == key rhs) = groups at hgroups
  clear hflatten hkeys hsorted
  induction hgroups with
  | nil => simp
  | @cons group k' groups keys hgroup _ ih =>
      rw [List.mem_cons, ih, List.flatten_cons]
      constructor
      · rintro (rfl | ⟨x, hx, hk⟩)
        · obtain ⟨x, hx⟩ := List.exists_mem_of_ne_nil _ hgroup.1
          exact ⟨x, List.mem_append_left _ hx, hgroup.2 x hx⟩
        · exact ⟨x, List.mem_append_right _ hx, hk⟩
      · rintro ⟨x, hx, rfl⟩
        rcases List.mem_append.mp hx with hx | hx
        · exact Or.inl (hgroup.2 x hx)
        · exact Or.inr ⟨x, hx, rfl⟩

end Groups

/-- `std::unique`: drop every entry that repeats the one before it. -/
def uniqueAdjacent : List Nat → List Nat
  | [] => []
  | [x] => [x]
  | first :: second :: rest =>
      if first = second then uniqueAdjacent (second :: rest)
      else first :: uniqueAdjacent (second :: rest)

theorem mem_uniqueAdjacent {x : Nat} {xs : List Nat} : x ∈ uniqueAdjacent xs ↔ x ∈ xs := by
  fun_induction uniqueAdjacent xs with
  | case1 => rfl
  | case2 => rfl
  | case3 first rest ih =>
      rw [ih]
      exact (or_iff_right_of_imp fun h => h ▸ List.mem_cons_self).symm.trans List.mem_cons.symm
  | case4 first second rest hne ih =>
      rw [List.mem_cons, ih]
      exact List.mem_cons.symm

theorem sorted_uniqueAdjacent {xs : List Nat} (h : xs.Pairwise (· ≤ ·)) :
    (uniqueAdjacent xs).Pairwise (· < ·) := by
  fun_induction uniqueAdjacent xs with
  | case1 => exact List.Pairwise.nil
  | case2 => exact List.pairwise_singleton _ _
  | case3 first rest ih => exact ih h.of_cons
  | case4 first second rest hne ih =>
      refine List.pairwise_cons.mpr ⟨fun x hx => ?_, ih h.of_cons⟩
      rw [mem_uniqueAdjacent] at hx
      have hfirst := (List.pairwise_cons.mp h).1 second List.mem_cons_self
      rcases List.mem_cons.mp hx with rfl | hrest
      · omega
      · have := (List.pairwise_cons.mp h.of_cons).1 x hrest
        omega

/-- Two increasing lists of the same numbers. -/
theorem eq_of_sorted {xs ys : List Nat} (hxs : xs.Pairwise (· < ·)) (hys : ys.Pairwise (· < ·))
    (h : ∀ x, x ∈ xs ↔ x ∈ ys) : xs = ys := by
  have hperm : xs.Perm ys := (List.perm_ext_iff_of_nodup (hxs.imp Nat.ne_of_lt)
    (hys.imp Nat.ne_of_lt)).mpr h
  exact hperm.eq_of_pairwise (fun _ _ _ _ hlt hlt' => absurd hlt (Nat.lt_asymm hlt')) hxs hys

/-- Dropping repetitions from a sorted list leaves the increasing list of its
numbers. -/
theorem uniqueAdjacent_eq {xs keys : List Nat} (hkeys : keys.Pairwise (· < ·))
    (h : ∀ x, x ∈ keys ↔ x ∈ xs) : uniqueAdjacent (xs.insertionSort (· ≤ ·)) = keys := by
  apply eq_of_sorted (sorted_uniqueAdjacent (List.pairwise_insertionSort (· ≤ ·) xs)) hkeys
  intro x
  rw [mem_uniqueAdjacent, List.mem_insertionSort, h]

/-- The numbers below `m` among `n` numbers from `first` on. -/
theorem countP_range'_lt (first n m : Nat) :
    (List.range' first n).countP (· < m) = min (first + n) m - first := by
  induction n generalizing first with
  | zero =>
      rw [List.range'_zero, List.countP_nil]
      omega
  | succ n ih =>
      rw [List.range'_succ, List.countP_cons, ih]
      by_cases h : first < m
      · rw [if_pos (by simpa using h)]
        omega
      · rw [if_neg (by simpa using h)]
        omega

end Foundation
