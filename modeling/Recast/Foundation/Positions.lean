import Recast.Foundation.SwapDelete
import Mathlib.Algebra.BigOperators.Group.Finset.Basic
import Mathlib.Algebra.BigOperators.Intervals
import Mathlib.Algebra.Order.BigOperators.Group.Finset

/-!
# Positions of a key

Where a key occurs in a list, in increasing order, and how the occurrences of
all keys add up to the length.
-/

namespace Foundation

variable {κ : Type*} [DecidableEq κ]

/-- The positions of `key`, in increasing order. -/
def positionsOf (key : κ) (keys : List κ) : List Nat :=
  (List.range keys.length).filter fun i => keys[i]? == some key

@[simp] theorem positionsOf_nil (key : κ) : positionsOf key [] = [] := rfl

theorem mem_positionsOf {key : κ} {keys : List κ} {i : Nat} :
    i ∈ positionsOf key keys ↔ keys[i]? = some key := by
  simp only [positionsOf, List.mem_filter, List.mem_range, beq_iff_eq, and_iff_right_iff_imp]
  intro h
  exact (List.getElem?_eq_some_iff.mp h).1

theorem positionsOf_concat (key : κ) (keys : List κ) (last : κ) :
    positionsOf key (keys ++ [last]) =
      positionsOf key keys ++ if last = key then [keys.length] else [] := by
  rw [positionsOf, List.length_append, List.length_singleton, List.range_succ, List.filter_append,
    positionsOf]
  congr 1
  · apply List.filter_congr
    intro i hi
    rw [List.getElem?_append_left (List.mem_range.mp hi)]
  · by_cases h : last = key
    · simp [h]
    · simp [h]

theorem nodup_positionsOf (key : κ) (keys : List κ) : (positionsOf key keys).Nodup :=
  List.nodup_range.filter _

theorem length_positionsOf (key : κ) (keys : List κ) :
    (positionsOf key keys).length = keys.count key := by
  induction keys using List.reverseRecOn with
  | nil => rfl
  | append_singleton keys last ih =>
      rw [positionsOf_concat, List.length_append, ih, List.count_append]
      congr 1
      by_cases h : last = key
      · simp [h]
      · simp [h]

/-- The occurrences of the keys below a bound add up to the length. -/
theorem sum_count_eq_length {keys : List Nat} {bound : Nat} (h : ∀ key ∈ keys, key < bound) :
    ∑ key ∈ Finset.range bound, keys.count key = keys.length := by
  induction keys with
  | nil => simp
  | cons key rest ih =>
      have hrest := ih fun key hkey => h key (List.mem_cons_of_mem _ hkey)
      simp only [List.count_cons, Finset.sum_add_distrib, hrest, List.length_cons, beq_iff_eq]
      congr 1
      rw [Finset.sum_ite_eq, if_pos (Finset.mem_range.mpr (h key List.mem_cons_self))]

/-- The entries at the positions of a key are those with the key. -/
theorem select_positionsOf {α : Type*} (f : α → κ) (key : κ) (xs : List α) :
    select xs (positionsOf key (xs.map f)) = xs.filter fun x => f x = key := by
  induction xs using List.reverseRecOn with
  | nil => rfl
  | append_singleton xs x ih =>
      have hin : ∀ p ∈ positionsOf key (xs.map f), p < xs.length := fun p hp => by
        have := (List.getElem?_eq_some_iff.mp (mem_positionsOf.mp hp)).1
        rwa [List.length_map] at this
      rw [List.map_append, List.map_singleton, positionsOf_concat, select, List.filterMap_append,
        ← select, select_append _ _ hin, ih, List.filter_append, List.length_map]
      by_cases hx : f x = key
      · simp [hx]
      · simp [hx]
end Foundation
