import Mathlib.Data.List.Sort

/-!
# Duplicates of a sorted list

In a sorted list every duplicate has an equal neighbour.
-/

namespace Foundation

/-- Whether two neighbours are equal. -/
def hasAdjacentEqual : List Nat → Bool
  | [] => false
  | [_] => false
  | first :: second :: rest => first == second || hasAdjacentEqual (second :: rest)

theorem hasAdjacentEqual_eq_false_iff {xs : List Nat} (hsorted : xs.Pairwise (· ≤ ·)) :
    hasAdjacentEqual xs = false ↔ xs.Nodup := by
  induction xs with
  | nil => simp [hasAdjacentEqual]
  | cons first rest ih =>
      cases rest with
      | nil => simp [hasAdjacentEqual]
      | cons second rest =>
          rw [hasAdjacentEqual, Bool.or_eq_false_iff, ih hsorted.of_cons,
            List.nodup_cons (a := first)]
          refine and_congr_left fun _ => ?_
          rw [beq_eq_false_iff_ne]
          constructor
          · intro hne hmem
            have hfirst : first ≤ second := (List.pairwise_cons.mp hsorted).1 second List.mem_cons_self
            rcases List.mem_cons.mp hmem with heq | hlater
            · exact hne heq
            · have hsecond : second ≤ first :=
                (List.pairwise_cons.mp hsorted.of_cons).1 first hlater
              omega
          · intro hnot heq
            exact hnot (by rw [heq]; exact List.mem_cons_self)

/-- Sorting by a key and looking at neighbours finds every repeated key. -/
theorem hasAdjacentEqual_sorted_iff {α : Type*} {key : α → Nat} {before : α → α → Prop}
    [DecidableRel before] [Std.Total before] [IsTrans α before]
    (hbefore : ∀ x y, before x y → key x ≤ key y) (xs : List α) :
    hasAdjacentEqual ((xs.insertionSort before).map key) = false ↔ (xs.map key).Nodup := by
  have hsorted : ((xs.insertionSort before).map key).Pairwise (· ≤ ·) :=
    List.pairwise_map.mpr ((List.pairwise_insertionSort before xs).imp (hbefore _ _))
  rw [hasAdjacentEqual_eq_false_iff hsorted,
    ((List.perm_insertionSort before xs).map key).nodup_iff]

end Foundation
