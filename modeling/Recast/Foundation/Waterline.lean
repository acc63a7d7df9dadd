import Mathlib.Algebra.BigOperators.Group.List.Basic
import Mathlib.Algebra.Order.Field.Basic
import Mathlib.Tactic.Linarith
import Mathlib.Tactic.Ring

/-!
# Amounts above a level

The sum of what the numbers of a list have above a level, and how it grows when
the level is lowered.
-/

namespace Foundation

variable {K : Type*} [Field K] [LinearOrder K]

/-- What the numbers of a list have above a level. -/
def above (heights : List K) (level : K) : K :=
  (heights.map fun height => max 0 (height - level)).sum

@[simp] theorem above_nil (level : K) : above [] level = 0 := rfl

theorem above_append (first second : List K) (level : K) :
    above (first ++ second) level = above first level + above second level := by
  rw [above, List.map_append, List.sum_append, above, above]

theorem above_perm {first second : List K} (h : first.Perm second) (level : K) :
    above first level = above second level := (h.map _).sum_eq

variable [IsStrictOrderedRing K]

/-- Nothing is above a level no number exceeds. -/
theorem above_of_le {heights : List K} {level : K} (h : ∀ height ∈ heights, height ≤ level) :
    above heights level = 0 := by
  induction heights with
  | nil => rfl
  | cons height rest ih =>
      have hfirst := h height List.mem_cons_self
      have hrest := ih fun x hx => h x (List.mem_cons_of_mem _ hx)
      rw [above] at hrest ⊢
      rw [List.map_cons, List.sum_cons, hrest, max_eq_left (sub_nonpos.mpr hfirst), add_zero]

/-- Every number above the level gains what the level is lowered by. -/
theorem above_lower {heights : List K} {level drop : K} (h : ∀ height ∈ heights, level ≤ height)
    (hdrop : 0 ≤ drop) :
    above heights (level - drop) = above heights level + (heights.length : K) * drop := by
  induction heights with
  | nil => simp
  | cons height rest ih =>
      have hfirst := h height List.mem_cons_self
      have hrest := ih fun x hx => h x (List.mem_cons_of_mem _ hx)
      rw [above, above] at hrest ⊢
      rw [List.map_cons, List.sum_cons, List.map_cons, List.sum_cons, hrest, List.length_cons,
        max_eq_right (by linarith), max_eq_right (by linarith)]
      push_cast
      ring

end Foundation
