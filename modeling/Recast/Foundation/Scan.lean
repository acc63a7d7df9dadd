import Mathlib.Data.List.Basic
import Mathlib.Algebra.BigOperators.Group.List.Basic
import Mathlib.Tactic.Abel

/-!
# Scans for a best element, and rows of lists

A loop that keeps the best element seen so far, whatever "better" means, ends
with an element that was accepted. Lists of rows change by adding an element
to a row or replacing one; the flattened list says what that does to the whole.
-/

namespace Foundation

variable {α : Type*}

/-- Keep the element that is better than the best one before it. -/
def scanBest (better : Option α → α → Bool) (xs : List α) : Option α :=
  xs.foldl (fun best x => if better best x then some x else best) none

section Scan

variable {better : Option α → α → Bool}

theorem foldl_scan_cases (better : Option α → α → Bool) (start : Option α) (xs : List α) :
    xs.foldl (fun best x => if better best x then some x else best) start = start ∨
      ∃ x ∈ xs, (∃ best, better best x) ∧
        xs.foldl (fun best x => if better best x then some x else best) start = some x := by
  induction xs generalizing start with
  | nil => exact .inl rfl
  | cons x xs ih =>
      rw [List.foldl_cons]
      cases ih (if better start x then some x else start) with
      | inr hlater =>
          obtain ⟨y, hy, hbetter, heq⟩ := hlater
          exact .inr ⟨y, List.mem_cons_of_mem x hy, hbetter, heq⟩
      | inl hkept =>
          rw [hkept]
          split
          · next hx => exact .inr ⟨x, List.mem_cons_self, ⟨start, hx⟩, rfl⟩
          · exact .inl rfl

/-- The result of a scan is one of the elements, and it was accepted. -/
theorem scanBest_eq_some {xs : List α} {x : α} (h : scanBest better xs = some x) :
    x ∈ xs ∧ ∃ best, better best x := by
  cases foldl_scan_cases better none xs with
  | inl hnone => rw [scanBest, hnone] at h; cases h
  | inr hsome =>
      obtain ⟨y, hy, hbetter, heq⟩ := hsome
      rw [scanBest, heq] at h
      cases h
      exact ⟨hy, hbetter⟩

theorem foldl_scan_isSome {start : Option α} (hstart : start.isSome) (xs : List α) :
    (xs.foldl (fun best x => if better best x then some x else best) start).isSome := by
  induction xs generalizing start with
  | nil => exact hstart
  | cons x xs ih =>
      rw [List.foldl_cons]
      refine ih ?_
      split
      · rfl
      · exact hstart

/-- A scan finds something when some element is better than nothing. -/
theorem scanBest_isSome {xs : List α} {x : α} (hx : x ∈ xs) (hbetter : better none x) :
    (scanBest better xs).isSome := by
  unfold scanBest
  induction xs with
  | nil => cases hx
  | cons y ys ih =>
      rw [List.foldl_cons]
      split
      · exact foldl_scan_isSome rfl ys
      · next hy =>
          cases hx with
          | head => exact absurd hbetter hy
          | tail _ hx => exact ih hx

end Scan

section Rows

theorem flatten_modify_append {rows : List (List α)} {row : Nat} (h : row < rows.length) (x : α) :
    (rows.modify row (· ++ [x])).flatten.Perm (x :: rows.flatten) := by
  induction rows generalizing row with
  | nil => exact absurd h (Nat.not_lt_zero row)
  | cons head rows ih =>
      cases row with
      | zero =>
          rw [List.modify_zero_cons, List.flatten_cons, List.flatten_cons, List.append_assoc]
          exact List.perm_middle
      | succ row =>
          rw [List.modify_succ_cons, List.flatten_cons, List.flatten_cons]
          exact ((ih (Nat.lt_of_succ_lt_succ h)).append_left head).trans List.perm_middle

theorem cons_modify_perm {xs : List α} {i : Nat} {x : α} (h : xs[i]? = some x) (f : α → α) :
    (x :: xs.modify i f).Perm (f x :: xs) := by
  induction xs generalizing i with
  | nil => simp at h
  | cons head xs ih =>
      cases i with
      | zero =>
          cases h
          rw [List.modify_zero_cons]
          exact List.Perm.swap _ _ _
      | succ i =>
          rw [List.modify_succ_cons]
          refine (List.Perm.swap _ _ _).trans ?_
          exact ((ih h).cons head).trans (List.Perm.swap _ _ _)

theorem mem_modify_cases {xs : List α} {i : Nat} {f : α → α} {y : α} (h : y ∈ xs.modify i f) :
    y ∈ xs ∨ ∃ x, xs[i]? = some x ∧ y = f x := by
  obtain ⟨j, hj⟩ := List.mem_iff_getElem?.mp h
  rw [List.getElem?_modify] at hj
  obtain ⟨x, hx, rfl⟩ := Option.map_eq_some_iff.mp hj
  split
  · next heq =>
      subst heq
      exact .inr ⟨x, hx, rfl⟩
  · exact .inl (List.mem_of_getElem? hx)

theorem map_modify {β : Type*} {xs : List α} {i : Nat} {f : α → β} {g : α → α} (g' : β → β)
    (h : ∀ x, xs[i]? = some x → f (g x) = g' (f x)) :
    (xs.modify i g).map f = (xs.map f).modify i g' := by
  refine List.ext_getElem? fun j => ?_
  rw [List.getElem?_map, List.getElem?_modify, List.getElem?_modify, List.getElem?_map]
  cases hx : xs[j]? with
  | none => rfl
  | some x =>
      simp only [Option.map_eq_map, Option.map_some, Option.some.injEq]
      split
      · next heq =>
          subst heq
          rw [h x hx]
      · rfl

theorem cons_set_perm {xs : List α} {i : Nat} {x : α} (h : xs[i]? = some x) (y : α) :
    (x :: xs.set i y).Perm (y :: xs) := by
  have hset : xs.set i y = xs.modify i fun _ => y := by
    refine List.ext_getElem? fun j => ?_
    rw [List.getElem?_set, List.getElem?_modify]
    split
    · next heq =>
        subst heq
        rw [if_pos (List.getElem?_eq_some_iff.mp h).1, h]
        rfl
    · simp
  rw [hset]
  exact cons_modify_perm h _

/-- Replacing one element of one row exchanges it for another in the whole. -/
theorem flatten_modify_set {rows : List (List α)} {row i : Nat} {xs : List α} {x : α}
    (hrow : rows[row]? = some xs) (hx : xs[i]? = some x) (y : α) :
    (x :: (rows.modify row (·.set i y)).flatten).Perm (y :: rows.flatten) := by
  induction rows generalizing row with
  | nil => simp at hrow
  | cons head rows ih =>
      cases row with
      | zero =>
          cases hrow
          rw [List.modify_zero_cons, List.flatten_cons, List.flatten_cons, ← List.cons_append,
            ← List.cons_append]
          exact (cons_set_perm hx y).append_right rows.flatten
      | succ row =>
          rw [List.modify_succ_cons, List.flatten_cons, List.flatten_cons]
          refine (List.perm_middle.symm).trans ?_
          exact ((ih hrow).append_left head).trans List.perm_middle

/-- Exchanging two elements of two rows leaves the whole as it was. -/
theorem flatten_swap {rows : List (List α)} {row row' i j : Nat} {xs ys : List α} {x y : α}
    (hne : row ≠ row') (hrow : rows[row]? = some xs) (hrow' : rows[row']? = some ys)
    (hx : xs[i]? = some x) (hy : ys[j]? = some y) :
    ((rows.modify row (·.set i y)).modify row' (·.set j x)).flatten.Perm rows.flatten := by
  have hrow₂ : (rows.modify row (·.set i y))[row']? = some ys := by
    rw [List.getElem?_modify_ne _ _ hne, hrow']
  refine List.Perm.cons_inv (a := y) ?_
  exact (flatten_modify_set hrow₂ hy x).trans (flatten_modify_set hrow hx y)

theorem sum_set {M : Type*} [AddCommGroup M] {xs : List M} {i : Nat} {x : M} (h : xs[i]? = some x)
    (y : M) : (xs.set i y).sum = xs.sum + (y - x) := by
  have := (cons_set_perm h y).sum_eq
  rw [List.sum_cons, List.sum_cons] at this
  rw [eq_sub_of_add_eq' this]
  abel

end Rows

end Foundation
