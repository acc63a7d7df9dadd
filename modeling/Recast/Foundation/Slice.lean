import Mathlib.Data.List.Basic
import Mathlib.Tactic.Ring

/-!
# Slices of lists

Reading and overwriting a contiguous range of a list. Every fact is stated
through `getElem?`, so ranges that leave the list need no side conditions.
-/

namespace Foundation

variable {α : Type*}

/-- The `count` entries of `xs` from `offset` on, or as many as there are. -/
def slice (xs : List α) (offset count : Nat) : List α :=
  (xs.drop offset).take count

/-- `xs` with the entries from `offset` on overwritten by `ys`. -/
def splice (xs : List α) (offset : Nat) (ys : List α) : List α :=
  xs.take offset ++ ys ++ xs.drop (offset + ys.length)

theorem getElem?_slice (xs : List α) (offset count i : Nat) :
    (slice xs offset count)[i]? = if i < count then xs[offset + i]? else none := by
  rw [slice, List.getElem?_take]
  split
  · rw [List.getElem?_drop]
  · rfl

@[simp] theorem length_slice (xs : List α) (offset count : Nat) :
    (slice xs offset count).length = min count (xs.length - offset) := by
  simp [slice]

theorem length_slice_of_le {xs : List α} {offset count : Nat}
    (h : offset + count ≤ xs.length) : (slice xs offset count).length = count := by
  rw [length_slice]
  omega

@[simp] theorem slice_zero (xs : List α) (offset : Nat) : slice xs offset 0 = [] := by
  simp [slice]

theorem slice_zero_length (xs : List α) : slice xs 0 xs.length = xs := by
  simp [slice]

/-- Two slices agree when the lists agree on the addressed range. -/
theorem slice_congr {xs ys : List α} {offset offset' count : Nat}
    (h : ∀ i < count, xs[offset + i]? = ys[offset' + i]?) :
    slice xs offset count = slice ys offset' count := by
  apply List.ext_getElem?
  intro i
  rw [getElem?_slice, getElem?_slice]
  split
  next hi => exact h i hi
  next => rfl

theorem slice_slice (xs : List α) {offset count inner size : Nat} (h : inner + size ≤ count) :
    slice (slice xs offset count) inner size = slice xs (offset + inner) size := by
  apply slice_congr
  intro i hi
  rw [getElem?_slice, if_pos (by omega), Nat.add_assoc]

theorem slice_take (xs : List α) {offset count size : Nat} (h : offset + count ≤ size) :
    slice (xs.take size) offset count = slice xs offset count := by
  apply slice_congr
  intro i hi
  rw [List.getElem?_take, if_pos (by omega)]

theorem slice_append_left {xs : List α} (ys : List α) {offset count : Nat}
    (h : offset + count ≤ xs.length) :
    slice (xs ++ ys) offset count = slice xs offset count := by
  apply slice_congr
  intro i hi
  rw [List.getElem?_append_left (by omega)]

theorem slice_append_right (xs ys : List α) (offset count : Nat) :
    slice (xs ++ ys) (xs.length + offset) count = slice ys offset count := by
  apply slice_congr
  intro i hi
  rw [List.getElem?_append_right (by omega)]
  congr 1
  omega

theorem slice_replicate {offset count size : Nat} (x : α) (h : offset + count ≤ size) :
    slice (List.replicate size x) offset count = List.replicate count x := by
  simp only [slice, List.drop_replicate, List.take_replicate]
  congr 1
  omega

theorem slice_append_slice (xs : List α) (offset first second : Nat) :
    slice xs offset first ++ slice xs (offset + first) second =
      slice xs offset (first + second) := by
  simp only [slice]
  rw [← List.drop_drop, ← List.take_add]

theorem getElem?_splice {xs : List α} {offset : Nat} (h : offset ≤ xs.length) (ys : List α)
    (i : Nat) :
    (splice xs offset ys)[i]? =
      if i < offset then xs[i]? else if i < offset + ys.length then ys[i - offset]? else xs[i]? := by
  have htake : (xs.take offset).length = offset := by simp [h]
  rw [splice, List.append_assoc]
  split
  next hi =>
    rw [List.getElem?_append_left (by omega), List.getElem?_take, if_pos hi]
  next hi =>
    rw [List.getElem?_append_right (by omega), htake]
    split
    next hmid => rw [List.getElem?_append_left (by omega)]
    next hmid =>
      rw [List.getElem?_append_right (by omega), List.getElem?_drop]
      congr 1
      omega

theorem length_splice {xs : List α} {offset : Nat} {ys : List α} (h : offset ≤ xs.length) :
    (splice xs offset ys).length = max xs.length (offset + ys.length) := by
  simp only [splice, List.length_append, List.length_take, List.length_drop]
  omega

theorem length_splice_of_le {xs : List α} {offset : Nat} {ys : List α}
    (h : offset + ys.length ≤ xs.length) : (splice xs offset ys).length = xs.length := by
  rw [length_splice (by omega)]
  omega

/-- A slice inside the overwritten range reads the new entries. -/
theorem slice_splice_inside {xs : List α} {offset : Nat} (h : offset ≤ xs.length) {ys : List α}
    {inner count : Nat} (hinner : inner + count ≤ ys.length) :
    slice (splice xs offset ys) (offset + inner) count = slice ys inner count := by
  apply slice_congr
  intro i hi
  rw [getElem?_splice h, if_neg (by omega), if_pos (by omega)]
  congr 1
  omega

theorem slice_splice_self {xs : List α} {offset : Nat} (h : offset ≤ xs.length) (ys : List α) :
    slice (splice xs offset ys) offset ys.length = ys := by
  have hall : 0 + ys.length ≤ ys.length := by omega
  have := slice_splice_inside h hall
  rw [Nat.add_zero] at this
  rw [this, slice_zero_length]

/-- A slice that misses the overwritten range reads the old entries. -/
theorem slice_splice_disjoint {xs : List α} {offset : Nat} (h : offset ≤ xs.length) {ys : List α}
    {start count : Nat} (hdisjoint : start + count ≤ offset ∨ offset + ys.length ≤ start) :
    slice (splice xs offset ys) start count = slice xs start count := by
  apply slice_congr
  intro i hi
  rw [getElem?_splice h]
  split
  · rfl
  · rw [if_neg (by omega)]

theorem getD_slice (xs : List α) {offset count i : Nat} (h : i < count) (default : α) :
    (slice xs offset count).getD i default = xs.getD (offset + i) default := by
  rw [List.getD_eq_getElem?_getD, List.getD_eq_getElem?_getD, getElem?_slice, if_pos h]

theorem getD_splice {xs : List α} {offset : Nat} (h : offset ≤ xs.length) (ys : List α)
    (i : Nat) (default : α) : (splice xs offset ys).getD i default =
      if i < offset then xs.getD i default
      else if i < offset + ys.length then ys.getD (i - offset) default else xs.getD i default := by
  simp only [List.getD_eq_getElem?_getD, getElem?_splice h]
  split
  · rfl
  · split <;> rfl

/-- A slice is as long as it is. -/
theorem slice_length_self (xs : List α) (offset count : Nat) :
    slice xs offset (slice xs offset count).length = slice xs offset count := by
  apply List.ext_getElem?
  intro i
  rw [getElem?_slice, getElem?_slice, length_slice]
  by_cases hi : i < xs.length - offset
  · simp only [Nat.lt_min, hi, and_true]
  · have hnone : xs[offset + i]? = none := List.getElem?_eq_none (by omega)
    simp only [hnone, ite_self]

/-- `xs` cut to `size` entries, or filled up to that many. -/
def resize (fill : α) (xs : List α) (size : Nat) : List α :=
  xs.take size ++ List.replicate (size - xs.length) fill

@[simp] theorem length_resize (fill : α) (xs : List α) (size : Nat) :
    (resize fill xs size).length = size := by
  simp only [resize, List.length_append, List.length_take, List.length_replicate]
  omega

theorem getD_resize (fill : α) (xs : List α) {size i : Nat} (h : i < size) (default : α) :
    (resize fill xs size).getD i default = if i < xs.length then xs.getD i default else fill := by
  simp only [resize, List.getD_eq_getElem?_getD]
  split
  next hi =>
    rw [List.getElem?_append_left (by rw [List.length_take]; omega), List.getElem?_take, if_pos h]
  next hi =>
    rw [List.getElem?_append_right (by rw [List.length_take]; omega), List.getElem?_replicate,
      if_pos (by rw [List.length_take]; omega)]
    rfl

theorem getD_set (xs : List α) {i : Nat} (h : i < xs.length) (x : α) (j : Nat) (default : α) :
    (xs.set i x).getD j default = if j = i then x else xs.getD j default := by
  rw [List.getD_eq_getElem?_getD, List.getD_eq_getElem?_getD, List.getElem?_set]
  by_cases heq : j = i
  · subst heq
    simp [h]
  · simp [heq, Ne.symm heq]

/-- `xs` overwritten at `offset`, after padding with `fill` up to there. -/
def overwrite (fill : α) (xs : List α) (offset : Nat) (ys : List α) : List α :=
  splice (xs ++ List.replicate (offset - xs.length) fill) offset ys

theorem overwrite_of_le (fill : α) {xs : List α} {offset : Nat} (h : offset ≤ xs.length)
    (ys : List α) : overwrite fill xs offset ys = splice xs offset ys := by
  have hzero : offset - xs.length = 0 := by omega
  rw [overwrite, hzero, List.replicate_zero, List.append_nil]

theorem length_overwrite (fill : α) (xs : List α) (offset : Nat) (ys : List α) :
    (overwrite fill xs offset ys).length = max xs.length (offset + ys.length) := by
  rw [overwrite, length_splice (by simp; omega)]
  simp only [List.length_append, List.length_replicate]
  omega

/-- Two writes in a row are one write. -/
theorem overwrite_overwrite (fill : α) (xs : List α) (offset : Nat) (ys zs : List α) :
    overwrite fill (overwrite fill xs offset ys) (offset + ys.length) zs =
      overwrite fill xs offset (ys ++ zs) := by
  have hpadded : offset ≤ (xs ++ List.replicate (offset - xs.length) fill).length := by
    rw [List.length_append, List.length_replicate]
    omega
  have hinside : offset + ys.length ≤ (overwrite fill xs offset ys).length := by
    rw [length_overwrite]
    exact le_max_right _ _
  rw [overwrite_of_le fill hinside, overwrite, overwrite]
  generalize xs ++ List.replicate (offset - xs.length) fill = padded at hpadded
  have hfront : (padded.take offset ++ ys).length = offset + ys.length := by
    rw [List.length_append, List.length_take, Nat.min_eq_left hpadded]
  have hdrop : offset + ys.length + zs.length - (padded.take offset ++ ys).length = zs.length := by
    omega
  simp only [splice]
  rw [List.take_append_of_le_length hfront.ge, List.take_of_length_le hfront.le,
    List.drop_append, hdrop, List.drop_of_length_le (by omega), List.nil_append, List.drop_drop,
    List.length_append, ← Nat.add_assoc]
  simp only [List.append_assoc]

theorem slice_overwrite_inside (fill : α) (xs : List α) (offset : Nat) {ys : List α}
    {inner count : Nat} (hinner : inner + count ≤ ys.length) :
    slice (overwrite fill xs offset ys) (offset + inner) count = slice ys inner count :=
  slice_splice_inside (by simp; omega) hinner

theorem slice_overwrite_disjoint (fill : α) {xs : List α} {offset : Nat} {ys : List α}
    {start count : Nat} (hin : start + count ≤ xs.length)
    (hdisjoint : start + count ≤ offset ∨ offset + ys.length ≤ start) :
    slice (overwrite fill xs offset ys) start count = slice xs start count := by
  rw [overwrite, slice_splice_disjoint (by simp; omega) hdisjoint, slice_append_left _ hin]

end Foundation
