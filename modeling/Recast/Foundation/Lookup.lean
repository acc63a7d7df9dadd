import Recast.Foundation.Nibbles
import Recast.Foundation.Simd
import Recast.Foundation.Slice
import Mathlib.Algebra.BigOperators.Group.Finset.Basic
import Mathlib.Algebra.Order.BigOperators.Group.Finset
import Mathlib.Data.List.GetD

/-!
# Lookup tables of product codes

A sum over the entries of two vectors splits along any concatenation of them. A
table has sixteen entries for each half byte of a code; looking up all half
bytes of a code and adding splits along concatenations as well.
-/

namespace Foundation

open Finset

variable {F : Type} [AddCommMonoid F]

/-- The sum of `term` over the entries of two vectors. -/
def form (term : F → F → F) (u v : List F) : F := (u.zipWith term v).sum

theorem form_append (term : F → F → F) {u v u' v' : List F} (h : u.length = v.length) :
    form term (u ++ u') (v ++ v') = form term u v + form term u' v' := by
  rw [form, List.zipWith_append h, List.sum_append]
  rfl

/-- Vectors made of pieces of the same lengths. -/
theorem form_flatMap {α : Type} (term : F → F → F) {u v : α → List F} {pieces : List α}
    (h : ∀ piece ∈ pieces, (u piece).length = (v piece).length) :
    form term (pieces.flatMap u) (pieces.flatMap v) =
      (pieces.map fun piece => form term (u piece) (v piece)).sum := by
  induction pieces with
  | nil => rfl
  | cons piece rest ih =>
      rw [List.flatMap_cons, List.flatMap_cons, form_append term (h piece List.mem_cons_self),
        ih fun other hother => h other (List.mem_cons_of_mem _ hother), List.map_cons,
        List.sum_cons]

/-- The order of the entries does not matter. -/
theorem form_places (term : F → F → F) {u v : List F} {places : List ℕ}
    (hplaces : places.Perm (List.range u.length)) (hlength : v.length = u.length) :
    form term u v = form term (places.map fun i => u.getD i 0) (places.map fun i => v.getD i 0) := by
  have hrange : u.zipWith term v =
      (List.range u.length).map fun i => term (u.getD i 0) (v.getD i 0) := by
    refine List.ext_getElem (by simp [hlength]) fun i hi hi' => ?_
    rw [List.length_zipWith, hlength, min_self] at hi
    simp [hi, hlength]
  rw [form, form, hrange, List.zipWith_map, List.zipWith_self]
  exact (hplaces.map _).symm.sum_eq

/-- A vector against one made of blocks of one width. -/
theorem form_blocks (term : F → F → F) {block : ℕ → List F} {width count : ℕ}
    (hblock : ∀ m < count, (block m).length = width) {u : List F}
    (hu : u.length = count * width) :
    form term u ((List.range count).flatMap block) =
      ∑ m ∈ range count, form term (slice u (m * width) width) (block m) := by
  induction count generalizing u with
  | zero =>
      rw [Nat.zero_mul, List.length_eq_zero_iff] at hu
      rw [hu]
      rfl
  | succ count ih =>
      rw [Nat.succ_mul] at hu
      have hfront : (u.take (count * width)).length = count * width :=
        List.length_take_of_le (by omega)
      have hearlier : ((List.range count).flatMap block).length = count * width := by
        rw [List.length_flatMap, List.map_congr_left fun m hm =>
          hblock m ((List.mem_range.mp hm).trans (Nat.lt_succ_self count))]
        simp
      have hlast : u.drop (count * width) = slice u (count * width) width := by
        rw [slice, List.take_of_length_le (by rw [List.length_drop]; omega)]
      calc form term u ((List.range (count + 1)).flatMap block)
          _ = form term (u.take (count * width) ++ u.drop (count * width))
                ((List.range count).flatMap block ++ block count) := by
              rw [List.take_append_drop, List.range_succ, List.flatMap_append,
                List.flatMap_singleton]
          _ = form term (u.take (count * width)) ((List.range count).flatMap block) +
                form term (slice u (count * width) width) (block count) := by
              rw [form_append term (hfront.trans hearlier.symm), hlast]
          _ = ∑ m ∈ range (count + 1), form term (slice u (m * width) width) (block m) := by
              rw [ih (fun m hm => hblock m (hm.trans (Nat.lt_succ_self count))) hfront,
                sum_range_succ]
              congr 1
              refine sum_congr rfl fun m hm => ?_
              have hend := Nat.mul_le_mul_right width (mem_range.mp hm)
              rw [Nat.succ_mul] at hend
              rw [slice_take u hend]

/-- The entry of a table for half byte `m` of a code, even ones in the low half. -/
def entryOf (table : List F) (code : List UInt8) (m : ℕ) : F :=
  table.getD (16 * m + (nibbleAt code (m / 2) (m % 2 == 1)).toNat) 0

/-- The sum of the entries of the first `count` half bytes. -/
def lookup (table : List F) (code : List UInt8) (count : ℕ) : F :=
  ∑ m ∈ range count, entryOf table code m

theorem lookup_append {table table' : List F} {code code' : List UInt8} {count count' : ℕ}
    (htable : table.length = 16 * count) (hcode : 2 * code.length = count) :
    lookup (table ++ table') (code ++ code') (count + count') =
      lookup table code count + lookup table' code' count' := by
  rw [lookup, sum_range_add]
  congr 1
  · refine sum_congr rfl fun m hm => ?_
    have hm := mem_range.mp hm
    have hentry := UInt8.lt_iff_toNat_lt.mp (nibbleAt_lt code (m / 2) (m % 2 == 1))
    have hnibble : nibbleAt (code ++ code') (m / 2) (m % 2 == 1) =
        nibbleAt code (m / 2) (m % 2 == 1) := by
      rw [nibbleAt, nibbleAt, List.getD_append _ _ _ _ (by omega)]
    rw [entryOf, entryOf, hnibble, List.getD_append _ _ _ _ (by simp at hentry; omega)]
  · refine sum_congr rfl fun m hm => ?_
    have hnibble : nibbleAt (code ++ code') ((count + m) / 2) ((count + m) % 2 == 1) =
        nibbleAt code' (m / 2) (m % 2 == 1) := by
      rw [nibbleAt, nibbleAt, List.getD_append_right _ _ _ _ (by omega)]
      congr 2
      · omega
      · omega
    rw [entryOf, entryOf, hnibble, List.getD_append_right _ _ _ _ (by omega)]
    congr 1
    omega

/-- Tables and codes made of pieces. -/
theorem lookup_flatMap {α : Type} {table : α → List F} {code : α → List UInt8} {count : α → ℕ}
    {pieces : List α} (htable : ∀ piece ∈ pieces, (table piece).length = 16 * count piece)
    (hcode : ∀ piece ∈ pieces, 2 * (code piece).length = count piece) :
    lookup (pieces.flatMap table) (pieces.flatMap code) (pieces.map count).sum =
      (pieces.map fun piece => lookup (table piece) (code piece) (count piece)).sum := by
  induction pieces with
  | nil => rfl
  | cons piece rest ih =>
      rw [List.flatMap_cons, List.flatMap_cons, List.map_cons, List.sum_cons,
        lookup_append (htable piece List.mem_cons_self) (hcode piece List.mem_cons_self),
        ih (fun other hother => htable other (List.mem_cons_of_mem _ hother))
          fun other hother => hcode other (List.mem_cons_of_mem _ hother),
        List.map_cons, List.sum_cons]

end Foundation
