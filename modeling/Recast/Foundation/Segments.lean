import Recast.Foundation.Slice
import Mathlib.Data.List.GetD

/-!
# Segments of a buffer

Pieces that lie in a buffer one after the other, rows that have such pieces each,
and the entries of a list put at scattered places.
-/

namespace Foundation

variable {α β : Type*}

/-- The pieces lie one after the other from `start` on. -/
def Abut (offset size : β → ℕ) : ℕ → List β → Prop
  | _, [] => True
  | start, piece :: rest => offset piece = start ∧ Abut offset size (start + size piece) rest

variable {offset size : β → ℕ} {segment : β → List α}

theorem Abut.congr {size' : β → ℕ} {start : ℕ} {pieces : List β}
    (h : Abut offset size start pieces) (hsize : ∀ piece ∈ pieces, size' piece = size piece) :
    Abut offset size' start pieces := by
  induction pieces generalizing start with
  | nil => trivial
  | cons piece rest ih =>
      obtain ⟨hoffset, hrest⟩ := h
      refine ⟨hoffset, ?_⟩
      rw [hsize piece List.mem_cons_self]
      exact ih hrest fun other hother => hsize other (List.mem_cons_of_mem _ hother)

theorem Abut.of_map {γ : Type*} {f : γ → β} {start : ℕ} {pieces : List γ}
    (h : Abut offset size start (pieces.map f)) :
    Abut (fun piece => offset (f piece)) (fun piece => size (f piece)) start pieces := by
  induction pieces generalizing start with
  | nil => trivial
  | cons piece rest ih => exact ⟨h.1, ih h.2⟩

theorem Abut.end_le {start : ℕ} {pieces : List β} (h : Abut offset size start pieces) {piece : β}
    (hpiece : piece ∈ pieces) : offset piece + size piece ≤ start + (pieces.map size).sum := by
  induction pieces generalizing start with
  | nil => cases hpiece
  | cons first rest ih =>
      obtain ⟨hoffset, hrest⟩ := h
      rw [List.map_cons, List.sum_cons, ← Nat.add_assoc]
      rcases List.mem_cons.mp hpiece with rfl | hpiece
      · omega
      · exact ih hrest hpiece

/-- Overwriting a buffer by all its pieces. -/
theorem foldl_splice_abut {start : ℕ} {pieces : List β}
    (h : Abut offset (fun piece => (segment piece).length) start pieces) {front : List α}
    (hfront : front.length = start) {count : ℕ} (hcount : (pieces.flatMap segment).length = count)
    (fill : α) :
    pieces.foldl (fun buffer piece => splice buffer (offset piece) (segment piece))
      (front ++ List.replicate count fill) = front ++ pieces.flatMap segment := by
  induction pieces generalizing start front count with
  | nil =>
      rw [List.flatMap_nil, List.length_nil] at hcount
      rw [← hcount]
      rfl
  | cons piece rest ih =>
      obtain ⟨hoffset, hrest⟩ := h
      rw [List.flatMap_cons, List.length_append] at hcount
      have hstep : splice (front ++ List.replicate count fill) (offset piece) (segment piece) =
          (front ++ segment piece) ++
            List.replicate (rest.flatMap segment).length fill := by
        rw [splice, hoffset, ← hfront, List.take_left, List.drop_append, List.drop_eq_nil_of_le
          (Nat.le_add_right _ _), List.nil_append, Nat.add_sub_cancel_left, List.drop_replicate]
        congr 2
        omega
      rw [List.foldl_cons, hstep, List.flatMap_cons, ← List.append_assoc]
      exact ih hrest (by rw [List.length_append, hfront]) rfl

/-- A buffer is all its pieces. -/
theorem flatMap_slice_abut {start : ℕ} {pieces : List β} (h : Abut offset size start pieces)
    {buffer : List α} (hlength : buffer.length = start + (pieces.map size).sum) :
    (pieces.flatMap fun piece => slice buffer (offset piece) (size piece)) = buffer.drop start := by
  induction pieces generalizing start with
  | nil =>
      rw [List.map_nil, List.sum_nil] at hlength
      rw [List.flatMap_nil, List.drop_eq_nil_of_le (by omega)]
  | cons piece rest ih =>
      obtain ⟨hoffset, hrest⟩ := h
      rw [List.map_cons, List.sum_cons, ← Nat.add_assoc] at hlength
      rw [List.flatMap_cons, ih hrest hlength, hoffset, slice, ← List.drop_drop,
        List.take_append_drop]

/-! ## Rows -/

/-- Overwriting inside a row. -/
theorem slice_splice_within {buffer : List α} {start count inner : ℕ} {segment : List α}
    (hinner : inner + segment.length ≤ count) (hcount : start + count ≤ buffer.length) :
    slice (splice buffer (start + inner) segment) start count =
      splice (slice buffer start count) inner segment := by
  have hslice : (slice buffer start count).length = count := length_slice_of_le hcount
  apply List.ext_getElem?
  intro i
  rw [getElem?_slice, getElem?_splice (by omega), getElem?_splice (by omega)]
  split
  next hi =>
    by_cases hbefore : i < inner
    · rw [if_pos (by omega), if_pos hbefore, getElem?_slice, if_pos hi]
    · rw [if_neg (by omega), if_neg hbefore]
      by_cases hin : i < inner + segment.length
      · rw [if_pos (by omega), if_pos hin]
        congr 1
        omega
      · rw [if_neg (by omega), if_neg hin, getElem?_slice, if_pos hi]
  next hi =>
    rw [if_neg (by omega), if_neg (by omega), getElem?_slice, if_neg hi]

/-- Overwriting the same range of every row. -/
theorem slice_foldl_splice_rows {buffer : List α} {rows width inner length : ℕ}
    {segment : ℕ → List α} (hsegment : ∀ i, i < rows → (segment i).length = length)
    (hinner : inner + length ≤ width) (hbuffer : buffer.length = rows * width) :
    ((List.range rows).foldl
        (fun buffer i => splice buffer (i * width + inner) (segment i)) buffer).length =
      rows * width ∧
    ∀ i < rows, slice ((List.range rows).foldl
        (fun buffer i => splice buffer (i * width + inner) (segment i)) buffer)
          (i * width) width = splice (slice buffer (i * width) width) inner (segment i) := by
  have hrun (done : ℕ) (hdone : done ≤ rows) :
      ((List.range done).foldl
          (fun buffer i => splice buffer (i * width + inner) (segment i)) buffer).length =
        rows * width ∧
      ∀ i < rows, slice ((List.range done).foldl
          (fun buffer i => splice buffer (i * width + inner) (segment i)) buffer)
            (i * width) width =
          if i < done then splice (slice buffer (i * width) width) inner (segment i)
          else slice buffer (i * width) width := by
    induction done with
    | zero => exact ⟨hbuffer, fun i _ => rfl⟩
    | succ done ih =>
        obtain ⟨hlength, hrows⟩ := ih (by omega)
        have hend := Nat.mul_le_mul_right width hdone
        rw [Nat.succ_mul] at hend
        have hlast := hsegment done (by omega)
        simp only [List.range_succ, List.foldl_append, List.foldl_cons, List.foldl_nil]
        generalize (List.range done).foldl
          (fun buffer i => splice buffer (i * width + inner) (segment i)) buffer = current
          at hlength hrows ⊢
        refine ⟨?_, fun i hi => ?_⟩
        · rw [length_splice_of_le (by omega), hlength]
        · rcases Nat.lt_trichotomy i done with hlt | heq | hgt
          · have hbefore := Nat.mul_le_mul_right width hlt
            rw [Nat.succ_mul] at hbefore
            rw [slice_splice_disjoint (by omega) (.inl (by omega)), hrows i hi, if_pos hlt,
              if_pos (by omega)]
          · subst heq
            rw [slice_splice_within (by omega) (by omega), hrows i hi, if_neg (lt_irrefl i),
              if_pos (Nat.lt_succ_self i)]
          · have hafter := Nat.mul_le_mul_right width hgt
            rw [Nat.succ_mul] at hafter
            rw [slice_splice_disjoint (by omega) (.inr (by omega)), hrows i hi,
              if_neg (by omega), if_neg (by omega)]
  refine ⟨(hrun rows le_rfl).1, fun i hi => ?_⟩
  rw [(hrun rows le_rfl).2 i hi, if_pos hi]

/-! ## Scattered places -/

/-- Put values at places. -/
def setAll (row : List α) (pairs : List (ℕ × α)) : List α :=
  pairs.foldl (fun row pair => row.set pair.1 pair.2) row

@[simp] theorem length_setAll (row : List α) (pairs : List (ℕ × α)) :
    (setAll row pairs).length = row.length := by
  induction pairs generalizing row with
  | nil => rfl
  | cons pair rest ih => exact (ih _).trans List.length_set

theorem setAll_append (row : List α) (pairs pairs' : List (ℕ × α)) :
    setAll row (pairs ++ pairs') = setAll (setAll row pairs) pairs' := List.foldl_append

theorem getD_setAll_of_notMem {places : List ℕ} {values : List α} {i : ℕ} (hi : i ∉ places)
    (row : List α) (default : α) :
    (setAll row (places.zip values)).getD i default = row.getD i default := by
  induction places generalizing row values with
  | nil => rfl
  | cons place rest ih =>
      cases values with
      | nil => rfl
      | cons value values =>
          rw [List.mem_cons, not_or] at hi
          refine (ih hi.2 (row.set place value)).trans ?_
          rw [List.getD_eq_getElem?_getD, List.getD_eq_getElem?_getD,
            List.getElem?_set_ne (Ne.symm hi.1)]

/-- Values put at distinct places are read back there. -/
theorem map_getD_setAll {places : List ℕ} (hdistinct : places.Nodup) {values : List α}
    (hlength : places.length = values.length) {row : List α} (hrange : ∀ i ∈ places, i < row.length)
    (default : α) :
    (places.map fun i => (setAll row (places.zip values)).getD i default) = values := by
  induction places generalizing row values with
  | nil => exact (List.eq_nil_of_length_eq_zero hlength.symm).symm
  | cons place rest ih =>
      cases values with
      | nil => simp at hlength
      | cons value values =>
          obtain ⟨hnot, hrest⟩ := List.nodup_cons.mp hdistinct
          have hset : setAll row ((place :: rest).zip (value :: values)) =
              setAll (row.set place value) (rest.zip values) := rfl
          rw [hset, List.map_cons, getD_setAll_of_notMem hnot,
            ih hrest (Nat.succ_injective hlength) fun i hi => by
              rw [List.length_set]
              exact hrange i (List.mem_cons_of_mem _ hi)]
          rw [List.getD_eq_getElem?_getD, List.getElem?_set_self (hrange place List.mem_cons_self)]
          rfl

end Foundation
