import Recast.Foundation.Updates
import Mathlib.Data.List.Range
import Mathlib.Data.List.Perm.Basic

/-!
# Deletion by swapping with the last entries

Deleting positions of a list by moving its last surviving entries into the
holes. What is left is the surviving entries, in some order.
-/

namespace Foundation

variable {α β : Type*}

/-- The entries at the positions, in the order of the positions. -/
def select (xs : List α) (positions : List Nat) : List α :=
  positions.filterMap (xs[·]?)

theorem select_map (f : α → β) (xs : List α) (positions : List Nat) :
    select (xs.map f) positions = (select xs positions).map f := by
  rw [select, select, List.map_filterMap]
  congr 1
  funext position
  exact List.getElem?_map

theorem select_eq_map {xs : List α} {positions : List Nat} (h : ∀ p ∈ positions, p < xs.length) :
    (select xs positions).map some = positions.map (xs[·]?) := by
  induction positions with
  | nil => rfl
  | cons position rest ih =>
      have hhead := h position List.mem_cons_self
      rw [select, List.filterMap_cons, List.getElem?_eq_getElem hhead, List.map_cons, List.map_cons,
        List.getElem?_eq_getElem hhead]
      congr 1
      exact ih fun p hp => h p (List.mem_cons_of_mem _ hp)

theorem length_select {xs : List α} {positions : List Nat} (h : ∀ p ∈ positions, p < xs.length) :
    (select xs positions).length = positions.length := by
  have := congrArg List.length (select_eq_map h)
  simpa using this

theorem getElem?_select {xs : List α} {positions : List Nat} (h : ∀ p ∈ positions, p < xs.length)
    (i : Nat) : (select xs positions)[i]? = positions[i]?.bind (xs[·]?) := by
  have := congrArg (·[i]?) (select_eq_map h)
  simp only [List.getElem?_map] at this
  cases hposition : positions[i]? with
  | none =>
      rw [hposition] at this
      cases hselect : (select xs positions)[i]? with
      | none => rfl
      | some x => simp [hselect] at this
  | some position =>
      have hlt := h position (List.mem_of_getElem? hposition)
      rw [hposition] at this
      cases hselect : (select xs positions)[i]? with
      | none => simp [hselect] at this
      | some x => simpa [hselect] using this

theorem select_append (xs ys : List α) {positions : List Nat} (h : ∀ p ∈ positions, p < xs.length) :
    select (xs ++ ys) positions = select xs positions := by
  apply List.filterMap_congr
  intro p hp
  exact List.getElem?_append_left (h p hp)

/-- Reading the positions of pairs whose second entries are known. -/
theorem map_select_fst {f : α → β} {xs : List α} {pairs : List (Nat × β)}
    (h : ∀ pair ∈ pairs, (xs[pair.1]?).map f = some pair.2) :
    (select xs (pairs.map Prod.fst)).map f = pairs.map Prod.snd := by
  induction pairs with
  | nil => rfl
  | cons pair rest ih =>
      obtain ⟨x, hx, hfx⟩ := Option.map_eq_some_iff.mp (h pair List.mem_cons_self)
      rw [List.map_cons, select, List.filterMap_cons, hx, List.map_cons, List.map_cons, hfx, ← select,
        ih fun pair' hpair' => h pair' (List.mem_cons_of_mem _ hpair')]

/-- The deleted positions a survivor has to fill. -/
def holes (newSize : Nat) (deleted : List Nat) : List Nat :=
  deleted.filter (· < newSize)

/-- The surviving positions past the new end, the last one first. -/
def sources (oldSize newSize : Nat) (deleted : List Nat) : List Nat :=
  (List.range' newSize (oldSize - newSize)).reverse.filter (· ∉ deleted)

/-- Which old position each new position is filled from. -/
def survivors (oldSize : Nat) (deleted : List Nat) : List Nat :=
  let newSize := oldSize - deleted.length
  (List.range newSize).map
    (applyUpdates id ((holes newSize deleted).zip (sources oldSize newSize deleted)))

/-- Delete the positions, filling the holes from the end. -/
def swapDelete (xs : List α) (deleted : List Nat) : List α :=
  select xs (survivors xs.length deleted)

theorem mem_holes {newSize position : Nat} {deleted : List Nat} :
    position ∈ holes newSize deleted ↔ position ∈ deleted ∧ position < newSize := by
  simp [holes]

theorem mem_sources {oldSize newSize position : Nat} {deleted : List Nat} :
    position ∈ sources oldSize newSize deleted ↔
      (newSize ≤ position ∧ position < oldSize) ∧ position ∉ deleted := by
  simp only [sources, List.mem_filter, List.mem_reverse, List.mem_range'_1, decide_not,
    Bool.not_eq_eq_eq_not, Bool.not_true, decide_eq_false_iff_not]
  constructor
  · rintro ⟨⟨h, h'⟩, hnot⟩
    exact ⟨⟨h, by omega⟩, hnot⟩
  · rintro ⟨⟨h, h'⟩, hnot⟩
    exact ⟨⟨h, by omega⟩, hnot⟩

theorem nodup_sources (oldSize newSize : Nat) (deleted : List Nat) :
    (sources oldSize newSize deleted).Nodup :=
  (List.nodup_reverse.mpr List.nodup_range').filter _

section Counting

variable {oldSize : Nat} {deleted : List Nat}

/-- A nodup list of positions in a range, and the rest of the range. -/
theorem perm_range'_split {first count : Nat} (hnodup : deleted.Nodup)
    (hin : ∀ p ∈ deleted, first ≤ p ∧ p < first + count) :
    ((List.range' first count).filter (· ∉ deleted) ++ deleted).Perm (List.range' first count) := by
  rw [List.perm_ext_iff_of_nodup]
  · intro p
    simp only [List.mem_append, List.mem_filter, List.mem_range'_1, decide_not,
      Bool.not_eq_eq_eq_not, Bool.not_true, decide_eq_false_iff_not]
    constructor
    · rintro (⟨h, -⟩ | h)
      · exact h
      · exact hin p h
    · intro h
      by_cases hp : p ∈ deleted
      · exact Or.inr hp
      · exact Or.inl ⟨h, hp⟩
  · rw [List.nodup_append]
    refine ⟨List.Nodup.filter _ List.nodup_range', hnodup, fun p hp q hq => ?_⟩
    rintro rfl
    simp only [List.mem_filter, decide_not, Bool.not_eq_eq_eq_not, Bool.not_true,
      decide_eq_false_iff_not] at hp
    exact hp.2 hq
  · exact List.nodup_range'

theorem length_deleted_le (hnodup : deleted.Nodup) (hin : ∀ p ∈ deleted, p < oldSize) :
    deleted.length ≤ oldSize := by
  have hsplit := (perm_range'_split hnodup (fun p hp => ⟨Nat.zero_le p, by
    rw [Nat.zero_add]
    exact hin p hp⟩)).length_eq
  rw [List.length_append, List.length_range'] at hsplit
  omega

/-- There are as many sources as holes. -/
theorem length_holes_eq_sources (hnodup : deleted.Nodup) (hin : ∀ p ∈ deleted, p < oldSize) :
    (holes (oldSize - deleted.length) deleted).length =
      (sources oldSize (oldSize - deleted.length) deleted).length := by
  have hle := length_deleted_le hnodup hin
  have hparts := (List.filter_append_perm (fun p => decide (p < oldSize - deleted.length))
    deleted).length_eq
  have hsplit := (perm_range'_split (hnodup.filter fun p => !decide (p < oldSize - deleted.length))
    (fun p hp => by
      simp only [List.mem_filter, Bool.not_eq_eq_eq_not, Bool.not_true,
        decide_eq_false_iff_not] at hp
      have := hin p hp.1
      exact ⟨Nat.not_lt.mp hp.2, (by omega : p < oldSize - deleted.length + deleted.length)⟩)).length_eq
  have hrest : (List.range' (oldSize - deleted.length) deleted.length).filter
      (· ∉ deleted.filter fun p => !decide (p < oldSize - deleted.length)) =
      (List.range' (oldSize - deleted.length) deleted.length).filter (· ∉ deleted) := by
    apply List.filter_congr
    intro p hp
    rw [List.mem_range'_1] at hp
    have : ¬ p < oldSize - deleted.length := by omega
    simp [this]
  have hcount : oldSize - (oldSize - deleted.length) = deleted.length := by omega
  rw [hrest, List.length_append, List.length_range'] at hsplit
  rw [List.length_append] at hparts
  rw [holes, sources, hcount, List.filter_reverse, List.length_reverse]
  omega

/-- Deletion keeps exactly the positions that are not deleted. -/
theorem survivors_perm (hnodup : deleted.Nodup) (hin : ∀ p ∈ deleted, p < oldSize) :
    (survivors oldSize deleted).Perm ((List.range oldSize).filter (· ∉ deleted)) := by
  have hle := length_deleted_le hnodup hin
  have hholes : (holes (oldSize - deleted.length) deleted).Nodup := hnodup.filter _
  have hlength := length_holes_eq_sources hnodup hin
  have hsplit := perm_range'_split hholes (fun p hp => ⟨Nat.zero_le p, by
    rw [Nat.zero_add]
    exact (mem_holes.mp hp).2⟩)
  rw [← List.range_eq_range'] at hsplit
  have hmapped := hsplit.map (applyUpdates id ((holes (oldSize - deleted.length) deleted).zip
    (sources oldSize (oldSize - deleted.length) deleted)))
  rw [List.map_append, map_applyUpdates_zip id hholes hlength] at hmapped
  refine hmapped.symm.trans ?_
  have hkeys := List.map_fst_zip (Nat.le_of_eq hlength)
  have hkept : ((List.range (oldSize - deleted.length)).filter
      (· ∉ holes (oldSize - deleted.length) deleted)).map
        (applyUpdates id ((holes (oldSize - deleted.length) deleted).zip
          (sources oldSize (oldSize - deleted.length) deleted))) =
      (List.range (oldSize - deleted.length)).filter (· ∉ deleted) := by
    have hid : ∀ p ∈ (List.range (oldSize - deleted.length)).filter
        (· ∉ holes (oldSize - deleted.length) deleted),
        applyUpdates id ((holes (oldSize - deleted.length) deleted).zip
          (sources oldSize (oldSize - deleted.length) deleted)) p = id p := by
      intro p hp
      apply applyUpdates_of_notMem
      rw [hkeys]
      simpa using (List.mem_filter.mp hp).2
    rw [List.map_congr_left hid, List.map_id]
    apply List.filter_congr
    intro p hp
    rw [List.mem_range] at hp
    simp [mem_holes, hp]
  have hsources : (sources oldSize (oldSize - deleted.length) deleted).Perm
      ((List.range' (oldSize - deleted.length) deleted.length).filter (· ∉ deleted)) := by
    have hcount : oldSize - (oldSize - deleted.length) = deleted.length := by omega
    rw [sources, hcount, List.filter_reverse]
    exact List.reverse_perm _
  rw [hkept]
  refine (hsources.append_left _).trans (.of_eq ?_)
  have hrange : List.range oldSize = List.range (oldSize - deleted.length) ++
      List.range' (oldSize - deleted.length) deleted.length := by
    have happend := @List.range'_append_1 0 (oldSize - deleted.length) deleted.length
    rw [Nat.zero_add, Nat.sub_add_cancel hle] at happend
    rw [List.range_eq_range', List.range_eq_range', happend]
  rw [hrange, List.filter_append]

theorem survivors_lt (hnodup : deleted.Nodup) (hin : ∀ p ∈ deleted, p < oldSize) :
    ∀ p ∈ survivors oldSize deleted, p < oldSize ∧ p ∉ deleted := by
  intro p hp
  have := (survivors_perm hnodup hin).mem_iff.mp hp
  simpa using this

theorem length_survivors (oldSize : Nat) (deleted : List Nat) :
    (survivors oldSize deleted).length = oldSize - deleted.length := by
  simp [survivors]

end Counting

section Lists

variable {xs : List α} {deleted : List Nat}

theorem swapDelete_map (f : α → β) (xs : List α) (deleted : List Nat) :
    swapDelete (xs.map f) deleted = (swapDelete xs deleted).map f := by
  rw [swapDelete, List.length_map, select_map, swapDelete]

theorem length_swapDelete (hnodup : deleted.Nodup) (hin : ∀ p ∈ deleted, p < xs.length) :
    (swapDelete xs deleted).length = xs.length - deleted.length := by
  rw [swapDelete, length_select fun p hp => (survivors_lt hnodup hin p hp).1, length_survivors]

/-- The entry at each new position is an old entry, moved or in place. -/
theorem getElem?_swapDelete (hnodup : deleted.Nodup) (hin : ∀ p ∈ deleted, p < xs.length)
    {i : Nat} (hi : i < xs.length - deleted.length) :
    (swapDelete xs deleted)[i]? =
      xs[applyUpdates id ((holes (xs.length - deleted.length) deleted).zip
        (sources xs.length (xs.length - deleted.length) deleted)) i]? := by
  rw [swapDelete, getElem?_select fun p hp => (survivors_lt hnodup hin p hp).1, survivors,
    List.getElem?_map, List.getElem?_range hi]
  rfl

/-- What is left is the entries that were not deleted. -/
theorem swapDelete_perm (hnodup : deleted.Nodup) (hin : ∀ p ∈ deleted, p < xs.length) :
    (swapDelete xs deleted).Perm (select xs ((List.range xs.length).filter (· ∉ deleted))) :=
  (survivors_perm hnodup hin).filterMap _

theorem mem_select {positions : List Nat} {x : α} :
    x ∈ select xs positions ↔ ∃ p ∈ positions, xs[p]? = some x :=
  List.mem_filterMap

theorem mem_swapDelete (hnodup : deleted.Nodup) (hin : ∀ p ∈ deleted, p < xs.length) {x : α} :
    x ∈ swapDelete xs deleted ↔ ∃ p, p ∉ deleted ∧ xs[p]? = some x := by
  rw [(swapDelete_perm hnodup hin).mem_iff, mem_select]
  constructor
  · rintro ⟨p, hp, hx⟩
    exact ⟨p, by simpa using (List.mem_filter.mp hp).2, hx⟩
  · rintro ⟨p, hp, hx⟩
    have := (List.getElem?_eq_some_iff.mp hx).1
    exact ⟨p, by simp [hp, this], hx⟩

/-- Deleting the positions from `count` on leaves the entries before them in place. -/
theorem swapDelete_suffix (xs : List α) {deleted : List Nat} {count : Nat} (hnodup : deleted.Nodup)
    (hle : count ≤ xs.length) (h : ∀ p, p ∈ deleted ↔ count ≤ p ∧ p < xs.length) :
    swapDelete xs deleted = xs.take count := by
  have hlength : deleted.length = xs.length - count := by
    have hperm : deleted.Perm (List.range' count (xs.length - count)) :=
      (List.perm_ext_iff_of_nodup hnodup List.nodup_range').mpr fun p => by
        rw [h, List.mem_range'_1, Nat.add_sub_cancel' hle]
    rw [hperm.length_eq, List.length_range']
  have hnew : xs.length - deleted.length = count := by omega
  have hholes : holes count deleted = [] := by
    rw [holes, List.filter_eq_nil_iff]
    intro p hp
    simpa using ((h p).mp hp).1
  have hsurvivors : survivors xs.length deleted = List.range count := by
    rw [survivors, hnew, hholes, List.zip_nil_left, applyUpdates_nil, List.map_id]
  rw [swapDelete, hsurvivors]
  have hin : ∀ p ∈ List.range count, p < xs.length := fun p hp => by
    have := List.mem_range.mp hp
    omega
  apply List.ext_getElem?
  intro i
  rw [getElem?_select hin, List.getElem?_take]
  split
  next hi => rw [List.getElem?_range hi, Option.bind_some]
  next hi => rw [List.getElem?_eq_none (by rw [List.length_range]; omega), Option.bind_none]

end Lists

end Foundation
