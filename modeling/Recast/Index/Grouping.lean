import Recast.Storage.File
import Recast.Foundation.Positions
import Mathlib.Logic.Function.Basic

/-!
# Grouping a batch by list

The stable counting sort of a batch: one histogram, one prefix sum, one pass
that places every input position in the segment of its list.
-/

namespace Recast

open Foundation

/-- `ListBatchPlan`: segment `[offsets l, offsets (l + 1))` of `order` holds the
input positions of list `l`. -/
structure ListBatchPlan where
  offsets : Nat → Nat
  order : Nat → Nat
  touchedLists : List Nat

namespace ListBatchPlan

/-- Count each assignment one slot past its list. -/
def countLists (nlist : Nat) : List Nat → (Nat → Nat) → Except Error (Nat → Nat)
  | [], offsets => .ok offsets
  | listNo :: rest, offsets =>
      if nlist ≤ listNo then
        .error (.invalidArgument "batch contains an invalid IVF list number")
      else countLists nlist rest
        (Function.update offsets (listNo + 1) (offsets (listNo + 1) + 1))

/-- Turn the counts into prefix sums and collect the lists with a count. List
numbers are cast to 32 bits. -/
def sumOffsets : List Nat → (Nat → Nat) × List Nat → Except Error ((Nat → Nat) × List Nat)
  | [], state => .ok state
  | listNo :: rest, (offsets, touched) =>
      let sum := offsets listNo + offsets (listNo + 1)
      if sizeMax < sum then .error (.overflow "batch grouping prefix sum overflows") else
      let offsets := Function.update offsets (listNo + 1) sum
      sumOffsets rest (offsets,
        if offsets listNo ≠ offsets (listNo + 1) then touched ++ [listNo % 2 ^ 32] else touched)

/-- Place the input positions, starting at position `input`. -/
def placeInputs : List Nat → Nat → (Nat → Nat) × (Nat → Nat) → (Nat → Nat)
  | [], _, (_, order) => order
  | listNo :: rest, input, (cursors, order) =>
      placeInputs rest (input + 1)
        (Function.update cursors listNo (cursors listNo + 1),
          Function.update order (cursors listNo) input)

end ListBatchPlan

/-- `group_by_list`. -/
def groupByList (assignments : List Nat) (nlist : Nat) : Except Error ListBatchPlan := do
  let counts ← ListBatchPlan.countLists nlist assignments fun _ => 0
  let (offsets, touchedLists) ← ListBatchPlan.sumOffsets (List.range nlist) (counts, [])
  return ⟨offsets, ListBatchPlan.placeInputs assignments 0 (offsets, fun _ => 0), touchedLists⟩

namespace ListBatchPlan

/-- The input positions of a list, in the order of the plan. -/
def segment (plan : ListBatchPlan) (listNo : Nat) : List Nat :=
  (List.range' (plan.offsets listNo) (plan.offsets (listNo + 1) - plan.offsets listNo)).map plan.order

/-! ### The three passes -/

variable {nlist : Nat} {assignments : List Nat}

theorem countLists_ok {offsets : Nat → Nat} (h : ∀ listNo ∈ assignments, listNo < nlist) :
    ∃ counts, countLists nlist assignments offsets = .ok counts ∧ counts 0 = offsets 0 ∧
      ∀ listNo, counts (listNo + 1) = offsets (listNo + 1) + assignments.count listNo := by
  induction assignments generalizing offsets with
  | nil => exact ⟨offsets, rfl, rfl, by simp⟩
  | cons listNo rest ih =>
      obtain ⟨counts, hcounts, hzero, hcount⟩ := @ih
        (Function.update offsets (listNo + 1) (offsets (listNo + 1) + 1))
        (fun listNo h' => h listNo (List.mem_cons_of_mem _ h'))
      refine ⟨counts, ?_, ?_, fun other => ?_⟩
      · rw [countLists, if_neg (Nat.not_le.mpr (h listNo List.mem_cons_self)), hcounts]
      · rw [hzero, Function.update_of_ne (by omega)]
      · rw [hcount, List.count_cons]
        by_cases heq : other = listNo
        · subst heq
          rw [Function.update_self]
          simp
          omega
        · have hne : (listNo == other) = false := beq_eq_false_iff_ne.mpr (Ne.symm heq)
          rw [Function.update_of_ne (by omega), hne]
          simp

theorem countLists_error {offsets : Nat → Nat} (h : ∃ listNo ∈ assignments, nlist ≤ listNo) :
    countLists nlist assignments offsets =
      .error (.invalidArgument "batch contains an invalid IVF list number") := by
  induction assignments generalizing offsets with
  | nil => simp at h
  | cons listNo rest ih =>
      rw [countLists]
      split
      next => rfl
      next hlt =>
        apply ih
        obtain ⟨other, hmem, hge⟩ := h
        rcases List.mem_cons.mp hmem with rfl | hrest
        · exact absurd hge hlt
        · exact ⟨other, hrest, hge⟩

/-- How many assignments go to lists below `listNo`. -/
def below (assignments : List Nat) (listNo : Nat) : Nat :=
  ∑ l ∈ Finset.range listNo, assignments.count l

theorem below_succ (assignments : List Nat) (listNo : Nat) :
    below assignments (listNo + 1) = below assignments listNo + assignments.count listNo :=
  Finset.sum_range_succ _ _

theorem below_mono {listNo listNo' : Nat} (h : listNo ≤ listNo') :
    below assignments listNo ≤ below assignments listNo' :=
  Finset.sum_le_sum_of_subset (Finset.range_subset_range.mpr h)

/-- The lists an assignment touches, each cast to 32 bits. -/
def touched (assignments : List Nat) (nlist : Nat) : List Nat :=
  ((List.range nlist).filter fun listNo => assignments.count listNo ≠ 0).map (· % 2 ^ 32)

theorem sumOffsets_ok (hfits : ∀ listNo ≤ nlist, below assignments listNo ≤ sizeMax) :
    ∀ count ≤ nlist, ∀ offsets touchedLists, (∀ listNo ≤ nlist - count,
        offsets listNo = below assignments listNo) →
      (∀ listNo, nlist - count ≤ listNo → listNo < nlist →
        offsets (listNo + 1) = assignments.count listNo) →
      ∃ sums, sumOffsets (List.range' (nlist - count) count) (offsets, touchedLists) =
          .ok (sums, touchedLists ++ ((List.range' (nlist - count) count).filter
            fun listNo => assignments.count listNo ≠ 0).map (· % 2 ^ 32)) ∧
        ∀ listNo ≤ nlist, sums listNo = below assignments listNo := by
  -- the code sums in place: entries up to the cursor are sums, later ones still counts
  intro count
  induction count with
  | zero =>
      intro _ offsets touchedLists hdone _
      exact ⟨offsets, by simp [sumOffsets], fun listNo h => hdone listNo (by omega)⟩
  | succ count ih =>
      intro hcount offsets touchedLists hdone hrest
      have hnext : nlist - (count + 1) + 1 = nlist - count := by omega
      have hsum : offsets (nlist - (count + 1)) + offsets (nlist - (count + 1) + 1) =
          below assignments (nlist - (count + 1) + 1) := by
        rw [hdone _ (Nat.le_refl _), hrest _ (Nat.le_refl _) (by omega), below_succ]
      have hle := hfits (nlist - (count + 1) + 1) (by omega)
      rw [List.range'_succ, sumOffsets]
      dsimp only
      rw [hsum, if_neg (by omega), hnext]
      have hself : Function.update offsets (nlist - count) (below assignments (nlist - count))
          (nlist - (count + 1)) = below assignments (nlist - (count + 1)) := by
        rw [Function.update_of_ne (by omega), hdone _ (Nat.le_refl _)]
      have hchange : below assignments (nlist - (count + 1)) ≠ below assignments (nlist - count) ↔
          assignments.count (nlist - (count + 1)) ≠ 0 := by
        rw [← hnext, below_succ]
        omega
      obtain ⟨sums, hsums, hall⟩ := ih (by omega)
        (Function.update offsets (nlist - count) (below assignments (nlist - count)))
        (if assignments.count (nlist - (count + 1)) ≠ 0 then
          touchedLists ++ [(nlist - (count + 1)) % 2 ^ 32] else touchedLists)
        (fun listNo h => by
          by_cases heq : listNo = nlist - count
          · rw [heq, Function.update_self]
          · rw [Function.update_of_ne heq, hdone listNo (by omega)])
        (fun listNo h h' => by
          rw [Function.update_of_ne (by omega), hrest listNo (by omega) h'])
      refine ⟨sums, ?_, hall⟩
      rw [hself, Function.update_self]
      simp only [hchange]
      rw [hsums]
      by_cases hzero : assignments.count (nlist - (count + 1)) = 0
      · simp [hzero]
      · simp [hzero]

/-- Segments of different lists do not overlap. -/
theorem below_add_ne {listNo other k k' : Nat} (hne : listNo ≠ other)
    (hk : k < assignments.count listNo) (hk' : k' < assignments.count other) :
    below assignments listNo + k ≠ below assignments other + k' := by
  have hlist := below_succ assignments listNo
  have hother := below_succ assignments other
  rcases Nat.lt_or_gt_of_ne hne with h | h
  · have := @below_mono assignments (listNo + 1) other h
    omega
  · have := @below_mono assignments (other + 1) listNo h
    omega

/-- The placement pass; `placed` is the part of the batch it has gone through. -/
theorem placeInputs_spec {rest placed : List Nat} (hsplit : assignments = placed ++ rest)
    {cursors order : Nat → Nat}
    (hcursors : ∀ listNo, listNo ∈ rest →
      cursors listNo = below assignments listNo + placed.count listNo)
    (horder : ∀ listNo k p, (positionsOf listNo placed)[k]? = some p →
      order (below assignments listNo + k) = p) :
    ∀ listNo k p, (positionsOf listNo assignments)[k]? = some p →
      placeInputs rest placed.length (cursors, order) (below assignments listNo + k) = p := by
  -- a cursor stands one past the inputs of its list placed so far
  induction rest generalizing placed cursors order with
  | nil =>
      rw [List.append_nil] at hsplit
      subst hsplit
      exact horder
  | cons current rest ih =>
      have hnext : (placed ++ [current]).length = placed.length + 1 := List.length_append
      rw [placeInputs, ← hnext]
      have hroom : placed.count current < assignments.count current := by
        rw [hsplit, List.count_append, List.count_cons_self]
        omega
      apply ih
      · rw [hsplit, List.append_assoc, List.singleton_append]
      · intro listNo hmem
        have hcurrent := hcursors current List.mem_cons_self
        rw [List.count_append, List.count_singleton]
        by_cases heq : listNo = current
        · subst heq
          rw [Function.update_self, hcurrent]
          simp
          omega
        · have hne : (current == listNo) = false := beq_eq_false_iff_ne.mpr (Ne.symm heq)
          rw [Function.update_of_ne heq, hcursors listNo (List.mem_cons_of_mem _ hmem), hne]
          simp
      · intro listNo k p hp
        rw [hcursors current List.mem_cons_self]
        rw [positionsOf_concat] at hp
        have hcount := length_positionsOf listNo placed
        by_cases hk : k < (positionsOf listNo placed).length
        · rw [List.getElem?_append_left hk] at hp
          have hother : below assignments listNo + k ≠
              below assignments current + placed.count current := by
            by_cases heq : listNo = current
            · subst heq
              omega
            · apply below_add_ne heq _ hroom
              rw [hsplit, List.count_append]
              omega
          rw [Function.update_of_ne hother]
          exact horder listNo k p hp
        · rw [List.getElem?_append_right (by omega)] at hp
          by_cases heq : current = listNo
          · subst heq
            rw [if_pos rfl] at hp
            have hzero : k - (positionsOf current placed).length = 0 := by
              have := (List.getElem?_eq_some_iff.mp hp).1
              rw [List.length_singleton] at this
              omega
            rw [hzero] at hp
            have hk' : k = placed.count current := by omega
            rw [hk', Function.update_self]
            simpa using hp
          · rw [if_neg heq] at hp
            simp at hp

end ListBatchPlan

open ListBatchPlan in
/-- Grouping is a stable counting sort: each segment holds the positions of its
list in input order. -/
theorem groupByList_ok {assignments : List Nat} {nlist : Nat}
    (h : ∀ listNo ∈ assignments, listNo < nlist) (hfits : assignments.length ≤ sizeMax) :
    ∃ plan, groupByList assignments nlist = .ok plan ∧
      plan.touchedLists = touched assignments nlist ∧
      (∀ listNo ≤ nlist, plan.offsets listNo = below assignments listNo) ∧
      ∀ listNo < nlist, plan.segment listNo = positionsOf listNo assignments := by
  obtain ⟨counts, hcounts, hzero, hcount⟩ := @countLists_ok nlist assignments (fun _ => 0) h
  have hbelow : ∀ listNo ≤ nlist, below assignments listNo ≤ sizeMax := by
    intro listNo hle
    have := sum_count_eq_length h
    have := @below_mono assignments listNo nlist hle
    unfold below at *
    omega
  obtain ⟨sums, hsums, hall⟩ := sumOffsets_ok hbelow nlist (Nat.le_refl _) counts []
    (fun listNo hle => by
      rw [Nat.sub_self, Nat.le_zero] at hle
      rw [hle, hzero, below]
      simp)
    (fun listNo _ _ => by rw [hcount, Nat.zero_add])
  rw [Nat.sub_self, ← List.range_eq_range', List.nil_append] at hsums
  refine ⟨⟨sums, placeInputs assignments 0 (sums, fun _ => 0), touched assignments nlist⟩, ?_, rfl,
    hall, ?_⟩
  · rw [groupByList, hcounts, ok_bind, hsums, ok_bind]
    rfl
  · intro listNo hlt
    have hplaced := @placeInputs_spec assignments assignments [] rfl sums (fun _ => 0)
      (fun listNo hmem => by
        rw [List.count_nil, Nat.add_zero]
        exact hall listNo (Nat.le_of_lt (h listNo hmem)))
      (fun listNo k p hp => by simp at hp)
    have hsize := length_positionsOf listNo assignments
    have hsegment := below_succ assignments listNo
    rw [ListBatchPlan.segment]
    dsimp only
    rw [hall _ (by omega), hall _ hlt, hsegment, Nat.add_sub_cancel_left]
    apply List.ext_getElem
    · rw [List.length_map, List.length_range', hsize]
    · intro k _ hk
      rw [List.getElem_map, List.getElem_range', Nat.one_mul]
      exact hplaced listNo k _ (List.getElem?_eq_getElem hk)

/-- The touched lists of a batch of 32-bit assignments. -/
theorem ListBatchPlan.mem_touched {assignments : List Nat} {nlist listNo : Nat}
    (h : ∀ listNo ∈ assignments, listNo < nlist) (h32 : ∀ listNo ∈ assignments, listNo < 2 ^ 32) :
    listNo ∈ touched assignments nlist ↔ listNo ∈ assignments := by
  simp only [touched, List.mem_map, List.mem_filter, List.mem_range, decide_eq_true_eq, ne_eq,
    List.count_eq_zero, not_not]
  constructor
  · rintro ⟨other, ⟨_, hmem⟩, rfl⟩
    rwa [Nat.mod_eq_of_lt (h32 other hmem)]
  · intro hmem
    exact ⟨listNo, ⟨h listNo hmem, hmem⟩, Nat.mod_eq_of_lt (h32 listNo hmem)⟩

theorem ListBatchPlan.nodup_touched {assignments : List Nat} {nlist : Nat}
    (h32 : ∀ listNo ∈ assignments, listNo < 2 ^ 32) : (touched assignments nlist).Nodup := by
  apply List.Nodup.map_on _ (List.nodup_range.filter _)
  intro first hfirst second hsecond heq
  simp only [List.mem_filter, decide_eq_true_eq, ne_eq, List.count_eq_zero, not_not]
    at hfirst hsecond
  rwa [Nat.mod_eq_of_lt (h32 first hfirst.2), Nat.mod_eq_of_lt (h32 second hsecond.2)] at heq

theorem groupByList_error {assignments : List Nat} {nlist : Nat}
    (h : ∃ listNo ∈ assignments, nlist ≤ listNo) :
    groupByList assignments nlist =
      .error (.invalidArgument "batch contains an invalid IVF list number") := by
  rw [groupByList, ListBatchPlan.countLists_error h, error_bind]

/-- Over 32-bit assignments the cast of the list numbers changes nothing. -/
theorem ListBatchPlan.touched_eq_filter {assignments : List Nat} {nlist : Nat}
    (h32 : ∀ listNo ∈ assignments, listNo < 2 ^ 32) :
    touched assignments nlist =
      (List.range nlist).filter fun listNo => assignments.count listNo ≠ 0 := by
  rw [touched]
  conv_rhs => rw [← List.map_id ((List.range nlist).filter _)]
  apply List.map_congr_left
  intro listNo hmem
  have hcount := (List.mem_filter.mp hmem).2
  simp only [ne_eq, List.count_eq_zero, not_not, decide_eq_true_eq] at hcount
  exact Nat.mod_eq_of_lt (h32 listNo hcount)

/-- Every input position has a place in the order of the plan. -/
theorem ListBatchPlan.position_placed {assignments : List Nat} {nlist : Nat} {plan : ListBatchPlan}
    (h : ∀ listNo ∈ assignments, listNo < nlist)
    (hoffsets : ∀ listNo ≤ nlist, plan.offsets listNo = below assignments listNo)
    (hsegment : ∀ listNo < nlist, plan.segment listNo = positionsOf listNo assignments)
    {p : Nat} (hp : p < assignments.length) :
    p ∈ (List.range assignments.length).map plan.order := by
  have hlist : assignments[p] < nlist := h _ (List.getElem_mem hp)
  have hmem : p ∈ plan.segment assignments[p] := by
    rw [hsegment _ hlist, mem_positionsOf]
    exact List.getElem?_eq_getElem hp
  obtain ⟨k, hk, horder⟩ := List.mem_map.mp hmem
  have hrange := List.mem_range'_1.mp hk
  have hlength : below assignments nlist = assignments.length := sum_count_eq_length h
  have hmono : plan.offsets (assignments[p] + 1) ≤ assignments.length := by
    rw [hoffsets _ hlist, ← hlength]
    exact below_mono hlist
  have hstart : plan.offsets assignments[p] ≤ plan.offsets (assignments[p] + 1) := by
    rw [hoffsets _ hlist, hoffsets _ (Nat.le_of_lt hlist)]
    exact below_mono (Nat.le_succ _)
  exact List.mem_map.mpr ⟨k, List.mem_range.mpr (by omega), horder⟩

/-- The order of a plan lists every input position once. -/
theorem ListBatchPlan.order_perm {assignments : List Nat} {nlist : Nat} {plan : ListBatchPlan}
    (h : ∀ listNo ∈ assignments, listNo < nlist)
    (hoffsets : ∀ listNo ≤ nlist, plan.offsets listNo = below assignments listNo)
    (hsegment : ∀ listNo < nlist, plan.segment listNo = positionsOf listNo assignments) :
    ((List.range assignments.length).map plan.order).Perm (List.range assignments.length) := by
  have hsubset : List.range assignments.length ⊆
      (List.range assignments.length).map plan.order := fun p hp =>
    position_placed h hoffsets hsegment (List.mem_range.mp hp)
  have hsubperm := List.subperm_of_subset List.nodup_range hsubset
  apply (hsubperm.perm_of_length_le _).symm
  rw [List.length_map]

/-- `group_by_list` sorts a batch stably by list and reports the lists it
touches, or throws when some assignment is out of range. -/
theorem batch_grouping_stable (nlist : Nat) (assignments : List UInt32)
    (hsize : assignments.length ≤ sizeMax) :
    ((∀ listNo ∈ assignments, listNo.toNat < nlist) →
      ∃ plan, groupByList (assignments.map (·.toNat)) nlist = .ok plan ∧
        ((List.range assignments.length).map plan.order).Perm (List.range assignments.length) ∧
        plan.offsets 0 = 0 ∧ plan.offsets nlist = assignments.length ∧
        (∀ listNo < nlist, plan.offsets listNo ≤ plan.offsets (listNo + 1) ∧
          (plan.segment listNo).Pairwise (· < ·) ∧
          ∀ p, p ∈ plan.segment listNo ↔ assignments[p]?.map (·.toNat) = some listNo) ∧
        plan.touchedLists.Pairwise (· < ·) ∧
        ∀ listNo, listNo ∈ plan.touchedLists ↔
          listNo < nlist ∧ plan.offsets listNo < plan.offsets (listNo + 1)) ∧
    ((∃ listNo ∈ assignments, nlist ≤ listNo.toNat) →
      groupByList (assignments.map (·.toNat)) nlist =
        .error (.invalidArgument "batch contains an invalid IVF list number")) := by
  constructor
  · intro hvalid
    have h : ∀ listNo ∈ assignments.map (·.toNat), listNo < nlist :=
      List.forall_mem_map.mpr hvalid
    have h32 : ∀ listNo ∈ assignments.map (·.toNat), listNo < 2 ^ 32 :=
      List.forall_mem_map.mpr fun listNo _ => listNo.toNat_lt
    obtain ⟨plan, hplan, htouched, hoffsets, hsegment⟩ :=
      groupByList_ok h (by rwa [List.length_map])
    have hperm := ListBatchPlan.order_perm h hoffsets hsegment
    rw [List.length_map] at hperm
    refine ⟨plan, hplan, hperm, ?_, ?_, ?_, ?_, ?_⟩
    · rw [hoffsets 0 (Nat.zero_le _), ListBatchPlan.below, Finset.range_zero, Finset.sum_empty]
    · rw [hoffsets nlist (Nat.le_refl _), ListBatchPlan.below, sum_count_eq_length h,
        List.length_map]
    · intro listNo hlt
      rw [hoffsets _ (Nat.le_of_lt hlt), hoffsets _ hlt, hsegment _ hlt]
      refine ⟨ListBatchPlan.below_mono (Nat.le_succ _), ?_, fun p => ?_⟩
      · exact List.pairwise_lt_range.filter _
      · rw [mem_positionsOf, List.getElem?_map]
    · rw [htouched, ListBatchPlan.touched_eq_filter h32]
      exact List.pairwise_lt_range.filter _
    · intro listNo
      rw [htouched, ListBatchPlan.touched_eq_filter h32, List.mem_filter, List.mem_range]
      apply and_congr_right
      intro hlt
      rw [hoffsets _ (Nat.le_of_lt hlt), hoffsets _ hlt, ListBatchPlan.below_succ]
      simp only [ne_eq, decide_eq_true_eq]
      omega
  · rintro ⟨listNo, hmem, hge⟩
    exact groupByList_error ⟨listNo.toNat, List.mem_map_of_mem hmem, hge⟩

theorem batch_grouping_stable_three :
    [2, 0, 2].length ≤ sizeMax ∧ ∃ plan, groupByList [2, 0, 2] 3 = .ok plan ∧
      plan.offsets 3 = 3 := by
  have hsize : ([2, 0, 2] : List UInt32).length ≤ sizeMax := by decide
  obtain ⟨plan, hplan, -, -, hlast, -⟩ := (batch_grouping_stable 3 [2, 0, 2] hsize).1 (by simp)
  exact ⟨hsize, plan, hplan, hlast⟩

end Recast
