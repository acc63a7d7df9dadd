import Recast.Uneven.Layout
import Mathlib.Algebra.Order.Field.Basic
import Mathlib.Data.List.Sort

/-!
# The assignment of dimensions to groups

Whatever the arithmetic does, the greedy loop fills every group to its
capacity and the exchanges keep the widths. In exact arithmetic the loads stay
the sums of the budgets.
-/

namespace Recast

open Foundation

/-- Groups that hold exactly the dimensions of `placed`, none beyond its capacity. -/
structure Assigned {K : Type} (capacities placed : List Nat) (result : Assignment K) : Prop where
  hgroups : result.dimensions.length = capacities.length
  hloads : result.loads.length = capacities.length
  hroom : ∀ group, (result.dimensions.getD group []).length ≤ capacities.getD group 0
  hplaced : result.dimensions.flatten.Perm placed

theorem exists_room {rows : List (List Nat)} {capacities : List Nat}
    (hlength : rows.length = capacities.length) (hroom : rows.flatten.length < capacities.sum) :
    ∃ group < capacities.length, (rows.getD group []).length < capacities.getD group 0 := by
  induction rows generalizing capacities with
  | nil =>
      cases capacities with
      | nil => simp at hroom
      | cons => simp at hlength
  | cons row rows ih =>
      cases capacities with
      | nil => simp at hlength
      | cons capacity capacities =>
          rw [List.flatten_cons, List.length_append, List.sum_cons] at hroom
          cases Nat.lt_or_ge row.length capacity with
          | inl hrow => exact ⟨0, Nat.succ_pos _, hrow⟩
          | inr hrow =>
              obtain ⟨group, hgroup, hlt⟩ := ih (Nat.succ.inj hlength) (by omega)
              exact ⟨group + 1, Nat.succ_lt_succ hgroup, hlt⟩

theorem sum_widths_le {rows : List (List Nat)} {capacities : List Nat}
    (hlength : rows.length = capacities.length)
    (hroom : ∀ group, (rows.getD group []).length ≤ capacities.getD group 0) :
    rows.flatten.length ≤ capacities.sum := by
  by_contra hlt
  induction rows generalizing capacities with
  | nil => simp at hlt
  | cons row rows ih =>
      cases capacities with
      | nil => simp at hlength
      | cons capacity capacities =>
          have hrow : row.length ≤ capacity := hroom 0
          rw [List.flatten_cons, List.length_append, List.sum_cons] at hlt
          exact ih (Nat.succ.inj hlength) (fun group => hroom (group + 1)) (by omega)

/-- Groups within their capacities that together use all of it are all full. -/
theorem widths_eq {rows : List (List Nat)} {capacities : List Nat}
    (hlength : rows.length = capacities.length)
    (hroom : ∀ group, (rows.getD group []).length ≤ capacities.getD group 0)
    (hfull : rows.flatten.length = capacities.sum) : rows.map List.length = capacities := by
  induction rows generalizing capacities with
  | nil =>
      cases capacities with
      | nil => rfl
      | cons => simp at hlength
  | cons row rows ih =>
      cases capacities with
      | nil => simp at hlength
      | cons capacity capacities =>
          have hrow : row.length ≤ capacity := hroom 0
          have hrows : ∀ group, (rows.getD group []).length ≤ capacities.getD group 0 :=
            fun group => hroom (group + 1)
          have hlength' : rows.length = capacities.length := Nat.succ.inj hlength
          rw [List.flatten_cons, List.length_append, List.sum_cons] at hfull
          have hsum := sum_widths_le hlength' hrows
          rw [List.map_cons, ih hlength' hrows (by omega), show row.length = capacity by omega]

theorem getD_modify_append (rows : List (List Nat)) (group other x : Nat)
    (hgroup : group < rows.length) :
    ((rows.modify group (· ++ [x])).getD other []).length =
      (rows.getD other []).length + if group = other then 1 else 0 := by
  rw [List.getD_eq_getElem?_getD, List.getD_eq_getElem?_getD, List.getElem?_modify]
  split
  · next heq =>
      subst heq
      rw [List.getElem?_eq_getElem hgroup]
      simp
  · simp

section Order

variable {K : Type} [Zero K] [LT K] [DecidableLT K] [BEq K]

theorem dimensionOrder_perm (d : Nat) (bitBudgets : List K) :
    (dimensionOrder d bitBudgets).Perm (List.range d) :=
  List.mergeSort_perm _ _

end Order

section Greedy

variable {K : Type} [Zero K] [One K] [Sub K] [Mul K] [Div K] [Neg K] [NatCast K]
variable [LT K] [DecidableLT K] [LE K] [DecidableLE K]
variable {capacities : List Nat} {result : Assignment K}

/-- The greedy loop only takes a group with room. -/
theorem bestGroup_room {M group : Nat} (h : bestGroup M capacities result = some group) :
    group < M ∧ (result.dimensions.getD group []).length < capacities.getD group 0 := by
  obtain ⟨hmem, best, hbetter⟩ := scanBest_eq_some h
  refine ⟨List.mem_range.mp hmem, ?_⟩
  by_contra hfull
  unfold prefersGroup at hbetter
  rw [if_pos (by omega)] at hbetter
  cases hbetter

/-- It finds one as long as there is one. -/
theorem bestGroup_isSome {M group : Nat} (hgroup : group < M)
    (hroom : (result.dimensions.getD group []).length < capacities.getD group 0) :
    (bestGroup M capacities result).isSome := by
  refine scanBest_isSome (List.mem_range.mpr hgroup) ?_
  rw [prefersGroup, if_neg (by omega)]

end Greedy

section Placement

variable {K : Type} [Zero K] [Add K]
variable {capacities placed : List Nat} {result : Assignment K}

theorem Assigned.place (hassigned : Assigned capacities placed result) {group : Nat}
    (hgroup : group < capacities.length)
    (hroom : (result.dimensions.getD group []).length < capacities.getD group 0)
    (bitBudgets : List K) (dimension : Nat) :
    Assigned capacities (dimension :: placed) (result.place bitBudgets group dimension) where
  hgroups := by rw [Assignment.place, List.length_modify, hassigned.hgroups]
  hloads := by rw [Assignment.place, List.length_modify, hassigned.hloads]
  hroom := by
    intro other
    have hother := hassigned.hroom other
    rw [Assignment.place, getD_modify_append _ _ _ _ (by rw [hassigned.hgroups]; exact hgroup)]
    split
    · next heq =>
        subst heq
        omega
    · omega
  hplaced := by
    have hgroup' : group < result.dimensions.length := by rw [hassigned.hgroups]; exact hgroup
    exact (flatten_modify_append hgroup' dimension).trans (hassigned.hplaced.cons dimension)

/-- What an exchange finds in its two groups. -/
structure Swap.Fits (swap : Swap) (result : Assignment K) : Prop where
  hne : swap.a ≠ swap.b
  hrowA : result.dimensions[swap.a]? = some (result.dimensions.getD swap.a [])
  hrowB : result.dimensions[swap.b]? = some (result.dimensions.getD swap.b [])
  hdimA : (result.dimensions.getD swap.a [])[swap.ia]? = some (result.dimA swap)
  hdimB : (result.dimensions.getD swap.b [])[swap.ib]? = some (result.dimB swap)

variable [Sub K]

theorem widths_apply (result : Assignment K) (swap : Swap) (bitBudgets : List K) :
    ((result.apply bitBudgets swap).dimensions).map List.length =
      result.dimensions.map List.length := by
  have hset (i y : Nat) (rows : List (List Nat)) (row : Nat) :
      (rows.modify row (·.set i y)).map List.length = rows.map List.length := by
    rw [map_modify id (fun _ _ => List.length_set), List.modify_id]
  rw [Assignment.apply, hset, hset]

theorem Assigned.apply (hassigned : Assigned capacities placed result) {swap : Swap}
    (hfits : swap.Fits result) (bitBudgets : List K) :
    Assigned capacities placed (result.apply bitBudgets swap) where
  hgroups := by simp only [Assignment.apply, List.length_modify, hassigned.hgroups]
  hloads := by simp only [Assignment.apply, List.length_modify, hassigned.hloads]
  hroom := by
    intro group
    have hwidth := congrArg (·.getD group 0) (widths_apply result swap bitBudgets)
    simp only [List.getD_eq_getElem?_getD, List.getElem?_map] at hwidth
    have hroom := hassigned.hroom group
    rw [List.getD_eq_getElem?_getD] at hroom ⊢
    cases h : (result.apply bitBudgets swap).dimensions[group]? with
    | none => exact Nat.zero_le _
    | some row =>
        cases h' : result.dimensions[group]? with
        | none => simp [h, h'] at hwidth; simp [hwidth]
        | some row' =>
            simp only [h, h', Option.map_some, Option.getD_some] at hwidth hroom ⊢
            omega
  hplaced := (flatten_swap hfits.hne hfits.hrowA hfits.hrowB hfits.hdimA hfits.hdimB).trans
    hassigned.hplaced

variable [One K] [Mul K] [Div K] [Neg K] [NatCast K] [LT K] [DecidableLT K]

theorem mem_swaps {M : Nat} {dimensions : List (List Nat)} {swap : Swap}
    (h : swap ∈ swaps M dimensions) :
    swap.a < swap.b ∧ swap.b < M ∧ swap.ia < (dimensions.getD swap.a []).length ∧
      swap.ib < (dimensions.getD swap.b []).length := by
  simp only [swaps, List.mem_flatMap, List.mem_map, List.mem_range, List.mem_range'_1] at h
  obtain ⟨a, ha, b, hb, ia, hia, ib, hib, rfl⟩ := h
  exact ⟨show a < b by omega, show b < M by omega, hia, hib⟩

theorem getElem?_of_lt {α : Type} {xs : List α} {i : Nat} (h : i < xs.length) (default : α) :
    xs[i]? = some (xs.getD i default) := by
  rw [List.getD_eq_getElem?_getD, List.getElem?_eq_getElem h, Option.getD_some]

theorem bestSwap_fits {bitBudgets : List K} {swap : Swap}
    (h : bestSwap result.dimensions.length bitBudgets result = some swap) : swap.Fits result := by
  obtain ⟨hlt, hb, hia, hib⟩ := mem_swaps (scanBest_eq_some h).1
  exact ⟨by omega, getElem?_of_lt (by omega) [], getElem?_of_lt hb [], getElem?_of_lt hia 0,
    getElem?_of_lt hib 0⟩

theorem Assigned.improve (bitBudgets : List K) (passes : Nat)
    (hassigned : Assigned capacities placed result) :
    Assigned capacities placed (improve capacities.length bitBudgets passes result) := by
  induction passes generalizing result with
  | zero => exact hassigned
  | succ passes ih =>
      rw [Recast.improve]
      cases h : bestSwap capacities.length bitBudgets result with
      | none => exact hassigned
      | some swap =>
          rw [← hassigned.hgroups] at h
          exact ih (hassigned.apply (bestSwap_fits h) bitBudgets)

variable [LE K] [DecidableLE K]

/-- The greedy loop finds a group for every dimension the capacities have room for. -/
theorem placeAll_ok (bitBudgets : List K) (order : List Nat)
    (hassigned : Assigned capacities placed result)
    (hroom : placed.length + order.length ≤ capacities.sum) :
    ∃ result', placeAll capacities.length capacities bitBudgets order result = .ok result' ∧
      Assigned capacities (order.reverse ++ placed) result' := by
  induction order generalizing placed result with
  | nil => exact ⟨result, rfl, hassigned⟩
  | cons dimension order ih =>
      rw [List.length_cons] at hroom
      obtain ⟨group, hgroup, hlt⟩ := exists_room hassigned.hgroups (by
        rw [hassigned.hplaced.length_eq]
        omega)
      obtain ⟨best, hbest⟩ := Option.isSome_iff_exists.mp (bestGroup_isSome hgroup hlt)
      obtain ⟨hbestLt, hbestRoom⟩ := bestGroup_room hbest
      obtain ⟨result', hplace, hassigned'⟩ :=
        ih (hassigned.place hbestLt hbestRoom bitBudgets dimension) (by
          rw [List.length_cons]
          omega)
      refine ⟨result', ?_, ?_⟩
      · rw [placeAll, hbest]
        exact hplace
      · rw [List.reverse_cons, List.append_assoc]
        exact hassigned'

variable [BEq K]

/-! ### The whole assignment -/

theorem sortedCapacities_perm (pairedCapacities : List Nat) :
    (sortedCapacities pairedCapacities).Perm
      (pairedCapacities.flatMap fun capacity => [capacity, capacity]) :=
  List.mergeSort_perm _ _

theorem length_sortedCapacities (pairedCapacities : List Nat) :
    (sortedCapacities pairedCapacities).length = 2 * pairedCapacities.length := by
  rw [(sortedCapacities_perm pairedCapacities).length_eq]
  induction pairedCapacities with
  | nil => rfl
  | cons capacity rest ih =>
      rw [List.flatMap_cons, List.length_append, ih, List.length_cons]
      simp only [List.length_cons, List.length_nil]
      omega

theorem sum_sortedCapacities (pairedCapacities : List Nat) :
    (sortedCapacities pairedCapacities).sum = 2 * pairedCapacities.sum := by
  rw [(sortedCapacities_perm pairedCapacities).sum_eq]
  induction pairedCapacities with
  | nil => rfl
  | cons capacity rest ih =>
      rw [List.flatMap_cons, List.sum_append, ih, List.sum_cons]
      simp only [List.sum_cons, List.sum_nil]
      omega

theorem mem_sortedCapacities {pairedCapacities : List Nat} {capacity : Nat} :
    capacity ∈ sortedCapacities pairedCapacities ↔ capacity ∈ pairedCapacities := by
  rw [(sortedCapacities_perm pairedCapacities).mem_iff]
  simp

/-- Every width occurs an even number of times. -/
theorem even_count_sortedCapacities (pairedCapacities : List Nat) (width : Nat) :
    Even ((sortedCapacities pairedCapacities).count width) := by
  rw [(sortedCapacities_perm pairedCapacities).count_eq]
  induction pairedCapacities with
  | nil => exact ⟨0, rfl⟩
  | cons capacity rest ih =>
      rw [List.flatMap_cons, List.count_append]
      refine Even.add ?_ ih
      refine ⟨[capacity].count width, ?_⟩
      rw [← List.count_append]
      rfl

theorem pairwise_sortedCapacities (pairedCapacities : List Nat) :
    (sortedCapacities pairedCapacities).Pairwise (· ≤ ·) :=
  List.pairwise_mergeSort' _ _

/-- What every run of `assign_dimensions` on capacities that add up returns. -/
structure Filled (shape : UnevenShape) (pairedCapacities : List Nat) (result : Assignment K) :
    Prop where
  hwidths : result.dimensions.map List.length = sortedCapacities pairedCapacities
  hpartition : result.dimensions.flatten.Perm (List.range shape.d)
  hloads : result.loads.length = shape.M

theorem assignDimensions_ok (shape : UnevenShape) {pairedCapacities : List Nat}
    {bitBudgets : List K} (hlength : pairedCapacities.length = shape.M / 2)
    (hsum : pairedCapacities.sum = shape.d / 2) (hbudgets : bitBudgets.length = shape.d) :
    ∃ placed,
      placeAll shape.M (sortedCapacities pairedCapacities) bitBudgets
        (dimensionOrder shape.d bitBudgets)
        ⟨List.replicate shape.M [], List.replicate shape.M 0, 0⟩ = .ok placed ∧
      placed.dimensions.length = shape.M ∧
      (let improved := Recast.improve shape.M bitBudgets 8 placed
       let result := { improved with score := loadScore shape.M improved.loads }
       assignDimensions shape pairedCapacities bitBudgets = .ok result ∧
         Filled shape pairedCapacities result) := by
  have hM := shape.hevenGroups
  have hd := shape.hevenDimension
  have hcapacities : (sortedCapacities pairedCapacities).length = shape.M := by
    rw [length_sortedCapacities, hlength]
    omega
  have htotal : (sortedCapacities pairedCapacities).sum = shape.d := by
    rw [sum_sortedCapacities, hsum]
    omega
  have hstart : Assigned (K := K) (sortedCapacities pairedCapacities) []
      ⟨List.replicate shape.M [], List.replicate shape.M 0, 0⟩ := by
    refine ⟨by rw [hcapacities]; exact List.length_replicate,
      by rw [hcapacities]; exact List.length_replicate, ?_, ?_⟩
    · intro group
      have hempty : (List.replicate shape.M ([] : List Nat)).getD group [] = [] := by
        rw [List.getD_eq_getElem?_getD, List.getElem?_replicate]
        split <;> rfl
      rw [hempty]
      exact Nat.zero_le _
    · simp
  have horder := dimensionOrder_perm shape.d bitBudgets
  obtain ⟨placed, hplace, hassigned⟩ := placeAll_ok bitBudgets
    (dimensionOrder shape.d bitBudgets) hstart (by
      rw [List.length_nil, horder.length_eq, List.length_range, htotal]
      omega)
  rw [List.append_nil] at hassigned
  have himproved := hassigned.improve bitBudgets 8
  rw [hcapacities] at hplace himproved
  have hpartition : (Recast.improve shape.M bitBudgets 8 placed).dimensions.flatten.Perm
      (List.range shape.d) :=
    himproved.hplaced.trans ((List.reverse_perm _).trans horder)
  refine ⟨placed, hplace, hassigned.hgroups.trans hcapacities, ?_,
    ⟨?_, hpartition, himproved.hloads.trans hcapacities⟩⟩
  · simp only [assignDimensions, hlength, hbudgets, htotal, hplace, ne_eq, not_true_eq_false,
      if_false]
    rfl
  · refine widths_eq himproved.hgroups himproved.hroom ?_
    rw [hpartition.length_eq, List.length_range, htotal]

end Placement

/-! ## Loads in exact arithmetic -/

section Exact

variable {K : Type} [Field K]
variable {result : Assignment K} {bitBudgets : List K}

/-- The sum of the budgets of a group. -/
def groupLoad (bitBudgets : List K) (group : List Nat) : K :=
  (group.map (budgetOf bitBudgets)).sum

theorem loads_place (hloads : result.loads = result.dimensions.map (groupLoad bitBudgets))
    (group dimension : Nat) :
    (result.place bitBudgets group dimension).loads =
      (result.place bitBudgets group dimension).dimensions.map (groupLoad bitBudgets) := by
  simp only [Assignment.place]
  rw [hloads, map_modify (· + budgetOf bitBudgets dimension)]
  intro members _
  simp [groupLoad]

theorem groupLoad_set {members : List Nat} {i x : Nat} (h : members[i]? = some x) (y : Nat) :
    groupLoad bitBudgets (members.set i y) =
      groupLoad bitBudgets members + (budgetOf bitBudgets y - budgetOf bitBudgets x) := by
  rw [groupLoad, List.map_set, groupLoad]
  refine sum_set ?_ _
  rw [List.getElem?_map, h]
  rfl

theorem loads_apply (hloads : result.loads = result.dimensions.map (groupLoad bitBudgets))
    {swap : Swap} (hfits : swap.Fits result) :
    (result.apply bitBudgets swap).loads =
      (result.apply bitBudgets swap).dimensions.map (groupLoad bitBudgets) := by
  simp only [Assignment.apply]
  rw [hloads, map_modify (· + (budgetOf bitBudgets (result.dimA swap) -
    budgetOf bitBudgets (result.dimB swap))), map_modify (· + (budgetOf bitBudgets
    (result.dimB swap) - budgetOf bitBudgets (result.dimA swap)))]
  · intro members hmembers
    rw [hfits.hrowA] at hmembers
    cases hmembers
    exact groupLoad_set hfits.hdimA _
  · intro members hmembers
    rw [List.getElem?_modify_ne _ _ hfits.hne, hfits.hrowB] at hmembers
    cases hmembers
    exact groupLoad_set hfits.hdimB _

variable [LinearOrder K]

theorem loads_placeAll {M : Nat} {capacities order : List Nat} {result' : Assignment K}
    (hloads : result.loads = result.dimensions.map (groupLoad bitBudgets))
    (h : placeAll M capacities bitBudgets order result = .ok result') :
    result'.loads = result'.dimensions.map (groupLoad bitBudgets) := by
  induction order generalizing result with
  | nil =>
      cases h
      exact hloads
  | cons dimension order ih =>
      rw [placeAll] at h
      cases hgroup : bestGroup M capacities result with
      | none => rw [hgroup] at h; cases h
      | some group =>
          rw [hgroup] at h
          exact ih (loads_place hloads group dimension) h

theorem loads_improve (passes : Nat)
    (hloads : result.loads = result.dimensions.map (groupLoad bitBudgets)) :
    (improve result.dimensions.length bitBudgets passes result).loads =
      (improve result.dimensions.length bitBudgets passes result).dimensions.map
        (groupLoad bitBudgets) := by
  induction passes generalizing result with
  | zero => exact hloads
  | succ passes ih =>
      rw [improve]
      cases h : bestSwap result.dimensions.length bitBudgets result with
      | none => exact hloads
      | some swap =>
          have hlength : (result.apply bitBudgets swap).dimensions.length =
              result.dimensions.length := by
            simp only [Assignment.apply, List.length_modify]
          have := ih (loads_apply hloads (bestSwap_fits h))
          rwa [hlength] at this

end Exact

end Recast
