import Recast.Uneven.Profiles
import Mathlib.Data.List.TakeWhile
import Mathlib.Algebra.Order.Ring.Rat
import Mathlib.Tactic.NormNum

/-!
# Buckets and the layout they make

Groups sorted by width, with every width occurring an even number of times,
are cut into buckets of whole bytes. Training therefore always ends with a
valid layout.
-/

namespace Recast

open Foundation

/-- The buckets are the groups, cut into even runs of one width. -/
inductive Tiles : Nat → List (List Nat) → List Bucket → Prop where
  | nil (first : Nat) : Tiles first [] []
  | cons {first width : Nat} {run rest : List (List Nat)} {buckets : List Bucket}
      (hwidth : ∀ group ∈ run, group.length = width) (hcount : run.length % 2 = 0)
      (htail : Tiles (first + run.length) rest buckets) :
      Tiles first (run ++ rest) (bucketOf first width run :: buckets)

theorem length_flatten_of_width {run : List (List Nat)} {width : Nat}
    (h : ∀ group ∈ run, group.length = width) : run.flatten.length = width * run.length := by
  induction run with
  | nil => rfl
  | cons group run ih =>
      obtain ⟨hgroup, hrun⟩ := List.forall_mem_cons.mp h
      rw [List.flatten_cons, List.length_append, hgroup, ih hrun, List.length_cons, Nat.mul_succ,
        Nat.add_comm]

/-- Sorted widths: the first run holds every group of its width. -/
theorem count_run {groups : List (List Nat)} {width : Nat}
    (hsorted : (width :: groups.map List.length).Pairwise (· ≤ ·)) :
    (groups.takeWhile fun other => other.length = width).length =
        (groups.map List.length).count width ∧
      ((groups.dropWhile fun other => other.length = width).map List.length).count width = 0 := by
  induction groups with
  | nil => exact ⟨rfl, rfl⟩
  | cons group groups ih =>
      rw [List.map_cons, List.pairwise_cons, List.pairwise_cons] at hsorted
      obtain ⟨hfirst, hgroup, hrest⟩ := hsorted
      by_cases hwidth : group.length = width
      · have hsorted' : (width :: groups.map List.length).Pairwise (· ≤ ·) :=
          List.pairwise_cons.mpr ⟨fun other hother => hfirst other (.tail _ hother), hrest⟩
        obtain ⟨htake, hdrop⟩ := ih hsorted'
        rw [List.takeWhile_cons_of_pos (by simpa using hwidth),
          List.dropWhile_cons_of_pos (by simpa using hwidth), List.length_cons, List.map_cons,
          hwidth, List.count_cons_self, htake]
        exact ⟨rfl, hdrop⟩
      · have hlt : width < group.length := by
          have := hfirst group.length List.mem_cons_self
          omega
        have hnone : (groups.map List.length).count width = 0 := by
          refine List.count_eq_zero.mpr fun hmem => ?_
          have := hgroup width hmem
          omega
        rw [List.takeWhile_cons_of_neg (by simpa using hwidth),
          List.dropWhile_cons_of_neg (by simpa using hwidth), List.map_cons,
          List.count_cons_of_ne hwidth, hnone]
        exact ⟨rfl, rfl⟩

/-- Groups in sorted order with even multiplicities are cut into buckets. -/
theorem cutBuckets_ok {groups : List (List Nat)} (first : Nat)
    (hsorted : (groups.map List.length).Pairwise (· ≤ ·))
    (heven : ∀ width, Even ((groups.map List.length).count width)) :
    ∃ buckets, cutBuckets first groups = .ok buckets ∧ Tiles first groups buckets := by
  induction hsize : groups.length using Nat.strong_induction_on generalizing groups first with
  | _ size ih =>
  cases groups with
  | nil => exact ⟨[], by rw [cutBuckets], .nil first⟩
  | cons group rest =>
      have hsplit := List.takeWhile_append_dropWhile
        (p := fun other : List Nat => decide (other.length = group.length)) (l := rest)
      obtain ⟨htake, hdrop⟩ := count_run hsorted
      have hsublist := List.dropWhile_sublist
        (p := fun other : List Nat => decide (other.length = group.length)) (l := rest)
      generalize hrun : rest.takeWhile (fun other => decide (other.length = group.length)) = run
        at hsplit htake
      generalize htail : rest.dropWhile (fun other => decide (other.length = group.length)) = tail
        at hsplit hdrop hsublist
      have hwidth : ∀ other ∈ group :: run, other.length = group.length := by
        intro other hother
        cases hother with
        | head => rfl
        | tail _ hother =>
            rw [← hrun] at hother
            simpa using List.mem_takeWhile_imp hother
      -- the widths are sorted, so a width occurs in its run only and the run is even
      have hrunEven : (group :: run).length % 2 = 0 := by
        have := heven group.length
        rw [List.map_cons, List.count_cons_self, ← htake] at this
        exact Nat.even_iff.mp this
      have hsorted' : (tail.map List.length).Pairwise (· ≤ ·) :=
        (List.pairwise_cons.mp hsorted).2.sublist (hsublist.map _)
      have heven' : ∀ width, Even ((tail.map List.length).count width) := by
        intro width
        cases Nat.decEq width group.length with
        | isTrue heq =>
            rw [heq, hdrop]
            exact ⟨0, rfl⟩
        | isFalse hne =>
            have hnone : ((group :: run).map List.length).count width = 0 := by
              refine List.count_eq_zero.mpr fun hmem => hne ?_
              obtain ⟨other, hother, rfl⟩ := List.mem_map.mp hmem
              exact hwidth other hother
            have htotal := heven width
            rw [← hsplit, ← List.cons_append, List.map_append, List.count_append, hnone,
              Nat.zero_add] at htotal
            exact htotal
      obtain ⟨buckets, hcut, htiles⟩ := ih tail.length (by
        rw [← hsize, List.length_cons]
        exact Nat.lt_succ_of_le hsublist.length_le) (first + (group :: run).length) hsorted' heven'
        rfl
      refine ⟨bucketOf first group.length (group :: run) :: buckets, ?_, ?_⟩
      · rw [cutBuckets, hrun, htail, hcut]
        simp only [hrunEven, ne_eq, not_true_eq_false, if_false]
        rfl
      · rw [← hsplit, ← List.cons_append]
        exact .cons hwidth hrunEven htiles

/-! ## The checks of `validate_layout` -/

theorem markSeen_ok {d : Nat} {dimensions seen : List Nat} (hrange : ∀ x ∈ dimensions, x < d)
    (hnodup : dimensions.Nodup) (hnew : ∀ x ∈ dimensions, x ∉ seen) :
    markSeen d dimensions seen = .ok (dimensions.reverse ++ seen) := by
  induction dimensions generalizing seen with
  | nil => rfl
  | cons x rest ih =>
      obtain ⟨hx, hrest⟩ := List.forall_mem_cons.mp hrange
      obtain ⟨hnot, hnodup'⟩ := List.nodup_cons.mp hnodup
      obtain ⟨hxNew, hrestNew⟩ := List.forall_mem_cons.mp hnew
      rw [markSeen, if_neg (Nat.not_le.mpr hx), if_neg hxNew, ih hrest hnodup', List.reverse_cons,
        List.append_assoc]
      · rfl
      · intro y hy hmem
        cases hmem with
        | head => exact hnot hy
        | tail _ hmem => exact hrestNew y hy hmem

theorem countBuckets_ok {d first : Nat} {groups : List (List Nat)} {buckets : List Bucket}
    (htiles : Tiles first groups buckets) (hfirst : first % 2 = 0) (count : LayoutCount)
    (hcount : count.expectedFirst = first) (hrange : ∀ x ∈ groups.flatten, x < d)
    (hnodup : groups.flatten.Nodup) (hnew : ∀ x ∈ groups.flatten, x ∉ count.seen) :
    ∃ count', countBuckets d buckets count = .ok count' ∧
      count'.expectedFirst = first + groups.length ∧
      count'.dimensionCount = count.dimensionCount + groups.flatten.length ∧
      2 * count'.byteCount = 2 * count.byteCount + groups.length := by
  induction htiles generalizing count with
  | nil first => exact ⟨count, rfl, hcount, rfl, rfl⟩
  | @cons first width run rest buckets hwidth heven htail ih =>
      simp only [List.flatten_append, List.forall_mem_append] at hrange hnew
      rw [List.flatten_append, List.nodup_append'] at hnodup
      have hmark := markSeen_ok hrange.1 hnodup.1 hnew.1
      obtain ⟨count', hrest, hexpected, hdimensions, hbytes⟩ := ih (by omega)
        ⟨run.flatten.reverse ++ count.seen,
          count.dimensionCount + width * run.length, count.byteCount + run.length / 2,
          count.expectedFirst + run.length⟩ (by rw [← hcount]) hrange.2 hnodup.2.1 (by
          intro x hx hmem
          rw [List.mem_append, List.mem_reverse] at hmem
          cases hmem with
          | inl hrun => exact hnodup.2.2 hrun hx
          | inr hseen => exact hnew.2 x hx hseen)
      refine ⟨count', ?_, ?_, ?_, ?_⟩
      · simp only [countBuckets, bucketOf, heven, hcount, ne_eq, not_true_eq_false, if_false]
        rw [hmark]
        rw [hcount] at hrest
        exact hrest
      · rw [hexpected, List.length_append, Nat.add_assoc]
      · rw [hdimensions, List.flatten_append, List.length_append,
          length_flatten_of_width hwidth, Nat.add_assoc]
      · simp only at hbytes
        rw [hbytes, List.length_append]
        omega

/-- Sorted groups of even multiplicity that partition the dimensions pass every check. -/
theorem buildBuckets_ok {shape : UnevenShape} {dimensions : List (List Nat)}
    (hlength : dimensions.length = shape.M)
    (hsorted : (dimensions.map List.length).Pairwise (· ≤ ·))
    (heven : ∀ width, Even ((dimensions.map List.length).count width))
    (hpartition : dimensions.flatten.Perm (List.range shape.d)) :
    ∃ buckets, buildBuckets shape dimensions = .ok buckets ∧ Tiles 0 dimensions buckets := by
  obtain ⟨buckets, hcut, htiles⟩ := cutBuckets_ok 0 hsorted heven
  obtain ⟨count, hcount, hfirst, hdimensions, hbytes⟩ := countBuckets_ok (d := shape.d) htiles rfl
    ⟨[], 0, 0, 0⟩ rfl
    (fun x hx => List.mem_range.mp (hpartition.mem_iff.mp hx))
    (hpartition.nodup_iff.mpr List.nodup_range) (fun _ _ => List.not_mem_nil)
  have hM := shape.hevenGroups
  rw [hpartition.length_eq, List.length_range, Nat.zero_add] at hdimensions
  rw [hlength] at hfirst hbytes
  simp only at hbytes
  refine ⟨buckets, ?_, htiles⟩
  rw [buildBuckets, hcut]
  simp only [bind, Except.bind]
  rw [validateLayout, if_neg (not_not.mpr hlength), hcount]
  simp only [bind, Except.bind]
  rw [if_neg (by omega), if_neg (by omega), if_neg (by omega)]

/-! ## Training always lays out -/

/-- Where a bucket starts: after the groups and the bytes of the ones before it. -/
theorem Tiles.offsets {first : Nat} {groups : List (List Nat)} {before after : List Bucket}
    {bucket : Bucket} (htiles : Tiles first groups (before ++ bucket :: after))
    (hfirst : first % 2 = 0) :
    bucket.firstSubspace = first + (before.map Bucket.subspaceCount).sum ∧
      bucket.codeOffset = first / 2 + (before.map Bucket.bucketCodeSize).sum ∧
      2 * bucket.codeOffset = bucket.firstSubspace ∧
      2 * bucket.bucketCodeSize = bucket.subspaceCount := by
  induction before generalizing first groups with
  | nil =>
      cases htiles with
      | cons hwidth hcount htail =>
          refine ⟨rfl, rfl, ?_, ?_⟩
          · simp only [bucketOf]
            omega
          · simp only [bucketOf]
            omega
  | cons head before ih =>
      cases htiles with
      | @cons _ width run rest buckets hwidth hcount htail =>
          obtain ⟨hstart, hoffset, hbytes⟩ := ih htail (by omega)
          refine ⟨?_, ?_, hbytes⟩
          · rw [hstart, List.map_cons, List.sum_cons, bucketOf, Nat.add_assoc]
          · rw [hoffset, List.map_cons, List.sum_cons]
            simp only [bucketOf]
            omega

theorem Tiles.totals {first : Nat} {groups : List (List Nat)} {buckets : List Bucket}
    (htiles : Tiles first groups buckets) :
    (buckets.map Bucket.subspaceCount).sum = groups.length ∧
      2 * (buckets.map Bucket.bucketCodeSize).sum = groups.length := by
  induction htiles with
  | nil => exact ⟨rfl, rfl⟩
  | cons hwidth hcount htail ih =>
      simp only [List.map_cons, List.sum_cons, List.length_append, bucketOf]
      omega

/-- A valid layout: the capacities, the groups, their loads and their buckets. -/
structure ValidLayout {K : Type} [Field K] [LinearOrder K] (shape : UnevenShape)
    (bitBudgets : List K) (pairedCapacities : List Nat) (assignment : Assignment K)
    (buckets : List Bucket) : Prop where
  hsorted : (sortedCapacities pairedCapacities).Pairwise (· ≤ ·)
  heven : ∀ width, Even ((sortedCapacities pairedCapacities).count width)
  hbounds : ∀ width ∈ sortedCapacities pairedCapacities, 1 ≤ width ∧ width ≤ shape.maximum
  hsum : (sortedCapacities pairedCapacities).sum = shape.d
  hgroups : assignment.dimensions.length = shape.M
  hwidths : assignment.dimensions.map List.length = sortedCapacities pairedCapacities
  hpartition : assignment.dimensions.flatten.Perm (List.range shape.d)
  hloads : assignment.loads = assignment.dimensions.map (groupLoad bitBudgets)
  htiles : Tiles 0 assignment.dimensions buckets
  hoffsets : ∀ before bucket after, buckets = before ++ bucket :: after →
    bucket.firstSubspace = (before.map Bucket.subspaceCount).sum ∧
      bucket.codeOffset = (before.map Bucket.bucketCodeSize).sum ∧
      2 * bucket.codeOffset = bucket.firstSubspace ∧
      2 * bucket.bucketCodeSize = bucket.subspaceCount
  htotals : (buckets.map Bucket.subspaceCount).sum = shape.M ∧
    (buckets.map Bucket.bucketCodeSize).sum = shape.M / 2

/-- The buckets of any filled assignment of a profile, for any arithmetic. -/
theorem Filled.buildBuckets {K : Type} {shape : UnevenShape} {pairedCapacities : List Nat}
    {result : Assignment K} (hprofile : Profile shape pairedCapacities)
    (hfilled : Filled shape pairedCapacities result) :
    result.dimensions.length = shape.M ∧
      ∃ buckets, buildBuckets shape result.dimensions = .ok buckets ∧
        Tiles 0 result.dimensions buckets := by
  have hM := shape.hevenGroups
  have hlength : result.dimensions.length = shape.M := by
    rw [← List.length_map (f := List.length), hfilled.hwidths, length_sortedCapacities,
      hprofile.hlength]
    omega
  refine ⟨hlength, buildBuckets_ok hlength ?_ ?_ hfilled.hpartition⟩
  · rw [hfilled.hwidths]
    exact pairwise_sortedCapacities pairedCapacities
  · intro width
    rw [hfilled.hwidths]
    exact even_count_sortedCapacities pairedCapacities width

/-- In exact arithmetic planning, assignment and bucket construction always
succeed and leave a valid layout. -/
theorem uneven_layout_valid {K : Type} [Field K] [LinearOrder K] (shape : UnevenShape)
    (hadmits : shape.Admits) (bitBudgets : List K) (hbudgets : bitBudgets.length = shape.d) :
    ∃ pairedCapacities assignment buckets,
      planPairedCapacities shape bitBudgets = .ok pairedCapacities ∧
      assignDimensions shape pairedCapacities bitBudgets = .ok assignment ∧
      buildBuckets shape assignment.dimensions = .ok buckets ∧
      ValidLayout shape bitBudgets pairedCapacities assignment buckets := by
  have hM := shape.hevenGroups
  have hd := shape.hevenDimension
  obtain ⟨pairedCapacities, hplan, hprofile⟩ := planPairedCapacities_ok hadmits hbudgets
  obtain ⟨placed, hplace, hplaced, hassign, hfilled⟩ :=
    assignDimensions_ok shape hprofile.hlength hprofile.hsum hbudgets
  obtain ⟨hgroups, buckets, hbuild, htiles⟩ := hfilled.buildBuckets hprofile
  have hloads : placed.loads = placed.dimensions.map (groupLoad bitBudgets) := by
    refine loads_placeAll ?_ hplace
    simp [groupLoad]
  refine ⟨pairedCapacities, _, buckets, hplan, hassign, hbuild, ?_⟩
  exact {
    hsorted := pairwise_sortedCapacities pairedCapacities
    heven := even_count_sortedCapacities pairedCapacities
    hbounds := fun width hwidth => ⟨hprofile.hpositive width (mem_sortedCapacities.mp hwidth),
      hprofile.hmaximum width (mem_sortedCapacities.mp hwidth)⟩
    hsum := by
      rw [sum_sortedCapacities, hprofile.hsum]
      omega
    hgroups := hgroups
    hwidths := hfilled.hwidths
    hpartition := hfilled.hpartition
    hloads := by
      have := loads_improve 8 hloads
      rwa [hplaced] at this
    htiles := htiles
    hoffsets := by
      intro before bucket after hbuckets
      rw [hbuckets] at htiles
      simpa using htiles.offsets rfl
    htotals := by
      have := htiles.totals
      rw [hgroups] at this
      omega }

/-- Eight dimensions in four groups. -/
def eightShape : UnevenShape := ⟨8, 4, 0, Nat.zero_lt_succ 3, by omega, rfl, rfl⟩

def eightBudgets : List ℚ := [1, 2, 1, 3, 6, 3, 7, 7]

theorem dimensionOrder_eight : dimensionOrder 8 eightBudgets = [6, 7, 4, 3, 5, 1, 0, 2] := by
  have hsplit (le : ℕ → ℕ → Bool) : (List.range 8).mergeSort le =
      (([0].merge [1] le).merge ([2].merge [3] le) le).merge
        (([4].merge [5] le).merge ([6].merge [7] le) le) le := by
    simp [List.range_succ, List.mergeSort]
  rw [dimensionOrder, hsplit]
  norm_num [List.cons_merge_cons, dimensionBefore, budgetOf, eightBudgets]

theorem assign_even : assignDimensions eightShape [2, 2] eightBudgets =
    .ok ⟨[[6, 0], [7, 2], [4, 1], [3, 5]], [8, 8, 8, 6], loadScore 4 [8, 8, 8, 6]⟩ := by
  have hcapacities : sortedCapacities [2, 2] = [2, 2, 2, 2] := by
    simp [sortedCapacities, List.mergeSort]
  rw [assignDimensions, if_neg (by decide), if_neg (by decide)]
  dsimp only [eightShape]
  rw [hcapacities, dimensionOrder_eight]
  decide +kernel

/-- The last two groups exchange their lightest dimensions. -/
theorem assign_uneven : assignDimensions eightShape [1, 3] eightBudgets =
    .ok ⟨[[6], [7], [4, 0, 2], [3, 5, 1]], [7, 7, 8, 8], loadScore 4 [7, 7, 8, 8]⟩ := by
  have hcapacities : sortedCapacities [1, 3] = [1, 1, 3, 3] := by
    simp [sortedCapacities, List.mergeSort]
  rw [assignDimensions, if_neg (by decide), if_neg (by decide)]
  dsimp only [eightShape]
  rw [hcapacities, dimensionOrder_eight]
  decide +kernel

/-- The hill climb takes one step, and not back. -/
theorem plan_eight : planPairedCapacities eightShape eightBudgets = .ok [1, 3] := by
  have hbase : baseCapacities eightShape = [2, 2] := by decide
  have hsteps : trialProfiles eightShape.maximum [2, 2] = [[1, 3]] := by
    simp [trialProfiles, runStarts, actualTo, transfer, List.mergeSort, eightShape,
      UnevenShape.maximum, List.range_succ]
  have hback : trialProfiles eightShape.maximum [1, 3] = [[2, 2]] := by
    simp [trialProfiles, runStarts, actualTo, transfer, List.mergeSort, eightShape,
      UnevenShape.maximum, List.range_succ]
  have hstep : bestProfile eightShape eightBudgets (loadScore 4 [8, 8, 8, 6]) [[1, 3]] none =
      .ok (some ([1, 3], loadScore 4 [7, 7, 8, 8])) := by
    have hbetter : (loadScore 4 [7, 7, 8, 8] + tolerance : ℚ) < loadScore 4 [8, 8, 8, 6] := by
      decide +kernel
    rw [bestProfile, assign_uneven]
    exact if_pos hbetter
  have hstay : bestProfile eightShape eightBudgets (loadScore 4 [7, 7, 8, 8]) [[2, 2]] none =
      .ok none := by
    have hworse : ¬(loadScore 4 [8, 8, 8, 6] + tolerance : ℚ) < loadScore 4 [7, 7, 8, 8] := by
      decide +kernel
    rw [bestProfile, assign_even]
    exact if_neg hworse
  have hend : climb eightShape eightBudgets 15 [1, 3] (loadScore 4 [7, 7, 8, 8]) = .ok [1, 3] := by
    rw [climb, hback, hstay]
    rfl
  have hclimb : climb eightShape eightBudgets 16 [2, 2] (loadScore 4 [8, 8, 8, 6]) =
      .ok [1, 3] := by
    rw [climb, hsteps, hstep]
    exact hend
  rw [planPairedCapacities, if_neg (by decide), hbase, assign_even]
  exact hclimb

/-- The profile is not the nearly uniform one, and the assignment not the greedy one. -/
theorem uneven_layout_valid_eight :
    baseCapacities eightShape = [2, 2] ∧
    ∃ assignment buckets,
      planPairedCapacities eightShape eightBudgets = .ok [1, 3] ∧
      assignDimensions eightShape [1, 3] eightBudgets = .ok assignment ∧
      assignment.dimensions = [[6], [7], [4, 0, 2], [3, 5, 1]] ∧
      buildBuckets eightShape assignment.dimensions = .ok buckets ∧
      ValidLayout eightShape eightBudgets [1, 3] assignment buckets := by
  obtain ⟨capacities, assignment, buckets, hplan, hassign, hbuild, hvalid⟩ :=
    uneven_layout_valid eightShape (.inl rfl) eightBudgets rfl
  obtain rfl : [1, 3] = capacities := Except.ok.inj (plan_eight.symm.trans hplan)
  have hdimensions : assignment.dimensions = [[6], [7], [4, 0, 2], [3, 5, 1]] := by
    rw [← Except.ok.inj (assign_uneven.symm.trans hassign)]
  exact ⟨by decide, assignment, buckets, hplan, hassign, hdimensions, hbuild, hvalid⟩

end Recast
