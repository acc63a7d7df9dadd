import Recast.Uneven.Budgets
import Recast.Foundation.Waterline
import Mathlib.Data.List.Sort

/-!
# Reverse water-filling in exact arithmetic

The loop lowers the level through the heights in descending order. What the
heights have above the level and what remains to spend add up to the total, but
for at most one tolerance for each height that is passed.
-/

namespace Recast

open Foundation

/-! ### The order of the heights -/

section Order

variable {K : Type} [Zero K] [LinearOrder K]

/-- The dimensions by descending height. -/
def heightOrder (d : ℕ) (heights : List K) : List ℕ :=
  (List.range d).mergeSort fun a b => !heightBefore heights b a

theorem heightBefore_iff {heights : List K} {a b : ℕ} : (!heightBefore heights b a) = true ↔
    heights.getD b 0 < heights.getD a 0 ∨ heights.getD a 0 = heights.getD b 0 ∧ a ≤ b := by
  rw [heightBefore]
  generalize heights.getD a 0 = x
  generalize heights.getD b 0 = y
  by_cases h : y = x
  · simp [h]
  · simp [h, Ne.symm h, lt_iff_le_and_ne]

theorem heightOrder_perm (d : ℕ) (heights : List K) :
    (heightOrder d heights).Perm (List.range d) := List.mergeSort_perm _ _

theorem heightOrder_sorted (d : ℕ) (heights : List K) :
    ((heightOrder d heights).map fun i => heights.getD i 0).Pairwise fun x y => y ≤ x := by
  have hsorted := @List.pairwise_mergeSort _ (fun a b => !heightBefore heights b a)
    (fun a b c hab hbc => by
      rw [heightBefore_iff] at hab hbc ⊢
      rcases hab with hab | ⟨hab, hle⟩ <;> rcases hbc with hbc | ⟨hbc, hle'⟩
      · exact .inl (hbc.trans hab)
      · exact .inl (hbc ▸ hab)
      · exact .inl (hab ▸ hbc)
      · exact .inr ⟨hab.trans hbc, hle.trans hle'⟩)
    (fun a b => by
      rw [Bool.or_eq_true, heightBefore_iff, heightBefore_iff]
      rcases lt_trichotomy (heights.getD a 0) (heights.getD b 0) with h | h | h
      · exact .inr (.inl h)
      · rcases Nat.le_total a b with hab | hab
        · exact .inl (.inr ⟨h, hab⟩)
        · exact .inr (.inr ⟨h.symm, hab⟩)
      · exact .inl (.inl h)) (List.range d)
  refine List.pairwise_map.mpr (hsorted.imp fun hab => ?_)
  rcases heightBefore_iff.mp hab with h | ⟨h, -⟩
  · exact h.le
  · exact h.ge

end Order

theorem map_getD_range {K : Type} [Zero K] (heights : List K) :
    (List.range heights.length).map (fun i => heights.getD i 0) = heights := by
  apply List.ext_getElem
  · simp
  · intro i hi hi'
    simp [List.getElem?_eq_getElem hi']

section Exact

variable {K : Type} [Field K] [LinearOrder K] [IsStrictOrderedRing K]

theorem absOf_eq_abs (a : K) : absOf a = |a| := by
  rw [absOf]
  split
  next h => exact (abs_of_neg h).symm
  next h => exact (abs_of_nonneg (not_lt.mp h)).symm

theorem tolerance_pos : (0 : K) < tolerance := by
  unfold tolerance
  positivity

/-- A level at which the heights have the target above it, but for `slack`
tolerances. -/
def Spends (target : K) (slack : ℕ) (heights : List K) (level : K) : Prop :=
  target ≤ above heights level ∧ above heights level ≤ target + (slack : K) * tolerance

/-- The water after the heights `passed`. -/
structure WaterLevel.Lowered (target : K) (passed : List K) (water : WaterLevel K) : Prop where
  active : water.activeDimensions = passed.length
  some : passed ≠ []
  level_le : ∀ height ∈ passed, water.level ≤ height
  remaining : 0 ≤ water.remainingBits
  lower : target ≤ above passed water.level + water.remainingBits
  upper : above passed water.level + water.remainingBits ≤
    target + ((passed.length - 1 : ℕ) : K) * tolerance

namespace WaterLevel.Lowered

variable {target : K} {passed : List K} {water : WaterLevel K}

theorem length_pos (h : water.Lowered target passed) : (0 : K) < (passed.length : K) :=
  Nat.cast_pos.mpr (List.length_pos_iff.mpr h.some)

/-- Spend all that remains among the heights passed. -/
theorem spend (h : water.Lowered target passed) : Spends target (passed.length - 1) passed
    (water.level - water.remainingBits / (passed.length : K)) := by
  have hlower := above_lower h.level_le (div_nonneg h.remaining h.length_pos.le)
  rw [mul_div_cancel₀ _ h.length_pos.ne'] at hlower
  rw [Spends, hlower]
  exact ⟨h.lower, h.upper⟩

/-- Pass the next height. -/
theorem pass (h : water.Lowered target passed) {next : K} (hnext : next ≤ water.level)
    (hcost : (passed.length : K) * (water.level - next) ≤ water.remainingBits + tolerance) :
    WaterLevel.Lowered target (passed ++ [next])
      ⟨max 0 (water.remainingBits - (passed.length : K) * (water.level - next)), next,
        water.activeDimensions + 1⟩ := by
  have hgap : 0 ≤ water.level - next := sub_nonneg.mpr hnext
  have habove : above (passed ++ [next]) next =
      above passed water.level + (passed.length : K) * (water.level - next) := by
    rw [above_append, @above_of_le _ _ _ _ [next] _ (by simp), add_zero]
    have hlower := above_lower h.level_le hgap
    rwa [sub_sub_cancel] at hlower
  have hlength : (passed ++ [next]).length = passed.length + 1 := List.length_append
  have hcast : ((passed.length : ℕ) : K) = ((passed.length - 1 : ℕ) : K) + 1 := by
    have := List.length_pos_iff.mpr h.some
    rw [← Nat.cast_add_one, Nat.sub_add_cancel this]
  have htolerance := @tolerance_pos K _ _ _
  refine ⟨?_, by simp, ?_, le_max_left _ _, ?_, ?_⟩
  · rw [hlength, h.active]
  · intro height hheight
    rcases List.mem_append.mp hheight with hpassed | hlast
    · exact hnext.trans (h.level_le height hpassed)
    · exact (List.mem_singleton.mp hlast).ge
  · rw [habove]
    have := h.lower
    have := le_max_right 0 (water.remainingBits - (passed.length : K) * (water.level - next))
    linarith
  · rw [habove, hlength, Nat.add_sub_cancel]
    dsimp only
    have hslack : (passed.length : K) * tolerance =
        ((passed.length - 1 : ℕ) : K) * tolerance + tolerance := by
      nth_rewrite 1 [hcast]
      rw [add_mul, one_mul]
    have := h.upper
    have hmax : max 0 (water.remainingBits - (passed.length : K) * (water.level - next)) ≤
        water.remainingBits - (passed.length : K) * (water.level - next) + tolerance :=
      max_le (by linarith) (by linarith)
    linarith

end WaterLevel.Lowered

/-- The level to which the loop and the leftover case lower the water. -/
def WaterLevel.settled (water : WaterLevel K) (d : ℕ) : K :=
  if 0 < water.remainingBits then water.level - water.remainingBits / (d : K) else water.level

/-- The loop ends in a gap or passes every height; both ways the total is spent. -/
theorem lowerWater_spends {target : K} {heights : List K} {rest : List ℕ} {passed : List K}
    {water : WaterLevel K} (h : water.Lowered target passed)
    (hsorted : (passed ++ rest.map fun i => heights.getD i 0).Pairwise fun x y => y ≤ x)
    (hlevel : passed.getLast? = some water.level) :
    Spends target (passed.length + rest.length - 1) (passed ++ rest.map fun i => heights.getD i 0)
      ((lowerWater heights rest water).settled (passed.length + rest.length)) := by
  induction rest generalizing passed water with
  | nil =>
      rw [lowerWater, List.map_nil, List.append_nil, List.length_nil, Nat.add_zero,
        WaterLevel.settled]
      split
      next => exact h.spend
      next hnone =>
        have hzero : water.remainingBits = 0 := le_antisymm (not_lt.mp hnone) h.remaining
        have hspent := h.spend
        rwa [hzero, zero_div, sub_zero] at hspent
  | cons next rest ih =>
      have hbelow : ∀ x ∈ passed, ∀ y ∈ next :: rest, heights.getD y 0 ≤ x := by
        intro x hx y hy
        exact (List.pairwise_append.mp hsorted).2.2 x hx _ (List.mem_map_of_mem hy)
      have hnext : heights.getD next 0 ≤ water.level :=
        hbelow _ (List.mem_of_getLast? hlevel) _ List.mem_cons_self
      have hgap : maxOf 0 (water.level - heights.getD next 0) = water.level - heights.getD next 0 := by
        rw [maxOf_eq_max, max_eq_right (sub_nonneg.mpr hnext)]
      rw [lowerWater, hgap, h.active, maxOf_eq_max]
      split
      next hcost =>
        have hmore := ih (h.pass hnext hcost) (by simpa using hsorted) (by simp)
        rw [List.length_append, List.length_singleton, List.append_assoc,
          List.singleton_append, h.active] at hmore
        rw [List.map_cons, List.length_cons, Nat.add_comm rest.length 1, ← Nat.add_assoc]
        exact hmore
      next hcost =>
        have hspent := h.spend
        -- The gap is deeper than what remains, so the rest stays below the new level.
        have hdeep : heights.getD next 0 ≤
            water.level - water.remainingBits / (passed.length : K) := by
          have htolerance := @tolerance_pos K _ _ _
          have hle : water.remainingBits / (passed.length : K) ≤
              water.level - heights.getD next 0 := by
            rw [div_le_iff₀ h.length_pos, mul_comm]
            linarith [not_le.mp hcost]
          linarith
        have hnone : above ((next :: rest).map fun i => heights.getD i 0)
            (water.level - water.remainingBits / (passed.length : K)) = 0 := by
          apply above_of_le
          intro height hheight
          have hfirst := (List.pairwise_append.mp hsorted).2.1
          rw [List.map_cons, List.pairwise_cons] at hfirst
          rcases List.mem_cons.mp (List.map_cons ▸ hheight) with rfl | hrest
          · exact hdeep
          · exact (hfirst.1 height hrest).trans hdeep
        rw [WaterLevel.settled, if_neg (lt_irrefl _), Spends, above_append, hnone, add_zero]
        refine ⟨hspent.1, hspent.2.trans ?_⟩
        have htolerance := @tolerance_pos K _ _ _
        gcongr
        rw [List.length_cons]
        omega

omit [IsStrictOrderedRing K] in
theorem waterLevel_eq (d M : ℕ) (heights : List K) :
    waterLevel d M heights =
      (lowerWater heights (heightOrder d heights).tail
        ⟨(M : K) * ((nbits : ℕ) : K), heights.getD ((heightOrder d heights).getD 0 0) 0, 1⟩).settled d :=
  rfl

/-- The level spends the total but for one tolerance for each dimension after
the first. -/
theorem waterLevel_spends {M : ℕ} {heights : List K} (hsome : heights ≠ []) :
    Spends ((M : K) * ((nbits : ℕ) : K)) (heights.length - 1) heights
      (waterLevel heights.length M heights) := by
  have hperm := (heightOrder_perm heights.length heights).map fun i => heights.getD i 0
  have hsorted := heightOrder_sorted heights.length heights
  have hlength := (heightOrder_perm heights.length heights).length_eq
  rw [map_getD_range] at hperm
  rw [List.length_range] at hlength
  rw [waterLevel_eq]
  rcases horder : heightOrder heights.length heights with - | ⟨first, rest⟩
  · rw [horder] at hlength
    exact absurd (List.length_eq_zero_iff.mp hlength.symm) hsome
  · rw [horder] at hperm hsorted hlength
    rw [List.tail_cons, List.getD_cons_zero]
    have hstart : WaterLevel.Lowered ((M : K) * ((nbits : ℕ) : K)) [heights.getD first 0]
        ⟨(M : K) * ((nbits : ℕ) : K), heights.getD first 0, 1⟩ := by
      refine ⟨rfl, by simp, by simp, by positivity, ?_, ?_⟩
      · rw [above_of_le (by simp), zero_add]
      · rw [above_of_le (by simp), zero_add]
        simp
    have hspent := lowerWater_spends hstart hsorted rfl
    rw [List.length_singleton, Nat.add_comm 1 rest.length] at hspent
    rw [List.length_cons] at hlength
    rw [Nat.add_sub_cancel, Spends] at hspent
    rw [Spends, ← above_perm hperm, ← hlength, Nat.add_sub_cancel]
    exact hspent

omit [IsStrictOrderedRing K] in
theorem sum_budgets (heights : List K) (level : K) :
    (heights.map fun height => maxOf 0 (height - level)).sum = above heights level := by
  simp only [maxOf_eq_max, above]

/-- The heights `compute_ideal_bit_budgets` pours over. -/
def budgetHeights {F : Type} [Zero F] (numerics : Numerics F K) (d : ℕ) (rows : List (List F)) :
    List K :=
  let variances := budgetVariances numerics d rows
  variances.map fun variance =>
    (1 / (2 : ℕ) : K) * numerics.log2 (maxOf (largest variances * tolerance) variance)

omit [IsStrictOrderedRing K] in
theorem length_budgetHeights {F : Type} [Zero F] (numerics : Numerics F K) (d : ℕ)
    (rows : List (List F)) :
    (budgetHeights numerics d rows).length = d := by
  simp [budgetHeights, budgetVariances]

/-- With a tolerance that covers every dimension the last check passes. -/
theorem computeIdealBitBudgets_ok {F : Type} [Zero F] {numerics : Numerics F K}
    {shape : UnevenShape} {rows : List (List F)} (hrows : rows ≠ [])
    (hvariance : 0 < largest (budgetVariances numerics shape.d rows))
    (hsmall : ((shape.d - 1 : ℕ) : K) * tolerance ≤
      1 / ((10 ^ 8 : ℕ) : K) * max 1 ((shape.M : K) * ((nbits : ℕ) : K))) :
    computeIdealBitBudgets numerics shape rows =
      .ok ((budgetHeights numerics shape.d rows).map fun height =>
        maxOf 0 (height - waterLevel shape.d shape.M (budgetHeights numerics shape.d rows))) := by
  have hlength := length_budgetHeights numerics shape.d rows
  have hsome : budgetHeights numerics shape.d rows ≠ [] := by
    intro hnil
    have hd : shape.d = 0 := by rw [← hlength, hnil, List.length_nil]
    rw [hd] at hvariance
    exact lt_irrefl _ hvariance
  obtain ⟨hlower, hupper⟩ := @waterLevel_spends K _ _ _ shape.M _ hsome
  rw [hlength, ← sum_budgets] at hlower hupper
  have hcheck : absOf (((budgetHeights numerics shape.d rows).map fun height =>
      maxOf 0 (height - waterLevel shape.d shape.M (budgetHeights numerics shape.d rows))).foldl
        (· + ·) 0 - (shape.M : K) * ((nbits : ℕ) : K)) ≤
      1 / ((10 ^ 8 : ℕ) : K) * maxOf 1 ((shape.M : K) * ((nbits : ℕ) : K)) := by
    rw [← List.sum_eq_foldl, absOf_eq_abs, maxOf_eq_max, abs_of_nonneg (sub_nonneg.mpr hlower)]
    exact (sub_le_iff_le_add'.mpr hupper).trans hsmall
  rw [computeIdealBitBudgets, if_neg hrows]
  dsimp only
  rw [if_neg (not_not.mpr hvariance)]
  exact if_neg (not_not.mpr hcheck)

/-- Reverse water-filling pours the whole budget over one level, and the check
of the total cannot fail when the tolerances of the dimensions are within it: the
code returns what the heights of the rows have above that level. -/
theorem water_filling_spends_budget :
    (∀ (M : ℕ) (heights : List K), 0 < M → 1 ≤ heights.length →
      let level := waterLevel heights.length M heights
      let bitBudgets := heights.map fun height => maxOf 0 (height - level)
      let target : K := (M : K) * ((nbits : ℕ) : K)
      (∀ budget ∈ bitBudgets, 0 ≤ budget) ∧
        (∀ x ∈ heights, ∀ y ∈ heights, x ≤ y → maxOf 0 (x - level) ≤ maxOf 0 (y - level)) ∧
        target ≤ bitBudgets.sum ∧
        bitBudgets.sum ≤ target + ((heights.length - 1 : ℕ) : K) * tolerance) ∧
    ∀ (F : Type) [Zero F] (numerics : Numerics F K) (shape : UnevenShape) (rows : List (List F)),
      rows ≠ [] → 0 < largest (budgetVariances numerics shape.d rows) →
      ((shape.d - 1 : ℕ) : K) * tolerance ≤
        1 / ((10 ^ 8 : ℕ) : K) * max 1 ((shape.M : K) * ((nbits : ℕ) : K)) →
      (budgetHeights numerics shape.d rows).length = shape.d ∧
        computeIdealBitBudgets numerics shape rows =
          .ok ((budgetHeights numerics shape.d rows).map fun height =>
            maxOf 0 (height - waterLevel shape.d shape.M (budgetHeights numerics shape.d rows))) := by
  constructor
  · intro M heights _ hsome level bitBudgets target
    obtain ⟨hlower, hupper⟩ := @waterLevel_spends K _ _ _ M heights
      (List.length_pos_iff.mp hsome)
    rw [← sum_budgets] at hlower hupper
    refine ⟨fun budget hbudget => ?_, fun x _ y _ hxy => ?_, hlower, hupper⟩
    · obtain ⟨height, -, rfl⟩ := List.mem_map.mp hbudget
      rw [maxOf_eq_max]
      exact le_max_left _ _
    · rw [maxOf_eq_max, maxOf_eq_max]
      exact max_le_max le_rfl (sub_le_sub_right hxy _)
  · intro F _ numerics shape rows hrows hvariance hsmall
    exact ⟨length_budgetHeights numerics shape.d rows,
      computeIdealBitBudgets_ok hrows hvariance hsmall⟩

end Exact

/-- Two rows whose first dimension has four times the variance of the others. -/
def stretchedRows : List (List ℚ) := [[2, 1, 1, 1], [-2, -1, -1, -1]]

/-- The logarithm of the two variances that occur. -/
def stretchedNumerics : Numerics ℚ ℚ := ⟨id, 0, fun _ => true, id, fun x => if x = 4 then 2 else 0⟩

theorem water_filling_spends_budget_stretched :
    computeIdealBitBudgets stretchedNumerics ⟨4, 2, 0, Nat.two_pos, by decide, rfl, rfl⟩
        stretchedRows =
        .ok (([1, 0, 0, 0] : List ℚ).map fun height =>
          maxOf 0 (height - waterLevel 4 2 ([1, 0, 0, 0] : List ℚ))) ∧
      8 ≤ (([1, 0, 0, 0] : List ℚ).map fun height =>
        maxOf 0 (height - waterLevel 4 2 ([1, 0, 0, 0] : List ℚ))).sum := by
  obtain ⟨hlevel, hbudgets⟩ := @water_filling_spends_budget ℚ _ _ _
  have hheights : budgetHeights stretchedNumerics 4 stretchedRows = [1, 0, 0, 0] := by
    decide +kernel
  constructor
  · rw [← hheights]
    refine (hbudgets ℚ stretchedNumerics _ stretchedRows (by decide) ?_ ?_).2
    · decide +kernel
    · decide +kernel
  · have hlower := (hlevel 2 [1, 0, 0, 0] (by decide) (by decide)).2.2.1
    norm_num [nbits] at hlower ⊢
    exact hlower

end Recast
