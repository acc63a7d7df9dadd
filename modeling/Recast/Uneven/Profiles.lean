import Recast.Uneven.Assignment
import Mathlib.Tactic.Ring

/-!
# The hill climb over capacity profiles

Every profile the climb visits keeps the number of pairs, the total, and the
bounds on a width. A pass moves to one of the profiles it tried or stops.
-/

namespace Recast

open Foundation

/-- A profile of pair capacities that covers all dimensions within the bounds. -/
structure Profile (shape : UnevenShape) (pairedCapacities : List Nat) : Prop where
  hlength : pairedCapacities.length = shape.M / 2
  hsum : pairedCapacities.sum = shape.d / 2
  hpositive : ∀ capacity ∈ pairedCapacities, 1 ≤ capacity
  hmaximum : ∀ capacity ∈ pairedCapacities, capacity ≤ shape.maximum

/-- The bound on the widths leaves room for a uniform layout. -/
def UnevenShape.Admits (shape : UnevenShape) : Prop :=
  shape.maxSubspaceDimension = 0 ∨
    (shape.d + shape.M - 1) / shape.M ≤ shape.maxSubspaceDimension

theorem UnevenShape.Admits.le_maximum {shape : UnevenShape} (hadmits : shape.Admits) :
    (shape.d + shape.M - 1) / shape.M ≤ shape.maximum := by
  unfold maximum
  split
  · omega
  · next hset => exact hadmits.resolve_left hset

/-- The start profile. -/
theorem baseCapacities_profile {shape : UnevenShape} (hadmits : shape.Admits) :
    Profile shape (baseCapacities shape) := by
  have hM := shape.hevenGroups
  have hd := shape.hevenDimension
  have hle := shape.hle
  have hpositive := shape.hpositive
  have hpairs : 0 < shape.M / 2 := by omega
  have hbase : 1 ≤ shape.d / 2 / (shape.M / 2) :=
    (Nat.one_le_div_iff hpairs).mpr (by omega)
  have hrest := Nat.mod_lt (shape.d / 2) hpairs
  have hmaximum := hadmits.le_maximum
  have hdivide := Nat.div_add_mod (shape.d / 2) (shape.M / 2)
  -- Rounding up `d / M` counts a remainder of the pairs as one more.
  have hceil : shape.d / 2 / (shape.M / 2) + (if shape.d / 2 % (shape.M / 2) = 0 then 0 else 1) ≤
      (shape.d + shape.M - 1) / shape.M := by
    rw [Nat.le_div_iff_mul_le hpositive]
    have hMhalf : shape.M = 2 * (shape.M / 2) := by omega
    generalize shape.d / 2 / (shape.M / 2) = base at hdivide hbase ⊢
    generalize shape.M / 2 = pairs at *
    have hexpand (extra : Nat) :
        (base + extra) * (2 * pairs) = 2 * (pairs * base) + extra * (2 * pairs) := by ring
    rw [hMhalf, hexpand]
    split
    · omega
    · omega
  constructor
  · simp only [baseCapacities, List.length_append, List.length_replicate]
    omega
  · simp only [baseCapacities, List.sum_append, List.sum_replicate_nat]
    generalize shape.d / 2 / (shape.M / 2) = base at *
    generalize shape.d / 2 % (shape.M / 2) = rest at *
    obtain ⟨more, hmore⟩ := Nat.exists_eq_add_of_le hrest.le
    rw [hmore] at hdivide ⊢
    rw [Nat.add_sub_cancel_left, ← hdivide]
    ring
  · intro capacity hcapacity
    simp only [baseCapacities, List.mem_append, List.mem_replicate] at hcapacity
    omega
  · intro capacity hcapacity
    simp only [baseCapacities, List.mem_append, List.mem_replicate] at hcapacity
    split at hceil <;> omega

/-- Moving one unit of capacity between two pairs. -/
theorem Profile.transfer {shape : UnevenShape} {pairedCapacities : List Nat}
    (hprofile : Profile shape pairedCapacities) {src dst : Nat} (hne : src ≠ dst)
    (hsrc : src < pairedCapacities.length) (hdst : dst < pairedCapacities.length)
    (hshrink : 1 < pairedCapacities.getD src 0)
    (hgrow : pairedCapacities.getD dst 0 < shape.maximum) :
    Profile shape (transfer pairedCapacities src dst) := by
  have hperm : (Recast.transfer pairedCapacities src dst).Perm
      ((pairedCapacities.modify src (· - 1)).modify dst (· + 1)) := List.mergeSort_perm _ _
  have hfrom := getElem?_of_lt hsrc 0
  have hto : (pairedCapacities.modify src (· - 1))[dst]? = some (pairedCapacities.getD dst 0) := by
    rw [List.getElem?_modify_ne _ _ hne]
    exact getElem?_of_lt hdst 0
  constructor
  · rw [hperm.length_eq, List.length_modify, List.length_modify, hprofile.hlength]
  · have hsum₁ := (cons_modify_perm hfrom (· - 1)).sum_eq
    have hsum₂ := (cons_modify_perm hto (· + 1)).sum_eq
    rw [List.sum_cons, List.sum_cons] at hsum₁ hsum₂
    rw [hperm.sum_eq, ← hprofile.hsum]
    omega
  · intro capacity hcapacity
    rw [hperm.mem_iff] at hcapacity
    cases mem_modify_cases hcapacity with
    | inr hgrown =>
        obtain ⟨_, _, rfl⟩ := hgrown
        exact Nat.succ_pos _
    | inl hkept =>
        cases mem_modify_cases hkept with
        | inl hold => exact hprofile.hpositive capacity hold
        | inr hshrunk =>
            obtain ⟨old, hold, rfl⟩ := hshrunk
            rw [hfrom] at hold
            cases hold
            omega
  · intro capacity hcapacity
    rw [hperm.mem_iff] at hcapacity
    cases mem_modify_cases hcapacity with
    | inr hgrown =>
        obtain ⟨old, hold, rfl⟩ := hgrown
        rw [hto] at hold
        cases hold
        exact hgrow
    | inl hkept =>
        cases mem_modify_cases hkept with
        | inl hold => exact hprofile.hmaximum capacity hold
        | inr hshrunk =>
            obtain ⟨old, hold, rfl⟩ := hshrunk
            exact (Nat.sub_le old 1).trans (hprofile.hmaximum old (List.mem_of_getElem? hold))

theorem lt_of_mem_runStarts {pairedCapacities : List Nat} {i : Nat}
    (h : i ∈ runStarts pairedCapacities) : i < pairedCapacities.length :=
  List.mem_range.mp (List.mem_filter.mp h).1

/-- The pair that grows is not the one that shrinks and has the capacity the
loop looked at. -/
theorem actualTo_spec {pairedCapacities : List Nat} {src dst dst' : Nat}
    (hdst : dst < pairedCapacities.length) (h : actualTo pairedCapacities src dst = some dst') :
    src ≠ dst' ∧ dst' < pairedCapacities.length ∧
      pairedCapacities.getD dst' 0 = pairedCapacities.getD dst 0 := by
  unfold actualTo at h
  split at h
  · next hsame =>
      subst hsame
      have hmem := List.mem_range'_1.mp (List.mem_of_find?_eq_some h)
      have hcapacity := List.find?_some h
      exact ⟨by omega, by omega, of_decide_eq_true hcapacity⟩
  · next hother =>
      cases h
      exact ⟨Ne.symm hother, hdst, rfl⟩

theorem trialProfiles_profile {shape : UnevenShape} {pairedCapacities trial : List Nat}
    (hprofile : Profile shape pairedCapacities)
    (h : trial ∈ trialProfiles shape.maximum pairedCapacities) : Profile shape trial := by
  obtain ⟨src, hsrc, htrial⟩ := List.mem_flatMap.mp h
  split at htrial
  · cases htrial
  next hshrink =>
    obtain ⟨dst, hdst, htrial⟩ := List.mem_filterMap.mp htrial
    split at htrial
    · cases htrial
    next hgrow =>
      cases hactual : actualTo pairedCapacities src dst with
      | none => simp [hactual] at htrial
      | some dst' =>
          simp only [hactual] at htrial
          split at htrial
          · cases htrial
          cases htrial
          obtain ⟨hne, hlt, hcapacity⟩ := actualTo_spec (lt_of_mem_runStarts hdst) hactual
          exact hprofile.transfer hne (lt_of_mem_runStarts hsrc) hlt (by omega) (by omega)

section Climb

variable {K : Type} [Zero K] [One K] [Add K] [Sub K] [Mul K] [Div K] [Neg K] [NatCast K]
variable [LT K] [DecidableLT K] [LE K] [DecidableLE K] [BEq K]
variable {shape : UnevenShape} {bitBudgets : List K}

/-- One pass scores every trial and keeps one of them or none. -/
theorem bestProfile_ok (hbudgets : bitBudgets.length = shape.d) (currentScore : K)
    {trials : List (List Nat)} (htrials : ∀ trial ∈ trials, Profile shape trial)
    (best : Option (List Nat × K)) (hbest : ∀ pair ∈ best, Profile shape pair.1) :
    ∃ best', bestProfile shape bitBudgets currentScore trials best = .ok best' ∧
      ∀ pair ∈ best', Profile shape pair.1 := by
  induction trials generalizing best with
  | nil => exact ⟨best, rfl, hbest⟩
  | cons trial rest ih =>
      obtain ⟨htrial, hrest⟩ := List.forall_mem_cons.mp htrials
      obtain ⟨_, _, _, hassign, _⟩ := assignDimensions_ok shape htrial.hlength htrial.hsum hbudgets
      rw [bestProfile, hassign]
      simp only [bind, Except.bind]
      split
      · refine ih hrest _ ?_
        intro pair hpair
        cases hpair
        exact htrial
      · exact ih hrest best hbest

theorem climb_ok (hbudgets : bitBudgets.length = shape.d) (passes : Nat)
    {pairedCapacities : List Nat} (hprofile : Profile shape pairedCapacities) (currentScore : K) :
    ∃ planned, climb shape bitBudgets passes pairedCapacities currentScore = .ok planned ∧
      Profile shape planned := by
  induction passes generalizing pairedCapacities currentScore with
  | zero => exact ⟨pairedCapacities, rfl, hprofile⟩
  | succ passes ih =>
      obtain ⟨best, hpass, hbest⟩ := bestProfile_ok hbudgets currentScore
        (fun trial => trialProfiles_profile hprofile) none (by simp)
      rw [climb, hpass]
      cases best with
      | none => exact ⟨pairedCapacities, rfl, hprofile⟩
      | some pair => exact ih (hbest pair rfl) pair.2

/-- The planner returns a profile, whatever the arithmetic does. -/
theorem planPairedCapacities_ok (hadmits : shape.Admits) (hbudgets : bitBudgets.length = shape.d) :
    ∃ planned, planPairedCapacities shape bitBudgets = .ok planned ∧ Profile shape planned := by
  have hbase := baseCapacities_profile hadmits
  obtain ⟨_, _, _, hassign, _⟩ := assignDimensions_ok shape hbase.hlength hbase.hsum hbudgets
  rw [planPairedCapacities, if_neg (Nat.not_lt.mpr hadmits.le_maximum), hassign]
  exact climb_ok hbudgets 16 hbase _

end Climb

end Recast
