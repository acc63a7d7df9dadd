import Recast.Scan.SelectionLaws

/-!
# Enough candidates

Over exact numbers with infinities: the endpoints enclose the estimate, so the
rows of the smallest estimates survive both the cut of the reservoir and the
filter by the lower endpoints.
-/

namespace Recast

open Foundation

section

variable {F : Type} [LinearOrder F]

@[simp] theorem key_finite_le {x y : F} :
    (Extended.finite x).key ≤ (Extended.finite y).key ↔ x ≤ y := by
  rw [Extended.key, Extended.key, WithBot.coe_le_coe, WithTop.coe_le_coe]

@[simp] theorem key_le_infinity (x : Extended F) : x.key ≤ Extended.infinity.key := by
  cases x <;> simp [Extended.key]

@[simp] theorem negInfinity_key_le (x : Extended F) : Extended.negInfinity.key ≤ x.key := bot_le

end

section

variable {F : Type} [Field F] [LinearOrder F]

/-- A row as the scan forms it: its estimate is finite or infinite, its
uncertainty non-negative or infinite. -/
def Measured (row : DistanceEstimate (Extended F)) : Prop :=
  (match row.estimatedDistance with
    | .finite _ => True
    | .infinity => True
    | _ => False) ∧
  match row.uncertainty with
    | .finite uncertainty => 0 ≤ uncertainty
    | .infinity => True
    | _ => False

/-- The upper endpoint, by the kinds of estimate and uncertainty. -/
def upperOf (z : F) : Extended F → Extended F → Extended F
  | .finite estimate, .finite uncertainty => .finite (estimate + z * uncertainty)
  | estimate, uncertainty => if z = 0 then estimate else
      match uncertainty with
      | .finite _ => estimate
      | _ => .infinity

/-- The lower endpoint, by the kinds of estimate and uncertainty. -/
def lowerOf (z : F) : Extended F → Extended F → Extended F
  | .finite estimate, .finite uncertainty => .finite (estimate - z * uncertainty)
  | estimate, uncertainty => if z = 0 then estimate else
      match uncertainty with
      | .finite _ => estimate
      | _ => .negInfinity

theorem upper_eq {row : DistanceEstimate (Extended F)} (hrow : Measured row) (z : F) :
    row.upper (.finite z) = upperOf z row.estimatedDistance row.uncertainty := by
  obtain ⟨id, estimate, uncertainty⟩ := row
  by_cases hz : z = 0 <;> cases estimate <;> cases uncertainty <;>
    simp_all [Measured, DistanceEstimate.upper, upperOf, Ieee.beq, Ieee.zero, Ieee.isInf,
      Ieee.isNaN, Ieee.add, Ieee.mul, Ieee.infinity, Extended.beq, Extended.add, Extended.mul]

theorem lower_eq {row : DistanceEstimate (Extended F)} (hrow : Measured row) (z : F) :
    row.lower (.finite z) = lowerOf z row.estimatedDistance row.uncertainty := by
  obtain ⟨id, estimate, uncertainty⟩ := row
  by_cases hz : z = 0 <;> cases estimate <;> cases uncertainty <;>
    simp_all [Measured, DistanceEstimate.lower, lowerOf, Ieee.beq, Ieee.zero, Ieee.isInf,
      Ieee.isNaN, Ieee.sub, Ieee.mul, Ieee.negInfinity, Extended.beq, Extended.neg, Extended.add,
      Extended.mul, sub_eq_add_neg]

theorem Measured.estimate_valid {row : DistanceEstimate (Extended F)} (hrow : Measured row) :
    row.estimatedDistance ≠ .nan := by
  intro hnan
  rw [Measured, hnan] at hrow
  exact hrow.1

/-- How many rows rank below a row. -/
theorem countP_rankLess {rows : List (DistanceEstimate (Extended F))}
    (hmeasured : ∀ row ∈ rows, Measured row) {row : DistanceEstimate (Extended F)}
    (hrow : row ∈ rows) :
    rows.countP (fun other => FusedIntervalAccumulator.rankLess other row) =
      rows.countP fun other => rowRank Extended.key other < rowRank Extended.key row := by
  refine List.countP_congr fun other hother => ?_
  rw [decide_eq_true_eq]
  exact rankLess_compares Extended.orderedBy other row (hmeasured other hother).estimate_valid
    (hmeasured row hrow).estimate_valid

/-- An accepted z-score is finite and not negative. -/
theorem create_zScore {avx512 : Bool} {topk maxCandidates : ℕ} {zScore : Extended F}
    {start : FusedIntervalAccumulator (Extended F)}
    (hcreate : FusedIntervalAccumulator.create avx512 topk zScore maxCandidates = .ok start) :
    ∃ z, 0 ≤ z ∧ zScore = .finite z := by
  unfold FusedIntervalAccumulator.create at hcreate
  split at hcreate
  · cases hcreate
  next hvalid =>
    rw [not_or, not_or, not_or, not_or] at hvalid
    cases zScore with
    | nan => exact absurd rfl hvalid.2.2.1
    | negInfinity => exact absurd rfl hvalid.2.1
    | infinity => exact absurd rfl hvalid.2.1
    | finite z =>
        refine ⟨z, ?_, rfl⟩
        by_contra hneg
        exact hvalid.2.2.2.1 (decide_eq_true (not_le.mp hneg))

/-- The ranks that are wanted: with no cap, all. -/
def limitOf (maxCandidates count : ℕ) : ℕ := if maxCandidates = 0 then count else maxCandidates

/-- What a scan of enough rows selects. -/
theorem scanned_selects {avx512 : Bool} {topk maxCandidates : ℕ} {zScore : Extended F}
    {upper : DistanceEstimate (Extended F) → Extended F}
    {rows : List (DistanceEstimate (Extended F))} {scanned : FusedIntervalAccumulator (Extended F)}
    (hscanned : FusedIntervalAccumulator.Scanned Extended.key (· ≠ .nan)
      (limitOf maxCandidates rows.length) (avx512, topk, zScore, maxCandidates) upper rows scanned)
    (hscannable : FusedIntervalAccumulator.Scannable (· ≠ .nan) upper rows)
    (henough : topk ≤ rows.length) :
    ∃ shrunk : FusedIntervalAccumulator (Extended F),
      (shrunk.avx512 = avx512 ∧ shrunk.zScore = zScore) ∧
      Least (rowRank Extended.key) (min (limitOf maxCandidates rows.length) rows.length) rows
        shrunk.reservoir ∧
      scanned.finish = .ok {
        candidates := sortBy FusedIntervalAccumulator.rankLess
          (shrunk.filterByLower (scanned.smallestUppers.headD Ieee.infinity)).reservoir
        kthUpperBound := scanned.smallestUppers.headD Ieee.infinity
        truncated := 0 < maxCandidates && maxCandidates < rows.length } := by
  have hparameters := hscanned.parameters_eq
  simp only [FusedIntervalAccumulator.parameters, Prod.mk.injEq] at hparameters
  obtain ⟨-, htopk, -, hcap⟩ := hparameters
  obtain ⟨shrunk, hshrunk, hleast, hfinish⟩ := hscanned.finish Extended.orderedBy hscannable
    (fun hzero => if_pos (hcap ▸ hzero)) (htopk ▸ henough)
  simp only [FusedIntervalAccumulator.parameters, Prod.mk.injEq] at hshrunk
  rw [hcap] at hfinish
  exact ⟨shrunk, ⟨hshrunk.1, hshrunk.2.2.1⟩, hleast, hfinish⟩

variable [IsStrictOrderedRing F]

/-- The upper endpoint is a number that is not below the estimate. -/
theorem le_upper {row : DistanceEstimate (Extended F)} (hrow : Measured row) {z : F} (hz : 0 ≤ z) :
    row.upper (.finite z) ≠ .nan ∧
      row.estimatedDistance.key ≤ (row.upper (.finite z)).key := by
  rw [upper_eq hrow]
  obtain ⟨id, estimate, uncertainty⟩ := row
  have hproduct (u : F) (hu : 0 ≤ u) : 0 ≤ z * u := mul_nonneg hz hu
  by_cases hzero : z = 0 <;> cases estimate <;> cases uncertainty <;>
    simp_all [Measured, upperOf]

/-- The lower endpoint is a number that is not above the estimate. -/
theorem lower_le {row : DistanceEstimate (Extended F)} (hrow : Measured row) {z : F} (hz : 0 ≤ z) :
    row.lower (.finite z) ≠ .nan ∧
      (row.lower (.finite z)).key ≤ row.estimatedDistance.key := by
  rw [lower_eq hrow]
  obtain ⟨id, estimate, uncertainty⟩ := row
  have hproduct (u : F) (hu : 0 ≤ u) : 0 ≤ z * u := mul_nonneg hz hu
  by_cases hzero : z = 0 <;> cases estimate <;> cases uncertainty <;>
    simp_all [Measured, lowerOf]

/-! ## Selection -/

theorem measured_scannable {rows : List (DistanceEstimate (Extended F))}
    (hmeasured : ∀ row ∈ rows, Measured row) (hids : (rows.map DistanceEstimate.id).Nodup)
    (hbits : ∀ row ∈ rows, row.id < 2 ^ 32) {z : F} (hz : 0 ≤ z) :
    FusedIntervalAccumulator.Scannable (· ≠ .nan) (fun row => row.upper (.finite z)) rows where
  estimates row hrow := (hmeasured row hrow).estimate_valid
  uppers row hrow := (le_upper (hmeasured row hrow) hz).1
  ids := hids
  room := FusedIntervalAccumulator.ids_room hids hbits

/-- The portable scan of measured rows. -/
theorem scalar_scanned {topk maxCandidates : ℕ} {z : F} (hz : 0 ≤ z)
    {start : FusedIntervalAccumulator (Extended F)}
    (hcreate : FusedIntervalAccumulator.create false topk (.finite z) maxCandidates = .ok start)
    {blocks : List (List (DistanceEstimate (Extended F)))}
    (hmeasured : ∀ row ∈ blocks.flatten, Measured row)
    (hids : (blocks.flatten.map DistanceEstimate.id).Nodup)
    (hbits : ∀ row ∈ blocks.flatten, row.id < 2 ^ 32) :
    0 < topk ∧ ∃ scanned,
      FusedIntervalAccumulator.Scanned Extended.key (· ≠ .nan)
        (limitOf maxCandidates blocks.flatten.length) (false, topk, .finite z, maxCandidates)
        (fun row => row.upper (.finite z)) blocks.flatten scanned ∧
      selectScalar topk (.finite z) maxCandidates blocks = scanned.finish := by
  have hlimit : 0 < maxCandidates → maxCandidates = limitOf maxCandidates blocks.flatten.length :=
    fun hcap => (if_neg hcap.ne').symm
  obtain ⟨hpos, hstart⟩ := @FusedIntervalAccumulator.create_scanned _ _ _ _ Extended.key (· ≠ .nan)
    _ (fun row => row.upper (.finite z)) _ _ _ _ _ hcreate hlimit
  have hselect : selectScalar topk (.finite z) maxCandidates blocks =
      (blocks.foldl (fun accumulator block =>
        FusedIntervalAccumulator.addScalarBlock (block.map fun row => (row, row.upper (.finite z)))
          accumulator) start).finish := by
    rw [selectScalar, hcreate]
    rfl
  have hscanned := hstart.blocks (fun accumulator rows block hscanned hscannable =>
    hscanned.addScalarBlock Extended.orderedBy (fun h => nomatch h) hpos hscannable)
    (measured_scannable hmeasured hids hbits hz)
  exact ⟨hpos, _, hscanned, hselect⟩

/-- The candidates of the portable scan, as many as a search needs at least. -/
def selectCandidates {E : Type} [Ieee E] (topk : ℕ) (zScore : E) (maxCandidates : ℕ)
    (blocks : List (List (DistanceEstimate E))) : Except Error (SelectionResult E) := do
  let selected ← selectScalar topk zScore maxCandidates blocks
  if selected.candidates.length < topk then
    .error (.logic "interval selection returned fewer than topk rows")
  else .ok selected

/-- An upper endpoint with `topk` endpoints up to it is not below the estimate of a
row that has fewer than `topk` rows below it. -/
theorem estimate_le_kthUpper {rows : List (DistanceEstimate (Extended F))}
    (hmeasured : ∀ row ∈ rows, Measured row) {z : F} (hz : 0 ≤ z) {kthUpper : Extended F} {topk : ℕ}
    (hcount : topk ≤ rows.countP fun other => (other.upper (.finite z)).key ≤ kthUpper.key)
    {row : DistanceEstimate (Extended F)}
    (hrank : rows.countP (fun other => rowRank Extended.key other < rowRank Extended.key row) <
      topk) : row.estimatedDistance.key ≤ kthUpper.key := by
  by_contra habove
  rw [not_le] at habove
  -- all those rows would be below it
  have hbelow : rows.countP (fun other => (other.upper (.finite z)).key ≤ kthUpper.key) ≤
      rows.countP fun other => rowRank Extended.key other < rowRank Extended.key row := by
    refine List.countP_mono_left fun other hother hupper => ?_
    rw [decide_eq_true_eq] at hupper ⊢
    exact rowRank_lt.mpr
      (.inl (((le_upper (hmeasured other hother) hz).2.trans hupper).trans_lt habove))
  omega

/-- For every accepted parameters, any blocks of measured rows with distinct IDs,
at least `topk` of them: the search has enough candidates, and the `topk` smallest
rows by estimate and ID are among them. -/
theorem enough_candidates {topk maxCandidates : ℕ} {zScore : Extended F}
    {start : FusedIntervalAccumulator (Extended F)}
    (hcreate : FusedIntervalAccumulator.create false topk zScore maxCandidates = .ok start)
    {blocks : List (List (DistanceEstimate (Extended F)))}
    (hmeasured : ∀ row ∈ blocks.flatten, Measured row)
    (hids : (blocks.flatten.map DistanceEstimate.id).Nodup)
    (hbits : ∀ row ∈ blocks.flatten, row.id < 2 ^ 32) (henough : topk ≤ blocks.flatten.length) :
    ∃ result, selectCandidates topk zScore maxCandidates blocks = .ok result ∧
      topk ≤ result.candidates.length ∧
      ∀ row ∈ blocks.flatten,
        blocks.flatten.countP (fun other => FusedIntervalAccumulator.rankLess other row) < topk →
          row ∈ result.candidates := by
  obtain ⟨z, hz, rfl⟩ := create_zScore hcreate
  obtain ⟨hpos, scanned, hscanned, hselect⟩ := scalar_scanned hz hcreate hmeasured hids hbits
  have hscannable := measured_scannable hmeasured hids hbits hz
  have hcapTopk := (FusedIntervalAccumulator.create_eq_ok hcreate).2.1
  generalize blocks.flatten = rows at *
  obtain ⟨shrunk, ⟨hportable, hz'⟩, hleast, hfinish⟩ := scanned_selects hscanned hscannable henough
  have htopk : scanned.topk = topk := hscanned.topk_eq
  obtain ⟨last, hlast, hkth, hcount⟩ := hscanned.kthUpper (htopk ▸ hpos) (htopk ▸ henough)
  rw [htopk] at hcount
  rw [← hkth, FusedIntervalAccumulator.filterByLower_portable hportable, hz'] at hfinish
  have hlimit : topk ≤ min (limitOf maxCandidates rows.length) rows.length := by
    unfold limitOf
    split <;> omega
  -- the smallest rows are kept by the shrink and by the filter
  have hkept : ∀ row ∈ rows,
      rows.countP (fun other => rowRank Extended.key other < rowRank Extended.key row) < topk →
      row ∈ sortBy FusedIntervalAccumulator.rankLess (shrunk.reservoir.filter fun row =>
        Ieee.le (row.lower (.finite z)) (last.upper (.finite z))) := by
    intro row hrow hrank
    refine (sortBy_perm _ _).mem_iff.mpr (List.mem_filter.mpr ⟨?_, ?_⟩)
    · exact hleast.mem_iff.mpr ⟨hrow, hrank.trans_le hlimit⟩
    · obtain ⟨hlower, hle⟩ := lower_le (hmeasured row hrow) hz
      rw [Extended.orderedBy.le_iff hlower (le_upper (hmeasured last hlast) hz).1]
      exact hle.trans (estimate_le_kthUpper hmeasured hz hcount hrank)
  have hlength : topk ≤ (sortBy FusedIntervalAccumulator.rankLess (shrunk.reservoir.filter
      fun row => Ieee.le (row.lower (.finite z)) (last.upper (.finite z)))).length := by
    refine (le_countP_rank (rowRank Extended.key) henough).trans ?_
    rw [List.countP_eq_length_filter]
    refine (List.subperm_of_subset ((List.Nodup.of_map _ hids).filter _) fun row hrow => ?_).length_le
    obtain ⟨hrow, hrank⟩ := List.mem_filter.mp hrow
    exact hkept row hrow (of_decide_eq_true hrank)
  obtain ⟨result, hcandidates, hresult⟩ : ∃ result : SelectionResult (Extended F),
      result.candidates = sortBy FusedIntervalAccumulator.rankLess (shrunk.reservoir.filter
        fun row => Ieee.le (row.lower (.finite z)) (last.upper (.finite z))) ∧
      selectScalar topk (.finite z) maxCandidates blocks = .ok result :=
    ⟨_, rfl, hselect.trans hfinish⟩
  rw [← hcandidates] at hlength
  rw [← hcandidates] at hkept
  refine ⟨result, ?_, hlength, fun row hrow hrank => ?_⟩
  · rw [selectCandidates, hresult]
    exact if_neg (not_lt.mpr hlength)
  · refine hkept row hrow ?_
    rwa [← countP_rankLess hmeasured hrow]

/-- Three rows, all without a bound, of which two are wanted. -/
theorem enough_candidates_unbounded :
    ∃ result, selectCandidates 2 (.finite 1 : Extended ℚ) 2
        [[⟨5, .infinity, .infinity⟩, ⟨3, .infinity, .infinity⟩], [⟨4, .infinity, .infinity⟩]] =
      .ok result ∧ 2 ≤ result.candidates.length := by
  have hcreate : FusedIntervalAccumulator.create false 2 (.finite 1 : Extended ℚ) 2 =
      .ok ⟨false, 2, .finite 1, 2, 4, 20, [], 0, [], none, [], none⟩ := by rfl
  obtain ⟨result, hselect, hlength, -⟩ := @enough_candidates ℚ _ _ _ 2 2 (.finite 1) _ hcreate
    [[⟨5, .infinity, .infinity⟩, ⟨3, .infinity, .infinity⟩], [⟨4, .infinity, .infinity⟩]]
    (by simp [Measured]) (by decide) (by simp) (by decide)
  exact ⟨result, hselect, hlength⟩

end

end Recast
