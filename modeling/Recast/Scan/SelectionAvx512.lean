import Recast.Scan.SelectionBounds

/-!
# The AVX-512 selector

It takes sixteen rows at once with one admission threshold, and forms the
endpoints without the tests of the portable code. The heap and the reservoir
agree, and so do the lower endpoints but for a row whose estimate and
uncertainty are both infinite: infinity minus infinity is no number.
-/

namespace Recast

open Foundation

section

variable {F : Type} [Field F] [LinearOrder F]

theorem extended_mul_comm (x y : Extended F) : Extended.mul x y = Extended.mul y x := by
  cases x <;> cases y <;> simp [Extended.mul, mul_comm]

/-- Heaps of the same endpoints have the same top. -/
theorem kthUpper_unique {uppers heap heap' : List (Extended F)} {topk : ℕ}
    (hvalid : ∀ upper ∈ uppers, upper ≠ .nan) (h : Smallest Extended.key topk uppers heap)
    (h' : Smallest Extended.key topk uppers heap') :
    heap.headD Ieee.infinity = heap'.headD Ieee.infinity := by
  have hkeys : heap.map Extended.key = heap'.map Extended.key := by
    have hreversed := h.reverse_keys.trans h'.reverse_keys.symm
    rw [List.map_reverse, List.map_reverse] at hreversed
    exact List.reverse_injective hreversed
  cases heap with
  | nil => rw [List.map_eq_nil_iff.mp hkeys.symm]
  | cons top rest =>
      cases heap' with
      | nil => cases hkeys
      | cons top' rest' =>
          have htop := hvalid top (h.mem List.mem_cons_self)
          have htop' := hvalid top' (h'.mem List.mem_cons_self)
          rw [List.map_cons, List.map_cons, List.cons.injEq] at hkeys
          exact (Extended.key_injective htop htop').mp hkeys.1

theorem upperAvx512_eq {row : DistanceEstimate (Extended F)} (hrow : Measured row) (z : F) :
    row.upperAvx512 (.finite z) = row.upper (.finite z) := by
  rw [upper_eq hrow]
  obtain ⟨id, estimate, uncertainty⟩ := row
  by_cases hz : z = 0 <;> cases estimate <;> cases uncertainty <;>
    simp_all [Measured, DistanceEstimate.upperAvx512, upperOf, Ieee.beq, Ieee.zero, Ieee.isInf,
      Ieee.add, Ieee.mul, Ieee.infinity, Extended.beq, Extended.add, Extended.mul, mul_comm]

/-- Neither the estimate nor the uncertainty is finite. -/
def bothInfinite (row : DistanceEstimate (Extended F)) : Bool :=
  decide (row.estimatedDistance = .infinity) && decide (row.uncertainty = .infinity)

/-- The lower endpoint of the lanes is no number when both are infinite, and the
portable one otherwise. -/
theorem lowerAvx512_eq {row : DistanceEstimate (Extended F)} (hrow : Measured row) {z : F}
    (hz : 0 ≤ z) :
    FusedIntervalAccumulator.lowerAvx512 (.finite z) row =
      if z ≠ 0 ∧ bothInfinite row = true then .nan else row.lower (.finite z) := by
  rw [lower_eq hrow]
  obtain ⟨id, estimate, uncertainty⟩ := row
  rcases hz.eq_or_lt with hzero | hpos
  · subst hzero
    cases estimate <;> cases uncertainty <;>
      simp_all [Measured, FusedIntervalAccumulator.lowerAvx512, lowerOf, Ieee.beq, Ieee.zero,
        Extended.beq]
  · have hne := hpos.ne'
    cases estimate <;> cases uncertainty <;>
      simp_all [Measured, FusedIntervalAccumulator.lowerAvx512, lowerOf, bothInfinite, Ieee.beq,
        Ieee.zero, Ieee.sub, Ieee.mul, Extended.beq, Extended.add, Extended.neg, Extended.mul,
        Extended.scaleInfinity, mul_comm, sub_eq_add_neg]

/-- The portable filter keeps a row with both infinite. -/
theorem le_lower_bothInfinite {row : DistanceEstimate (Extended F)} (hrow : Measured row) {z : F}
    (hz : z ≠ 0) (hinfinite : bothInfinite row = true) {kthUpper : Extended F}
    (hkth : kthUpper ≠ .nan) : Ieee.le (row.lower (.finite z)) kthUpper = true := by
  rw [bothInfinite, Bool.and_eq_true, decide_eq_true_eq, decide_eq_true_eq] at hinfinite
  have hlower : row.lower (.finite z) = .negInfinity := by
    rw [lower_eq hrow, hinfinite.1, hinfinite.2]
    exact if_neg hz
  have hvalid : (Extended.negInfinity : Extended F) ≠ .nan := fun h => nomatch h
  rw [hlower, Extended.orderedBy.le_iff hvalid hkth]
  exact negInfinity_key_le kthUpper

/-- What the filter of the lanes keeps. -/
theorem filterByLower_avx512 {accumulator : FusedIntervalAccumulator (Extended F)} {z : F}
    (hz : 0 ≤ z) (havx512 : accumulator.avx512 = true) (hzScore : accumulator.zScore = .finite z)
    (hmeasured : ∀ row ∈ accumulator.reservoir, Measured row) (kthUpper : Extended F) :
    (accumulator.filterByLower kthUpper).reservoir = accumulator.reservoir.filter fun row =>
      Ieee.le (row.lower (.finite z)) kthUpper && !(decide (z ≠ 0) && bothInfinite row) := by
  have htail : (fun row : DistanceEstimate (Extended F) => Ieee.le
      (if Ieee.beq (Extended.finite z) Ieee.zero then row.estimatedDistance
      else Ieee.sub row.estimatedDistance (Ieee.mul (.finite z) row.uncertainty)) kthUpper) =
      fun row => Ieee.le (FusedIntervalAccumulator.lowerAvx512 (.finite z) row) kthUpper := by
    funext row
    rw [FusedIntervalAccumulator.lowerAvx512]
    congr 2
    exact congrArg (Ieee.sub row.estimatedDistance) (extended_mul_comm _ _)
  unfold FusedIntervalAccumulator.filterByLower FusedIntervalAccumulator.replaceReservoir
  rw [havx512, hzScore]
  dsimp only
  rw [if_pos rfl, htail, compress16_self]
  apply List.filter_congr
  intro row hrow
  rw [lowerAvx512_eq (hmeasured row hrow) hz]
  have htest : (decide (z ≠ 0) && bothInfinite row) = true ↔ z ≠ 0 ∧ bothInfinite row = true := by
    rw [Bool.and_eq_true, decide_eq_true_eq]
  by_cases hinfinite : z ≠ 0 ∧ bothInfinite row = true
  · rw [if_pos hinfinite, htest.mpr hinfinite, Bool.not_true, Bool.and_false]
    rfl
  · rw [if_neg hinfinite, Bool.eq_false_iff.mpr (mt htest.mp hinfinite), Bool.not_false,
      Bool.and_true]

/-- The rows of the wanted ranks are those kept. -/
theorem wanted_iff {maxCandidates : ℕ} {rows kept : List (DistanceEstimate (Extended F))}
    (hmeasured : ∀ row ∈ rows, Measured row)
    (hleast : Least (rowRank Extended.key) (min (limitOf maxCandidates rows.length) rows.length)
      rows kept) {row : DistanceEstimate (Extended F)} (hrow : row ∈ rows) :
    row ∈ kept ↔ maxCandidates = 0 ∨
      rows.countP (fun other => FusedIntervalAccumulator.rankLess other row) < maxCandidates := by
  -- the row is not below itself
  have hfewer : rows.countP (fun other => rowRank Extended.key other < rowRank Extended.key row) <
      rows.length := by
    rw [List.countP_eq_length_filter]
    exact List.length_filter_lt_length_iff_exists.mpr ⟨row, hrow, by simp⟩
  rw [hleast.mem_iff, countP_rankLess hmeasured hrow, limitOf]
  split
  next hzero => simp only [hrow, hfewer, hzero, min_self, true_and, true_or]
  next hcap => simp only [hrow, hfewer, hcap, lt_min_iff, true_and, false_or, and_true]

variable [IsStrictOrderedRing F]

/-- The constructor does nothing else with the host than remember it. -/
theorem create_host {E : Type} [Ieee E] (avx512 : Bool) (topk : ℕ) (zScore : E)
    (maxCandidates : ℕ) :
    FusedIntervalAccumulator.create avx512 topk zScore maxCandidates =
      (FusedIntervalAccumulator.create false topk zScore maxCandidates).map
        fun start => { start with avx512 } := by
  unfold FusedIntervalAccumulator.create FusedIntervalAccumulator.resizePlanes
  dsimp only
  split
  · rfl
  · split
    · by_cases hroom : planeMax < (2 * maxCandidates + 16) % 2 ^ 64
      · rw [if_pos hroom, if_pos hroom]
        rfl
      · rw [if_neg hroom, if_neg hroom]
        rfl
    · rfl

/-- The AVX-512 scan of measured rows. -/
theorem avx512_scanned {topk maxCandidates : ℕ} {z : F} (hz : 0 ≤ z)
    {start : FusedIntervalAccumulator (Extended F)}
    (hcreate : FusedIntervalAccumulator.create false topk (.finite z) maxCandidates = .ok start)
    {batches : List (List (DistanceEstimate (Extended F)))}
    (hmeasured : ∀ row ∈ batches.flatten, Measured row)
    (hids : (batches.flatten.map DistanceEstimate.id).Nodup)
    (hbits : ∀ row ∈ batches.flatten, row.id < 2 ^ 32) :
    ∃ scanned,
      FusedIntervalAccumulator.Scanned Extended.key (· ≠ .nan)
        (limitOf maxCandidates batches.flatten.length) (true, topk, .finite z, maxCandidates)
        (fun row => row.upperAvx512 (.finite z)) batches.flatten scanned ∧
      selectAvx512 topk (.finite z) maxCandidates batches = scanned.finish := by
  have hcreate : FusedIntervalAccumulator.create true topk (.finite z) maxCandidates =
      .ok { start with avx512 := true } := by
    rw [create_host, hcreate]
    rfl
  have hlimit : 0 < maxCandidates →
      maxCandidates = limitOf maxCandidates batches.flatten.length :=
    fun hcap => (if_neg hcap.ne').symm
  obtain ⟨hpos, hstart⟩ := @FusedIntervalAccumulator.create_scanned _ _ _ _ Extended.key (· ≠ .nan)
    _ (fun row => row.upperAvx512 (.finite z)) _ _ _ _ _ hcreate hlimit
  have hselect : selectAvx512 topk (.finite z) maxCandidates batches =
      (batches.foldl (fun accumulator batch =>
        FusedIntervalAccumulator.add16Avx512
          (batch.map fun row => (row, row.upperAvx512 (.finite z))) accumulator)
        { start with avx512 := true }).finish := by
    rw [selectAvx512, hcreate]
    rfl
  have hscannable : FusedIntervalAccumulator.Scannable (· ≠ .nan)
      (fun row => row.upperAvx512 (.finite z)) ([] ++ batches.flatten) :=
    ⟨fun row hrow => (hmeasured row hrow).estimate_valid, fun row hrow => by
      rw [upperAvx512_eq (hmeasured row hrow)]
      exact (le_upper (hmeasured row hrow) hz).1, hids, FusedIntervalAccumulator.ids_room hids hbits⟩
  have hscanned := hstart.blocks (fun accumulator rows batch hscanned hscannable =>
    hscanned.add16Avx512 Extended.orderedBy (fun h => nomatch h) hpos hscannable) hscannable
  exact ⟨_, hscanned, hselect⟩

/-- A row among the wanted ranks with both an infinite estimate and uncertainty. -/
def WantsUnbounded (maxCandidates : ℕ) (rows : List (DistanceEstimate (Extended F))) : Prop :=
  ∃ row ∈ rows, bothInfinite row = true ∧
    (maxCandidates = 0 ∨
      rows.countP (fun other => FusedIntervalAccumulator.rankLess other row) < maxCandidates)

/-- For every accepted parameters and measured rows with distinct IDs, in any
batches and blocks: the AVX-512 selector returns what the portable one does,
exactly when there are too few rows, or `z` is zero, or no row of the wanted
ranks has both an infinite estimate and an infinite uncertainty. -/
theorem selectAvx512_agrees_iff {topk maxCandidates : ℕ} {zScore : Extended F}
    {start : FusedIntervalAccumulator (Extended F)}
    (hcreate : FusedIntervalAccumulator.create false topk zScore maxCandidates = .ok start)
    {batches blocks : List (List (DistanceEstimate (Extended F)))}
    (hrows : batches.flatten = blocks.flatten)
    (hmeasured : ∀ row ∈ blocks.flatten, Measured row)
    (hids : (blocks.flatten.map DistanceEstimate.id).Nodup)
    (hbits : ∀ row ∈ blocks.flatten, row.id < 2 ^ 32) :
    selectAvx512 topk zScore maxCandidates batches = selectScalar topk zScore maxCandidates blocks ↔
      blocks.flatten.length < topk ∨ zScore = .finite 0 ∨
        ¬WantsUnbounded maxCandidates blocks.flatten := by
  obtain ⟨z, hz, rfl⟩ := create_zScore hcreate
  obtain ⟨hpos, portable, hportable, hselectPortable⟩ :=
    scalar_scanned hz hcreate hmeasured hids hbits
  obtain ⟨lanes, hlanes, hselectLanes⟩ := avx512_scanned hz hcreate (hrows ▸ hmeasured)
    (hrows ▸ hids) (hrows ▸ hbits)
  rw [hselectPortable, hselectLanes]
  have hscannable := measured_scannable hmeasured hids hbits hz
  rw [hrows] at hlanes
  generalize blocks.flatten = rows at *
  have htopk : portable.topk = topk := hportable.topk_eq
  have htopkLanes : lanes.topk = topk := hlanes.topk_eq
  rcases Nat.lt_or_ge rows.length topk with hfew | henough
  · rw [hportable.finish_few (htopk ▸ hfew), hlanes.finish_few (htopkLanes ▸ hfew)]
    exact iff_of_true rfl (.inl hfew)
  have huppers : rows.map (fun row => row.upperAvx512 (.finite z)) =
      rows.map fun row => row.upper (.finite z) :=
    List.map_congr_left fun row hrow => upperAvx512_eq (hmeasured row hrow) z
  have hscannableLanes : FusedIntervalAccumulator.Scannable (· ≠ .nan)
      (fun row => row.upperAvx512 (.finite z)) rows :=
    ⟨hscannable.estimates, fun row hrow => by
      rw [upperAvx512_eq (hmeasured row hrow)]
      exact hscannable.uppers row hrow, hids, hscannable.room⟩
  obtain ⟨shrunk, ⟨havx, hzScore⟩, hleast, hfinish⟩ :=
    scanned_selects hportable hscannable henough
  obtain ⟨shrunkLanes, ⟨havxLanes, hzScoreLanes⟩, hleastLanes, hfinishLanes⟩ :=
    scanned_selects hlanes hscannableLanes henough
  have hheapLanes := hlanes.uppers
  rw [huppers, htopkLanes, ← htopk] at hheapLanes
  have hkth := kthUpper_unique (List.forall_mem_map.mpr hscannable.uppers) hheapLanes
    hportable.uppers
  obtain ⟨last, hlast, hlastUpper, -⟩ := hportable.kthUpper (htopk ▸ hpos) (htopk ▸ henough)
  have hkthValid := hscannable.uppers last hlast
  have hmem {row : DistanceEstimate (Extended F)} (hrow : row ∈ shrunkLanes.reservoir) :
      row ∈ rows := (hleastLanes.mem_iff.mp hrow).1
  rw [hfinish, hfinishLanes, hkth, ← hlastUpper,
    FusedIntervalAccumulator.filterByLower_portable havx, hzScore,
    filterByLower_avx512 hz havxLanes hzScoreLanes fun row hrow => hmeasured row (hmem hrow)]
  simp only [Except.ok.injEq, SelectionResult.mk.injEq, and_true]
  constructor
  · intro hsame
    by_contra hnot
    rw [not_or, not_or, not_not] at hnot
    obtain ⟨-, hne, row, hrow, hinfinite, hwanted⟩ := hnot
    have hz' : z ≠ 0 := fun hzero => hne (congrArg Extended.finite hzero)
    -- the portable filter keeps the row, the lanes drop it
    have hkept : row ∈ sortBy FusedIntervalAccumulator.rankLess (shrunk.reservoir.filter
        fun row => Ieee.le (row.lower (.finite z)) (last.upper (.finite z))) :=
      (sortBy_perm _ _).mem_iff.mpr (List.mem_filter.mpr
        ⟨(wanted_iff hmeasured hleast hrow).mpr hwanted,
          le_lower_bothInfinite (hmeasured row hrow) hz' hinfinite hkthValid⟩)
    rw [← hsame, (sortBy_perm _ _).mem_iff, List.mem_filter, hinfinite, decide_eq_true hz',
      Bool.and_self, Bool.not_true, Bool.and_false] at hkept
    exact Bool.noConfusion hkept.2
  · intro hcase
    have hfilter : (shrunkLanes.reservoir.filter fun row =>
        Ieee.le (row.lower (.finite z)) (last.upper (.finite z)) &&
          !(decide (z ≠ 0) && bothInfinite row)) =
        shrunkLanes.reservoir.filter fun row =>
          Ieee.le (row.lower (.finite z)) (last.upper (.finite z)) := by
      apply List.filter_congr
      intro row hrow
      have hbounded : (decide (z ≠ 0) && bothInfinite row) = false := by
        rw [Bool.and_eq_false_iff]
        rcases hcase with hfew | hzero | hnone
        · omega
        · left
          rw [Extended.finite.injEq] at hzero
          simp [hzero]
        · right
          by_contra hinfinite
          exact hnone ⟨row, hmem hrow, by simpa using hinfinite,
            (wanted_iff hmeasured hleastLanes (hmem hrow)).mp hrow⟩
      rw [hbounded, Bool.not_false, Bool.and_true]
    rw [hfilter]
    have hperm := hleastLanes.perm (List.Nodup.of_map _ hids) hleast
    refine sortBy_eq_of_perm (rankLess_compares Extended.orderedBy) (hperm.filter _)
      (fun row hrow => ?_) fun x hx y hy heq => ?_
    · exact hscannable.estimates row (hmem (List.mem_of_mem_filter hrow))
    · exact rowRank_injective Extended.key hids (hmem (List.mem_of_mem_filter hx))
        (hmem (List.mem_of_mem_filter hy)) heq

/-- Seventeen rows in two batches and in one block. The last has an infinite uncertainty, but
a finite estimate. -/
theorem selectAvx512_agrees_iff_seventeen :
    selectAvx512 3 (.finite 2 : Extended ℚ) 5
        [(List.range 16).map fun i => ⟨i, .finite (16 - i), .finite 1⟩, [⟨16, .finite 0, .infinity⟩]] =
      selectScalar 3 (.finite 2) 5
        [((List.range 16).map fun i => ⟨i, .finite (16 - i), .finite 1⟩) ++
          [⟨16, .finite 0, .infinity⟩]] := by
  have hcreate : FusedIntervalAccumulator.create false 3 (.finite 2 : Extended ℚ) 5 =
      .ok ⟨false, 3, .finite 2, 5, 10, 26, [], 0, [], none, [], none⟩ := by rfl
  have hcases : ∀ row ∈ [((List.range 16).map fun i => (⟨i, .finite (16 - i), .finite 1⟩ :
      DistanceEstimate (Extended ℚ))) ++ [⟨16, .finite 0, .infinity⟩]].flatten,
      Measured row ∧ row.id < 2 ^ 32 ∧ bothInfinite row = false := by
    simp only [List.flatten_cons, List.flatten_nil, List.append_nil, List.mem_append, List.mem_map,
      List.mem_range, List.mem_singleton]
    rintro row (⟨i, hi, rfl⟩ | rfl)
    · exact ⟨⟨trivial, zero_le_one⟩, hi.trans (by decide), rfl⟩
    · exact ⟨⟨trivial, trivial⟩, by decide, rfl⟩
  refine (@selectAvx512_agrees_iff ℚ _ _ _ 3 5 (.finite 2) _ hcreate _ _ ?_
    (fun row hrow => (hcases row hrow).1) ?_ fun row hrow => (hcases row hrow).2.1).mpr
    (.inr (.inr ?_))
  · simp
  · simp only [List.flatten_cons, List.flatten_nil, List.append_nil, List.map_append, List.map_map]
    decide
  · rintro ⟨row, hrow, hinfinite, -⟩
    rw [(hcases row hrow).2.2] at hinfinite
    cases hinfinite

/-- One row with both infinite, and a batch of it: the lanes lose it, and the search
finds no candidate. -/
theorem selectAvx512_loses_unbounded :
    selectScalar 1 (.finite 1 : Extended ℚ) 0 [[⟨7, .infinity, .infinity⟩]] =
        .ok ⟨[⟨7, .infinity, .infinity⟩], .infinity, false⟩ ∧
      selectAvx512 1 (.finite 1 : Extended ℚ) 0 [[⟨7, .infinity, .infinity⟩]] =
        .ok ⟨[], .infinity, false⟩ := by
  constructor <;> rfl

end

end Recast
