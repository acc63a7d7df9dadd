import Recast.Scan.IntervalSelection

/-!
# The planes of the reservoir

Where the collector writes, whatever the rows are: inside the planes, provided
the room for one more batch is not lost in their length modulo 2^64.
-/

namespace Recast

open Foundation

section

variable {E : Type}

theorem length_compress16_le {α : Type} (lanes tail : α → Bool) (rows : List α) :
    (compress16 lanes tail rows).length ≤ rows.length := by
  rw [compress16, List.length_append]
  have hbatched := List.length_filter_le lanes (rows.take (rows.length / 16 * 16))
  have htail := List.length_filter_le tail (rows.drop (rows.length / 16 * 16))
  rw [List.length_take] at hbatched
  rw [List.length_drop] at htail
  omega

namespace FusedIntervalAccumulator

/-- The reservoir is in the planes, one batch below their end before the next
batch, and so was everything written. -/
structure Inside (accumulator : FusedIntervalAccumulator E) : Prop where
  capacity : 0 < accumulator.maxCandidates →
    accumulator.reservoirCapacity = 2 * accumulator.maxCandidates ∧
      accumulator.planeLength = accumulator.reservoirCapacity + 16
  length : accumulator.reservoir.length ≤ accumulator.planeLength
  writes : ∀ write ∈ accumulator.writes, write.1 < write.2

/-- The reservoir is below the shrink boundary, or there is none. -/
def Below (accumulator : FusedIntervalAccumulator E) : Prop :=
  0 < accumulator.maxCandidates →
    accumulator.reservoir.length < accumulator.reservoirCapacity

theorem writes_range {places : List (ℕ × ℕ)} (h : ∀ write ∈ places, write.1 < write.2)
    {start count length : ℕ} (hend : start + count ≤ length) :
    ∀ write ∈ places ++ (List.range count).map fun i => (start + i, length), write.1 < write.2 := by
  intro write hwrite
  rcases List.mem_append.mp hwrite with hold | hnew
  · exact h write hold
  · obtain ⟨i, hi, rfl⟩ := List.mem_map.mp hnew
    have := List.mem_range.mp hi
    simp only
    omega

variable {accumulator : FusedIntervalAccumulator E}

theorem Inside.append (h : accumulator.Inside) (hbelow : accumulator.Below)
    {rows : List (DistanceEstimate E)} (hrows : rows.length ≤ 16) :
    (accumulator.append rows).Inside := by
  unfold FusedIntervalAccumulator.append ensureUncappedSpace resizePlanes
  dsimp only
  split
  next hcap =>
    obtain ⟨hcapacity, hplanes⟩ := h.capacity hcap
    have hlength := hbelow hcap
    split
    · exact h
    · refine ⟨h.capacity, ?_, writes_range h.writes (by omega)⟩
      simp only [List.length_append]
      omega
  next hcap =>
    by_cases hroom : planeMax < accumulator.reservoir.length + rows.length
    · rw [if_pos hroom]
      exact ⟨h.capacity, h.length, h.writes⟩
    · rw [if_neg hroom]
      have hnone (hcap' : 0 < accumulator.maxCandidates) : False := hcap hcap'
      split
      · exact ⟨fun hcap' => (hnone hcap').elim, Nat.le_add_right _ _, h.writes⟩
      · refine ⟨fun hcap' => (hnone hcap').elim, ?_, writes_range h.writes le_rfl⟩
        simp only [List.length_append]
        exact le_rfl

theorem Inside.replaceReservoir (h : accumulator.Inside) {kept : List (DistanceEstimate E)}
    (hkept : kept.length ≤ accumulator.reservoir.length) :
    (accumulator.replaceReservoir kept).Inside where
  capacity := h.capacity
  length := hkept.trans h.length
  writes := by
    have hend : 0 + kept.length ≤ accumulator.planeLength :=
      (Nat.zero_add _).trans_le (hkept.trans h.length)
    simpa [FusedIntervalAccumulator.replaceReservoir] using writes_range h.writes hend

theorem Inside.compactThreshold (h : accumulator.Inside) (keep : DistanceEstimate E → Bool) :
    (accumulator.compactThreshold keep).Inside := by
  refine h.replaceReservoir ?_
  split
  · exact length_compress16_le _ _ _
  · exact List.length_filter_le _ _

theorem append_capped (hrunning : accumulator.failure = none) (hcap : 0 < accumulator.maxCandidates)
    (rows : List (DistanceEstimate E)) :
    accumulator.append rows = { accumulator with
      reservoir := accumulator.reservoir ++ rows
      writes := accumulator.writes ++ (List.range rows.length).map fun i =>
        (accumulator.reservoir.length + i, accumulator.planeLength) } := by
  unfold FusedIntervalAccumulator.append ensureUncappedSpace
  rw [if_pos hcap]
  dsimp only
  rw [hrunning]
  exact if_neg Bool.false_ne_true

end FusedIntervalAccumulator

variable [Ieee E]

/-- The loop never returns more rows than allowed. -/
theorem searchThreshold_output_le {estimates : List E} {qMin qMax : ℕ} (hq : qMin ≤ qMax)
    {iterations : ℕ} {threshold lower upper : E} {split : RankSplit E}
    (h : searchThreshold estimates qMin qMax iterations threshold lower upper = some split) :
    split.output ≤ qMax := by
  induction iterations generalizing threshold lower upper with
  | zero => cases h
  | succ iterations ih =>
      rw [searchThreshold] at h
      dsimp only [countFuzzyThreshold] at h
      split at h
      · split at h
        · cases h
          exact hq
        · split at h
          · cases h
          · exact ih h
      · split at h
        next hle =>
          cases h
          exact hle
        next =>
          split at h
          · cases h
          · exact ih h

theorem findFuzzyRankThreshold_output_le {estimates : List E} {ids : List ℕ} {qMin qMax : ℕ}
    {threshold : FuzzyRankThreshold E}
    (h : findFuzzyRankThreshold estimates ids qMin qMax = .ok threshold) :
    threshold.outputSize ≤ qMax := by
  have hsplit (hq : qMin ≤ qMax) :
      (splitRank estimates (estimates.headD Ieee.zero) qMin qMax).output ≤ qMax := by
    unfold splitRank
    dsimp only
    split
    next =>
      cases hsearch : searchThreshold estimates qMin qMax 200 _ Ieee.negInfinity Ieee.infinity with
      | none => exact hq
      | some split => exact searchThreshold_output_le hq hsearch
    next => exact hq
  rw [findFuzzyRankThreshold] at h
  split at h
  · cases h
  next hvalid =>
    dsimp only at h
    split at h
    · cases h
    · cases h
      exact hsplit (by omega)

namespace FusedIntervalAccumulator

variable {accumulator : FusedIntervalAccumulator E}

/-- The state between two batches. -/
def Safe (accumulator : FusedIntervalAccumulator E) : Prop :=
  accumulator.Inside ∧ (accumulator.failure = none → accumulator.Below)

/-- A shrink stays inside, and unless it throws leaves at most `q_max` rows. -/
theorem fuzzyShrink_inside (h : accumulator.Inside) (qMin qMax : ℕ) :
    (accumulator.fuzzyShrinkShortlist qMin qMax).Inside ∧
      ((accumulator.fuzzyShrinkShortlist qMin qMax).failure = none →
        (accumulator.fuzzyShrinkShortlist qMin qMax).reservoir.length ≤ qMax) := by
  unfold fuzzyShrinkShortlist
  split
  next hle => exact ⟨h, fun _ => hle⟩
  next =>
    split
    next error _ =>
      exact ⟨⟨h.capacity, h.length, h.writes⟩, fun hnone => nomatch hnone⟩
    next threshold hthreshold =>
      have hset : ({ accumulator with
          admissionThreshold := some (threshold.estimate, threshold.id) } :
          FusedIntervalAccumulator E).Inside := ⟨h.capacity, h.length, h.writes⟩
      have hcompact := hset.compactThreshold fun row =>
        threshold.keeps row.estimatedDistance row.id
      dsimp only
      split
      next => exact ⟨⟨hcompact.capacity, hcompact.length, hcompact.writes⟩,
        fun hnone => nomatch hnone⟩
      next hsize =>
        refine ⟨hcompact, fun _ => ?_⟩
        rw [not_not] at hsize
        exact hsize.trans_le (findFuzzyRankThreshold_output_le hthreshold)

/-- The parameters survive a shrink. -/
theorem fuzzyShrink_frame (qMin qMax : ℕ) :
    (accumulator.fuzzyShrinkShortlist qMin qMax).maxCandidates = accumulator.maxCandidates ∧
      (accumulator.fuzzyShrinkShortlist qMin qMax).reservoirCapacity =
        accumulator.reservoirCapacity := by
  unfold fuzzyShrinkShortlist
  split
  · exact ⟨rfl, rfl⟩
  · split
    · exact ⟨rfl, rfl⟩
    · dsimp only
      split <;> exact ⟨rfl, rfl⟩

theorem Inside.shrinkIfFull (h : accumulator.Inside) : accumulator.shrinkIfFull.Safe := by
  unfold FusedIntervalAccumulator.shrinkIfFull
  split
  next hskip =>
    refine ⟨h, fun hnone hcap => ?_⟩
    rcases hskip with hfailed | hzero | hroom
    · rw [hnone] at hfailed
      cases hfailed
    · omega
    · exact hroom
  next hfull =>
    obtain ⟨hinside, hshort⟩ := fuzzyShrink_inside h accumulator.maxCandidates
      (accumulator.maxCandidates + (accumulator.reservoirCapacity - accumulator.maxCandidates) / 2)
    obtain ⟨hmax, hcapacity⟩ := @fuzzyShrink_frame E _ accumulator accumulator.maxCandidates
      (accumulator.maxCandidates + (accumulator.reservoirCapacity - accumulator.maxCandidates) / 2)
    refine ⟨hinside, fun hnone hcap => ?_⟩
    have hlength := hshort hnone
    rw [hmax] at hcap
    have hdouble := (h.capacity hcap).1
    rw [hcapacity]
    omega

theorem Safe.addScalar (h : accumulator.Safe) (row : DistanceEstimate E) :
    (accumulator.addScalar row).Safe := by
  unfold FusedIntervalAccumulator.addScalar
  split
  · exact h
  next hrunning =>
    have hnone : accumulator.failure = none := by simpa using hrunning
    split
    · exact (h.1.append (h.2 hnone) (by simp)).shrinkIfFull
    · exact h

theorem Safe.pushUppers (h : accumulator.Safe) (count : ℕ) (uppers : List E) :
    (accumulator.pushUppers count uppers).Safe :=
  ⟨⟨h.1.capacity, h.1.length, h.1.writes⟩, h.2⟩

theorem Safe.addScalarBlock (h : accumulator.Safe) (block : List (DistanceEstimate E × E)) :
    (accumulator.addScalarBlock block).Safe := by
  unfold FusedIntervalAccumulator.addScalarBlock
  split
  · exact h
  · have hpushed := h.pushUppers block.length (block.map Prod.snd)
    generalize accumulator.pushUppers block.length (block.map Prod.snd) = pushed at hpushed
    induction block.map Prod.fst generalizing pushed with
    | nil => exact hpushed
    | cons row rest ih => exact ih _ (hpushed.addScalar row)

theorem Safe.add16Avx512 (h : accumulator.Safe) {batch : List (DistanceEstimate E × E)}
    (hbatch : batch.length ≤ 16) : (accumulator.add16Avx512 batch).Safe := by
  unfold FusedIntervalAccumulator.add16Avx512
  split
  · exact h
  next hrunning =>
    have hnone : accumulator.failure = none := by
      simpa using (not_or.mp hrunning).1
    have hpushed := h.pushUppers batch.length ((batch.map Prod.snd).filter
      (passes accumulator.topk accumulator.smallestUppers))
    dsimp only
    split
    · exact hpushed
    · refine (hpushed.1.append (hpushed.2 hnone) ?_).shrinkIfFull
      refine (List.length_filter_le _ _).trans ?_
      rwa [List.length_map]

/-- Rows handed to the collector: a scalar block or a batch of sixteen lanes. -/
inductive Feed (E : Type) where
  | scalar (block : List (DistanceEstimate E × E))
  | lanes (batch : List (DistanceEstimate E × E)) (length_le : batch.length ≤ 16)

/-- Take rows in. -/
def feed (accumulator : FusedIntervalAccumulator E) : Feed E → FusedIntervalAccumulator E
  | .scalar block => accumulator.addScalarBlock block
  | .lanes batch _ => accumulator.add16Avx512 batch

theorem Safe.feeds (h : accumulator.Safe) (feeds : List (Feed E)) :
    (feeds.foldl feed accumulator).Safe := by
  induction feeds generalizing accumulator with
  | nil => exact h
  | cons next rest ih =>
      rw [List.foldl_cons]
      refine ih ?_
      cases next with
      | scalar block => exact h.addScalarBlock block
      | lanes batch hlength => exact h.add16Avx512 hlength

/-- What the constructor leaves. -/
theorem create_eq_ok {avx512 : Bool} {topk : ℕ} {zScore : E} {maxCandidates : ℕ}
    {start : FusedIntervalAccumulator E}
    (h : create avx512 topk zScore maxCandidates = .ok start) :
    maxCandidates ≤ sizeMax / 2 ∧ (0 < maxCandidates → topk ≤ maxCandidates) ∧ 0 < topk ∧
      start = ⟨avx512, topk, zScore, maxCandidates, 2 * maxCandidates,
        if 0 < maxCandidates then (2 * maxCandidates + 16) % 2 ^ 64 else 0, [], 0, [], none, [],
        none⟩ := by
  unfold create at h
  split at h
  · cases h
  next hvalid =>
    simp only [not_or, not_and, not_lt] at hvalid
    obtain ⟨htopk, -, -, -, hcap, hmax⟩ := hvalid
    refine ⟨hmax, hcap, Nat.pos_of_ne_zero htopk, ?_⟩
    dsimp only [resizePlanes] at h
    split at h
    next hpos =>
      rw [if_pos hpos]
      split at h
      · cases h
      next hnone =>
        split at hnone
        · cases hnone
        next hroom =>
          rw [if_neg hroom] at h
          cases h
          rfl
    next hzero =>
      cases h
      rw [if_neg hzero, Nat.eq_zero_of_not_pos hzero]

theorem shrinkIfFull_of_lt (h : accumulator.reservoir.length < accumulator.reservoirCapacity) :
    accumulator.shrinkIfFull = accumulator := if_pos (.inr (.inr h))

/-- With no threshold and room in the reservoir a row is written at its end. -/
theorem addScalar_fresh (hrunning : accumulator.failure = none)
    (hfresh : accumulator.admissionThreshold = none) (hcap : 0 < accumulator.maxCandidates)
    (hroom : accumulator.reservoir.length + 1 < accumulator.reservoirCapacity)
    (row : DistanceEstimate E) :
    accumulator.addScalar row = { accumulator with
      reservoir := accumulator.reservoir ++ [row]
      writes := accumulator.writes ++
        [(accumulator.reservoir.length, accumulator.planeLength)] } := by
  have happend := append_capped hrunning hcap [row]
  rw [addScalar, if_neg (by simp [hrunning]), if_pos (by simp [hfresh, admits]), happend,
    shrinkIfFull_of_lt (by simpa using hroom)]
  rfl

/-- While there is no threshold and room in the reservoir, rows are written one
after the other. -/
theorem addScalars_fresh {rows : List (DistanceEstimate E)}
    (hrunning : accumulator.failure = none)
    (hfresh : accumulator.admissionThreshold = none) (hcap : 0 < accumulator.maxCandidates)
    (hroom : accumulator.reservoir.length + rows.length < accumulator.reservoirCapacity) :
    (rows.foldl addScalar accumulator).writes =
      accumulator.writes ++ (List.range rows.length).map fun i =>
        (accumulator.reservoir.length + i, accumulator.planeLength) := by
  induction rows generalizing accumulator with
  | nil => simp
  | cons row rest ih =>
      rw [List.length_cons] at hroom
      rw [List.foldl_cons, addScalar_fresh hrunning hfresh hcap (by omega)]
      refine (ih ?_ ?_ ?_ ?_).trans ?_
      · exact hrunning
      · exact hfresh
      · exact hcap
      · simp only [List.length_append, List.length_singleton]
        omega
      · simp only [List.length_append, List.length_cons, List.length_nil, List.range_succ_eq_map,
          List.map_cons, List.map_map, List.append_assoc, List.singleton_append, Nat.add_zero]
        congr 2
        apply List.map_congr_left
        intro i _
        simp only [Function.comp_apply, Nat.succ_eq_add_one]
        rw [Nat.zero_add, Nat.add_assoc, Nat.add_comm 1]

/-- For every accepted parameters: in every run the reservoir is below its
capacity before each batch and every write is inside the planes, exactly when
twice the cap and one batch do not wrap around. -/
theorem writes_inside_iff {avx512 : Bool} {topk : ℕ} {zScore : E} {maxCandidates : ℕ}
    {start : FusedIntervalAccumulator E}
    (hcreate : create avx512 topk zScore maxCandidates = .ok start) :
    (∀ feeds : List (Feed E),
      ((feeds.foldl feed start).failure = none → (feeds.foldl feed start).Below) ∧
        ∀ write ∈ (feeds.foldl feed start).writes, write.1 < write.2) ↔
    maxCandidates + 8 < 2 ^ 63 := by
  obtain ⟨hmax, -, -, hstart⟩ := create_eq_ok hcreate
  have hsize : sizeMax = 2 ^ 64 - 1 := rfl
  constructor
  · intro hinside
    by_contra hwraps
    -- Fifteen rows are more than the planes have room for.
    have hcap : 0 < maxCandidates := by omega
    let row : DistanceEstimate E := ⟨0, Ieee.zero, Ieee.zero⟩
    obtain ⟨-, hwrites⟩ := hinside [.scalar (List.replicate 15 (row, Ieee.zero))]
    have hplanes : (2 * maxCandidates + 16) % 2 ^ 64 ≤ 14 := by omega
    have hlast : ((14, (2 * maxCandidates + 16) % 2 ^ 64) : ℕ × ℕ) ∈
        ([Feed.scalar (List.replicate 15 (row, Ieee.zero))].foldl feed start).writes := by
      rw [List.foldl_cons, List.foldl_nil, feed, addScalarBlock, hstart,
        if_neg (by simp), addScalars_fresh rfl rfl hcap (by simp [pushUppers]; omega)]
      simp [pushUppers, hcap]
    have := hwrites _ hlast
    simp only at this
    omega
  · intro hfits feeds
    have hsafe : start.Safe := by
      rw [hstart]
      refine ⟨⟨fun hcap => ⟨rfl, ?_⟩, Nat.zero_le _, by simp⟩, fun _ hcap => ?_⟩
      · simp only at hcap ⊢
        rw [if_pos hcap]
        omega
      · simp only [List.length_nil] at hcap ⊢
        omega
    have hreached := hsafe.feeds feeds
    exact ⟨hreached.2, hreached.1.writes⟩

end FusedIntervalAccumulator

/-- A cap of ten with planes of 36 places: nineteen rows, and a batch that crosses
the shrink boundary. -/
theorem writes_inside_iff_ten :
    let feeds : List (FusedIntervalAccumulator.Feed (Extended ℚ)) :=
      [.scalar ((List.range 19).map fun i => (⟨i, .finite i, .finite 1⟩, .finite (i + 3))),
        .lanes ((List.range 16).map fun i => (⟨i + 19, .finite i, .finite 1⟩, .finite (i + 3)))
          (by simp)]
    let final := feeds.foldl FusedIntervalAccumulator.feed
      ⟨true, 10, .finite 3, 10, 20, 36, [], 0, [], none, [], none⟩
    (final.failure = none → final.Below) ∧ ∀ write ∈ final.writes, write.1 < write.2 := by
  have hcreate : FusedIntervalAccumulator.create true 10 (.finite 3 : Extended ℚ) 10 =
      .ok ⟨true, 10, .finite 3, 10, 20, 36, [], 0, [], none, [], none⟩ := by rfl
  exact (FusedIntervalAccumulator.writes_inside_iff hcreate).mpr (by decide) _

/-- The largest accepted cap gets planes of fourteen places, and the fifteenth
row is written behind them. -/
theorem writes_outside_largest_cap :
    ∃ start : FusedIntervalAccumulator (Extended ℚ),
      FusedIntervalAccumulator.create false 10 (.finite 3) (2 ^ 63 - 1) = .ok start ∧
        (14, 14) ∈ (start.addScalarBlock
          (List.replicate 15 (⟨0, .finite 0, .finite 0⟩, .finite 0))).writes := by
  let row : DistanceEstimate (Extended ℚ) := ⟨0, .finite 0, .finite 0⟩
  let start : FusedIntervalAccumulator (Extended ℚ) :=
    ⟨false, 10, .finite 3, 2 ^ 63 - 1, 2 * (2 ^ 63 - 1), 14, [], 0, [], none, [], none⟩
  have hcreate :
      FusedIntervalAccumulator.create false 10 (.finite 3) (2 ^ 63 - 1) = .ok start := by
    rfl
  refine ⟨start, hcreate, ?_⟩
  rw [FusedIntervalAccumulator.addScalarBlock, if_neg (by decide),
    FusedIntervalAccumulator.addScalars_fresh rfl rfl (by decide) (by
      simp [FusedIntervalAccumulator.pushUppers, start])]
  simp [FusedIntervalAccumulator.pushUppers, start]

end

end Recast
