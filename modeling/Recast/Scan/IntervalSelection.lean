import Recast.Scan.FuzzyRank

/-!
# The interval collector

`FusedIntervalAccumulator` keeps the `K` smallest upper endpoints and a
reservoir of the rows with the smallest estimates over all scanned blocks, and
filters the reservoir by the lower endpoints at the end. A block comes lane by
lane or, on AVX-512, in batches of sixteen.
-/

namespace Recast

open Foundation

section

variable {E : Type} [Ieee E]

structure DistanceEstimate (E : Type) where
  id : ℕ
  estimatedDistance : E
  uncertainty : E
  deriving DecidableEq

def DistanceEstimate.lower (row : DistanceEstimate E) (zScore : E) : E :=
  if Ieee.beq zScore Ieee.zero || Ieee.beq row.uncertainty Ieee.zero then row.estimatedDistance
  else if Ieee.isInf row.uncertainty then Ieee.negInfinity
  else
    let endpoint := Ieee.sub row.estimatedDistance (Ieee.mul zScore row.uncertainty)
    if Ieee.isNaN endpoint then Ieee.negInfinity else endpoint

def DistanceEstimate.upper (row : DistanceEstimate E) (zScore : E) : E :=
  if Ieee.beq zScore Ieee.zero || Ieee.beq row.uncertainty Ieee.zero then row.estimatedDistance
  else if Ieee.isInf row.uncertainty then Ieee.infinity
  else
    let endpoint := Ieee.add row.estimatedDistance (Ieee.mul zScore row.uncertainty)
    if Ieee.isNaN endpoint then Ieee.infinity else endpoint

/-- The upper endpoint as the AVX-512 scan forms it. -/
def DistanceEstimate.upperAvx512 (row : DistanceEstimate E) (zScore : E) : E :=
  if Ieee.beq zScore Ieee.zero then row.estimatedDistance
  else if Ieee.isInf row.uncertainty then Ieee.infinity
  else Ieee.add row.estimatedDistance (Ieee.mul row.uncertainty zScore)

structure SelectionResult (E : Type) where
  candidates : List (DistanceEstimate E)
  kthUpperBound : E
  truncated : Bool
  deriving DecidableEq

/-- A compaction with AVX-512: one test for the whole batches of sixteen rows,
one for the rows after them. -/
def compress16 {α : Type} (lanes tail : α → Bool) (rows : List α) : List α :=
  let batched := rows.length / 16 * 16
  (rows.take batched).filter lanes ++ (rows.drop batched).filter tail

/-- The elements `std::vector<float>` can hold at most. -/
def planeMax : ℕ := (2 ^ 63 - 1) / 4

/-- `FusedIntervalAccumulator`. The three planes are the rows of their first
`reservoir_size_` places, and `planeLength` is their allocated length. `writes`
records the places written with the length at the time, also places outside;
`avx512` is what `exact_pq4_avx512_supported` returns. After a `failure`, the
exception thrown, nothing runs any more. -/
structure FusedIntervalAccumulator (E : Type) where
  avx512 : Bool
  topk : ℕ
  zScore : E
  maxCandidates : ℕ
  reservoirCapacity : ℕ
  planeLength : ℕ
  reservoir : List (DistanceEstimate E)
  seen : ℕ
  smallestUppers : List E
  admissionThreshold : Option (E × ℕ)
  writes : List (ℕ × ℕ)
  failure : Option Error

namespace FusedIntervalAccumulator

/-- Make the planes `size` long. -/
def resizePlanes (size : ℕ) (accumulator : FusedIntervalAccumulator E) :
    FusedIntervalAccumulator E :=
  if planeMax < size then { accumulator with failure := some (.system "vector::resize") }
  else { accumulator with planeLength := size }

/-- The constructor. The plane length is computed modulo 2^64. -/
def create (avx512 : Bool) (topk : ℕ) (zScore : E) (maxCandidates : ℕ) :
    Except Error (FusedIntervalAccumulator E) :=
  if topk = 0 ∨ Ieee.isInf zScore = true ∨ Ieee.isNaN zScore = true ∨
      Ieee.lt zScore Ieee.zero = true ∨ (0 < maxCandidates ∧ maxCandidates < topk) ∨
      sizeMax / 2 < maxCandidates then
    .error (.invalidArgument "invalid fused interval selection parameters")
  else
    let accumulator : FusedIntervalAccumulator E :=
      ⟨avx512, topk, zScore, maxCandidates, 0, 0, [], 0, [], none, [], none⟩
    if 0 < maxCandidates then
      let capacity := 2 * maxCandidates
      let allocated := { accumulator with reservoirCapacity := capacity }.resizePlanes
        ((capacity + 16) % 2 ^ 64)
      match allocated.failure with
      | some error => .error error
      | none => .ok allocated
    else .ok accumulator

/-- `update_upper`, on a max heap that is a list with its largest element first. -/
def updateUpper (topk : ℕ) (heap : List E) (upper : E) : List E :=
  if heap.length < topk then heapPush Ieee.lt upper heap
  else match heap with
    | [] => []
    | top :: rest => if Ieee.lt upper top then heapPush Ieee.lt upper rest else top :: rest

/-- `admit`. -/
def admits (threshold : Option (E × ℕ)) (estimate : E) (id : ℕ) : Bool :=
  match threshold with
  | none => true
  | some (thresholdEstimate, thresholdId) =>
      Ieee.lt estimate thresholdEstimate ||
        (Ieee.beq estimate thresholdEstimate && decide (id < thresholdId))

/-- `ensure_uncapped_space`. -/
def ensureUncappedSpace (count : ℕ) (accumulator : FusedIntervalAccumulator E) :
    FusedIntervalAccumulator E :=
  if 0 < accumulator.maxCandidates then accumulator
  else accumulator.resizePlanes (accumulator.reservoir.length + count)

/-- Write rows at the end of the reservoir. -/
def append (rows : List (DistanceEstimate E)) (accumulator : FusedIntervalAccumulator E) :
    FusedIntervalAccumulator E :=
  let grown := accumulator.ensureUncappedSpace rows.length
  if grown.failure.isSome then grown
  else
    { grown with
      reservoir := grown.reservoir ++ rows
      writes := grown.writes ++ (List.range rows.length).map fun i =>
        (grown.reservoir.length + i, grown.planeLength) }

/-- Write the kept rows over the front of the planes. -/
def replaceReservoir (kept : List (DistanceEstimate E)) (accumulator : FusedIntervalAccumulator E) :
    FusedIntervalAccumulator E :=
  { accumulator with
    reservoir := kept
    writes := accumulator.writes ++
      (List.range kept.length).map fun i => (i, accumulator.planeLength) }

/-- Keep the rows below a threshold, by `compact_threshold_avx512` or one by one. -/
def compactThreshold (keep : DistanceEstimate E → Bool) (accumulator : FusedIntervalAccumulator E) :
    FusedIntervalAccumulator E :=
  accumulator.replaceReservoir
    (if accumulator.avx512 then compress16 keep keep accumulator.reservoir
    else accumulator.reservoir.filter keep)

/-- `fuzzy_shrink_shortlist`. -/
def fuzzyShrinkShortlist (qMin qMax : ℕ) (accumulator : FusedIntervalAccumulator E) :
    FusedIntervalAccumulator E :=
  if accumulator.reservoir.length ≤ qMax then accumulator
  else match findFuzzyRankThreshold (accumulator.reservoir.map (·.estimatedDistance))
      (accumulator.reservoir.map (·.id)) qMin qMax with
    | .error error => { accumulator with failure := some error }
    | .ok threshold =>
        let shrunk := { accumulator with
          admissionThreshold := some (threshold.estimate, threshold.id) }.compactThreshold
            fun row => threshold.keeps row.estimatedDistance row.id
        if shrunk.reservoir.length ≠ threshold.outputSize then
          { shrunk with
            failure := some (.logic "fuzzy reservoir compaction size mismatch") }
        else shrunk

/-- `shrink_if_full`. -/
def shrinkIfFull (accumulator : FusedIntervalAccumulator E) : FusedIntervalAccumulator E :=
  if accumulator.failure.isSome ∨ accumulator.maxCandidates = 0 ∨
      accumulator.reservoir.length < accumulator.reservoirCapacity then accumulator
  else
    accumulator.fuzzyShrinkShortlist accumulator.maxCandidates
      (accumulator.maxCandidates + (accumulator.reservoirCapacity - accumulator.maxCandidates) / 2)

/-- One lane of the second loop of `add_scalar_block`. -/
def addScalar (accumulator : FusedIntervalAccumulator E) (row : DistanceEstimate E) :
    FusedIntervalAccumulator E :=
  if accumulator.failure.isSome then accumulator
  else if admits accumulator.admissionThreshold row.estimatedDistance row.id then
    (accumulator.append [row]).shrinkIfFull
  else accumulator

/-- Count rows and push their upper endpoints. -/
def pushUppers (count : ℕ) (uppers : List E) (accumulator : FusedIntervalAccumulator E) :
    FusedIntervalAccumulator E :=
  { accumulator with
    seen := accumulator.seen + count
    smallestUppers := uppers.foldl (updateUpper accumulator.topk) accumulator.smallestUppers }

/-- `add_scalar_block` of rows with their upper endpoints. -/
def addScalarBlock (block : List (DistanceEstimate E × E))
    (accumulator : FusedIntervalAccumulator E) : FusedIntervalAccumulator E :=
  if accumulator.failure.isSome then accumulator
  else
    (block.map Prod.fst).foldl addScalar
      (accumulator.pushUppers block.length (block.map Prod.snd))

/-- Whether a lane's upper endpoint is pushed: a full heap takes those below its top. -/
def passes (topk : ℕ) (heap : List E) (upper : E) : Bool :=
  match heap with
  | [] => true
  | top :: _ => decide (heap.length < topk) || Ieee.lt upper top

/-- `add_16_avx512` of at most sixteen rows with their upper endpoints: both masks
are computed from the state before the batch. -/
def add16Avx512 (batch : List (DistanceEstimate E × E))
    (accumulator : FusedIntervalAccumulator E) : FusedIntervalAccumulator E :=
  if accumulator.failure.isSome ∨ batch = [] then accumulator
  else
    let passing := (batch.map Prod.snd).filter
      (passes accumulator.topk accumulator.smallestUppers)
    let admitted := (batch.map Prod.fst).filter fun row =>
      admits accumulator.admissionThreshold row.estimatedDistance row.id
    let updated := accumulator.pushUppers batch.length passing
    if admitted = [] then updated else (updated.append admitted).shrinkIfFull

/-- Whether a row ranks below another one: by estimate, then by ID. -/
def rankLess (x y : DistanceEstimate E) : Bool :=
  Ieee.lt x.estimatedDistance y.estimatedDistance ||
    (Ieee.beq x.estimatedDistance y.estimatedDistance && decide (x.id < y.id))

/-- `shrink_shortlist`: partition at the row of the last rank to keep. -/
def shrinkShortlist (keep : ℕ) (accumulator : FusedIntervalAccumulator E) :
    FusedIntervalAccumulator E :=
  if accumulator.reservoir.length ≤ keep then accumulator
  else match (sortBy rankLess accumulator.reservoir)[keep - 1]? with
    | none => accumulator
    | some last =>
        let compacted := { accumulator with
          admissionThreshold := some (last.estimatedDistance, last.id) }.compactThreshold
            fun row => Ieee.lt row.estimatedDistance last.estimatedDistance ||
              (Ieee.beq row.estimatedDistance last.estimatedDistance && decide (row.id ≤ last.id))
        { compacted with reservoir := compacted.reservoir.take keep }

/-- The lower endpoint as `filter_lower_avx512` forms it. -/
def lowerAvx512 (zScore : E) (row : DistanceEstimate E) : E :=
  if Ieee.beq zScore Ieee.zero then row.estimatedDistance
  else Ieee.sub row.estimatedDistance (Ieee.mul row.uncertainty zScore)

/-- `filter_by_lower`. -/
def filterByLower (kthUpper : E) (accumulator : FusedIntervalAccumulator E) :
    FusedIntervalAccumulator E :=
  let zScore := accumulator.zScore
  accumulator.replaceReservoir
    (if accumulator.avx512 then
      compress16 (fun row => Ieee.le (lowerAvx512 zScore row) kthUpper)
        (fun row => Ieee.le
          (if Ieee.beq zScore Ieee.zero then row.estimatedDistance
          else Ieee.sub row.estimatedDistance (Ieee.mul zScore row.uncertainty)) kthUpper)
        accumulator.reservoir
    else accumulator.reservoir.filter fun row => Ieee.le (row.lower zScore) kthUpper)

/-- `finish`. -/
def finish (accumulator : FusedIntervalAccumulator E) : Except Error (SelectionResult E) :=
  match accumulator.failure with
  | some error => .error error
  | none =>
      if accumulator.seen < accumulator.topk then
        .error (.invalidArgument "fewer scanned estimates than topk")
      else
        let kthUpper := accumulator.smallestUppers.headD Ieee.infinity
        let shrunk :=
          if 0 < accumulator.maxCandidates then
            accumulator.shrinkShortlist accumulator.maxCandidates
          else accumulator
        let filtered := shrunk.filterByLower kthUpper
        .ok {
          candidates := sortBy rankLess filtered.reservoir
          kthUpperBound := kthUpper
          truncated := 0 < accumulator.maxCandidates && accumulator.maxCandidates < accumulator.seen }

end FusedIntervalAccumulator

/-- The portable scan of the blocks, and the selection. -/
def selectScalar (topk : ℕ) (zScore : E) (maxCandidates : ℕ)
    (blocks : List (List (DistanceEstimate E))) : Except Error (SelectionResult E) := do
  let accumulator ← FusedIntervalAccumulator.create false topk zScore maxCandidates
  (blocks.foldl (fun accumulator block =>
    accumulator.addScalarBlock (block.map fun row => (row, row.upper zScore))) accumulator).finish

/-- The AVX-512 scan of the batches, and the selection. -/
def selectAvx512 (topk : ℕ) (zScore : E) (maxCandidates : ℕ)
    (batches : List (List (DistanceEstimate E))) : Except Error (SelectionResult E) := do
  let accumulator ← FusedIntervalAccumulator.create true topk zScore maxCandidates
  (batches.foldl (fun accumulator batch =>
    accumulator.add16Avx512 (batch.map fun row => (row, row.upperAvx512 zScore)))
    accumulator).finish

end

end Recast
