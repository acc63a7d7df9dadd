import Recast.Foundation.Except
import Recast.Foundation.Scan
import Recast.Model.Error
import Mathlib.Order.Lattice

/-!
# The layout of the uneven product quantizer

How training turns bit budgets into groups of dimensions: capacities in equal
pairs, a greedy assignment with a swap pass, a hill climb over the capacities,
and the buckets of equal-width groups. The arithmetic of budgets is a
parameter: a type with the operations the code uses on `double`.
-/

namespace Recast

open Foundation

/-- The dimensions of an `UnevenProductQuantizer`, as its constructor checks them. -/
structure UnevenShape where
  d : Nat
  M : Nat
  maxSubspaceDimension : Nat
  hpositive : 0 < M
  hle : M ≤ d
  hevenGroups : M % 2 = 0
  hevenDimension : d % 2 = 0

/-- As many groups as dimensions. -/
def UnevenShape.single (M : Nat) (hpositive : 0 < M) (heven : M % 2 = 0) : UnevenShape :=
  ⟨M, M, 0, hpositive, Nat.le_refl M, heven, heven⟩

/-- Two groups of one dimension each. -/
def UnevenShape.pair : UnevenShape := .single 2 Nat.two_pos rfl

/-- The constructor, for PQ4. -/
def UnevenShape.create (d M nbits maxSubspaceDimension : Nat) :
    Except ModelError UnevenShape :=
  if d = 0 then .error (.faiss "vector dimension must be positive")
  else if hrange : ¬(0 < M ∧ M ≤ d) then
    .error (.faiss "the number of PQ groups must be in [1, d]")
  else if nbits ≠ 4 then
    .error (.faiss "UnevenProductQuantizer currently supports PQ4 only")
  else if hgroups : M % 2 ≠ 0 then
    .error (.faiss "an even number of PQ groups is required")
  else if hdimension : d % 2 ≠ 0 then
    .error (.faiss "even-sized dimension buckets require even d")
  else
    .ok ⟨d, M, maxSubspaceDimension, (not_not.mp hrange).1, (not_not.mp hrange).2,
      not_not.mp hgroups, not_not.mp hdimension⟩

/-- Bits of one group. -/
def nbits : Nat := 4

/-- `std::max`. -/
def maxOf {K : Type} [LT K] [DecidableLT K] (a b : K) : K := if a < b then b else a

theorem maxOf_eq_max {K : Type} [LinearOrder K] (a b : K) : maxOf a b = max a b := by
  unfold maxOf
  split
  next h => exact (max_eq_right h.le).symm
  next h => exact (max_eq_left (not_lt.mp h)).symm

section Arithmetic

variable {K : Type} [Zero K] [One K] [Add K] [Sub K] [Mul K] [Div K] [Neg K] [NatCast K]
variable [LT K] [DecidableLT K] [LE K] [DecidableLE K] [BEq K]

/-- `kScoreTolerance`, `kRelativeVarianceFloor` and the tolerance of `almost_equal`. -/
def tolerance : K := 1 / ((10 ^ 12 : Nat) : K)

/-- `std::abs`. -/
def absOf (a : K) : K := if a < 0 then -a else a

/-- `almost_equal`. -/
def almostEqual (a b : K) : Bool :=
  decide (absOf (a - b) ≤ tolerance * maxOf (maxOf 1 (absOf a)) (absOf b))

/-- `Assignment`. -/
structure Assignment (K : Type) where
  dimensions : List (List Nat)
  loads : List K
  score : K
  deriving DecidableEq

/-- Both groups of a pair have the pair's capacity; the groups are sorted by it. -/
def sortedCapacities (pairedCapacities : List Nat) : List Nat :=
  (pairedCapacities.flatMap fun capacity => [capacity, capacity]).mergeSort

/-- The budget of a dimension. -/
def budgetOf (bitBudgets : List K) (dimension : Nat) : K := bitBudgets.getD dimension 0

/-- The largest budget first, the smaller dimension first among equals. -/
def dimensionBefore (bitBudgets : List K) (a b : Nat) : Bool :=
  if budgetOf bitBudgets a != budgetOf bitBudgets b then
    decide (budgetOf bitBudgets b < budgetOf bitBudgets a)
  else decide (a < b)

/-- The dimensions in the order the greedy loop places them. -/
def dimensionOrder (d : Nat) (bitBudgets : List K) : List Nat :=
  (List.range d).mergeSort fun a b => !dimensionBefore bitBudgets b a

/-- Whether the greedy loop takes `group` over the best group so far. -/
def prefersGroup (capacities : List Nat) (result : Assignment K) (best : Option Nat)
    (group : Nat) : Bool :=
  if capacities.getD group 0 ≤ (result.dimensions.getD group []).length then false
  else
    match best with
    | none => true
    | some best =>
        let load := result.loads.getD group 0
        let bestLoad := result.loads.getD best 0
        let capacity := capacities.getD group 0
        let bestCapacity := capacities.getD best 0
        decide (load < bestLoad) ||
          (almostEqual load bestLoad && decide (capacity < bestCapacity)) ||
          (almostEqual load bestLoad && decide (capacity = bestCapacity) && decide (group < best))

/-- The lightest group with room, with the code's ties. -/
def bestGroup (M : Nat) (capacities : List Nat) (result : Assignment K) : Option Nat :=
  scanBest (prefersGroup capacities result) (List.range M)

/-- Put a dimension into a group. -/
def Assignment.place (result : Assignment K) (bitBudgets : List K) (group dimension : Nat) :
    Assignment K :=
  { result with
    dimensions := result.dimensions.modify group (· ++ [dimension])
    loads := result.loads.modify group (· + budgetOf bitBudgets dimension) }

/-- The greedy loop: every dimension goes into the best group. -/
def placeAll (M : Nat) (capacities : List Nat) (bitBudgets : List K) :
    List Nat → Assignment K → Except ModelError (Assignment K)
  | [], result => .ok result
  | dimension :: rest, result =>
      match bestGroup M capacities result with
      | none => .error (.assertion "best_group < M")
      | some group =>
          placeAll M capacities bitBudgets rest (result.place bitBudgets group dimension)

/-- A one-for-one exchange between two groups. -/
structure Swap where
  a : Nat
  b : Nat
  ia : Nat
  ib : Nat

/-- The exchanges in the order of the four loops. -/
def swaps (M : Nat) (dimensions : List (List Nat)) : List Swap :=
  (List.range M).flatMap fun a =>
    (List.range' (a + 1) (M - (a + 1))).flatMap fun b =>
      (List.range (dimensions.getD a []).length).flatMap fun ia =>
        (List.range (dimensions.getD b []).length).map fun ib => ⟨a, b, ia, ib⟩

/-- The dimension an exchange takes from `a`, and the one it takes from `b`. -/
def Assignment.dimA (result : Assignment K) (swap : Swap) : Nat :=
  (result.dimensions.getD swap.a []).getD swap.ia 0

def Assignment.dimB (result : Assignment K) (swap : Swap) : Nat :=
  (result.dimensions.getD swap.b []).getD swap.ib 0

/-- By how much an exchange changes the sum of the squared loads. -/
def Assignment.delta (result : Assignment K) (bitBudgets : List K) (swap : Swap) : K :=
  let wa := budgetOf bitBudgets (result.dimA swap)
  let wb := budgetOf bitBudgets (result.dimB swap)
  let loadA := result.loads.getD swap.a 0
  let loadB := result.loads.getD swap.b 0
  let newA := loadA - wa + wb
  let newB := loadB - wb + wa
  let before := loadA * loadA + loadB * loadB
  let after := newA * newA + newB * newB
  after - before

/-- The exchange of the best strict decrease. -/
def bestSwap (M : Nat) (bitBudgets : List K) (result : Assignment K) : Option Swap :=
  scanBest (fun best swap =>
      decide (result.delta bitBudgets swap <
        best.elim (-tolerance) (result.delta bitBudgets)))
    (swaps M result.dimensions)

/-- Make an exchange. -/
def Assignment.apply (result : Assignment K) (bitBudgets : List K) (swap : Swap) : Assignment K :=
  let dimA := result.dimA swap
  let dimB := result.dimB swap
  let wa := budgetOf bitBudgets dimA
  let wb := budgetOf bitBudgets dimB
  { result with
    dimensions := (result.dimensions.modify swap.a (·.set swap.ia dimB)).modify swap.b
      (·.set swap.ib dimA)
    loads := (result.loads.modify swap.a (· + (wb - wa))).modify swap.b (· + (wa - wb)) }

/-- At most `passes` exchanges. -/
def improve (M : Nat) (bitBudgets : List K) : Nat → Assignment K → Assignment K
  | 0, result => result
  | passes + 1, result =>
      match bestSwap M bitBudgets result with
      | none => result
      | some swap => improve M bitBudgets passes (result.apply bitBudgets swap)

/-- The normalized imbalance of the loads. -/
def loadScore (M : Nat) (loads : List K) : K :=
  let target : K := ((nbits : Nat) : K)
  let squaredError := loads.foldl (fun sum load => sum + (load - target) * (load - target)) 0
  squaredError / ((M : K) * target * target + tolerance)

/-- `assign_dimensions`. -/
def assignDimensions (shape : UnevenShape) (pairedCapacities : List Nat) (bitBudgets : List K) :
    Except ModelError (Assignment K) :=
  if pairedCapacities.length ≠ shape.M / 2 then
    .error (.assertion "paired_capacities.size() == M / 2")
  else if bitBudgets.length ≠ shape.d then
    .error (.assertion "bit_budgets.size() == d")
  else
    let capacities := sortedCapacities pairedCapacities
    if capacities.sum ≠ shape.d then
      .error (.assertion "std::accumulate(capacities.begin(), capacities.end(), size_t{0}) == d")
    else do
      let placed ← placeAll shape.M capacities bitBudgets (dimensionOrder shape.d bitBudgets)
        ⟨List.replicate shape.M [], List.replicate shape.M 0, 0⟩
      let improved := improve shape.M bitBudgets 8 placed
      .ok { improved with score := loadScore shape.M improved.loads }

/-! ## Capacities -/

/-- The nearly uniform profile the hill climb starts from. -/
def baseCapacities (shape : UnevenShape) : List Nat :=
  let pairCount := shape.M / 2
  let pairedDimensions := shape.d / 2
  let largerPairCount := pairedDimensions % pairCount
  List.replicate (pairCount - largerPairCount) (pairedDimensions / pairCount) ++
    List.replicate largerPairCount (pairedDimensions / pairCount + 1)

/-- `maximum`: the largest width of a group. -/
def UnevenShape.maximum (shape : UnevenShape) : Nat :=
  if shape.maxSubspaceDimension = 0 then (shape.d + shape.M - 1) / shape.M + 2
  else shape.maxSubspaceDimension

/-- The first pair of each run of equal capacities: the loops skip a pair whose
capacity is that of the pair before. -/
def runStarts (pairedCapacities : List Nat) : List Nat :=
  (List.range pairedCapacities.length).filter fun i =>
    i = 0 || pairedCapacities.getD i 0 != pairedCapacities.getD (i - 1) 0

/-- The pair that grows when pair `src` shrinks: `dst` itself, or the next pair
of its capacity when it is `src`. -/
def actualTo (pairedCapacities : List Nat) (src dst : Nat) : Option Nat :=
  if dst = src then
    (List.range' (dst + 1) (pairedCapacities.length - (dst + 1))).find? fun i =>
      pairedCapacities.getD i 0 = pairedCapacities.getD dst 0
  else some dst

/-- Shrink one pair and grow another, and sort. -/
def transfer (pairedCapacities : List Nat) (src dst : Nat) : List Nat :=
  ((pairedCapacities.modify src (· - 1)).modify dst (· + 1)).mergeSort

/-- The profiles one pass tries, in the order of its loops. -/
def trialProfiles (maximum : Nat) (pairedCapacities : List Nat) : List (List Nat) :=
  (runStarts pairedCapacities).flatMap fun src =>
    if pairedCapacities.getD src 0 ≤ 1 then []
    else
      (runStarts pairedCapacities).filterMap fun dst =>
        if maximum ≤ pairedCapacities.getD dst 0 then none
        else
          match actualTo pairedCapacities src dst with
          | none => none
          | some dst =>
              let trial := transfer pairedCapacities src dst
              if trial = pairedCapacities then none else some trial

/-- The best of the trial profiles, with its score; none when no profile is
better than the current one. -/
def bestProfile (shape : UnevenShape) (bitBudgets : List K) (currentScore : K) :
    List (List Nat) → Option (List Nat × K) → Except ModelError (Option (List Nat × K))
  | [], best => .ok best
  | trial :: rest, best => do
      let assignment ← assignDimensions shape trial bitBudgets
      let bestScore := best.elim currentScore Prod.snd
      if assignment.score + tolerance < bestScore then
        bestProfile shape bitBudgets currentScore rest (some (trial, assignment.score))
      else bestProfile shape bitBudgets currentScore rest best

/-- At most `passes` steps of the hill climb. -/
def climb (shape : UnevenShape) (bitBudgets : List K) :
    Nat → List Nat → K → Except ModelError (List Nat)
  | 0, pairedCapacities, _ => .ok pairedCapacities
  | passes + 1, pairedCapacities, currentScore => do
      let best ← bestProfile shape bitBudgets currentScore
        (trialProfiles shape.maximum pairedCapacities) none
      match best with
      | none => .ok pairedCapacities
      | some (trial, score) => climb shape bitBudgets passes trial score

/-- `plan_paired_capacities`. -/
def planPairedCapacities (shape : UnevenShape) (bitBudgets : List K) :
    Except ModelError (List Nat) :=
  if shape.maximum < (shape.d + shape.M - 1) / shape.M then
    .error (.faiss "max_subspace_dimension is too small")
  else do
    let assignment ← assignDimensions shape (baseCapacities shape) bitBudgets
    climb shape bitBudgets 16 (baseCapacities shape) assignment.score

end Arithmetic

/-! ## Buckets -/

/-- `Bucket`, without its codebook. -/
structure Bucket where
  subspaceDimension : Nat
  subspaceCount : Nat
  firstSubspace : Nat
  codeOffset : Nat
  bucketDimension : Nat
  bucketCodeSize : Nat
  dimensions : List Nat
  deriving DecidableEq, Repr

/-- The bucket of a run of groups that starts at group `first`. -/
def bucketOf (first subspaceDimension : Nat) (groups : List (List Nat)) : Bucket where
  subspaceDimension := subspaceDimension
  subspaceCount := groups.length
  firstSubspace := first
  codeOffset := first / 2
  bucketDimension := subspaceDimension * groups.length
  bucketCodeSize := groups.length / 2
  dimensions := groups.flatten

/-- Cut the groups into runs of equal width. -/
def cutBuckets (first : Nat) : List (List Nat) → Except ModelError (List Bucket)
  | [] => .ok []
  | group :: rest =>
      let run := group :: rest.takeWhile fun other => other.length = group.length
      if run.length % 2 ≠ 0 then
        .error (.faiss "each subspace-dimension bucket must contain an even group count")
      else do
        let buckets ← cutBuckets (first + run.length)
          (rest.dropWhile fun other => other.length = group.length)
        .ok (bucketOf first group.length run :: buckets)
  termination_by groups => groups.length
  decreasing_by exact Nat.lt_succ_of_le ((List.dropWhile_sublist _).length_le)

/-- Mark the dimensions of one bucket as seen. -/
def markSeen (d : Nat) : List Nat → List Nat → Except ModelError (List Nat)
  | [], seen => .ok seen
  | dimension :: rest, seen =>
      if d ≤ dimension then .error (.faiss "dimension index is out of range")
      else if dimension ∈ seen then .error (.faiss "dimension assigned to more than one group")
      else markSeen d rest (dimension :: seen)

/-- What `validate_layout` counts. -/
structure LayoutCount where
  seen : List Nat
  dimensionCount : Nat
  byteCount : Nat
  expectedFirst : Nat

/-- The loop of `validate_layout` over the buckets. -/
def countBuckets (d : Nat) : List Bucket → LayoutCount → Except ModelError LayoutCount
  | [], count => .ok count
  | bucket :: rest, count =>
      if bucket.subspaceCount % 2 ≠ 0 then .error (.faiss "bucket group count is not even")
      else if bucket.firstSubspace ≠ count.expectedFirst then
        .error (.faiss "bucket group offsets are not contiguous")
      else if bucket.codeOffset ≠ count.expectedFirst / 2 then
        .error (.faiss "bucket code offsets are not byte aligned")
      else do
        let seen ← markSeen d bucket.dimensions count.seen
        countBuckets d rest
          { seen := seen
            dimensionCount := count.dimensionCount + bucket.bucketDimension
            byteCount := count.byteCount + bucket.bucketCodeSize
            expectedFirst := count.expectedFirst + bucket.subspaceCount }

/-- `validate_layout`. -/
def validateLayout (shape : UnevenShape) (dimensions : List (List Nat)) (buckets : List Bucket) :
    Except ModelError Unit :=
  if dimensions.length ≠ shape.M then
    .error (.faiss "uneven PQ layout has the wrong group count")
  else do
    let count ← countBuckets shape.d buckets ⟨[], 0, 0, 0⟩
    if count.expectedFirst ≠ shape.M then .error (.faiss "layout omits PQ groups")
    else if count.dimensionCount ≠ shape.d then .error (.faiss "layout omits dimensions")
    else if count.byteCount ≠ shape.M / 2 then
      .error (.faiss "uneven PQ code contains padding bytes")
    else .ok ()

/-- `build_buckets`. -/
def buildBuckets (shape : UnevenShape) (dimensions : List (List Nat)) :
    Except ModelError (List Bucket) := do
  let buckets ← cutBuckets 0 dimensions
  validateLayout shape dimensions buckets
  .ok buckets

end Recast
