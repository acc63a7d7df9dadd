import Recast.Uneven.Layout
import Recast.Model.Numerics

/-!
# Bit budgets by reverse water-filling

`compute_ideal_bit_budgets`: the variance of every dimension, its height, the
water level that spends `M * nbits` bits, and what each dimension has above it.
-/

namespace Recast

variable {F K : Type}
variable [Zero K] [One K] [Add K] [Sub K] [Mul K] [Div K] [Neg K] [NatCast K]
variable [LT K] [DecidableLT K] [LE K] [DecidableLE K] [BEq K]

/-- The mean of each dimension over the rows. -/
def budgetMeans [Zero F] (numerics : Numerics F K) (d : Nat) (rows : List (List F)) : List K :=
  let invN : K := 1 / (rows.length : K)
  (List.range d).map fun j =>
    rows.foldl (fun sum row => sum + numerics.widen (row.getD j 0)) 0 * invN

/-- The population variance of each dimension. -/
def budgetVariances [Zero F] (numerics : Numerics F K) (d : Nat) (rows : List (List F)) : List K :=
  let invN : K := 1 / (rows.length : K)
  let means := budgetMeans numerics d rows
  (List.range d).map fun j =>
    rows.foldl (fun sum row =>
      let delta := numerics.widen (row.getD j 0) - means.getD j 0
      sum + delta * delta) 0 * invN

/-- `*std::max_element`. -/
def largest : List K → K
  | [] => 0
  | x :: rest => rest.foldl maxOf x

/-- The larger height first, the smaller dimension first among equals. -/
def heightBefore (heights : List K) (a b : Nat) : Bool :=
  if heights.getD a 0 != heights.getD b 0 then
    decide (heights.getD b 0 < heights.getD a 0)
  else decide (a < b)

/-- The state of the water-filling loop. -/
structure WaterLevel (K : Type) where
  remainingBits : K
  level : K
  activeDimensions : Nat

/-- The loop over the heights in descending order. -/
def lowerWater (heights : List K) : List Nat → WaterLevel K → WaterLevel K
  | [], water => water
  | next :: rest, water =>
      let nextHeight := heights.getD next 0
      let gap := maxOf 0 (water.level - nextHeight)
      let cost := (water.activeDimensions : K) * gap
      if cost ≤ water.remainingBits + tolerance then
        lowerWater heights rest
          ⟨maxOf 0 (water.remainingBits - cost), nextHeight, water.activeDimensions + 1⟩
      else
        ⟨0, water.level - water.remainingBits / (water.activeDimensions : K),
          water.activeDimensions⟩

/-- The level at which the heights above it sum to the total of bits. -/
def waterLevel (d M : Nat) (heights : List K) : K :=
  let order := (List.range d).mergeSort fun a b => !heightBefore heights b a
  let start : WaterLevel K := ⟨(M : K) * ((nbits : Nat) : K), heights.getD (order.getD 0 0) 0, 1⟩
  let water := lowerWater heights order.tail start
  if 0 < water.remainingBits then water.level - water.remainingBits / (d : K) else water.level

/-- `compute_ideal_bit_budgets`. -/
def computeIdealBitBudgets [Zero F] (numerics : Numerics F K) (shape : UnevenShape)
    (rows : List (List F)) : Except ModelError (List K) :=
  if rows = [] then .error (.faiss "training set is empty")
  else
    let variances := budgetVariances numerics shape.d rows
    let maxVariance := largest variances
    if ¬0 < maxVariance then
      .error (.faiss "cannot train uneven PQ on a zero-variance data set")
    else
      let varianceFloor := maxVariance * tolerance
      let heights := variances.map fun variance =>
        (1 / (2 : Nat) : K) * numerics.log2 (maxOf varianceFloor variance)
      let level := waterLevel shape.d shape.M heights
      let bitBudgets := heights.map fun height => maxOf 0 (height - level)
      let assignedBits := bitBudgets.foldl (· + ·) 0
      let targetBits : K := (shape.M : K) * ((nbits : Nat) : K)
      if ¬absOf (assignedBits - targetBits) ≤
          1 / ((10 ^ 8 : Nat) : K) * maxOf 1 targetBits then
        .error (.faiss "reverse water-filling did not preserve the total bit budget")
      else .ok bitBudgets

/-- One budget for every dimension. -/
theorem length_computeIdealBitBudgets [Zero F] {numerics : Numerics F K} {shape : UnevenShape}
    {rows : List (List F)} {bitBudgets : List K}
    (h : computeIdealBitBudgets numerics shape rows = .ok bitBudgets) :
    bitBudgets.length = shape.d := by
  simp only [computeIdealBitBudgets, Foundation.guard_eq_ok] at h
  obtain ⟨-, -, -, h⟩ := h
  cases h
  simp [budgetVariances]

end Recast
