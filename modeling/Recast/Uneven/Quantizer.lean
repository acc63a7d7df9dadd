import Recast.Foundation.Slice
import Recast.Uneven.Budgets

/-!
# The uneven product quantizer

The state of an `UnevenProductQuantizer`, its training and its coding. A
throwing training call leaves the state as far as it got.
-/

namespace Recast

open Foundation

/-- A bucket with the Faiss codebook of its groups. -/
structure CodedBucket (F : Type) where
  layout : Bucket
  pq : ProductQuantizer F

/-- `UnevenProductQuantizer`. -/
structure UnevenProductQuantizer (F K : Type) where
  shape : UnevenShape
  reportLayoutAfterTraining : Bool
  verbose : Bool
  isTrained : Bool
  subspaceDimensions : List (List Nat)
  idealBitBudgets : List K
  groupBitLoads : List K
  buckets : List (CodedBucket F)

/-- The state a constructor leaves, with layout reports off. -/
def UnevenProductQuantizer.new {F K : Type} (shape : UnevenShape) : UnevenProductQuantizer F K where
  shape := shape
  reportLayoutAfterTraining := false
  verbose := false
  isTrained := false
  subspaceDimensions := []
  idealBitBudgets := []
  groupBitLoads := []
  buckets := []

/-- `gather_bucket`, for one row. -/
def gather {F : Type} [Zero F] (layout : Bucket) (row : List F) : List F :=
  layout.dimensions.map fun dimension => row.getD dimension 0

/-- The untrained codebooks `build_buckets` creates. -/
def createBuckets {F : Type} (faiss : Faiss F) :
    List Bucket → Except ModelError (List (CodedBucket F))
  | [] => .ok []
  | layout :: rest => do
      let pq ← faiss.createPq layout.bucketDimension layout.subspaceCount nbits
      let buckets ← createBuckets faiss rest
      .ok (⟨layout, pq⟩ :: buckets)

/-- Train the buckets in order, as far as Faiss does not throw. -/
def trainBuckets {F : Type} [Zero F] (faiss : Faiss F) (rows : List (List F)) :
    List (CodedBucket F) → List (CodedBucket F) × Option ModelError
  | [] => ([], none)
  | bucket :: rest =>
      match faiss.trainPq bucket.pq (rows.map (gather bucket.layout)) with
      | (pq, some error) => (⟨bucket.layout, pq⟩ :: rest, some error)
      | (pq, none) =>
          let (trained, error) := trainBuckets faiss rows rest
          (⟨bucket.layout, pq⟩ :: trained, error)

section Training

variable {F K : Type}
variable [Zero F]
variable [Zero K] [One K] [Add K] [Sub K] [Mul K] [Div K] [Neg K] [NatCast K]
variable [LT K] [DecidableLT K] [LE K] [DecidableLE K] [BEq K]

/-- The sum of the budgets of a group, in the order of its dimensions. -/
def recomputedLoad (bitBudgets : List K) (group : List Nat) : K :=
  group.foldl (fun sum dimension => sum + bitBudgets.getD dimension 0) 0

/-- Whether every stored load is the recomputed one, up to rounding. -/
def loadsConsistent (dimensions : List (List Nat)) (bitBudgets loads : List K) : Bool :=
  (List.range dimensions.length).all fun group =>
    almostEqual (recomputedLoad bitBudgets (dimensions.getD group [])) (loads.getD group 0)

/-- The checks at the end of training. -/
def checkDiagnostics (shape : UnevenShape) (dimensions : List (List Nat))
    (bitBudgets loads : List K) : Option ModelError :=
  if loads.length ≠ shape.M then
    some (.faiss "uneven PQ diagnostics have the wrong group count")
  else if almostEqual (loads.foldl (· + ·) 0) (bitBudgets.foldl (· + ·) 0) = false then
    some (.faiss "final group loads do not preserve the ideal bit budget")
  else if loadsConsistent dimensions bitBudgets loads = false then
    some (.faiss "stored group load does not match its assigned dimensions")
  else none

/-- `train`. -/
def UnevenProductQuantizer.train (numerics : Numerics F K) (faiss : Faiss F)
    (rows : List (List F)) (quantizer : UnevenProductQuantizer F K) :
    UnevenProductQuantizer F K × Option ModelError :=
  let shape := quantizer.shape
  let quantizer := { quantizer with isTrained := false, idealBitBudgets := [], groupBitLoads := [] }
  match computeIdealBitBudgets numerics shape rows with
  | .error error => (quantizer, some error)
  | .ok bitBudgets =>
    match planPairedCapacities shape bitBudgets with
    | .error error => (quantizer, some error)
    | .ok pairedCapacities =>
      match assignDimensions shape pairedCapacities bitBudgets with
      | .error error => (quantizer, some error)
      | .ok assignment =>
        -- `build_buckets` stores the groups before it makes the buckets.
        let quantizer := { quantizer with subspaceDimensions := assignment.dimensions, buckets := [] }
        match (do createBuckets faiss (← buildBuckets shape assignment.dimensions)) with
        | .error error => (quantizer, some error)
        | .ok buckets =>
          match trainBuckets faiss rows buckets with
          | (buckets, some error) => ({ quantizer with buckets := buckets }, some error)
          | (buckets, none) =>
            let quantizer :=
              { quantizer with
                buckets := buckets
                idealBitBudgets := bitBudgets
                groupBitLoads := assignment.loads }
            match checkDiagnostics shape assignment.dimensions bitBudgets assignment.loads with
            | some error => (quantizer, some error)
            | none => ({ quantizer with isTrained := true }, none)

end Training

section Coding

variable {F K : Type} [Zero F]

/-- `compute_codes`, for one row: every bucket's bytes at its offset. -/
def UnevenProductQuantizer.computeCode (faiss : Faiss F) (quantizer : UnevenProductQuantizer F K)
    (row : List F) : List UInt8 :=
  quantizer.buckets.foldl
    (fun code bucket =>
      splice code bucket.layout.codeOffset (faiss.computeCode bucket.pq (gather bucket.layout row)))
    (List.replicate (quantizer.shape.M / 2) 0)

/-- Put the values of a bucket at its dimensions. -/
def scatter (row : List F) (layout : Bucket) (values : List F) : List F :=
  (layout.dimensions.zip values).foldl (fun row pair => row.set pair.1 pair.2) row

/-- `decode`, for one row. -/
def UnevenProductQuantizer.decode (faiss : Faiss F) (quantizer : UnevenProductQuantizer F K)
    (code : List UInt8) : List F :=
  quantizer.buckets.foldl
    (fun row bucket =>
      scatter row bucket.layout (faiss.decode bucket.pq
        (slice code bucket.layout.codeOffset bucket.layout.bucketCodeSize)))
    (List.replicate quantizer.shape.d 0)

/-- `compute_inner_prod_table`: the tables of the buckets, one after the other. -/
def UnevenProductQuantizer.innerProdTable (faiss : Faiss F)
    (quantizer : UnevenProductQuantizer F K) (row : List F) : List F :=
  quantizer.buckets.foldl
    (fun table bucket =>
      splice table (bucket.layout.firstSubspace * 16)
        (faiss.innerProdTable bucket.pq (gather bucket.layout row)))
    (List.replicate (quantizer.shape.M * 16) 0)

end Coding

end Recast
