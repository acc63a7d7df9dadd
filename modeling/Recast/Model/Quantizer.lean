import Recast.Uneven.Quantizer

/-!
# The quantizer and its training

A `RecastQuantizer` splits a centered vector into its norm and a direction,
rotates the direction and codes it with a product quantizer. Training learns
every part in turn and may throw between two of them.
-/

namespace Recast

/-- `GroupingMode`. -/
inductive GroupingMode where
  | uniform
  | uneven
  deriving DecidableEq, Repr

/-- `TransformMode`. -/
inductive TransformMode where
  | none
  | pca
  | parametricOpq
  deriving DecidableEq, Repr

/-- `DistanceMetric`. -/
inductive DistanceMetric where
  | squaredL2
  | innerProduct
  | cosine
  deriving DecidableEq, Repr

/-- `CenteringMode`. -/
inductive CenteringMode where
  | none
  | mean
  deriving DecidableEq, Repr

/-- `QuantizerConfig`. -/
structure QuantizerConfig where
  dimension : Nat
  subquantizers : Nat
  grouping : GroupingMode
  transform : TransformMode
  metric : DistanceMetric
  centering : CenteringMode
  deriving DecidableEq, Repr

/-- The direction codec: `uniform` or `uneven` is set, never both. -/
inductive DirectionQuantizer (F K : Type) where
  | uniform (pq : ProductQuantizer F)
  | uneven (quantizer : UnevenProductQuantizer F K)

/-- `RecastQuantizer::Impl`. -/
structure RecastQuantizer (F K : Type) where
  config : QuantizerConfig
  mean : List F
  rotation : Option (LinearTransform F)
  direction : DirectionQuantizer F K
  normMax : F
  normStep : F
  scaleMax : F
  scaleStep : F
  trained : Bool

variable {F K : Type}
variable [Zero F] [One F] [Add F] [Sub F] [Mul F] [Div F] [NatCast F]
variable [LT F] [DecidableLT F] [LE F] [DecidableLE F]
variable [Zero K] [One K] [Add K] [Sub K] [Mul K] [Div K] [Neg K] [NatCast K]
variable [LT K] [DecidableLT K] [LE K] [DecidableLE K] [BEq K]

/-- The checks of the constructor of `Impl`. -/
def QuantizerConfig.check (config : QuantizerConfig) : Except ModelError Unit :=
  if config.dimension = 0 ∨ config.subquantizers = 0 ∨ config.subquantizers > config.dimension ∨
      config.subquantizers % 2 ≠ 0 then
    .error (.invalidArgument "dimension and an even M in [2, dimension] are required")
  else if config.grouping = .uniform ∧ config.dimension % config.subquantizers ≠ 0 then
    .error (.invalidArgument "uniform PQ requires dimension divisible by M")
  else if config.metric = .cosine ∧ config.centering ≠ .none then
    .error (.invalidArgument "cosine distance requires origin-centered encoding")
  else .ok ()

/-- The untrained direction codec of a configuration. -/
def createDirection (faiss : Faiss F) (config : QuantizerConfig) :
    Except ModelError (DirectionQuantizer F K) :=
  match config.grouping with
  | .uniform => do
      let pq ← faiss.createPq config.dimension config.subquantizers nbits
      .ok (.uniform pq)
  | .uneven => do
      let shape ← UnevenShape.create config.dimension config.subquantizers nbits 0
      .ok (.uneven (.new shape))

/-- The constructor. -/
def RecastQuantizer.create (faiss : Faiss F) (config : QuantizerConfig) :
    Except ModelError (RecastQuantizer F K) := do
  config.check
  let direction ← createDirection faiss config
  .ok {
    config := config
    mean := List.replicate config.dimension 0
    rotation := none
    direction := direction
    normMax := 0
    normStep := 1
    scaleMax := 0
    scaleStep := 1
    trained := false }

/-- `normalize`: the unit vector and the norm, zeros for a vector without direction. -/
def normalize (numerics : Numerics F K) (faiss : Faiss F) (vector : List F) : List F × F :=
  let norm := numerics.sqrt (faiss.normL2Sqr vector)
  if norm ≤ numerics.kMinNorm then (vector.map fun _ => 0, 0)
  else
    let inverse := 1 / norm
    (vector.map fun value => value * inverse, norm)

/-- `Impl::transform`, for one row. -/
def RecastQuantizer.transform (faiss : Faiss F) (quantizer : RecastQuantizer F K)
    (row : List F) : List F :=
  match quantizer.rotation with
  | some rotation => faiss.apply rotation row
  | none => row

/-- `Impl::inverse_transform`, for one row. -/
def RecastQuantizer.inverseTransform (faiss : Faiss F) (quantizer : RecastQuantizer F K)
    (row : List F) : List F :=
  match quantizer.rotation with
  | some rotation => faiss.transformTranspose rotation row
  | none => row

/-- `Impl::train_direction_quantizer`. -/
def DirectionQuantizer.train (numerics : Numerics F K) (faiss : Faiss F) (rows : List (List F)) :
    DirectionQuantizer F K → DirectionQuantizer F K × Option ModelError
  | .uniform pq =>
      let (pq, error) := faiss.trainPq pq rows
      (.uniform pq, error)
  | .uneven quantizer =>
      let (quantizer, error) := quantizer.train numerics faiss rows
      (.uneven quantizer, error)

/-- `Impl::compute_codes`, for one row. -/
def DirectionQuantizer.computeCode (faiss : Faiss F) (row : List F) :
    DirectionQuantizer F K → List UInt8
  | .uniform pq => faiss.computeCode pq row
  | .uneven quantizer => quantizer.computeCode faiss row

/-- `Impl::decode_codes`, for one row. -/
def DirectionQuantizer.decode (faiss : Faiss F) (code : List UInt8) :
    DirectionQuantizer F K → List F
  | .uniform pq => faiss.decode pq code
  | .uneven quantizer => quantizer.decode faiss code

/-- `Impl::compute_dot_lut`. -/
def DirectionQuantizer.dotLut (faiss : Faiss F) (query : List F) :
    DirectionQuantizer F K → List F
  | .uniform pq => faiss.innerProdTable pq query
  | .uneven quantizer => quantizer.innerProdTable faiss query

/-! ## Training -/

/-- Stage 1: the translation, zero without centering. -/
def learnMean (config : QuantizerConfig) (rows : List (List F)) : List F :=
  match config.centering with
  | .none => List.replicate config.dimension 0
  | .mean =>
      let inverseCount : F := 1 / (rows.length : F)
      (List.range config.dimension).map fun j =>
        rows.foldl (fun sum row => sum + row.getD j 0) 0 * inverseCount

/-- A row without the mean. -/
def center (mean row : List F) : List F := row.zipWith (· - ·) mean

/-- Learn the transform. A PCA that throws stays in place, a parametric OPQ that
throws does not replace the old transform. -/
def RecastQuantizer.learnRotation (faiss : Faiss F) (centered : List (List F))
    (quantizer : RecastQuantizer F K) : Option (LinearTransform F) × Option ModelError :=
  let dimension := quantizer.config.dimension
  match quantizer.config.transform with
  | .none => (quantizer.rotation, none)
  | .pca =>
      let (rotation, error) := faiss.trainPca dimension 0 centered
      (some rotation, error)
  | .parametricOpq =>
      match faiss.trainPca dimension quantizer.config.subquantizers centered with
      | (_, some error) => (quantizer.rotation, some error)
      | (rotation, none) => (some rotation, none)

/-- Stage 2: learn the transform, check it and drop its bias. -/
def RecastQuantizer.trainTransform (faiss : Faiss F) (centered : List (List F))
    (quantizer : RecastQuantizer F K) : RecastQuantizer F K × Option ModelError :=
  match quantizer.learnRotation faiss centered with
  | (rotation, some error) => ({ quantizer with rotation := rotation }, some error)
  | (none, none) => ({ quantizer with rotation := none }, none)
  | (some rotation, none) =>
      if rotation.isOrthonormal = false then
        ({ quantizer with rotation := some rotation },
          some (.runtime "Recast requires an orthonormal PCA transform"))
      else
        ({ quantizer with rotation := some { rotation with b := rotation.b.map fun _ => 0 } }, none)

/-- The largest of the norms, at least zero. -/
def largestNorm (norms : List F) : F := norms.foldl maxOf 0

/-- A step that reaches `maximum` at code 254. -/
def stepOf (maximum : F) : F := if 0 < maximum then maximum / ((254 : Nat) : F) else 1

/-- The scale of a row, when it has one. -/
def scaleOf (numerics : Numerics F K) (metric : DistanceMetric) (norm reconstructionNorm : F) :
    Option F :=
  if numerics.kMinNorm < reconstructionNorm ∧
      (metric ≠ .cosine ∨ numerics.kMinNorm < norm) then
    some (if metric = .cosine then 1 / reconstructionNorm else norm / reconstructionNorm)
  else none

/-- The norm of what the direction codec makes of a row. -/
def reconstructionNorm (numerics : Numerics F K) (faiss : Faiss F)
    (direction : DirectionQuantizer F K) (row : List F) : F :=
  numerics.sqrt (faiss.normL2Sqr (direction.decode faiss (direction.computeCode faiss row)))

/-- Stage 4: the largest scale over the training set. -/
def largestScale (numerics : Numerics F K) (faiss : Faiss F) (metric : DistanceMetric)
    (direction : DirectionQuantizer F K) (norms : List F) (transformed : List (List F)) : F :=
  (norms.zip transformed).foldl
    (fun scaleMax pair =>
      match scaleOf numerics metric pair.1 (reconstructionNorm numerics faiss direction pair.2) with
      | some scale => maxOf scaleMax scale
      | none => scaleMax)
    0

/-- Stage 2: the centered rows as unit directions and norms. -/
def splitRows (numerics : Numerics F K) (faiss : Faiss F) (mean : List F) (rows : List (List F)) :
    List (List F × F) :=
  rows.map fun row => normalize numerics faiss (center mean row)

/-- `train`. -/
def RecastQuantizer.train (numerics : Numerics F K) (faiss : Faiss F) (rows : List (List F))
    (quantizer : RecastQuantizer F K) : RecastQuantizer F K × Option ModelError :=
  if rows = [] then
    (quantizer, some (.invalidArgument "training vectors must not be empty"))
  else
    let quantizer := { quantizer with mean := learnMean quantizer.config rows }
    let split := splitRows numerics faiss quantizer.mean rows
    let norms := split.map Prod.snd
    let quantizer := { quantizer with normMax := largestNorm norms }
    match quantizer.trainTransform faiss (rows.map (center quantizer.mean)) with
    | (quantizer, some error) => (quantizer, some error)
    | (quantizer, none) =>
      let transformed := (split.map Prod.fst).map (quantizer.transform faiss)
      match quantizer.direction.train numerics faiss transformed with
      | (direction, some error) => ({ quantizer with direction := direction }, some error)
      | (direction, none) =>
        let scaleMax :=
          largestScale numerics faiss quantizer.config.metric direction norms transformed
        ({ quantizer with
            direction := direction
            normStep := stepOf quantizer.normMax
            scaleMax := scaleMax
            scaleStep := stepOf scaleMax
            trained := true }, none)

/-- The states of one quantizer: created, and trained any number of times, each
call completed or not. -/
inductive TrainRun (numerics : Numerics F K) (faiss : Faiss F) :
    RecastQuantizer F K → Prop where
  | create {config : QuantizerConfig} {quantizer : RecastQuantizer F K}
      (hcreate : RecastQuantizer.create faiss config = .ok quantizer) :
      TrainRun numerics faiss quantizer
  | train {quantizer : RecastQuantizer F K} (hrun : TrainRun numerics faiss quantizer)
      (rows : List (List F)) : TrainRun numerics faiss (quantizer.train numerics faiss rows).1

/-- A quantizer whose last training call completed. -/
inductive Completed (numerics : Numerics F K) (faiss : Faiss F) :
    RecastQuantizer F K → Prop where
  | train {quantizer quantizer' : RecastQuantizer F K} (hrun : TrainRun numerics faiss quantizer)
      (rows : List (List F))
      (hrows : ∀ row ∈ rows, row.length = quantizer.config.dimension)
      (htrain : quantizer.train numerics faiss rows = (quantizer', none)) :
      Completed numerics faiss quantizer'

end Recast
