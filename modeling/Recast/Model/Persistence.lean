import Recast.Model.File
import Recast.Model.Machine

/-!
# Saving and loading a quantizer

The payload of a model file: what `save` writes of a trained quantizer, and
the checks with which `load` reads it back. Transforms and codebooks go through
Faiss's own writers and readers.
-/

namespace Recast

open Foundation

/-- A reader of a model payload. -/
abbrev ModelReader (α : Type) := Reader ModelError α

/-- Faiss's writers and readers of the objects a model file contains. -/
structure FaissIo where
  writeTransform : LinearTransform Float32 → List UInt8
  readTransform : ModelReader (VectorTransform Float32)
  writePq : ProductQuantizer Float32 → List UInt8
  readPq : ModelReader (ProductQuantizer Float32)

/-! ## `persistence_io.h` -/

/-- The error of `read_bytes`. -/
def truncatedState : ModelError := .runtime "truncated Recast quantizer state"

/-- `read_scalar` of an unsigned integer. -/
def readScalar (width : Nat) : ModelReader Nat := Reader.number truncatedState width

/-- `read_scalar<float>`. -/
def readFloat : ModelReader Float32 :=
  (fun n => Float32.ofBits (UInt32.ofNat n)) <$> readScalar 4

/-- `read_scalar<double>`. -/
def readDouble : ModelReader Float :=
  (fun n => Float.ofBits (UInt64.ofNat n)) <$> readScalar 8

/-- `checked_size`. -/
def checkedSize (value maximum : Nat) (name : String) : ModelReader Nat :=
  if value > maximum ∨ value > sizeMax then
    Reader.fail (.runtime ("invalid persisted " ++ name))
  else pure value

/-- `checked_size(read_scalar<uint64_t>(reader), maximum, name)`. -/
def readSize (maximum : Nat) (name : String) : ModelReader Nat := do
  let value ← readScalar 8
  checkedSize value maximum name

/-- `write_vector`. -/
def writeVector {α : Type} (encode : α → List UInt8) (values : List α) : List UInt8 :=
  toLittleEndian 8 values.length ++ values.flatMap encode

/-- `read_vector`. -/
def readVector {α : Type} (element : ModelReader α) (maximum : Nat) (name : String) :
    ModelReader (List α) := do
  let count ← readSize maximum name
  Reader.many element count

/-! ## The uneven product quantizer -/

def kUnevenPersistenceVersion : Nat := 1

def kMaximumPersistedDimension : Nat := 2 ^ 20

/-- A flag as one byte. -/
def encodeFlag (flag : Bool) : List UInt8 := toLittleEndian 1 (if flag then 1 else 0)

/-- The record of a bucket. -/
def writeBucket (io : FaissIo) (bucket : CodedBucket Float32) : List UInt8 :=
  toLittleEndian 8 bucket.layout.subspaceDimension ++
    toLittleEndian 8 bucket.layout.subspaceCount ++
    toLittleEndian 8 bucket.layout.firstSubspace ++
    toLittleEndian 8 bucket.layout.codeOffset ++ io.writePq bucket.pq

/-- The bytes of `UnevenProductQuantizer::write`. -/
def writeUnevenBytes (io : FaissIo) (quantizer : UnevenProductQuantizer Float32 Float) :
    List UInt8 :=
  toLittleEndian 4 kUnevenPersistenceVersion ++
    toLittleEndian 8 quantizer.shape.d ++
    toLittleEndian 8 quantizer.shape.M ++
    toLittleEndian 8 nbits ++
    toLittleEndian 8 quantizer.shape.maxSubspaceDimension ++
    encodeFlag quantizer.reportLayoutAfterTraining ++
    encodeFlag quantizer.verbose ++
    toLittleEndian 8 quantizer.subspaceDimensions.length ++
    quantizer.subspaceDimensions.flatMap (writeVector (toLittleEndian 8)) ++
    writeVector encodeDouble quantizer.idealBitBudgets ++
    writeVector encodeDouble quantizer.groupBitLoads ++
    toLittleEndian 8 quantizer.buckets.length ++
    quantizer.buckets.flatMap (writeBucket io)

/-- `UnevenProductQuantizer::write`. -/
def writeUneven (io : FaissIo) (quantizer : UnevenProductQuantizer Float32 Float) :
    Except ModelError (List UInt8) :=
  if quantizer.isTrained = false then
    .error (.invalidArgument "cannot persist an untrained uneven PQ")
  else do
    validateLayout quantizer.shape quantizer.subspaceDimensions
      (quantizer.buckets.map CodedBucket.layout)
    .ok (writeUnevenBytes io quantizer)

/-- The groups of dimensions, with the running total of their sizes. -/
def readGroups (loadedD : Nat) : Nat → Nat → ModelReader (List (List Nat) × Nat)
  | 0, total => pure ([], total)
  | count + 1, total => do
      let persisted ← readVector (readScalar 8) loadedD "group dimension list"
      let group ← Reader.ofExcept (persisted.mapM fun dimension =>
        if dimension > loadedD - 1 ∨ dimension > sizeMax then
          .error (.runtime ("invalid persisted " ++ "group dimension index"))
        else .ok dimension)
      if group = [] ∨ total > loadedD - group.length then
        Reader.fail (.runtime "invalid persisted uneven group dimensions")
      else do
        let (groups, total) ← readGroups loadedD count (total + group.length)
        pure (group :: groups, total)

/-- Read the codebook of a rebuilt bucket, after checking its record. -/
def readBucket (io : FaissIo) (loadedD loadedM codeSize : Nat) (layout : Bucket) :
    ModelReader (CodedBucket Float32) := do
  let subspaceDimension ← readSize loadedD "bucket subspace dimension"
  let subspaceCount ← readSize loadedM "bucket subspace count"
  let firstSubspace ← readSize loadedM "bucket first subspace"
  let codeOffset ← readSize codeSize "bucket code offset"
  if subspaceDimension ≠ layout.subspaceDimension ∨ subspaceCount ≠ layout.subspaceCount ∨
      firstSubspace ≠ layout.firstSubspace ∨ codeOffset ≠ layout.codeOffset then
    Reader.fail (.runtime "persisted uneven bucket layout is inconsistent")
  else do
    let pq ← io.readPq
    if pq.d ≠ layout.bucketDimension ∨ pq.M ≠ layout.subspaceCount ∨ pq.nbits ≠ nbits ∨
        pq.ksub ≠ 2 ^ nbits ∨ pq.codeSize ≠ layout.bucketCodeSize ∨
        pq.centroids.length ≠ layout.bucketDimension * 2 ^ nbits then
      Reader.fail (.runtime "persisted uneven PQ codebook is incompatible")
    else pure ⟨layout, pq⟩

/-- The buckets of the rebuilt layout, in order. -/
def readBuckets (io : FaissIo) (loadedD loadedM codeSize : Nat) :
    List Bucket → ModelReader (List (CodedBucket Float32))
  | [] => pure []
  | layout :: rest => do
      let bucket ← readBucket io loadedD loadedM codeSize layout
      let buckets ← readBuckets io loadedD loadedM codeSize rest
      pure (bucket :: buckets)

/-- `UnevenProductQuantizer::read`. -/
def readUneven (faiss : Faiss Float32) (io : FaissIo) :
    ModelReader (UnevenProductQuantizer Float32 Float) := do
  let version ← readScalar 4
  if version ≠ kUnevenPersistenceVersion then
    Reader.fail (.runtime "unsupported uneven-PQ persistence version")
  else do
  let loadedD ← readSize kMaximumPersistedDimension "dimension"
  let loadedM ← readSize loadedD "subquantizer count"
  let loadedNbits ← readSize 64 "bits per subquantizer"
  -- The bound on the widths is assigned after construction.
  let constructed ← Reader.ofExcept (UnevenShape.create loadedD loadedM loadedNbits 0)
  let maximum ← readSize loadedD "maximum subspace dimension"
  let shape : UnevenShape := { constructed with maxSubspaceDimension := maximum }
  let report ← readScalar 1
  let verbose ← readScalar 1
  let groupCount ← readSize loadedM "uneven group count"
  if groupCount ≠ loadedM then
    Reader.fail (.runtime "persisted uneven PQ has the wrong group count")
  else do
  let (dimensions, total) ← readGroups loadedD groupCount 0
  if total ≠ loadedD then
    Reader.fail (.runtime "persisted uneven groups do not cover dimension")
  else do
  let bitBudgets ← readVector readDouble loadedD "ideal bit budgets"
  let loads ← readVector readDouble loadedM "group bit loads"
  if bitBudgets.length ≠ loadedD ∨ loads.length ≠ loadedM then
    Reader.fail (.runtime "persisted uneven diagnostics have wrong sizes")
  else do
  let layouts ← Reader.ofExcept (buildBuckets shape dimensions)
  let _ ← Reader.ofExcept (createBuckets faiss layouts)
  let bucketCount ← readSize loadedM "uneven bucket count"
  if bucketCount ≠ layouts.length then
    Reader.fail (.runtime "persisted uneven bucket count is inconsistent")
  else do
  let buckets ← readBuckets io loadedD loadedM (loadedM / 2) layouts
  Reader.ofExcept (validateLayout shape dimensions layouts)
  if loadsConsistent dimensions bitBudgets loads = false then
    Reader.fail (.runtime "persisted uneven group load is inconsistent")
  else
    pure {
      shape := shape
      reportLayoutAfterTraining := report != 0
      verbose := verbose != 0
      isTrained := true
      subspaceDimensions := dimensions
      idealBitBudgets := bitBudgets
      groupBitLoads := loads
      buckets := buckets }

/-! ## The quantizer -/

/-- The number of an enumeration value. -/
def GroupingMode.code : GroupingMode → Nat
  | .uniform => 0
  | .uneven => 1

def TransformMode.code : TransformMode → Nat
  | .none => 0
  | .pca => 1
  | .parametricOpq => 2

def DistanceMetric.code : DistanceMetric → Nat
  | .squaredL2 => 0
  | .innerProduct => 1
  | .cosine => 2

def CenteringMode.code : CenteringMode → Nat
  | .none => 0
  | .mean => 1

/-- `decode_grouping`. -/
def decodeGrouping : Nat → Except ModelError GroupingMode
  | 0 => .ok .uniform
  | 1 => .ok .uneven
  | _ => .error (.runtime "invalid persisted grouping mode")

/-- `decode_transform`. -/
def decodeTransform : Nat → Except ModelError TransformMode
  | 0 => .ok .none
  | 1 => .ok .pca
  | 2 => .ok .parametricOpq
  | _ => .error (.runtime "invalid persisted transform mode")

/-- `decode_metric`. -/
def decodeMetric : Nat → Except ModelError DistanceMetric
  | 0 => .ok .squaredL2
  | 1 => .ok .innerProduct
  | 2 => .ok .cosine
  | _ => .error (.runtime "invalid persisted distance metric")

/-- `decode_centering`. -/
def decodeCentering : Nat → Except ModelError CenteringMode
  | 0 => .ok .none
  | 1 => .ok .mean
  | _ => .error (.runtime "invalid persisted centering mode")

/-- The configuration and the mean. -/
def writeConfig (quantizer : RecastQuantizer Float32 Float) : List UInt8 :=
  toLittleEndian 8 quantizer.config.dimension ++
    toLittleEndian 8 quantizer.config.subquantizers ++
    toLittleEndian 4 quantizer.config.grouping.code ++
    toLittleEndian 4 quantizer.config.transform.code ++
    toLittleEndian 4 quantizer.config.metric.code ++
    toLittleEndian 4 quantizer.config.centering.code ++
    writeVector encodeFloat quantizer.mean

/-- The presence flag and the transform. -/
def writeRotation (io : FaissIo) : Option (LinearTransform Float32) → List UInt8
  | none => encodeFlag false
  | some rotation => encodeFlag true ++ io.writeTransform rotation

/-- The back-end number and the direction codec. -/
def writeDirection (io : FaissIo) :
    DirectionQuantizer Float32 Float → Except ModelError (List UInt8)
  | .uniform pq => .ok (toLittleEndian 1 0 ++ io.writePq pq)
  | .uneven quantizer => do
      let bytes ← writeUneven io quantizer
      .ok (toLittleEndian 1 1 ++ bytes)

/-- The four metadata ranges. -/
def writeRanges (quantizer : RecastQuantizer Float32 Float) : List UInt8 :=
  encodeFloat quantizer.normMax ++ encodeFloat quantizer.normStep ++
    encodeFloat quantizer.scaleMax ++ encodeFloat quantizer.scaleStep

/-- `save`: the file for a trained quantizer. -/
def RecastQuantizer.save (io : FaissIo) (quantizer : RecastQuantizer Float32 Float) :
    Except ModelError Bytes :=
  if quantizer.trained = false then
    .error (.invalidArgument "a trained quantizer and nonempty model path are required")
  else do
    let direction ← writeDirection io quantizer.direction
    .ok (modelFile (writeConfig quantizer ++ writeRotation io quantizer.rotation ++ direction ++
      writeRanges quantizer))

/-- The configuration of a payload. -/
def readConfig : ModelReader QuantizerConfig := do
  let dimension ← readSize (2 ^ 20) "quantizer dimension"
  let subquantizers ← readSize dimension "quantizer subquantizers"
  let grouping ← readScalar 4
  let grouping ← Reader.ofExcept (decodeGrouping grouping)
  let transform ← readScalar 4
  let transform ← Reader.ofExcept (decodeTransform transform)
  let metric ← readScalar 4
  let metric ← Reader.ofExcept (decodeMetric metric)
  let centering ← readScalar 4
  let centering ← Reader.ofExcept (decodeCentering centering)
  pure ⟨dimension, subquantizers, grouping, transform, metric, centering⟩

/-- The mean of a payload. -/
def readMean (dimension : Nat) : ModelReader (List Float32) := do
  let mean ← readVector readFloat dimension "quantizer mean"
  if mean.length ≠ dimension then
    Reader.fail (.runtime "persisted quantizer mean has wrong dimension")
  else pure mean

/-- The transform of a payload. -/
def readRotation (io : FaissIo) (config : QuantizerConfig) :
    ModelReader (Option (LinearTransform Float32)) := do
  let flag ← readScalar 1
  if (flag ≠ 0) ≠ (config.transform ≠ .none) then
    Reader.fail (.runtime "persisted transform presence is inconsistent")
  else if flag = 0 then pure none
  else do
    let transform ← io.readTransform
    match transform with
    | .other => Reader.fail (.runtime "persisted Recast transform is incompatible")
    | .linear linear =>
        if linear.isTrained = false ∨ linear.dIn ≠ config.dimension ∨
            linear.dOut ≠ config.dimension ∨
            linear.A.length ≠ config.dimension * config.dimension ∨
            linear.isOrthonormal = false then
          Reader.fail (.runtime "persisted Recast transform is incompatible")
        else pure (some linear)

/-- The direction codec of a payload. -/
def readDirection (faiss : Faiss Float32) (io : FaissIo) (config : QuantizerConfig) :
    ModelReader (DirectionQuantizer Float32 Float) := do
  let backend ← readScalar 1
  if backend ≠ (if config.grouping = .uniform then 0 else 1) then
    Reader.fail (.runtime "persisted direction-quantizer backend is inconsistent")
  else if backend = 0 then do
    let pq ← io.readPq
    if pq.d ≠ config.dimension ∨ pq.M ≠ config.subquantizers ∨ pq.nbits ≠ 4 ∨ pq.ksub ≠ 16 ∨
        pq.codeSize ≠ config.subquantizers / 2 ∨
        pq.centroids.length ≠ config.dimension * 16 then
      Reader.fail (.runtime "persisted uniform PQ4 codebook is incompatible")
    else pure (.uniform pq)
  else do
    let uneven ← readUneven faiss io
    if uneven.shape.d ≠ config.dimension ∨ uneven.shape.M ≠ config.subquantizers then
      Reader.fail (.runtime "persisted uneven PQ4 codebook is incompatible")
    else pure (.uneven uneven)

/-- What `load` requires of a range: a finite maximum and a finite positive step. -/
def validRange (maximum step : Float32) : Bool :=
  maximum.isFinite && !decide (maximum < 0) && step.isFinite && !decide (step ≤ 0)

/-- The payload part of `load`. -/
def readQuantizer (faiss : Faiss Float32) (io : FaissIo) :
    ModelReader (RecastQuantizer Float32 Float) := do
  let config ← readConfig
  let created : RecastQuantizer Float32 Float ←
    Reader.ofExcept (RecastQuantizer.create faiss config)
  let mean ← readMean config.dimension
  let rotation ← readRotation io config
  let direction ← readDirection faiss io config
  let normMax ← readFloat
  let normStep ← readFloat
  let scaleMax ← readFloat
  let scaleStep ← readFloat
  if ¬(validRange normMax normStep ∧ validRange scaleMax scaleStep) then
    Reader.fail (.runtime "persisted metadata ranges are invalid")
  else
    pure { created with
      mean := mean
      rotation := rotation
      direction := direction
      normMax := normMax
      normStep := normStep
      scaleMax := scaleMax
      scaleStep := scaleStep
      trained := true }

/-- Nothing may follow what the reader took. -/
def decodeQuantizer (faiss : Faiss Float32) (io : FaissIo) (payload : Bytes) :
    Except ModelError (RecastQuantizer Float32 Float) := do
  let (quantizer, rest) ← readQuantizer faiss io payload
  if rest ≠ [] then .error (.runtime "Recast quantizer model contains trailing state")
  else .ok quantizer

/-- `load`. -/
def RecastQuantizer.load (faiss : Faiss Float32) (io : FaissIo) (file : Bytes) :
    Except ModelError (RecastQuantizer Float32 Float) :=
  loadModel (decodeQuantizer faiss io) file

end Recast
