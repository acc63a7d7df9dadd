import Recast.Model.Ranges
import Recast.Model.RoundTrip
import Recast.Uneven.Tables

/-!
# Saved models load

A quantizer whose last training call completed is saved, and the file loads to
the same quantizer: what `load` checks, training has made true.
-/

namespace Recast

open Foundation Foundation.Reader

section Training

variable {F K : Type} [Zero F]
variable [Zero K] [One K] [Add K] [Sub K] [Mul K] [Div K] [Neg K] [NatCast K]
variable [LT K] [DecidableLT K] [LE K] [DecidableLE K] [BEq K]
variable {numerics : Numerics F K} {faiss : Faiss F}

/-- Training the uneven codec creates its codebooks from the layout it keeps. -/
theorem UnevenProductQuantizer.train_created (hfaiss : FaissShapes faiss) {rows : List (List F)}
    {quantizer quantizer' : UnevenProductQuantizer F K}
    (h : quantizer.train numerics faiss rows = (quantizer', none)) :
    ∃ created, createBuckets faiss (quantizer'.buckets.map CodedBucket.layout) = .ok created := by
  unfold UnevenProductQuantizer.train at h
  dsimp only at h
  split at h
  · simp at h
  split at h
  · simp at h
  split at h
  · simp at h
  split at h
  · simp at h
  next buckets hbuckets =>
  obtain ⟨layouts, -, hcreated⟩ := bind_eq_ok.mp hbuckets
  obtain ⟨hlayouts, hshaped⟩ := createBuckets_spec hfaiss hcreated
  obtain ⟨hkept, -⟩ := trainBuckets_spec hfaiss rows hshaped
  split at h
  · simp at h
  next trained htrained =>
  rw [htrained] at hkept
  split at h
  · simp at h
  simp only [Prod.mk.injEq, and_true] at h
  subst h
  exact ⟨buckets, by rw [hkept, hlayouts, hcreated]⟩

theorem DirectionQuantizer.train_created (hfaiss : FaissShapes faiss)
    {direction : DirectionQuantizer F K} {uneven : UnevenProductQuantizer F K}
    {rows : List (List F)} (h : direction.train numerics faiss rows = (.uneven uneven, none)) :
    ∃ created, createBuckets faiss (uneven.buckets.map CodedBucket.layout) = .ok created := by
  cases direction with
  | uniform pq => simp [DirectionQuantizer.train] at h
  | uneven quantizer =>
      rcases htrain : quantizer.train numerics faiss rows with ⟨trained, error⟩
      simp only [DirectionQuantizer.train, htrain, Prod.mk.injEq,
        DirectionQuantizer.uneven.injEq] at h
      obtain ⟨rfl, rfl⟩ := h
      exact UnevenProductQuantizer.train_created hfaiss htrain

variable [One F] [Add F] [Sub F] [Mul F] [Div F] [NatCast F]
variable [LT F] [DecidableLT F] [LE F] [DecidableLE F]

/-- The constructor accepted the configuration, which no training changes. -/
theorem TrainRun.created (hfaiss : FaissShapes faiss) {quantizer : RecastQuantizer F K}
    (hrun : TrainRun numerics faiss quantizer) :
    ∃ created : RecastQuantizer F K, RecastQuantizer.create faiss quantizer.config = .ok created ∧
      created.config = quantizer.config := by
  induction hrun with
  | @create config quantizer hcreate =>
      have hconfig : quantizer.config = config := by
        simp only [RecastQuantizer.create, bind_eq_ok] at hcreate
        obtain ⟨_, -, direction, -, hcreate⟩ := hcreate
        cases hcreate
        rfl
      exact ⟨quantizer, hconfig ▸ hcreate, rfl⟩
  | train hrun rows ih =>
      rw [(RecastQuantizer.train_formed numerics hfaiss (hrun.formed hfaiss) rows).2]
      exact ih

/-- The direction codec of a completed training call was trained on rotated unit vectors. -/
theorem RecastQuantizer.train_direction (hfaiss : FaissShapes faiss)
    {quantizer quantizer' : RecastQuantizer F K} (hformed : quantizer.Formed) {rows : List (List F)}
    (hrows : ∀ row ∈ rows, row.length = quantizer.config.dimension)
    (h : quantizer.train numerics faiss rows = (quantizer', none)) :
    ∃ (direction : DirectionQuantizer F K) (vectors : List (List F)),
      direction.Formed quantizer'.config ∧
      (∀ vector ∈ vectors, vector.length = quantizer'.config.dimension) ∧
      direction.train numerics faiss ((vectors.map fun vector =>
        (normalize numerics faiss vector).1).map (quantizer'.transform faiss)) =
          (quantizer'.direction, none) := by
  have hconfig := (RecastQuantizer.train_formed numerics hfaiss hformed rows).2
  rw [h] at hconfig
  unfold RecastQuantizer.train at h
  split at h
  · simp at h
  dsimp only at h
  split at h
  · simp at h
  next start htransform =>
  split at h
  · simp at h
  next direction heq =>
  simp only [Prod.mk.injEq, and_true] at h
  subst h
  dsimp only at hconfig
  have hkept : start.direction = quantizer.direction := by
    obtain ⟨rotation, hframe, -⟩ := RecastQuantizer.trainTransform_frame faiss
      { quantizer with
        mean := learnMean quantizer.config rows
        normMax := largestNorm ((splitRows numerics faiss (learnMean quantizer.config rows)
          rows).map Prod.snd) } (rows.map (center (learnMean quantizer.config rows)))
    rw [htransform] at hframe
    dsimp only at hframe
    rw [hframe]
  refine ⟨start.direction, rows.map (center (learnMean quantizer.config rows)), ?_, ?_, ?_⟩
  · rw [hconfig, hkept]
    exact hformed.hdirection
  · intro vector hvector
    obtain ⟨row, hrow, rfl⟩ := List.mem_map.mp hvector
    rw [hconfig]
    exact length_center (length_learnMean _ rows) (hrows row hrow)
  · simp only [splitRows, List.map_map] at heq ⊢
    exact heq

end Training

/-- Faiss codes unit directions with centroids of unit directions: a codec
trained on unit vectors, rotated to axes that its own training found, reconstructs
no vector of a huge length. -/
structure FaissReconstructs (faiss : Faiss Float32) : Prop where
  hmoderate : ∀ (quantizer : RecastQuantizer Float32 Float)
    (direction direction' : DirectionQuantizer Float32 Float) (vectors : List (List Float32)),
    (∀ rotation ∈ quantizer.rotation, rotation.TrainedBy faiss quantizer.config.dimension) →
    direction.Formed quantizer.config →
    (∀ vector ∈ vectors, vector.length = quantizer.config.dimension) →
    direction.train machineNumerics faiss ((vectors.map fun vector =>
      (normalize machineNumerics faiss vector).1).map (quantizer.transform faiss)) =
        (direction', none) →
    ∀ row, ¬kHugeNorm < reconstructionNorm machineNumerics faiss direction' row

/-- The payload of the file of a trained quantizer. -/
def modelPayload (io : FaissIo) (quantizer : RecastQuantizer Float32 Float) : List UInt8 :=
  writeConfig quantizer ++ writeRotation io quantizer.rotation ++
    directionBytes io quantizer.direction ++ writeRanges quantizer

variable {faiss : Faiss Float32} {io : FaissIo} {quantizer : RecastQuantizer Float32 Float}

/-- Finite ranges pass the checks of `load`. -/
theorem RecastQuantizer.Learned.validRanges
    (hlearned : quantizer.Learned machineNumerics faiss)
    (hmoderate : ∀ row,
      ¬kHugeNorm < reconstructionNorm machineNumerics faiss quantizer.direction row)
    (hnormMax : quantizer.normMax.isFinite = true) (hnormStep : quantizer.normStep.isFinite = true)
    (hscaleMax : quantizer.scaleMax.isFinite = true)
    (hscaleStep : quantizer.scaleStep.isFinite = true) :
    validRange quantizer.normMax quantizer.normStep = true ∧
      validRange quantizer.scaleMax quantizer.scaleStep = true := by
  obtain ⟨vectors, transformed, hnorm, hscale⟩ := hlearned.hranges
  have hnorms : Ranged (-40) quantizer.normMax.toModel.unpack :=
    hnorm ▸ ranged_largestNorm faiss vectors
  have hsized : ∀ norm ∈ vectors.map fun vector => (normalize machineNumerics faiss vector).2,
      Sized (-40) norm.toModel.unpack := by
    intro norm hmem
    obtain ⟨vector, -, rfl⟩ := List.mem_map.mp hmem
    exact sized_norm faiss vector
  have hscales : Ranged (-141) quantizer.scaleMax.toModel.unpack :=
    hscale ▸ ranged_largestScale quantizer.config.metric hmoderate hsized transformed
  rw [hlearned.hnormStep] at hnormStep ⊢
  rw [hlearned.hscaleStep] at hscaleStep ⊢
  exact ⟨validRange_stepOf (by decide) hnorms hnormMax hnormStep,
    validRange_stepOf (by decide) hscales hscaleMax hscaleStep⟩

/-- The reader takes exactly the payload of a completed quantizer and restores it. -/
theorem reads_model (hfaiss : FaissShapes faiss) (hio : io.Inverts faiss)
    (hreconstructs : FaissReconstructs faiss) (hcompleted : Completed machineNumerics faiss quantizer)
    (hdimension : quantizer.config.dimension ≤ 2 ^ 20)
    (hnormMax : quantizer.normMax.isFinite = true) (hnormStep : quantizer.normStep.isFinite = true)
    (hscaleMax : quantizer.scaleMax.isFinite = true)
    (hscaleStep : quantizer.scaleStep.isFinite = true) :
    quantizer.save io = .ok (modelFile (modelPayload io quantizer)) ∧
      Reads (readQuantizer faiss io) (modelPayload io quantizer) quantizer := by
  have hlearned := hcompleted.learned hfaiss
  have hrotation := hcompleted.trainedBy hfaiss
  -- the constructor took the configuration once, so it takes it from the file
  obtain ⟨created, hcreated, hconfig⟩ : ∃ created : RecastQuantizer Float32 Float,
      RecastQuantizer.create faiss quantizer.config = .ok created ∧
        created.config = quantizer.config := by
    obtain ⟨hrun, rows, -, htrain⟩ := hcompleted
    have := (hrun.train rows).created hfaiss
    rwa [htrain] at this
  obtain ⟨direction, vectors, hformed, hvectors, hdirection⟩ :
      ∃ (direction : DirectionQuantizer Float32 Float) (vectors : List (List Float32)),
        direction.Formed quantizer.config ∧
        (∀ vector ∈ vectors, vector.length = quantizer.config.dimension) ∧
        direction.train machineNumerics faiss
          ((vectors.map fun vector => (normalize machineNumerics faiss vector).1).map
            (quantizer.transform faiss)) = (quantizer.direction, none) := by
    obtain ⟨hrun, rows, hrows, htrain⟩ := hcompleted
    exact RecastQuantizer.train_direction hfaiss (hrun.formed hfaiss) hrows htrain
  have hmoderate := hreconstructs.hmoderate quantizer direction quantizer.direction vectors
    hrotation hformed hvectors hdirection
  obtain ⟨new, hnew⟩ : ∃ new : DirectionQuantizer Float32 Float,
      createDirection faiss quantizer.config = .ok new := by
    simp only [RecastQuantizer.create, bind_eq_ok] at hcreated
    obtain ⟨-, -, new, hnew, -⟩ := hcreated
    exact ⟨new, hnew⟩
  have hranges := hlearned.validRanges hmoderate hnormMax hnormStep hscaleMax hscaleStep
  have hcheck := hlearned.hcheck
  rw [QuantizerConfig.check, guard_eq_ok] at hcheck
  have hpresence : quantizer.rotation.isSome ↔ quantizer.config.transform ≠ .none := by
    constructor
    · intro hsome hnone
      rw [hlearned.htransform hnone] at hsome
      cases hsome
    · exact hlearned.hpresence
  have huneven (uneven : UnevenProductQuantizer Float32 Float)
      (heq : quantizer.direction = .uneven uneven) : uneven.Learned ∧
        ∃ created, createBuckets faiss (uneven.buckets.map CodedBucket.layout) = .ok created :=
    ⟨hlearned.huneven uneven heq, DirectionQuantizer.train_created hfaiss (heq ▸ hdirection)⟩
  obtain ⟨hwrite, hread⟩ :=
    reads_direction hio hdimension (by omega) (by omega) hnew hlearned.hdirection huneven
  refine ⟨?_, ?_⟩
  · rw [RecastQuantizer.save, hlearned.htrained, if_neg (by simp), hwrite]
    rfl
  -- in the order in which the reader asks for the parts
  have hbytes : modelPayload io quantizer =
      (toLittleEndian 8 quantizer.config.dimension ++
        (toLittleEndian 8 quantizer.config.subquantizers ++
          (toLittleEndian 4 quantizer.config.grouping.code ++
            (toLittleEndian 4 quantizer.config.transform.code ++
              (toLittleEndian 4 quantizer.config.metric.code ++
                toLittleEndian 4 quantizer.config.centering.code))))) ++
      (writeVector encodeFloat quantizer.mean ++ (writeRotation io quantizer.rotation ++
        (directionBytes io quantizer.direction ++ (encodeFloat quantizer.normMax ++
          (encodeFloat quantizer.normStep ++ (encodeFloat quantizer.scaleMax ++
            encodeFloat quantizer.scaleStep)))))) := by
    simp only [modelPayload, writeConfig, writeRanges, List.append_assoc]
  rw [hbytes]
  refine Reads.bind (reads_config hlearned.hcheck hdimension) ?_
  refine Reads.skip (reads_ofExcept hcreated) ?_
  refine Reads.bind (reads_mean hlearned.hmean hdimension) ?_
  refine Reads.bind (reads_rotation hfaiss hio hdimension hrotation hpresence) ?_
  refine Reads.bind hread ?_
  refine Reads.bind (reads_float _) ?_
  refine Reads.bind (reads_float _) ?_
  refine Reads.bind (reads_float _) ?_
  refine Reads.finish (reads_float _) ?_
  -- the last check is that of the ranges
  refine Reads.guard (not_not.mpr hranges) ?_
  rw [hconfig]
  have htrained := hlearned.htrained
  obtain ⟨config, mean, rotation, direction, normMax, normStep, scaleMax, scaleStep, trained⟩ :=
    quantizer
  obtain rfl : trained = true := htrained
  exact reads_pure _

/-- A saved quantizer loads to itself: its last training call completed, its
ranges are finite and its size is within the bounds of `load`. -/
theorem saved_model_loads (hfaiss : FaissShapes faiss) (hio : io.Inverts faiss)
    (hreconstructs : FaissReconstructs faiss) (hcompleted : Completed machineNumerics faiss quantizer)
    (hdimension : quantizer.config.dimension ≤ 2 ^ 20)
    (hnormMax : quantizer.normMax.isFinite = true) (hnormStep : quantizer.normStep.isFinite = true)
    (hscaleMax : quantizer.scaleMax.isFinite = true)
    (hscaleStep : quantizer.scaleStep.isFinite = true)
    (hsize : (modelPayload io quantizer).length ≤ kMaximumModelBytes) :
    quantizer.save io = .ok (modelFile (modelPayload io quantizer)) ∧
      readQuantizer faiss io (modelPayload io quantizer) = .ok (quantizer, []) ∧
      (quantizer.save io >>= RecastQuantizer.load faiss io) = .ok quantizer := by
  obtain ⟨hsave, hreads⟩ := reads_model hfaiss hio hreconstructs hcompleted hdimension hnormMax
    hnormStep hscaleMax hscaleStep
  have hread := hreads []
  rw [List.append_nil] at hread
  refine ⟨hsave, hread, ?_⟩
  rw [hsave, ok_bind, RecastQuantizer.load, loadModel, readPayload_modelFile hsize, ok_bind,
    decodeQuantizer, hread]
  rfl

/-! ## Sixteen vectors of the plane -/

/-- The sum of the products of coordinates. -/
def machineDot (u v : List Float32) : Float32 := (u.zipWith (· * ·) v).foldl (· + ·) 0

/-- The centroid of a subspace that is closest to the row, the first one among equals. -/
def closest (pq : ProductQuantizer Float32) (row : List Float32) (m : Nat) : Nat :=
  let distance := fun k =>
    let difference := (pq.part row m).zipWith (· - ·) (pq.centroid m k)
    machineDot difference difference
  (List.range pq.ksub).foldl (fun best k => if distance k < distance best then k else best) 0

/-- Faiss with plain loops, trained on the vectors of `planarRows`. A vector of a
huge length counts as zero. -/
def planarFaiss : Faiss Float32 where
  normL2Sqr v := if kHugeNorm < Float32.sqrt (machineDot v v) then 0 else machineDot v v
  innerProduct := machineDot
  trainPca := planarPca
  apply transform x := (List.range transform.dOut).map fun i =>
    machineDot (slice transform.A (i * transform.dIn) transform.dIn) x + transform.b.getD i 0
  transformTranspose transform y := (List.range transform.dIn).map fun j =>
    machineDot ((List.range transform.dOut).map fun i => transform.A.getD (i * transform.dIn + j) 0)
      (y.zipWith (· - ·) transform.b)
  createPq := newPq
  trainPq := copyVectors
  computeCode pq row := (List.range pq.codeSize).map fun j =>
    UInt8.ofNat (closest pq row (2 * j) + 16 * closest pq row (2 * j + 1))
  decode pq code := (List.range pq.d).map fun i =>
    (pq.centroid (i / pq.dsub) (halfOf code (i / pq.dsub))).getD (i % pq.dsub) 0
  innerProdTable pq query := (List.range pq.M).flatMap fun m =>
    (List.range pq.ksub).map fun k => machineDot (pq.part query m) (pq.centroid m k)

/-- `set_is_orthonormal`: the rows of the matrix are orthonormal up to 4e-5. -/
def orthonormalRows (dIn dOut : Nat) (A : List Float32) : Bool :=
  decide (dOut ≤ dIn) && (List.range dOut).all fun i => (List.range dOut).all fun j =>
    let product := machineDot (slice A (i * dIn) dIn) (slice A (j * dIn) dIn)
    let expected := if i = j then 1 else 0
    decide (product - expected ≤ 4e-5) && decide (expected - product ≤ 4e-5)

/-- The fields Faiss writes of a codebook; the constructor derives the others. -/
def readPlainPq : ModelReader (ProductQuantizer Float32) := do
  let d ← readScalar 8
  let M ← readScalar 8
  let nbits ← readScalar 8
  let pq : ProductQuantizer Float32 ← Reader.ofExcept (newPq d M nbits)
  let centroids ← readVector readFloat sizeMax "centroids"
  pure { pq with centroids := centroids }

/-- The fields Faiss writes of a transform; the flag is computed from the matrix. -/
def readPlainTransform : ModelReader (VectorTransform Float32) := do
  let dIn ← readScalar 8
  let dOut ← readScalar 8
  let A ← readVector readFloat sizeMax "matrix"
  let b ← readVector readFloat sizeMax "bias"
  pure (.linear ⟨dIn, dOut, true, orthonormalRows dIn dOut A, A, b⟩)

def plainIo : FaissIo where
  writeTransform transform := toLittleEndian 8 transform.dIn ++ (toLittleEndian 8 transform.dOut ++
    (writeVector encodeFloat transform.A ++ writeVector encodeFloat transform.b))
  readTransform := readPlainTransform
  writePq pq := toLittleEndian 8 pq.d ++ (toLittleEndian 8 pq.M ++ (toLittleEndian 8 pq.nbits ++
    writeVector encodeFloat pq.centroids))
  readPq := readPlainPq

theorem planarFaiss_shapes : FaissShapes planarFaiss :=
  planar_shapes rfl rfl rfl fun _ _ => by rw [planarFaiss, List.length_map, List.length_range]

theorem planarFaiss_moderate (v : List Float32) :
    ¬kHugeNorm < machineNumerics.sqrt (planarFaiss.normL2Sqr v) := by
  simp only [planarFaiss, machineNumerics]
  split
  next => decide
  next h => exact h

theorem planarFaiss_reconstructs : FaissReconstructs planarFaiss :=
  ⟨fun _ _ _ _ _ _ _ _ _ => planarFaiss_moderate _⟩

theorem plainIo_inverts : plainIo.Inverts planarFaiss where
  htransform transform d _ htrained := by
    obtain ⟨bins, rows, axes, -, hpca, horthonormal, rfl⟩ := htrained
    cases hpca
    obtain rfl : d = 2 := by simpa using horthonormal
    refine Reads.bind (reads_scalar (by decide)) (Reads.bind (reads_scalar (by decide)) ?_)
    refine Reads.bind (reads_vector _ (fun value _ => reads_float value) (by decide) le_rfl) ?_
    refine Reads.finish (reads_vector _ (fun value _ => reads_float value) (by decide) le_rfl) ?_
    rw [show orthonormalRows 2 2 _ = true by decide +kernel]
    exact reads_pure _
  hpq pq created d M hd hM hcreated hshaped := by
    have hd' : d < 256 ^ 8 := by omega
    have hM' : M < 256 ^ 8 := by omega
    refine Reads.bind (reads_scalar (hshaped.hd ▸ hd')) ?_
    refine Reads.bind (reads_scalar (hshaped.hM ▸ hM')) ?_
    refine Reads.bind (reads_scalar (hshaped.hnbits ▸ by decide)) ?_
    have hnew : newPq pq.d pq.M pq.nbits = .ok created := by
      rw [hshaped.hd, hshaped.hM, hshaped.hnbits]
      exact hcreated
    refine Reads.skip (reads_ofExcept hnew) ?_
    refine Reads.finish (reads_vector _ (fun value _ => reads_float value) ?_ le_rfl) ?_
    · rw [hshaped.hcentroids]
      have : sizeMax = 2 ^ 64 - 1 := rfl
      simp only [nbits]
      omega
    rw [newPq, guard_eq_ok] at hnew
    cases hnew.2
    obtain ⟨-, hcount, hnbits, hksub, hcodeSize, -⟩ := hshaped
    obtain ⟨d', M', nbits', ksub, codeSize, centroids⟩ := pq
    simp only at hcount hnbits hksub hcodeSize
    subst hcount hnbits hksub hcodeSize
    exact reads_pure _

/-- Two dimensions, centered and rotated. -/
def planarStart : RecastQuantizer Float32 Float :=
  ⟨⟨2, 2, .uniform, .pca, .squaredL2, .mean⟩, [0, 0], none,
    .uniform ⟨2, 2, 4, 16, 1, List.replicate 32 0⟩, 0, 1, 0, 1, false⟩

/-- Sixteen vectors around `(3, 5)`. -/
def planarRows : List (List Float32) :=
  (List.replicate 4 [[3, 7], [3, 3], [4, 5], [2, 5]]).flatten

def planarQuantizer : RecastQuantizer Float32 Float :=
  (planarStart.train machineNumerics planarFaiss planarRows).1

theorem planarQuantizer_completed : Completed machineNumerics planarFaiss planarQuantizer :=
  .train (.create (show RecastQuantizer.create planarFaiss planarStart.config = .ok planarStart from rfl))
    planarRows (by decide) (Prod.ext rfl (by decide +kernel))

theorem planarQuantizer_trained : planarQuantizer.trained = true := by decide +kernel

theorem planarQuantizer_config : planarQuantizer.config = planarStart.config := by decide +kernel

/-- The trained quantizer, with a mean, a rotation and codebooks, is saved and loaded. -/
theorem saved_model_loads_planar :
    planarQuantizer.mean = [3, 5] ∧
      planarQuantizer.rotation.map LinearTransform.A = some [0, 1, 1, 0] ∧
      planarQuantizer.normMax = 2 ∧ planarQuantizer.scaleMax = 2 ∧
      (planarQuantizer.save plainIo >>= RecastQuantizer.load planarFaiss plainIo) =
        .ok planarQuantizer :=
  ⟨by decide +kernel, by decide +kernel, by decide +kernel, by decide +kernel,
    (saved_model_loads planarFaiss_shapes plainIo_inverts planarFaiss_reconstructs
      planarQuantizer_completed (by decide) (by decide +kernel) (by decide +kernel)
      (by decide +kernel) (by decide +kernel) (by decide +kernel)).2.2⟩

end Recast
