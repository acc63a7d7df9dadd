import Recast.Foundation.Simd
import Recast.Scan.Estimate
import Mathlib.Algebra.Order.Field.Basic
import Mathlib.Tactic.Ring

/-!
# The AVX-512 metadata pipeline

`compute_metric_values_16_avx512` decodes the metadata of sixteen rows from the
planes of a block, and forms their estimates and uncertainties in registers. It
multiplies in another order than the portable code. In exact arithmetic a lane
holds what the portable code computes for its row.
-/

namespace Recast

open Foundation Foundation.Lanes16

section

variable {F K : Type}
variable [Zero F] [One F] [Add F] [Sub F] [Mul F] [Div F] [Neg F] [NatCast F]
variable [LT F] [DecidableLT F] [LE F] [DecidableLE F]

/-- `MetadataDecodeParameters`. -/
structure MetadataDecodeParameters (F : Type) where
  normMax : F
  normStep : F
  scaleMax : F
  scaleStep : F

/-- `metadata_decode_parameters`. -/
def RecastQuantizer.metadataDecodeParameters (quantizer : RecastQuantizer F K) :
    MetadataDecodeParameters F where
  normMax := quantizer.normMax
  normStep := quantizer.normStep
  scaleMax := quantizer.scaleMax
  scaleStep := quantizer.scaleStep

/-- The dot products of a block as its kernel leaves them: `exact_dots`, or
`quantized_dots` with the scale and the bias that undo the quantization. -/
inductive BlockDots (F : Type) where
  | exact (values : List F)
  | quantized (accumulators : List UInt16) (inverseScale bias : F)

/-- The dot product of a row in `postprocess_block_scalar`. -/
def BlockDots.row (dots : BlockDots F) (row : ℕ) : F :=
  match dots with
  | .exact values => values.getD row 0
  | .quantized accumulators inverseScale bias =>
      bias + (((accumulators.getD row 0).toNat : ℕ) : F) * inverseScale

/-- The dot products of sixteen rows in a register. -/
def BlockDots.lanes (dots : BlockDots F) (row : ℕ) : Lanes16 F :=
  match dots with
  | .exact values => loadu values row 0
  | .quantized accumulators inverseScale bias =>
      add (mul (cvtepi32Ps (cvtepu16Epi32 (loadu accumulators row 0))) (set1 inverseScale))
        (set1 bias)

/-- `MetricValues16`; `none` is infinity. -/
structure MetricValues16 (F : Type) where
  estimates : Lanes16 (Option F)
  uncertainties : Lanes16 (Option F)
  finiteUncertainty : Lanes16 Bool

/-- One lane of the registers. -/
def MetricValues16.row (values : MetricValues16 F) (lane : Fin 16) : PostprocessedRow F :=
  ⟨values.estimates lane, values.uncertainties lane⟩

/-- `compute_metric_values_16_avx512`. -/
def computeMetricValues16Avx512 (numerics : Numerics F K) (metric : DistanceMetric)
    (query : QueryContext F) (parameters : MetadataDecodeParameters F) (inverseSqrtDimension : F)
    (blockMetadata : Bytes) (dots : Lanes16 F) (laneBase : ℕ) : MetricValues16 F :=
  let two : F := ((2 : ℕ) : F)
  let normCodes := cvtepu8Epi32 (loadu blockMetadata laneBase 0)
  let scaleCodes := cvtepu8Epi32 (loadu blockMetadata (kUpdateBlockSize + laneBase) 0)
  let errorCodes := cvtepu8Epi32 (loadu blockMetadata (2 * kUpdateBlockSize + laneBase) 0)
  let sentinel : Lanes16 ℕ := set1 255
  let normOverflow := cmpeqEpi32Mask normCodes sentinel
  let scaleOverflow := cmpeqEpi32Mask scaleCodes sentinel
  let norms := maskMov (mul (cvtepi32Ps normCodes) (set1 parameters.normStep)) normOverflow
    (set1 parameters.normMax)
  let scales := maskMov (mul (cvtepi32Ps scaleCodes) (set1 parameters.scaleStep)) scaleOverflow
    (set1 parameters.scaleMax)
  let errors := mul (cvtepi32Ps errorCodes) (set1 (two / ((255 : ℕ) : F)))
  let (estimates, uncertainties, overflow) : Lanes16 F × Lanes16 F × Lanes16 Bool :=
    match metric with
    | .squaredL2 =>
        (sub (add (set1 query.queryNormSquared) (mul norms norms))
            (mul (set1 two) (mul scales dots)),
          mul (mul norms errors) (set1 (two * query.queryNorm * inverseSqrtDimension)),
          fun lane => normOverflow lane || scaleOverflow lane)
    | .innerProduct =>
        (sub (set1 0) (add (set1 query.meanDotQuery) (mul scales dots)),
          mul (mul norms errors) (set1 (query.queryNorm * inverseSqrtDimension)),
          fun lane => normOverflow lane || scaleOverflow lane)
    | .cosine =>
        (sub (set1 1) (mul scales dots), mul errors (set1 inverseSqrtDimension), scaleOverflow)
  let finiteEstimate : Lanes16 Bool := fun lane => numerics.isFinite (estimates lane)
  -- a negative uncertainty is as infinite as one that overflows
  let finiteUncertainty : Lanes16 Bool := fun lane =>
    numerics.isFinite (uncertainties lane) && decide (0 ≤ uncertainties lane) && !overflow lane
  { estimates := maskMov (set1 none) finiteEstimate fun lane => some (estimates lane)
    uncertainties := maskMov (set1 none) finiteUncertainty fun lane => some (uncertainties lane)
    finiteUncertainty }

/-- The sixteen rows from `lane_base` on of a tile. -/
def metricValues16 (numerics : Numerics F K) (quantizer : RecastQuantizer F K)
    (query : QueryContext F) (packedMetadata : Bytes) (dots : BlockDots F) (tile laneBase : ℕ) :
    MetricValues16 F :=
  computeMetricValues16Avx512 numerics quantizer.config.metric query
    quantizer.metadataDecodeParameters
    (1 / numerics.sqrt ((quantizer.config.dimension : ℕ) : F))
    (packedMetadata.drop (tile * Metadata.kMetadataBlockBytes))
    (dots.lanes (tile * kUpdateBlockSize + laneBase)) laneBase

end

/-! ### Lane by lane -/

section

variable {F K : Type} [Field F]

theorem BlockDots.lanes_apply (dots : BlockDots F) (row : ℕ) (lane : Fin 16) :
    dots.lanes row lane = dots.row (row + lane) := by
  cases dots with
  | exact values => rfl
  | quantized accumulators inverseScale bias => exact add_comm _ _

/-- A byte loaded from a plane of the block is the byte `metadata_at_lane` reads. -/
theorem loadu_plane (packedMetadata : Bytes) (tile plane laneBase : ℕ) {lane : Fin 16}
    (hlane : laneBase + lane < kUpdateBlockSize) :
    (loadu (packedMetadata.drop (tile * Metadata.kMetadataBlockBytes))
        (plane * kUpdateBlockSize + laneBase) 0 : Lanes16 UInt8) lane =
      packedMetadata.getD (Metadata.address (tile * kUpdateBlockSize + laneBase + lane) +
        plane * kUpdateBlockSize) 0 := by
  have haddress : Metadata.address (tile * kUpdateBlockSize + laneBase + lane) =
      tile * Metadata.kMetadataBlockBytes + (laneBase + lane) := by
    rw [Metadata.address, Nat.add_assoc, Nat.mul_comm tile kUpdateBlockSize,
      Nat.mul_add_div (by decide), Nat.mul_add_mod, Nat.div_eq_of_lt hlane, Nat.mod_eq_of_lt hlane,
      Nat.add_zero]
  rw [haddress, loadu, List.getD_eq_getElem?_getD, List.getElem?_drop,
    List.getD_eq_getElem?_getD]
  congr 2
  ring

/-- The bytes of a lane are the metadata of its row. -/
theorem loadu_metadata (packedMetadata : Bytes) (tile laneBase : ℕ) {lane : Fin 16}
    (hlane : laneBase + lane < kUpdateBlockSize) :
    (loadu (packedMetadata.drop (tile * Metadata.kMetadataBlockBytes)) laneBase 0) lane =
        (Metadata.load packedMetadata (tile * kUpdateBlockSize + laneBase + lane)).norm ∧
      (loadu (packedMetadata.drop (tile * Metadata.kMetadataBlockBytes))
          (kUpdateBlockSize + laneBase) 0) lane =
        (Metadata.load packedMetadata (tile * kUpdateBlockSize + laneBase + lane)).scale ∧
      (loadu (packedMetadata.drop (tile * Metadata.kMetadataBlockBytes))
          (2 * kUpdateBlockSize + laneBase) 0) lane =
        (Metadata.load packedMetadata (tile * kUpdateBlockSize + laneBase + lane)).error := by
  have hnorm := loadu_plane packedMetadata tile 0 laneBase hlane
  have hscale := loadu_plane packedMetadata tile 1 laneBase hlane
  rw [Nat.zero_mul, Nat.zero_add, Nat.add_zero] at hnorm
  rw [Nat.one_mul] at hscale
  exact ⟨hnorm, hscale, loadu_plane packedMetadata tile 2 laneBase hlane⟩

section Lane

variable {numerics : Numerics F K} {quantizer : RecastQuantizer F K} {query : QueryContext F}

/-- The codes under the sentinel masks are decoded as `decode_metadata` does. -/
theorem decode_lane (quantizer : RecastQuantizer F K) (metadata : Metadata) :
    (if (metadata.norm.toNat == 255) = true then quantizer.normMax
        else ((metadata.norm.toNat : ℕ) : F) * quantizer.normStep) =
        (quantizer.decodeMetadata metadata).norm ∧
      (if (metadata.scale.toNat == 255) = true then quantizer.scaleMax
        else ((metadata.scale.toNat : ℕ) : F) * quantizer.scaleStep) =
        (quantizer.decodeMetadata metadata).scale ∧
      (quantizer.decodeMetadata metadata).overflow = (metadata.scale.toNat == 255 ||
        (quantizer.config.metric ≠ .cosine && metadata.norm.toNat == 255)) := by
  have hsentinel (byte : UInt8) : (byte.toNat == 255) = decide (byte = 255) := by
    rw [Bool.eq_iff_iff, beq_iff_eq, decide_eq_true_eq]
    exact UInt8.toNat_inj (b := 255)
  simp only [hsentinel, decide_eq_true_eq]
  exact ⟨rfl, rfl, rfl⟩

/-- A lane of a masked register of finite values is finite under the mask. -/
theorem isSome_maskMov {α : Type} (mask : Lanes16 Bool) (a : Lanes16 α) (lane : Fin 16) :
    (maskMov (set1 none) mask (fun lane => some (a lane)) lane).isSome = mask lane := by
  unfold maskMov set1
  cases mask lane <;> rfl

variable [LinearOrder F]

/-- The mask of the uncertainties, where nothing but an overflow is infinite. -/
theorem masked_uncertainty (hfinite : ∀ value, numerics.isFinite value = true) {uncertainty : F}
    (h : 0 ≤ uncertainty) (overflow : Bool) :
    (if (numerics.isFinite uncertainty && decide (0 ≤ uncertainty) && !overflow) = true then
      some uncertainty else none) = if overflow = true then none else some uncertainty := by
  cases overflow <;> simp [hfinite, h]

/-- The mask says which uncertainties are finite. -/
theorem metricValues16_finiteUncertainty (packedMetadata : Bytes) (dots : BlockDots F)
    (tile laneBase : ℕ) (lane : Fin 16) :
    (metricValues16 numerics quantizer query packedMetadata dots tile laneBase).finiteUncertainty
        lane =
      ((metricValues16 numerics quantizer query packedMetadata dots tile laneBase).row
        lane).uncertainty.isSome :=
  (isSome_maskMov _ _ lane).symm

variable [IsStrictOrderedRing F]

theorem byteValue_nonneg (byte : UInt8) : 0 ≤ (byteValue byte : F) := Nat.cast_nonneg _

theorem decodeMetadata_nonneg (hmax : 0 ≤ quantizer.normMax) (hstep : 0 ≤ quantizer.normStep)
    (metadata : Metadata) :
    0 ≤ (quantizer.decodeMetadata metadata).norm ∧
      0 ≤ (quantizer.decodeMetadata metadata).directionError := by
  constructor
  · unfold RecastQuantizer.decodeMetadata
    dsimp only
    split
    · exact hmax
    · exact mul_nonneg (byteValue_nonneg _) hstep
  · exact mul_nonneg (byteValue_nonneg _) (div_nonneg (Nat.cast_nonneg _) (Nat.cast_nonneg _))

/-- A lane holds the row of the portable code. -/
theorem metricValues16_row (hfinite : ∀ value, numerics.isFinite value = true)
    (hmax : 0 ≤ quantizer.normMax) (hstep : 0 ≤ quantizer.normStep) (hnorm : 0 ≤ query.queryNorm)
    (hsqrt : 0 ≤ numerics.sqrt ((quantizer.config.dimension : ℕ) : F))
    (packedMetadata : Bytes) (dots : BlockDots F) (tile laneBase : ℕ) {lane : Fin 16}
    (hlane : laneBase + lane < kUpdateBlockSize) :
    (metricValues16 numerics quantizer query packedMetadata dots tile laneBase).row lane =
      postprocessRow numerics quantizer query
        (Metadata.load packedMetadata (tile * kUpdateBlockSize + laneBase + lane))
        (dots.row (tile * kUpdateBlockSize + laneBase + lane)) := by
  obtain ⟨hloadNorm, hloadScale, hloadError⟩ := loadu_metadata packedMetadata tile laneBase hlane
  have hdot := dots.lanes_apply (tile * kUpdateBlockSize + laneBase) lane
  generalize Metadata.load packedMetadata (tile * kUpdateBlockSize + laneBase + lane) =
    metadata at hloadNorm hloadScale hloadError
  generalize dots.row (tile * kUpdateBlockSize + laneBase + lane) = dot at hdot
  obtain ⟨hnorms, hscales, hoverflow⟩ := decode_lane quantizer metadata
  have herrors : ((metadata.error.toNat : ℕ) : F) * (((2 : ℕ) : F) / ((255 : ℕ) : F)) =
      (quantizer.decodeMetadata metadata).directionError := rfl
  obtain ⟨hdecodedNorm, hdecodedError⟩ := decodeMetadata_nonneg hmax hstep metadata
  have hinverse : 0 ≤ 1 / numerics.sqrt ((quantizer.config.dimension : ℕ) : F) :=
    one_div_nonneg.mpr hsqrt
  have htwo : (0 : F) ≤ ((2 : ℕ) : F) := Nat.cast_nonneg 2
  unfold metricValues16 computeMetricValues16Avx512 postprocessRow
  generalize 1 / numerics.sqrt ((quantizer.config.dimension : ℕ) : F) = inverse at hinverse
  generalize quantizer.decodeMetadata metadata = decoded at *
  have hboth (h : quantizer.config.metric ≠ .cosine) :
      decoded.overflow = (metadata.scale.toNat == 255 || metadata.norm.toNat == 255) := by
    rw [hoverflow, decide_eq_true h, Bool.true_and]
  have hscale (h : quantizer.config.metric = .cosine) :
      decoded.overflow = (metadata.scale.toNat == 255) := by
    rw [hoverflow, decide_eq_false (not_not.mpr h), Bool.false_and, Bool.or_false]
  -- the products are the same in another order
  cases hmetric : quantizer.config.metric with
  | squaredL2 =>
      have huncertainty : decoded.norm * decoded.directionError *
          (((2 : ℕ) : F) * query.queryNorm * inverse) =
          ((2 : ℕ) : F) * decoded.norm * query.queryNorm * decoded.directionError * inverse := by
        ring
      have hnonneg := mul_nonneg (mul_nonneg hdecodedNorm hdecodedError)
        (mul_nonneg (mul_nonneg htwo hnorm) hinverse)
      simp only [MetricValues16.row, RecastQuantizer.metadataDecodeParameters, maskMov, mul, add, sub,
        set1, cvtepi32Ps, cvtepu8Epi32, cmpeqEpi32Mask, hloadNorm, hloadScale, hloadError, hdot,
        hnorms, hscales, herrors, scalarMetricValues]
      rw [masked_uncertainty hfinite hnonneg, huncertainty, ← mul_assoc, Bool.or_comm,
        ← hboth (by simp [hmetric])]
      rfl
  | innerProduct =>
      have huncertainty : decoded.norm * decoded.directionError * (query.queryNorm * inverse) =
          decoded.norm * query.queryNorm * decoded.directionError * inverse := by
        ring
      have hnonneg := mul_nonneg (mul_nonneg hdecodedNorm hdecodedError)
        (mul_nonneg hnorm hinverse)
      simp only [MetricValues16.row, RecastQuantizer.metadataDecodeParameters, maskMov, mul, add, sub,
        set1, cvtepi32Ps, cvtepu8Epi32, cmpeqEpi32Mask, hloadNorm, hloadScale, hloadError, hdot,
        hnorms, hscales, herrors, scalarMetricValues]
      rw [masked_uncertainty hfinite hnonneg, huncertainty, zero_sub, Bool.or_comm,
        ← hboth (by simp [hmetric])]
      rfl
  | cosine =>
      have hnonneg := mul_nonneg hdecodedError hinverse
      simp only [MetricValues16.row, RecastQuantizer.metadataDecodeParameters, maskMov, mul, sub, set1,
        cvtepi32Ps, cvtepu8Epi32, cmpeqEpi32Mask, hloadScale, hloadError, hdot, hscales, herrors,
        scalarMetricValues]
      rw [masked_uncertainty hfinite hnonneg, ← hscale hmetric]
      rfl

end Lane

end

end Recast
