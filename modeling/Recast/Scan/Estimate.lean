import Recast.Model.Quantizer
import Recast.Postings.Packing

/-!
# Decoding and the scan estimate

The two readings of an encoded vector: `decode` restores the vector,
`prepare_query` and the scalar scan estimate its distance to a query from the
lookup table and the metadata.
-/

namespace Recast

section

variable {F K : Type}
variable [Zero F] [One F] [Add F] [Sub F] [Mul F] [Div F] [Neg F] [NatCast F]
variable [LT F] [DecidableLT F] [LE F] [DecidableLE F]

/-- The outputs of `decode_metadata`. -/
structure DecodedMetadata (F : Type) where
  norm : F
  scale : F
  directionError : F
  overflow : Bool

/-- The number of a byte. -/
def byteValue (byte : UInt8) : F := ((byte.toNat : Nat) : F)

/-- `decode_metadata`: the sentinel 255 of norm and scale stands for the maximum. -/
def RecastQuantizer.decodeMetadata (quantizer : RecastQuantizer F K) (metadata : Metadata) :
    DecodedMetadata F where
  norm := if metadata.norm = 255 then quantizer.normMax
    else byteValue metadata.norm * quantizer.normStep
  scale := if metadata.scale = 255 then quantizer.scaleMax
    else byteValue metadata.scale * quantizer.scaleStep
  directionError := byteValue metadata.error * (((2 : Nat) : F) / ((255 : Nat) : F))
  overflow := metadata.scale = 255 ||
    (quantizer.config.metric ≠ .cosine && metadata.norm = 255)

/-- `decode`, for one row. -/
def RecastQuantizer.decode (faiss : Faiss F) (quantizer : RecastQuantizer F K)
    (code : List UInt8) (metadata : Metadata) : List F :=
  let decoded := quantizer.decodeMetadata metadata
  let reconstructionScale :=
    if quantizer.config.metric = .cosine then decoded.norm * decoded.scale else decoded.scale
  let transformed := (quantizer.direction.decode faiss code).map (· * reconstructionScale)
  (quantizer.inverseTransform faiss transformed).zipWith (· + ·) quantizer.mean

/-- `QueryContext`. -/
structure QueryContext (F : Type) where
  centeredQuery : List F
  transformedQuery : List F
  dotLut : List F
  queryNorm : F
  queryNormSquared : F
  meanDotQuery : F

/-- The part of `prepare_query` that depends on the metric: the centered query,
its norm and the square of it. -/
def RecastQuantizer.centerQuery (numerics : Numerics F K) (faiss : Faiss F)
    (quantizer : RecastQuantizer F K) (query : List F) : Except ModelError (List F × F × F) :=
  match quantizer.config.metric with
  | .cosine =>
      let (unit, norm) := normalize numerics faiss query
      if norm ≤ numerics.kMinNorm then
        .error (.invalidArgument "cosine query must have nonzero norm")
      else .ok (unit, 1, 1)
  | .squaredL2 =>
      let centered := center quantizer.mean query
      let squared := faiss.normL2Sqr centered
      .ok (centered, numerics.sqrt squared, squared)
  | .innerProduct =>
      let squared := faiss.normL2Sqr query
      .ok (query, numerics.sqrt squared, squared)

/-- `prepare_query`. -/
def RecastQuantizer.prepareQuery (numerics : Numerics F K) (faiss : Faiss F)
    (quantizer : RecastQuantizer F K) (query : List F) : Except ModelError (QueryContext F) :=
  if quantizer.trained = false then
    .error (.invalidArgument "invalid query or untrained quantizer")
  else do
    let (centered, norm, squared) ← quantizer.centerQuery numerics faiss query
    let transformed := quantizer.transform faiss centered
    .ok {
      centeredQuery := centered
      transformedQuery := transformed
      dotLut := quantizer.direction.dotLut faiss transformed
      queryNorm := norm
      queryNormSquared := squared
      meanDotQuery :=
        if quantizer.config.metric = .innerProduct ∧ quantizer.config.centering = .mean then
          faiss.innerProduct query quantizer.mean
        else 0 }

/-- One row of `accumulate_exact_pq4_lut_scalar`. -/
def accumulateExactPq4Lut (layout : CodeLayout) (packedCodes : Bytes) (lut : List F)
    (row : Nat) : F :=
  (List.range layout.subquantizers).foldl
    (fun sum m => sum + lut.getD (m * 16 + (layout.getPackedElement packedCodes row m).toNat) 0) 0

/-- `scalar_metric_values`: the estimate, and the uncertainty unless the
metadata overflowed. -/
def scalarMetricValues (metric : DistanceMetric) (query : QueryContext F)
    (inverseSqrtDimension : F) (decoded : DecodedMetadata F) (dot : F) : F × Option F :=
  let two : F := ((2 : Nat) : F)
  match metric with
  | .squaredL2 =>
      (query.queryNormSquared + decoded.norm * decoded.norm - two * decoded.scale * dot,
        if decoded.overflow then none
        else some (two * decoded.norm * query.queryNorm * decoded.directionError *
          inverseSqrtDimension))
  | .innerProduct =>
      (-(query.meanDotQuery + decoded.scale * dot),
        if decoded.overflow then none
        else some (decoded.norm * query.queryNorm * decoded.directionError * inverseSqrtDimension))
  | .cosine =>
      (1 - decoded.scale * dot,
        if decoded.overflow then none else some (decoded.directionError * inverseSqrtDimension))

/-- What a scan emits for a row; `none` is infinity. -/
structure PostprocessedRow (F : Type) where
  estimatedDistance : Option F
  uncertainty : Option F

/-- One lane of `postprocess_block_scalar` over exact dot products. -/
def postprocessRow (numerics : Numerics F K) (quantizer : RecastQuantizer F K)
    (query : QueryContext F) (metadata : Metadata) (dot : F) : PostprocessedRow F :=
  let inverseSqrtDimension := 1 / numerics.sqrt ((quantizer.config.dimension : Nat) : F)
  let (estimate, uncertainty) := scalarMetricValues quantizer.config.metric query
    inverseSqrtDimension (quantizer.decodeMetadata metadata) dot
  ⟨if numerics.isFinite estimate then some estimate else none, uncertainty⟩

/-- The scalar scan of a list in exact-float mode, row by row. -/
def scanExact (numerics : Numerics F K) (quantizer : RecastQuantizer F K) (query : QueryContext F)
    (layout : CodeLayout) (packedCodes packedMetadata : Bytes) (size : Nat) :
    List (PostprocessedRow F) :=
  (List.range size).map fun row =>
    postprocessRow numerics quantizer query (Metadata.load packedMetadata row)
      (accumulateExactPq4Lut layout packedCodes query.dotLut row)

end

end Recast
