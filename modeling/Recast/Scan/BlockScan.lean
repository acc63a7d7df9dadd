import Recast.Foundation.Simd
import Recast.Postings.MemoryListLaws
import Recast.Scan.SelectionSpec
import Recast.Scan.Estimate
import Recast.Model.Machine

/-!
# Scanning lists

`RecastFastScanner` on the portable path, over machine floats: the dot products
of a block, its tiles of 32 rows, and the two scans that consume them.
-/

namespace Recast

open Foundation

/-- `LutMode`. -/
inductive LutMode where
  | auto
  | exactFloat
  | quantizedUint8
  | scalarFloat
  deriving DecidableEq, Repr

/-- `CodeBlockView`; a null pointer is `none`. -/
structure CodeBlockView where
  packedCodes : Option Bytes
  packedMetadata : Option Bytes
  ids : Option (List UInt32)
  size : Nat
  paddedSize : Nat
  blockSize : Nat
  implicitIdBase : UInt32

/-- The ID of a row. -/
def CodeBlockView.idAt (block : CodeBlockView) (row : Nat) : UInt32 :=
  match block.ids with
  | none => block.implicitIdBase + UInt32.ofNat row
  | some ids => ids.getD row 0

/-- The IDs of the rows of a block. -/
def CodeBlockView.rowIds (block : CodeBlockView) : List ℕ :=
  (List.range block.size).map fun row => (block.idAt row).toNat

/-- `faiss::quantize_lut::quantize_LUT_and_bias` and `faiss::pq4_accumulate_loop`. -/
structure FaissScan where
  /-- The byte table, the scale and the bias of a table of `M` rows. -/
  quantizeLutAndBias : Nat → List Float32 → List UInt8 × Float32 × Float32
  /-- The accumulators of `padded_size` rows. -/
  pq4AccumulateLoop : Nat → Nat → Bytes → List UInt8 → List UInt16

/-- `RecastFastScanner`, bound to a trained quantizer. -/
structure RecastFastScanner where
  quantizer : RecastQuantizer Float32 Float
  trained : quantizer.trained = true
  layout : CodeLayout
  layout_eq : layout.subquantizers = quantizer.config.subquantizers

namespace RecastFastScanner

variable (scanner : RecastFastScanner) (faiss : FaissScan)

/-- `std::minmax_element`: the first least and the last greatest value. -/
def minmaxElement (first : Float32) (rest : List Float32) : Float32 × Float32 :=
  rest.foldl (fun found value =>
    (if value < found.1 then value else found.1, if value < found.2 then found.2 else value))
    (first, first)

/-- The widest span of the rows of a table, and the sum of their least values. -/
def lutSpans (lut : List Float32) (subquantizers : Nat) : Float32 × Float32 :=
  (List.range subquantizers).foldl (fun found m =>
    let row := (lut.drop (m * 16)).take 16
    let bounds := minmaxElement (row.headD 0) row.tail
    let span := bounds.2 - bounds.1
    (if found.1 < span then span else found.1, found.2 + bounds.1)) (0, 0)

/-- `quantize_lut`: the byte table, the scale and the bias. -/
def quantizeLut (lut : List Float32) (subquantizers : Nat) :
    Except Error (List UInt8 × Float32 × Float32) :=
  let spans := lutSpans lut subquantizers
  if spans.1 ≤ 1e-20 then .ok (List.replicate (subquantizers * 16) 0, 1, spans.2) else
  let quantized := faiss.quantizeLutAndBias subquantizers lut
  if quantized.2.1.isFinite = false ∨ quantized.2.1 ≤ 0 then
    .error (.runtime "Faiss produced an invalid PQ4 LUT scale")
  else .ok quantized

/-- `choose_mode` without AVX-512. -/
def chooseMode : LutMode → LutMode
  | .auto => .quantizedUint8
  | mode => mode

/-- The dot products of the rows of a block. A table of no elements has no
pointer, which the scalar kernel refuses. -/
def blockDots (mode : LutMode) (query : QueryContext Float32) (block : CodeBlockView)
    (packedCodes : Bytes) : Except Error (Nat → Float32) :=
  let subquantizers := scanner.layout.subquantizers
  match chooseMode mode with
  | .auto | .quantizedUint8 => do
      let (values, scale, bias) ← quantizeLut faiss query.dotLut subquantizers
      let accumulated := faiss.pq4AccumulateLoop block.paddedSize subquantizers packedCodes values
      return fun row =>
        bias + Float32.ofNat (accumulated.getD row 0).toNat * (1 / scale)
  | .exactFloat | .scalarFloat =>
      if block.paddedSize = 0 ∨ query.dotLut = [] then
        .error (.invalidArgument "invalid scalar PQ4 kernel arguments")
      else .ok (accumulateExactPq4Lut scanner.layout packedCodes query.dotLut)

/-- One row of `postprocess_block_scalar`. -/
def scanRow (query : QueryContext Float32) (block : CodeBlockView) (packedMetadata : Bytes)
    (dots : Nat → Float32) (row : Nat) : DistanceEstimate Float32 :=
  let values := postprocessRow machineNumerics scanner.quantizer query
    (Metadata.load packedMetadata row) (dots row)
  ⟨(block.idAt row).toNat, values.estimatedDistance.getD Ieee.infinity,
    values.uncertainty.getD Ieee.infinity⟩

/-- `scan_block_metric`: the rows of a block, tile by tile. -/
def scanBlock (mode : LutMode) (query : QueryContext Float32) (block : CodeBlockView) :
    Except Error (List (List (DistanceEstimate Float32))) :=
  match block.packedCodes, block.packedMetadata with
  | some packedCodes, some packedMetadata =>
      if block.paddedSize < block.size ∨ block.blockSize ≠ kUpdateBlockSize ∨
          block.paddedSize % block.blockSize ≠ 0 ∨
          query.dotLut.length ≠ scanner.layout.subquantizers * 16 then
        .error (.invalidArgument "invalid Recast code block or query context")
      else do
        let dots ← scanner.blockDots faiss mode query block packedCodes
        return (List.range (roundUpBlock block.size / kUpdateBlockSize)).map fun tile =>
          let offset := tile * kUpdateBlockSize
          (List.range (min kUpdateBlockSize (block.size - offset))).map fun lane =>
            scanner.scanRow query block packedMetadata dots (offset + lane)
  | _, _ => .error (.invalidArgument "invalid Recast code block or query context")

/-- `scan_all`. -/
def scanAll (mode : LutMode) (query : QueryContext Float32) (block : CodeBlockView) :
    Except Error (List (DistanceEstimate Float32)) := do
  let tiles ← scanner.scanBlock faiss mode query block
  return tiles.flatten

/-- The tiles of one block go to the collector. -/
def collectBlock (mode : LutMode) (query : QueryContext Float32) (zScore : Float32)
    (accumulator : FusedIntervalAccumulator Float32) (block : CodeBlockView) :
    Except Error (FusedIntervalAccumulator Float32) := do
  let tiles ← scanner.scanBlock faiss mode query block
  let collected := tiles.foldl (fun accumulator tile =>
    accumulator.addScalarBlock (tile.map fun row => (row, row.upper zScore))) accumulator
  match collected.failure with
  | some error => .error error
  | none => .ok collected

/-- `scan_interval_candidates`. -/
def scanIntervalCandidates (mode : LutMode) (query : QueryContext Float32)
    (blocks : List CodeBlockView) (topk : Nat) (zScore : Float32) (maxCandidates : Nat) :
    Except Error (SelectionResult Float32) := do
  let accumulator ← FusedIntervalAccumulator.create false topk zScore maxCandidates
  let accumulator ← blocks.foldlM (scanner.collectBlock faiss mode query zScore) accumulator
  accumulator.finish

/-! ### What a scan consumes -/

section Rows

variable {scanner faiss} {mode : LutMode} {query : QueryContext Float32} {block : CodeBlockView}
  {tiles : List (List (DistanceEstimate Float32))}

theorem not_isNaN_of_isFinite {x : Float32} (h : x.isFinite = true) : x.isNaN = false := by
  change x.toModel.unpack.isFinite = true at h
  change x.toModel.unpack.isNaN = false
  cases hunpacked : x.toModel.unpack with
  | notANumber =>
      rw [hunpacked] at h
      cases h
  | _ => rfl

/-- An estimate is a number or infinite. -/
theorem scanRow_valid (packedMetadata : Bytes) (dots : Nat → Float32) (row : Nat) :
    (scanner.scanRow query block packedMetadata dots row).estimatedDistance.isNaN = false := by
  rw [scanRow, postprocessRow]
  dsimp only
  split
  next hfinite => exact not_isNaN_of_isFinite hfinite
  next => exact float32_numbers.infinity

/-- The rows of a block, tile by tile, are its rows in order. -/
theorem scanBlock_rows (h : scanner.scanBlock faiss mode query block = .ok tiles) :
    ∃ packedMetadata dots, tiles.flatten =
      (List.range block.size).map (scanner.scanRow query block packedMetadata dots) := by
  unfold scanBlock at h
  split at h
  next packedCodes packedMetadata _ _ =>
    split at h
    next => cases h
    next =>
      obtain ⟨dots, -, h⟩ := bind_eq_ok.mp h
      rw [pure_eq_ok, Except.ok.injEq] at h
      refine ⟨packedMetadata, dots, ?_⟩
      rw [← h, ← List.flatMap_def, flatMap_range_tiles, kUpdateBlockSize, ← roundUpBlock_blocks,
        Nat.min_eq_left (le_roundUpBlock block.size)]
  next => cases h

theorem scanBlock_ids (h : scanner.scanBlock faiss mode query block = .ok tiles) :
    tiles.flatten.map DistanceEstimate.id = block.rowIds := by
  obtain ⟨packedMetadata, dots, hrows⟩ := scanBlock_rows h
  rw [hrows, List.map_map]
  rfl

theorem scanBlock_valid (h : scanner.scanBlock faiss mode query block = .ok tiles) :
    ∀ row ∈ tiles.flatten, row.estimatedDistance.isNaN = false := by
  obtain ⟨packedMetadata, dots, hrows⟩ := scanBlock_rows h
  rw [hrows, List.forall_mem_map]
  exact fun row _ => scanRow_valid packedMetadata dots row

/-- The rows `scan_all` returns. -/
theorem scanAll_eq_ok {rows : List (DistanceEstimate Float32)} :
    scanner.scanAll faiss mode query block = .ok rows ↔
      ∃ tiles, scanner.scanBlock faiss mode query block = .ok tiles ∧ rows = tiles.flatten := by
  rw [scanAll, bind_eq_ok]
  simp only [pure_eq_ok, Except.ok.injEq, eq_comm]

end Rows

end RecastFastScanner

end Recast
