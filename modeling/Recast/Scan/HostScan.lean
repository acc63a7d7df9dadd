import Recast.Scan.BlockScan
import Recast.Scan.ExactKernel
import Recast.Scan.PostprocessAvx512

/-!
# Scanning with and without AVX-512

`scan_block_metric` on either kind of host: the kernel it dispatches to, the tiles
it emits, and how the collector takes them in.
-/

namespace Recast

open Foundation

/-- A host of a scan and its arithmetic. The floats of the collector are the
numbers and their infinities. -/
structure ScanHost (F K E : Type) where
  /-- `exact_pq4_avx512_supported`. -/
  avx512 : Bool
  numerics : Numerics F K
  float : F → E
  /-- `quantize_lut` and `faiss::pq4_accumulate_loop`: the accumulators, the scale
  and the bias of a padded block. -/
  accumulateQuantized : CodeLayout → List F → ℕ → Bytes → Except Error (List UInt16 × F × F)

/-- A block with lanes that passes the checks of `scan_block_metric`. -/
structure CodeBlockView.Checked {F : Type} (block : CodeBlockView)
    (layout : CodeLayout) (query : QueryContext F) (packedCodes packedMetadata : Bytes) : Prop where
  codes : block.packedCodes = some packedCodes
  metadata : block.packedMetadata = some packedMetadata
  size : block.size ≤ block.paddedSize
  lanes : block.paddedSize ≠ 0
  blockSize : block.blockSize = kUpdateBlockSize
  padded : block.paddedSize % kUpdateBlockSize = 0
  lut : query.dotLut.length = layout.subquantizers * 16

namespace ScanHost

section

variable {F K E : Type}
variable [Zero F] [One F] [Add F] [Mul F] [Div F] [NatCast F]
variable (host : ScanHost F K E) (quantizer : RecastQuantizer F K) (layout : CodeLayout)

/-- The same arithmetic with or without the instructions. -/
def withAvx512 (avx512 : Bool) : ScanHost F K E := { host with avx512 }

/-- `choose_mode`. -/
def chooseMode : LutMode → LutMode
  | .auto => if host.avx512 then .exactFloat else .quantizedUint8
  | mode => mode

/-- The portable kernel. The pointers of empty tables are null. -/
def scalarDots (query : QueryContext F) (block : CodeBlockView) (packedCodes : Bytes) :
    Except Error (BlockDots F) :=
  if block.paddedSize = 0 ∨ query.dotLut = [] then
    .error (.invalidArgument "invalid scalar PQ4 kernel arguments")
  else .ok (.exact ((List.range block.paddedSize).map fun row =>
    if row < block.size then accumulateExactPq4Lut layout packedCodes query.dotLut row else 0))

/-- The AVX-512 kernel. -/
def avx512Dots (query : QueryContext F) (block : CodeBlockView) (packedCodes : Bytes) :
    Except Error (BlockDots F) :=
  if block.paddedSize = 0 ∨ query.dotLut = [] then
    .error (.invalidArgument "invalid exact-float PQ4 kernel arguments")
  else
    .ok (.exact (accumulateExactPq4LutAvx512Impl layout block.paddedSize packedCodes query.dotLut))

/-- The dot products of a block. -/
def blockDots (mode : LutMode) (query : QueryContext F) (block : CodeBlockView)
    (packedCodes : Bytes) : Except Error (BlockDots F) :=
  match host.chooseMode mode with
  | .auto | .quantizedUint8 => do
      let (accumulators, scale, bias) ←
        host.accumulateQuantized layout query.dotLut block.paddedSize packedCodes
      return .quantized accumulators (1 / scale) bias
  | .exactFloat =>
      if host.avx512 then avx512Dots layout query block packedCodes
      else scalarDots layout query block packedCodes
  | .scalarFloat => scalarDots layout query block packedCodes

/-- The checks and the kernel of `scan_block_metric`: the metadata and the dot
products of a block. -/
def openBlock (mode : LutMode) (query : QueryContext F) (block : CodeBlockView) :
    Except Error (Bytes × BlockDots F) :=
  match block.packedCodes, block.packedMetadata with
  | some packedCodes, some packedMetadata =>
      if block.paddedSize < block.size ∨ block.blockSize ≠ kUpdateBlockSize ∨
          block.paddedSize % block.blockSize ≠ 0 ∨
          query.dotLut.length ≠ layout.subquantizers * 16 then
        .error (.invalidArgument "invalid Recast code block or query context")
      else do
        let dots ← host.blockDots layout mode query block packedCodes
        return (packedMetadata, dots)
  | _, _ => .error (.invalidArgument "invalid Recast code block or query context")

/-- A checked block opens with the dot products of the portable kernel. -/
theorem openBlock_scalar {host : ScanHost F K E} {layout : CodeLayout} {query : QueryContext F}
    {block : CodeBlockView} {packedCodes packedMetadata : Bytes} (havx512 : host.avx512 = false)
    {mode : LutMode} (hmode : mode = .exactFloat ∨ mode = .scalarFloat)
    (h : block.Checked layout query packedCodes packedMetadata) :
    ∃ dots, host.openBlock layout mode query block = .ok (packedMetadata, dots) ∧
      ∀ row < block.size,
        dots.row row = accumulateExactPq4Lut layout packedCodes query.dotLut row := by
  have hlut : query.dotLut ≠ [] := by
    intro hempty
    have hlength := h.lut
    have hpositive := layout.subquantizers_pos
    rw [hempty, List.length_nil] at hlength
    omega
  have hdots : host.blockDots layout mode query block packedCodes =
      scalarDots layout query block packedCodes := by
    rcases hmode with rfl | rfl
    · simp [blockDots, chooseMode, havx512]
    · rfl
  refine ⟨.exact ((List.range block.paddedSize).map fun row =>
    if row < block.size then accumulateExactPq4Lut layout packedCodes query.dotLut row else 0),
    ?_, fun row hrow => ?_⟩
  · rw [openBlock, h.codes, h.metadata]
    dsimp only
    rw [if_neg (by simp [h.size, h.blockSize, h.padded, h.lut]), hdots, scalarDots,
      if_neg (by simp [h.lanes, hlut])]
    rfl
  · rw [BlockDots.row, List.getD_eq_getElem?_getD, List.getElem?_map,
      List.getElem?_range (hrow.trans_le h.size), Option.map_some, Option.getD_some, if_pos hrow]

variable [Sub F] [Neg F] [LE F] [DecidableLE F] [Ieee E]

/-- `logical_count` of a tile. -/
def logicalCount (block : CodeBlockView) (tile : ℕ) : ℕ :=
  min kUpdateBlockSize (block.size - tile * kUpdateBlockSize)

/-- The tiles of a block. -/
def tiles (block : CodeBlockView) : List ℕ :=
  List.range (roundUpBlock block.size / kUpdateBlockSize)

/-- One tile of `emit_postprocessed_blocks`, without intervals. -/
def emitTile (query : QueryContext F) (block : CodeBlockView) (packedMetadata : Bytes)
    (dots : BlockDots F) (tile : ℕ) : List (PostprocessedRow F) :=
  if host.avx512 then
    let postprocess16 (laneBase : ℕ) : List (PostprocessedRow F) :=
      List.ofFn (metricValues16 host.numerics quantizer query packedMetadata dots tile laneBase).row
    (postprocess16 0 ++ postprocess16 16).take (logicalCount block tile)
  else
    (List.range (logicalCount block tile)).map fun lane =>
      let row := tile * kUpdateBlockSize + lane
      postprocessRow host.numerics quantizer query (Metadata.load packedMetadata row) (dots.row row)

/-- A row as the consumers of a scan take it. -/
def estimate (block : CodeBlockView) (row : ℕ) (values : PostprocessedRow F) :
    DistanceEstimate E :=
  ⟨(block.idAt row).toNat, (values.estimatedDistance.map host.float).getD Ieee.infinity,
    (values.uncertainty.map host.float).getD Ieee.infinity⟩

/-- `scan_all`. -/
def scanAll (mode : LutMode) (query : QueryContext F) (block : CodeBlockView) :
    Except Error (List (DistanceEstimate E)) := do
  let (packedMetadata, dots) ← host.openBlock layout mode query block
  return (tiles block).flatMap fun tile =>
    (host.emitTile quantizer query block packedMetadata dots tile).mapIdx fun lane values =>
      host.estimate block (tile * kUpdateBlockSize + lane) values

/-- The first `count` rows of a register of sixteen with their upper endpoints, as
`emit_selected_blocks_avx512` forms them. -/
def batch (block : CodeBlockView) (row : ℕ) (values : MetricValues16 F) (zScore : E) (count : ℕ) :
    List (DistanceEstimate E × E) :=
  (List.ofFn fun lane : Fin 16 =>
    let estimate := host.estimate block (row + lane) (values.row lane)
    (estimate,
      if Ieee.beq zScore Ieee.zero then estimate.estimatedDistance
      else if values.finiteUncertainty lane then
        Ieee.add estimate.estimatedDistance (Ieee.mul estimate.uncertainty zScore)
      else Ieee.infinity)).take count

/-- One tile of `emit_selection_blocks`. -/
def collectTile (query : QueryContext F) (block : CodeBlockView) (packedMetadata : Bytes)
    (dots : BlockDots F) (zScore : E) (accumulator : FusedIntervalAccumulator E) (tile : ℕ) :
    FusedIntervalAccumulator E :=
  let offset := tile * kUpdateBlockSize
  let count := logicalCount block tile
  if host.avx512 then
    let first := metricValues16 host.numerics quantizer query packedMetadata dots tile 0
    let accumulator := accumulator.add16Avx512 (host.batch block offset first zScore (min 16 count))
    if 16 < count then
      let second := metricValues16 host.numerics quantizer query packedMetadata dots tile 16
      accumulator.add16Avx512 (host.batch block (offset + 16) second zScore (count - 16))
    else accumulator
  else
    accumulator.addScalarBlock
      ((host.emitTile quantizer query block packedMetadata dots tile).mapIdx fun lane values =>
        let estimate := host.estimate block (offset + lane) values
        (estimate, estimate.upper zScore))

/-- One block of the interval scan. -/
def collectBlock (mode : LutMode) (query : QueryContext F) (zScore : E)
    (accumulator : FusedIntervalAccumulator E) (block : CodeBlockView) :
    Except Error (FusedIntervalAccumulator E) := do
  let (packedMetadata, dots) ← host.openBlock layout mode query block
  let collected := (tiles block).foldl
    (host.collectTile quantizer query block packedMetadata dots zScore) accumulator
  match collected.failure with
  | some error => .error error
  | none => .ok collected

/-- `scan_interval_candidates`. -/
def scanIntervalCandidates (mode : LutMode) (query : QueryContext F) (blocks : List CodeBlockView)
    (topk : ℕ) (zScore : E) (maxCandidates : ℕ) : Except Error (SelectionResult E) := do
  let accumulator ← FusedIntervalAccumulator.create host.avx512 topk zScore maxCandidates
  let accumulator ← blocks.foldlM (host.collectBlock quantizer layout mode query zScore) accumulator
  accumulator.finish

/-! ### The portable tiles, row by row -/

theorem mapIdx_map_range {α β : Type} (f : ℕ → α) (g : ℕ → α → β) (count : ℕ) :
    ((List.range count).map f).mapIdx g = (List.range count).map fun i => g i (f i) := by
  apply List.ext_getElem
  · simp
  · intro i hi hi'
    simp

variable {host quantizer layout} {query : QueryContext F} {block : CodeBlockView}
  {packedCodes packedMetadata : Bytes}

/-- The tiles of the portable scan are the rows of `scanExact`. -/
theorem scanAll_scanExact (havx512 : host.avx512 = false) {mode : LutMode}
    (hmode : mode = .exactFloat ∨ mode = .scalarFloat)
    (h : block.Checked layout query packedCodes packedMetadata) :
    host.scanAll quantizer layout mode query block =
      .ok ((scanExact host.numerics quantizer query layout packedCodes packedMetadata
        block.size).mapIdx (host.estimate block)) := by
  obtain ⟨dots, hopen, hrows⟩ := openBlock_scalar havx512 hmode h
  have htile (tile : ℕ) : (host.emitTile quantizer query block packedMetadata dots tile).mapIdx
          (fun lane values => host.estimate block (tile * kUpdateBlockSize + lane) values) =
      (List.range (logicalCount block tile)).map fun lane =>
        host.estimate block (tile * kUpdateBlockSize + lane)
          (postprocessRow host.numerics quantizer query
            (Metadata.load packedMetadata (tile * kUpdateBlockSize + lane))
            (accumulateExactPq4Lut layout packedCodes query.dotLut
              (tile * kUpdateBlockSize + lane))) := by
    unfold emitTile
    rw [if_neg (by simp [havx512]), mapIdx_map_range]
    apply List.map_congr_left
    intro lane hlane
    have hlane := List.mem_range.mp hlane
    unfold logicalCount at hlane
    dsimp only
    rw [hrows _ (by omega)]
  unfold scanAll
  rw [hopen, ok_bind]
  dsimp only
  simp only [htile, pure_eq_ok]
  unfold logicalCount tiles scanExact
  rw [flatMap_range_tiles (fun row => host.estimate block row
    (postprocessRow host.numerics quantizer query (Metadata.load packedMetadata row)
      (accumulateExactPq4Lut layout packedCodes query.dotLut row))), kUpdateBlockSize,
    ← roundUpBlock_blocks, Nat.min_eq_left (le_roundUpBlock block.size), mapIdx_map_range]

end

/-! ### The portable host over machine floats -/

/-- The machine without AVX-512. -/
def portable (faiss : FaissScan) : ScanHost Float32 Float Float32 where
  avx512 := false
  numerics := machineNumerics
  float := id
  accumulateQuantized := fun layout lut paddedSize packedCodes => do
    let (values, scale, bias) ← RecastFastScanner.quantizeLut faiss lut layout.subquantizers
    return (faiss.pq4AccumulateLoop paddedSize layout.subquantizers packedCodes values, scale, bias)

variable {scanner : RecastFastScanner} {faiss : FaissScan} {mode : LutMode}
  {query : QueryContext Float32} {block : CodeBlockView}

/-- The dot products of the rows are those of the scanner. -/
theorem portable_blockDots (hsize : block.size ≤ block.paddedSize) (packedCodes : Bytes) :
    ((portable faiss).blockDots scanner.layout mode query block packedCodes).map
        (fun dots => (List.range block.size).map dots.row) =
      (scanner.blockDots faiss mode query block packedCodes).map
        fun dots => (List.range block.size).map dots := by
  have hmode : (portable faiss).chooseMode mode = RecastFastScanner.chooseMode mode := by
    cases mode <;> rfl
  have hscalar : (scalarDots scanner.layout query block packedCodes).map
        (fun dots => (List.range block.size).map dots.row) =
      (if block.paddedSize = 0 ∨ query.dotLut = [] then
        .error (.invalidArgument "invalid scalar PQ4 kernel arguments")
      else .ok (accumulateExactPq4Lut scanner.layout packedCodes query.dotLut) :
        Except Error (ℕ → Float32)).map fun dots => (List.range block.size).map dots := by
    unfold scalarDots
    split
    · rfl
    · refine congrArg Except.ok (List.map_congr_left fun row hrow => ?_)
      have hrow := List.mem_range.mp hrow
      rw [BlockDots.row, List.getD_eq_getElem?_getD, List.getElem?_map,
        List.getElem?_range (hrow.trans_le hsize), Option.map_some, Option.getD_some, if_pos hrow]
  have hquantized : ((portable faiss).accumulateQuantized scanner.layout query.dotLut
        block.paddedSize packedCodes >>= fun found => (.ok (.quantized found.1 (1 / found.2.1)
          found.2.2) : Except Error (BlockDots Float32))).map
        (fun dots => (List.range block.size).map dots.row) =
      (RecastFastScanner.quantizeLut faiss query.dotLut scanner.layout.subquantizers >>=
        fun found => (.ok fun row => found.2.2 + Float32.ofNat
          ((faiss.pq4AccumulateLoop block.paddedSize scanner.layout.subquantizers packedCodes
            found.1).getD row 0).toNat * (1 / found.2.1) : Except Error (ℕ → Float32))).map
        fun dots => (List.range block.size).map dots := by
    unfold portable
    dsimp only
    cases RecastFastScanner.quantizeLut faiss query.dotLut scanner.layout.subquantizers <;> rfl
  unfold blockDots RecastFastScanner.blockDots
  rw [hmode]
  cases RecastFastScanner.chooseMode mode with
  | auto => exact hquantized
  | quantizedUint8 => exact hquantized
  | exactFloat => exact hscalar
  | scalarFloat => exact hscalar

/-- The rows a tile emits. -/
theorem portable_scanBlock :
    ((portable faiss).openBlock scanner.layout mode query block).map
        (fun opened => (tiles block).map fun tile =>
          ((portable faiss).emitTile scanner.quantizer query block opened.1 opened.2 tile).mapIdx
            fun lane values => (portable faiss).estimate block (tile * kUpdateBlockSize + lane)
              values) =
      scanner.scanBlock faiss mode query block := by
  unfold openBlock RecastFastScanner.scanBlock
  cases block.packedCodes with
  | none => rfl
  | some packedCodes =>
  cases block.packedMetadata with
  | none => rfl
  | some packedMetadata =>
  dsimp only
  split
  next => rfl
  next hvalid =>
    have hsize : block.size ≤ block.paddedSize := not_lt.mp (mt Or.inl hvalid)
    rcases map_eq_map_iff.mp (@portable_blockDots scanner faiss mode query block hsize packedCodes)
      with ⟨error, hleft, hright⟩ | ⟨dots, values, hleft, hright, hrows⟩
    · rw [hleft, hright]
      rfl
    · rw [hleft, hright]
      apply congrArg Except.ok
      apply List.map_congr_left
      intro tile _
      unfold emitTile
      rw [if_neg (by simp [portable]), mapIdx_map_range]
      apply List.map_congr_left
      intro lane hlane
      have hlane := List.mem_range.mp hlane
      unfold logicalCount at hlane
      have hrow := List.map_inj_left.mp hrows (tile * kUpdateBlockSize + lane)
        (List.mem_range.mpr (by omega))
      unfold estimate RecastFastScanner.scanRow
      dsimp only
      rw [hrow]
      unfold portable
      simp only [Option.map_id, id]

/-- The portable host over machine floats is the scanner: its `scan_all`. -/
theorem portable_scanAll :
    (portable faiss).scanAll scanner.quantizer scanner.layout mode query block =
      scanner.scanAll faiss mode query block := by
  unfold scanAll RecastFastScanner.scanAll
  rw [← portable_scanBlock]
  cases (portable faiss).openBlock scanner.layout mode query block with
  | error error => rfl
  | ok opened => exact congrArg Except.ok (List.flatMap_def ..)

/-- The portable host over machine floats is the scanner: its interval scan. -/
theorem portable_scanIntervalCandidates {blocks : List CodeBlockView} {topk maxCandidates : ℕ}
    {zScore : Float32} :
    (portable faiss).scanIntervalCandidates scanner.quantizer scanner.layout mode query blocks topk
        zScore maxCandidates =
      scanner.scanIntervalCandidates faiss mode query blocks topk zScore maxCandidates := by
  have hblock : (portable faiss).collectBlock scanner.quantizer scanner.layout mode query zScore =
      scanner.collectBlock faiss mode query zScore := by
    funext accumulator block
    unfold collectBlock RecastFastScanner.collectBlock
    rw [← portable_scanBlock]
    cases (portable faiss).openBlock scanner.layout mode query block with
    | error error => rfl
    | ok opened =>
        have hfold : (tiles block).foldl ((portable faiss).collectTile scanner.quantizer query block
            opened.1 opened.2 zScore) accumulator =
            ((tiles block).map fun tile => ((portable faiss).emitTile scanner.quantizer query block
              opened.1 opened.2 tile).mapIdx fun lane values => (portable faiss).estimate block
                (tile * kUpdateBlockSize + lane) values).foldl
              (fun accumulator tile => accumulator.addScalarBlock
                (tile.map fun row => (row, row.upper zScore))) accumulator := by
          rw [List.foldl_map]
          congr 1
          funext accumulator tile
          unfold collectTile
          rw [if_neg (by simp [portable])]
          congr 1
          apply List.ext_getElem <;> simp
        change (match ((tiles block).foldl ((portable faiss).collectTile scanner.quantizer query block
            opened.1 opened.2 zScore) accumulator).failure with | some error => _ | none => _) = _
        rw [hfold]
        rfl
  unfold scanIntervalCandidates RecastFastScanner.scanIntervalCandidates
  rw [hblock]
  rfl

end ScanHost

end Recast
