import Recast.Scan.HostScan
import Recast.Scan.SelectionAvx512
import Recast.Scan.TrainingRows

/-!
# Both hosts scan alike

In exact arithmetic a scan does not depend on the instructions of its host. Its
registers hold the rows of the portable tiles, its kernel the dot products of the
portable kernel, and its collector has met the same rows in the end.
-/

namespace Recast

open Foundation

namespace ScanHost

/-! ### The kernels -/

section

variable {F K : Type} [Field F] {block : CodeBlockView} {mode : LutMode}

/-- Both kernels return the same dot products of the rows. -/
theorem kernels_agree (layout : CodeLayout) (query : QueryContext F)
    (hsize : block.size ≤ block.paddedSize)
    (hpadded : block.paddedSize % kUpdateBlockSize = 0) (packedCodes : Bytes) :
    (avx512Dots layout query block packedCodes).toOption.map
        (fun dots => (List.range block.size).map dots.row) =
      (scalarDots layout query block packedCodes).toOption.map
        fun dots => (List.range block.size).map dots.row := by
  unfold avx512Dots scalarDots
  split
  · rfl
  · apply congrArg some
    apply List.map_congr_left
    intro row hrow
    have hrow := List.mem_range.mp hrow
    have hblocks : block.paddedSize = block.paddedSize / kUpdateBlockSize * 32 :=
      (Nat.div_mul_cancel (Nat.dvd_of_mod_eq_zero hpadded)).symm
    have hvector := @avx512Impl_getElem? _ _ _ layout _ _ (hrow.trans_le (hblocks ▸ hsize))
      packedCodes query.dotLut
    rw [← hblocks] at hvector
    rw [BlockDots.row, BlockDots.row, List.getD_eq_getElem?_getD, hvector,
      List.getD_eq_getElem?_getD, List.getElem?_map, List.getElem?_range (hrow.trans_le hsize),
      Option.map_some, if_pos hrow]

/-- The dot products of the rows do not depend on the host. -/
theorem blockDots_rows (host : ScanHost F K (Extended F)) (avx512 : Bool) (layout : CodeLayout)
    (query : QueryContext F) (hmode : mode ≠ .auto)
    (hsize : block.size ≤ block.paddedSize) (hpadded : block.paddedSize % kUpdateBlockSize = 0)
    (packedCodes : Bytes) :
    ((host.withAvx512 avx512).blockDots layout mode query block
        packedCodes).toOption.map (fun dots => (List.range block.size).map dots.row) =
      (host.blockDots layout mode query block packedCodes).toOption.map
        fun dots => (List.range block.size).map dots.row := by
  cases mode with
  | auto => exact absurd rfl hmode
  | quantizedUint8 => rfl
  | scalarFloat => rfl
  | exactFloat =>
      -- the only mode that asks the host for its kernel
      have hkernels := kernels_agree layout query hsize hpadded packedCodes
      unfold blockDots chooseMode withAvx512
      cases avx512 with
      | true =>
          cases host.avx512 with
          | true => rfl
          | false => exact hkernels
      | false =>
          cases host.avx512 with
          | true => exact hkernels.symm
          | false => rfl

/-- A block opens on every host or on none, with the same metadata and dot
products of its rows. -/
theorem openBlock_rows (host : ScanHost F K (Extended F)) (avx512 : Bool) (layout : CodeLayout)
    (query : QueryContext F) (block : CodeBlockView) (hmode : mode ≠ .auto) :
    ((host.withAvx512 avx512).openBlock layout mode query
        block).toOption.map (fun opened => (opened.1, (List.range block.size).map opened.2.row)) =
      (host.openBlock layout mode query block).toOption.map
        fun opened => (opened.1, (List.range block.size).map opened.2.row) := by
  unfold openBlock
  cases block.packedCodes with
  | none => rfl
  | some packedCodes =>
  cases block.packedMetadata with
  | none => rfl
  | some packedMetadata =>
  dsimp only
  split
  next => rfl
  next hvalid =>
    rw [not_or, not_or, not_or, not_not, not_not] at hvalid
    obtain ⟨hsize, hblock, hpadded, -⟩ := hvalid
    rw [hblock] at hpadded
    have hdots := blockDots_rows host avx512 layout query hmode
      (not_lt.mp hsize) hpadded packedCodes
    have hpair (opened : Except Error (BlockDots F)) :
        (opened >>= fun dots => pure (packedMetadata, dots)).toOption.map
            (fun opened : Bytes × BlockDots F =>
              (opened.1, (List.range block.size).map opened.2.row)) =
          (opened.toOption.map fun dots => (List.range block.size).map dots.row).map
            fun rows => (packedMetadata, rows) := by
      cases opened <;> rfl
    rw [hpair, hpair, hdots]

end

/-! ### Rows -/

section

variable {F K : Type} [Field F] [LinearOrder F]

/-- Exact arithmetic, and ranges and a query norm that are not negative. -/
structure Exact (host : ScanHost F K (Extended F)) (quantizer : RecastQuantizer F K)
    (query : QueryContext F) : Prop where
  isFinite : ∀ value, host.numerics.isFinite value = true
  float : host.float = .finite
  sqrt : 0 ≤ host.numerics.sqrt ((quantizer.config.dimension : ℕ) : F)
  normMax : 0 ≤ quantizer.normMax
  normStep : 0 ≤ quantizer.normStep
  queryNorm : 0 ≤ query.queryNorm

theorem Exact.withAvx512 {host : ScanHost F K (Extended F)} {quantizer : RecastQuantizer F K}
    {query : QueryContext F} (h : host.Exact quantizer query) (avx512 : Bool) :
    (host.withAvx512 avx512).Exact quantizer query :=
  ⟨h.isFinite, h.float, h.sqrt, h.normMax, h.normStep, h.queryNorm⟩

variable {host : ScanHost F K (Extended F)} {quantizer : RecastQuantizer F K}
  {query : QueryContext F} {layout : CodeLayout} {mode : LutMode} {block : CodeBlockView}
  {packedMetadata : Bytes} {dots : BlockDots F}

/-- The estimate and the uncertainty of a row in the portable code. -/
def rowValues (host : ScanHost F K (Extended F)) (quantizer : RecastQuantizer F K)
    (query : QueryContext F) (packedMetadata : Bytes) (dots : BlockDots F) (row : ℕ) :
    PostprocessedRow F :=
  postprocessRow host.numerics quantizer query (Metadata.load packedMetadata row) (dots.row row)

/-- The rows `first, first + 1, ..` of a block, `count` of them. -/
def rowsFrom (host : ScanHost F K (Extended F)) (quantizer : RecastQuantizer F K)
    (query : QueryContext F) (block : CodeBlockView) (packedMetadata : Bytes) (dots : BlockDots F)
    (first count : ℕ) : List (DistanceEstimate (Extended F)) :=
  (List.range count).map fun lane => host.estimate block (first + lane)
    (host.rowValues quantizer query packedMetadata dots (first + lane))

/-- Rows after each other. -/
theorem rowsFrom_add (first count more : ℕ) :
    host.rowsFrom quantizer query block packedMetadata dots first (count + more) =
      host.rowsFrom quantizer query block packedMetadata dots first count ++
        host.rowsFrom quantizer query block packedMetadata dots (first + count) more := by
  unfold rowsFrom
  rw [List.range_add, List.map_append, List.map_map]
  congr 1
  apply List.map_congr_left
  intro lane _
  rw [Function.comp_apply, Nat.add_assoc]

/-- The tiles of a block are its rows. -/
theorem rowsFrom_tiles (block : CodeBlockView) :
    ((tiles block).flatMap fun tile => host.rowsFrom quantizer query block packedMetadata dots
        (tile * kUpdateBlockSize) (logicalCount block tile)) =
      host.rowsFrom quantizer query block packedMetadata dots 0 block.size := by
  unfold rowsFrom logicalCount tiles
  rw [flatMap_range_tiles (fun row => host.estimate block row
    (host.rowValues quantizer query packedMetadata dots row)), kUpdateBlockSize,
    ← roundUpBlock_blocks, Nat.min_eq_left (le_roundUpBlock block.size)]
  simp only [Nat.zero_add]

/-- The rows of a block depend on its metadata and on their dot products. -/
theorem rowsFrom_congr {dots' : BlockDots F} {count : ℕ}
    (hdots : (List.range count).map dots'.row = (List.range count).map dots.row) :
    host.rowsFrom quantizer query block packedMetadata dots' 0 count =
      host.rowsFrom quantizer query block packedMetadata dots 0 count := by
  unfold rowsFrom rowValues
  apply List.map_congr_left
  intro row hrow
  rw [Nat.zero_add, List.map_inj_left.mp hdots row hrow]

/-- The IDs of the rows of a block. -/
theorem rowsFrom_ids :
    (host.rowsFrom quantizer query block packedMetadata dots 0 block.size).map DistanceEstimate.id =
      block.rowIds := by
  unfold rowsFrom CodeBlockView.rowIds
  rw [List.map_map]
  apply List.map_congr_left
  intro row _
  rw [Function.comp_apply, estimate, Nat.zero_add]

/-- Rows with distinct IDs that a scan in exact arithmetic may meet. -/
structure Distinct (rows : List (DistanceEstimate (Extended F))) : Prop where
  measured : ∀ row ∈ rows, Measured row ∧ bothInfinite row = false ∧ row.id < 2 ^ 32
  ids : (rows.map DistanceEstimate.id).Nodup

theorem Distinct.front {rows more : List (DistanceEstimate (Extended F))}
    (h : Distinct (rows ++ more)) : Distinct rows where
  measured row hrow := h.measured row (List.mem_append_left _ hrow)
  ids := h.ids.sublist ((List.sublist_append_left _ _).map _)

/-- The endpoint under the mask of the finite uncertainties. -/
theorem upper_of_mask {row : DistanceEstimate (Extended F)} (hrow : Measured row) (z : F)
    {finite : Bool} (hfinite : finite = !Ieee.isInf row.uncertainty) :
    (if Ieee.beq (Extended.finite z) Ieee.zero then row.estimatedDistance
      else if finite then Ieee.add row.estimatedDistance (Ieee.mul row.uncertainty (.finite z))
      else Ieee.infinity) = row.upper (.finite z) := by
  rw [← upperAvx512_eq hrow, hfinite]
  unfold DistanceEstimate.upperAvx512
  cases Ieee.isInf row.uncertainty <;> rfl

/-- Of bounded rows either filter keeps those of the portable code. -/
theorem filterByLower_bounded {z : F} {accumulator : FusedIntervalAccumulator (Extended F)}
    (hz : 0 ≤ z) (hzScore : accumulator.zScore = .finite z)
    (hbounded : ∀ row ∈ accumulator.reservoir, Measured row ∧ bothInfinite row = false)
    (kthUpper : Extended F) :
    (accumulator.filterByLower kthUpper).reservoir = accumulator.reservoir.filter fun row =>
      Ieee.le (row.lower (.finite z)) kthUpper := by
  cases havx512 : accumulator.avx512 with
  | false => rw [FusedIntervalAccumulator.filterByLower_portable havx512, hzScore]
  | true =>
      rw [filterByLower_avx512 hz havx512 hzScore fun row hrow => (hbounded row hrow).1]
      apply List.filter_congr
      intro row hrow
      rw [(hbounded row hrow).2, Bool.and_false, Bool.not_false, Bool.and_true]

variable [IsStrictOrderedRing F]

/-- The lanes of the registers are rows of the portable code. -/
theorem registers_eq (h : host.Exact quantizer query) (packedMetadata : Bytes)
    (dots : BlockDots F) (tile laneBase : ℕ) (hbase : laneBase + 16 ≤ kUpdateBlockSize)
    (lane : Fin 16) :
    (metricValues16 host.numerics quantizer query packedMetadata dots tile laneBase).row lane =
      host.rowValues quantizer query packedMetadata dots
        (tile * kUpdateBlockSize + laneBase + lane) :=
  metricValues16_row h.isFinite h.normMax h.normStep h.queryNorm h.sqrt packedMetadata dots tile
    laneBase (by omega)

/-- Registers whose lanes are places of a list. -/
theorem ofFn_eq_map_range {α : Type} {f : Fin 16 → α} {g : ℕ → α} (h : ∀ lane, f lane = g lane) :
    List.ofFn f = (List.range 16).map g := by
  apply List.ext_getElem
  · rw [List.length_ofFn, List.length_map, List.length_range]
  · intro i hi hi'
    rw [List.getElem_ofFn, List.getElem_map, List.getElem_range, h]

theorem ofFn_registers (h : host.Exact quantizer query) (tile laneBase : ℕ)
    (hbase : laneBase + 16 ≤ kUpdateBlockSize) :
    List.ofFn (metricValues16 host.numerics quantizer query packedMetadata dots tile laneBase).row =
      (List.range 16).map fun lane => host.rowValues quantizer query packedMetadata dots
        (tile * kUpdateBlockSize + (laneBase + lane)) := by
  apply ofFn_eq_map_range
  intro lane
  rw [registers_eq h packedMetadata dots tile laneBase hbase, Nat.add_assoc]

/-- A tile emits the same rows on every host. -/
theorem emitTile_eq (h : host.Exact quantizer query) (tile : ℕ) :
    (host.emitTile quantizer query block packedMetadata dots tile).mapIdx
        (fun lane values => host.estimate block (tile * kUpdateBlockSize + lane) values) =
      host.rowsFrom quantizer query block packedMetadata dots (tile * kUpdateBlockSize)
        (logicalCount block tile) := by
  have hrows : host.emitTile quantizer query block packedMetadata dots tile =
      (List.range (logicalCount block tile)).map fun lane =>
        host.rowValues quantizer query packedMetadata dots (tile * kUpdateBlockSize + lane) := by
    unfold emitTile
    split
    · -- two registers hold all lanes of the tile, and the consumer takes the logical ones
      have hcount : logicalCount block tile ≤ 16 + 16 := Nat.min_le_left _ _
      have hboth (values : ℕ → PostprocessedRow F) : (List.range 16).map values ++
          (List.range 16).map (fun lane => values (16 + lane)) =
            (List.range (16 + 16)).map values := by
        rw [List.range_add, List.map_append, List.map_map]
        rfl
      dsimp only
      rw [ofFn_registers h tile 0 (by decide), ofFn_registers h tile 16 (by decide)]
      simp only [Nat.zero_add]
      rw [hboth fun lane => host.rowValues quantizer query packedMetadata dots
        (tile * kUpdateBlockSize + lane), ← List.map_take, List.take_range, Nat.min_eq_left hcount]
    · rfl
  rw [hrows, mapIdx_map_range]
  rfl

/-- `scan_all` returns the rows of the block. -/
theorem scanAll_eq (h : host.Exact quantizer query) :
    host.scanAll quantizer layout mode query block =
      (host.openBlock layout mode query block).map fun opened =>
        host.rowsFrom quantizer query block opened.1 opened.2 0 block.size := by
  unfold scanAll
  cases host.openBlock layout mode query block with
  | error error => rfl
  | ok opened =>
      obtain ⟨packedMetadata, dots⟩ := opened
      rw [ok_bind]
      dsimp only
      rw [pure_eq_ok, Except.map, ← rowsFrom_tiles]
      simp only [emitTile_eq h]

/-- `scan_all` returns the same rows on every host, if it does not throw. -/
theorem scanAll_agrees (h : host.Exact quantizer query) (avx512 : Bool) (hmode : mode ≠ .auto) :
    ((host.withAvx512 avx512).scanAll quantizer layout mode query
        block).toOption =
      (host.scanAll quantizer layout mode query block).toOption := by
  have hopened := openBlock_rows host avx512 layout query block hmode
  rw [scanAll_eq h, scanAll_eq (h.withAvx512 avx512)]
  cases hthere : (host.withAvx512 avx512).openBlock layout mode query block
    with
  | error error =>
      rw [hthere] at hopened
      cases hhere : host.openBlock layout mode query block with
      | error _ => rfl
      | ok opened =>
          rw [hhere] at hopened
          cases hopened
  | ok opened =>
      rw [hthere] at hopened
      cases hhere : host.openBlock layout mode query block with
      | error _ =>
          rw [hhere] at hopened
          cases hopened
      | ok opened' =>
          rw [hhere] at hopened
          obtain ⟨packedMetadata, dots⟩ := opened
          obtain ⟨packedMetadata', dots'⟩ := opened'
          obtain ⟨rfl, hdots⟩ := Prod.mk.inj (Option.some.inj hopened)
          exact congrArg some (rowsFrom_congr hdots)

/-! ### The collector -/

/-- The uncertainty of a row is not negative. -/
theorem uncertainty_nonneg (h : host.Exact quantizer query) {row : ℕ} {uncertainty : F}
    (hrow : (host.rowValues quantizer query packedMetadata dots row).uncertainty =
      some uncertainty) : 0 ≤ uncertainty := by
  obtain ⟨hnorm, herror⟩ := decodeMetadata_nonneg h.normMax h.normStep
    (Metadata.load packedMetadata row)
  have hinverse := one_div_nonneg.mpr h.sqrt
  have htwo : (0 : F) ≤ ((2 : ℕ) : F) := Nat.cast_nonneg 2
  have hquery := h.queryNorm
  unfold rowValues postprocessRow scalarMetricValues at hrow
  cases hmetric : quantizer.config.metric with
  | squaredL2 =>
      simp only [hmetric] at hrow
      split at hrow
      · cases hrow
      · cases hrow
        positivity
  | innerProduct =>
      simp only [hmetric] at hrow
      split at hrow
      · cases hrow
      · cases hrow
        positivity
  | cosine =>
      simp only [hmetric] at hrow
      split at hrow
      · cases hrow
      · cases hrow
        positivity

/-- A row has a finite estimate, and an uncertainty that is finite or infinite. -/
theorem estimate_measured (h : host.Exact quantizer query) (block : CodeBlockView) (row : ℕ) :
    Measured (host.estimate block row (host.rowValues quantizer query packedMetadata dots row)) ∧
      bothInfinite (host.estimate block row
        (host.rowValues quantizer query packedMetadata dots row)) = false := by
  have hestimate : ∃ value, (host.rowValues quantizer query packedMetadata dots
      row).estimatedDistance = some value :=
    ⟨_, if_pos (h.isFinite _)⟩
  obtain ⟨value, hestimate⟩ := hestimate
  unfold estimate bothInfinite Measured
  rw [hestimate, h.float]
  cases huncertainty : (host.rowValues quantizer query packedMetadata dots row).uncertainty with
  | none => simp [Ieee.infinity]
  | some uncertainty => simp [uncertainty_nonneg h huncertainty]

theorem rowsFrom_measured (h : host.Exact quantizer query) {first count : ℕ} :
    ∀ row ∈ host.rowsFrom quantizer query block packedMetadata dots first count,
      Measured row ∧ bothInfinite row = false ∧ row.id < 2 ^ 32 := by
  intro row hrow
  obtain ⟨lane, -, rfl⟩ := List.mem_map.mp hrow
  obtain ⟨hmeasured, hbounded⟩ := estimate_measured h block (first + lane)
  exact ⟨hmeasured, hbounded, UInt32.toNat_lt _⟩

/-- Registers hand over their rows with the upper endpoints of the portable code. -/
theorem batch_eq (h : host.Exact quantizer query) (block : CodeBlockView) (packedMetadata : Bytes)
    (dots : BlockDots F) (z : F) (tile laneBase : ℕ) (hbase : laneBase + 16 ≤ kUpdateBlockSize)
    (count : ℕ) (hcount : count ≤ 16) :
    host.batch block (tile * kUpdateBlockSize + laneBase)
        (metricValues16 host.numerics quantizer query packedMetadata dots tile laneBase) (.finite z)
        count =
      (host.rowsFrom quantizer query block packedMetadata dots (tile * kUpdateBlockSize + laneBase)
        count).map fun row => (row, row.upper (.finite z)) := by
  unfold batch rowsFrom
  rw [ofFn_eq_map_range (g := fun lane => _), ← List.map_take, List.take_range,
    Nat.min_eq_left hcount, List.map_map]
  intro lane
  have hlane := registers_eq h packedMetadata dots tile laneBase hbase lane
  rw [metricValues16_finiteUncertainty, hlane]
  apply Prod.ext
  · rfl
  · apply upper_of_mask (estimate_measured h block _).1
    unfold estimate
    rw [h.float]
    cases (host.rowValues quantizer query packedMetadata dots
      (tile * kUpdateBlockSize + laneBase + lane)).uncertainty <;> simp [Ieee.isInf, Ieee.infinity]

/-- The collector after some rows of a block. -/
def Collected (host : ScanHost F K (Extended F)) (limit topk : ℕ) (z : F) (maxCandidates : ℕ)
    (rows : List (DistanceEstimate (Extended F)))
    (accumulator : FusedIntervalAccumulator (Extended F)) : Prop :=
  FusedIntervalAccumulator.Scanned Extended.key (· ≠ .nan) limit
    (host.avx512, topk, .finite z, maxCandidates) (fun row => row.upper (.finite z)) rows accumulator

variable {limit topk maxCandidates : ℕ} {z : F} {rows : List (DistanceEstimate (Extended F))}
  {accumulator : FusedIntervalAccumulator (Extended F)}

theorem Distinct.scannable (h : Distinct rows) (hz : 0 ≤ z) :
    FusedIntervalAccumulator.Scannable (· ≠ .nan) (fun row => row.upper (.finite z)) rows :=
  measured_scannable (fun row hrow => (h.measured row hrow).1) h.ids
    (fun row hrow => (h.measured row hrow).2.2) hz

/-- A tile goes to the collector in one portable block or in registers. -/
theorem Collected.addTile (h : host.Exact quantizer query) (hpos : 0 < topk) (hz : 0 ≤ z)
    (hcollected : host.Collected limit topk z maxCandidates rows accumulator) (tile : ℕ)
    (hdistinct : Distinct (rows ++ host.rowsFrom quantizer query block packedMetadata dots
      (tile * kUpdateBlockSize) (logicalCount block tile))) :
    host.Collected limit topk z maxCandidates
      (rows ++ host.rowsFrom quantizer query block packedMetadata dots (tile * kUpdateBlockSize)
        (logicalCount block tile))
      (host.collectTile quantizer query block packedMetadata dots (.finite z) accumulator tile) := by
  unfold Collected at hcollected ⊢
  unfold collectTile
  dsimp only
  have hcount : logicalCount block tile ≤ 32 := Nat.min_le_left _ _
  split
  · have hfirst := batch_eq h block packedMetadata dots z tile 0 (by decide)
    have hsecond := batch_eq h block packedMetadata dots z tile 16 (by decide)
    simp only [Nat.add_zero] at hfirst
    split
    next hmore =>
      -- the rows of the first register, then those of the second
      obtain ⟨rest, hrest⟩ := Nat.exists_eq_add_of_le hmore.le
      rw [hrest, rowsFrom_add, ← List.append_assoc] at hdistinct ⊢
      have hstep := hcollected.add16Avx512 Extended.orderedBy (fun h => nomatch h) hpos
        (hdistinct.front.scannable hz)
      have hnext := hstep.add16Avx512 Extended.orderedBy (fun h => nomatch h) hpos
        (hdistinct.scannable hz)
      rw [Nat.min_eq_left (Nat.le_add_right 16 rest), Nat.add_sub_cancel_left]
      rw [← hfirst 16 le_rfl, ← hsecond rest (by omega)] at hnext
      exact hnext
    next hone =>
      rw [Nat.min_eq_right (not_lt.mp hone)]
      have hnext := hcollected.add16Avx512 Extended.orderedBy (fun h => nomatch h) hpos
        (hdistinct.scannable hz)
      rw [← hfirst _ (not_lt.mp hone)] at hnext
      exact hnext
  · have hpairs : (host.emitTile quantizer query block packedMetadata dots tile).mapIdx
          (fun lane values =>
            (host.estimate block (tile * kUpdateBlockSize + lane) values,
              (host.estimate block (tile * kUpdateBlockSize + lane) values).upper (.finite z))) =
        (host.rowsFrom quantizer query block packedMetadata dots (tile * kUpdateBlockSize)
          (logicalCount block tile)).map fun row => (row, row.upper (.finite z)) := by
      rw [← emitTile_eq h]
      apply List.ext_getElem <;> simp
    rw [hpairs]
    exact hcollected.addScalarBlock Extended.orderedBy (fun h => nomatch h) hpos
      (hdistinct.scannable hz)

/-- The tiles of a block, or the first of them. -/
theorem Collected.addTiles (h : host.Exact quantizer query) (hpos : 0 < topk) (hz : 0 ≤ z)
    (hcollected : host.Collected limit topk z maxCandidates rows accumulator) {tiles : List ℕ}
    (hdistinct : Distinct (rows ++ tiles.flatMap fun tile =>
      host.rowsFrom quantizer query block packedMetadata dots (tile * kUpdateBlockSize)
        (logicalCount block tile))) :
    host.Collected limit topk z maxCandidates
      (rows ++ tiles.flatMap fun tile =>
        host.rowsFrom quantizer query block packedMetadata dots (tile * kUpdateBlockSize)
          (logicalCount block tile))
      (tiles.foldl (host.collectTile quantizer query block packedMetadata dots (.finite z))
        accumulator) := by
  induction tiles generalizing rows accumulator with
  | nil => rwa [List.flatMap_nil, List.append_nil]
  | cons tile rest ih =>
      rw [List.flatMap_cons, ← List.append_assoc] at hdistinct ⊢
      exact ih (hcollected.addTile h hpos hz tile hdistinct.front) hdistinct

/-- The rows `scan_all` returns. -/
theorem scanAll_rows (h : host.Exact quantizer query)
    {output : List (DistanceEstimate (Extended F))}
    (hscan : host.scanAll quantizer layout mode query block = .ok output) :
    output.map DistanceEstimate.id = block.rowIds ∧
      ∀ row ∈ output, Measured row ∧ bothInfinite row = false ∧ row.id < 2 ^ 32 := by
  rw [scanAll_eq h] at hscan
  cases hopened : host.openBlock layout mode query block with
  | error error =>
      rw [hopened] at hscan
      cases hscan
  | ok opened =>
      rw [hopened] at hscan
      rw [← Except.ok.inj hscan]
      exact ⟨rowsFrom_ids, rowsFrom_measured h⟩

/-- A block goes to the collector as `scan_all` returns it. -/
theorem Collected.addBlock (h : host.Exact quantizer query) (hpos : 0 < topk) (hz : 0 ≤ z)
    (hcollected : host.Collected limit topk z maxCandidates rows accumulator)
    {output : List (DistanceEstimate (Extended F))}
    (hscan : host.scanAll quantizer layout mode query block = .ok output)
    (hdistinct : Distinct (rows ++ output)) :
    ∃ next, host.collectBlock quantizer layout mode query (.finite z) accumulator block =
        .ok next ∧ host.Collected limit topk z maxCandidates (rows ++ output) next := by
  rw [scanAll_eq h] at hscan
  unfold collectBlock
  cases hopened : host.openBlock layout mode query block with
  | error error =>
      rw [hopened] at hscan
      cases hscan
  | ok opened =>
      obtain ⟨packedMetadata, dots⟩ := opened
      rw [hopened] at hscan
      have houtput := Except.ok.inj hscan
      dsimp only at houtput
      rw [← houtput, ← rowsFrom_tiles] at hdistinct ⊢
      have hnext := hcollected.addTiles h hpos hz hdistinct
      refine ⟨_, ?_, hnext⟩
      rw [ok_bind]
      dsimp only
      rw [hnext.collects.running]

theorem collectBlock_throws (h : host.Exact quantizer query) {error : Error}
    (hscan : host.scanAll quantizer layout mode query block = .error error) (zScore : Extended F) :
    host.collectBlock quantizer layout mode query zScore accumulator block = .error error := by
  rw [scanAll_eq h] at hscan
  unfold collectBlock
  cases hopened : host.openBlock layout mode query block with
  | error error' =>
      rw [hopened] at hscan
      exact congrArg _ (Except.error.inj hscan)
  | ok opened =>
      rw [hopened] at hscan
      cases hscan

/-- All blocks go to the collector, or the scan throws as `scan_all` does. -/
theorem Collected.addBlocks (h : host.Exact quantizer query) (hpos : 0 < topk) (hz : 0 ≤ z)
    (hcollected : host.Collected limit topk z maxCandidates rows accumulator)
    (hrows : ∀ row ∈ rows, Measured row ∧ bothInfinite row = false ∧ row.id < 2 ^ 32)
    {blocks : List CodeBlockView}
    (hids : (rows.map DistanceEstimate.id ++ blocks.flatMap CodeBlockView.rowIds).Nodup) :
    (∀ outputs, blocks.mapM (host.scanAll quantizer layout mode query) = .ok outputs →
      Distinct (rows ++ outputs.flatten) ∧ ∃ final,
        blocks.foldlM (host.collectBlock quantizer layout mode query (.finite z)) accumulator =
          .ok final ∧
        host.Collected limit topk z maxCandidates (rows ++ outputs.flatten) final) ∧
    ∀ error, blocks.mapM (host.scanAll quantizer layout mode query) = .error error →
      blocks.foldlM (host.collectBlock quantizer layout mode query (.finite z)) accumulator =
        .error error := by
  induction blocks generalizing rows accumulator with
  | nil =>
      rw [mapM_nil_ok]
      rw [List.flatMap_nil, List.append_nil] at hids
      constructor
      · intro outputs houtputs
        rw [← Except.ok.inj houtputs, List.flatten_nil, List.append_nil]
        exact ⟨⟨hrows, hids⟩, accumulator, rfl, hcollected⟩
      · intro error herror
        cases herror
  | cons block rest ih =>
      rw [mapM_cons_except, List.foldlM_cons]
      rw [List.flatMap_cons, ← List.append_assoc] at hids
      cases hscan : host.scanAll quantizer layout mode query block with
      | error error =>
          rw [collectBlock_throws h hscan, error_bind, error_bind]
          exact ⟨fun outputs houtputs => (by cases houtputs),
            fun _ herror => congrArg _ (Except.error.inj herror)⟩
      | ok output =>
          obtain ⟨houtputIds, houtput⟩ := scanAll_rows h hscan
          rw [← houtputIds, ← List.map_append] at hids
          have hboth := List.forall_mem_append.mpr ⟨hrows, houtput⟩
          obtain ⟨next, hnext, hcollected⟩ := hcollected.addBlock h hpos hz hscan
            ⟨hboth, hids.sublist (List.sublist_append_left _ _)⟩
          obtain ⟨hok, herror⟩ := ih hcollected hboth hids
          rw [hnext, ok_bind, ok_bind]
          constructor
          · intro outputs houtputs
            obtain ⟨others, hothers, houtputs⟩ := bind_eq_ok.mp houtputs
            rw [← Except.ok.inj houtputs, List.flatten_cons, ← List.append_assoc]
            exact hok others hothers
          · intro error hrest
            rcases bind_eq_error.mp hrest with hrest | ⟨others, -, hnone⟩
            · exact herror error hrest
            · cases hnone

/-! ### The selection -/

/-- Both collectors select the same of the same rows. -/
theorem finish_agrees {host host' : ScanHost F K (Extended F)} (hz : 0 ≤ z)
    (hdistinct : Distinct rows) {lanes portable : FusedIntervalAccumulator (Extended F)}
    (hlanes : host.Collected (limitOf maxCandidates rows.length) topk z maxCandidates rows lanes)
    (hportable : host'.Collected (limitOf maxCandidates rows.length) topk z maxCandidates rows
      portable) : lanes.finish = portable.finish := by
  unfold Collected at hlanes hportable
  have htopkLanes : lanes.topk = topk := hlanes.topk_eq
  have htopk : portable.topk = topk := hportable.topk_eq
  rcases Nat.lt_or_ge rows.length topk with hfew | henough
  · rw [hlanes.finish_few (htopkLanes ▸ hfew), hportable.finish_few (htopk ▸ hfew)]
  have hscannable := hdistinct.scannable hz
  obtain ⟨shrunkLanes, ⟨-, hzLanes⟩, hleastLanes, hfinishLanes⟩ :=
    scanned_selects hlanes hscannable henough
  obtain ⟨shrunk, ⟨-, hzPortable⟩, hleast, hfinish⟩ := scanned_selects hportable hscannable henough
  have hheapLanes := hlanes.uppers
  have hheap := hportable.uppers
  rw [htopkLanes] at hheapLanes
  rw [htopk] at hheap
  have hkth := kthUpper_unique (List.forall_mem_map.mpr hscannable.uppers) hheapLanes hheap
  have hbounded {kept : FusedIntervalAccumulator (Extended F)}
      (hkept : Least (rowRank Extended.key) (min (limitOf maxCandidates rows.length) rows.length)
        rows kept.reservoir) :
      ∀ row ∈ kept.reservoir, Measured row ∧ bothInfinite row = false := fun row hrow =>
    have hrow := hdistinct.measured row (hkept.mem_iff.mp hrow).1
    ⟨hrow.1, hrow.2.1⟩
  rw [hfinishLanes, hfinish, hkth, filterByLower_bounded hz hzLanes (hbounded hleastLanes),
    filterByLower_bounded hz hzPortable (hbounded hleast)]
  -- the shortlists were shrunk at different times, but both are the least of the rows
  have hperm := hleastLanes.perm (List.Nodup.of_map _ hdistinct.ids) hleast
  have hmem {row : DistanceEstimate (Extended F)} (hrow : row ∈ shrunkLanes.reservoir) :
      row ∈ rows := (hleastLanes.mem_iff.mp hrow).1
  have hsort : sortBy FusedIntervalAccumulator.rankLess (shrunkLanes.reservoir.filter fun row =>
        Ieee.le (row.lower (.finite z)) (portable.smallestUppers.headD Ieee.infinity)) =
      sortBy FusedIntervalAccumulator.rankLess (shrunk.reservoir.filter fun row =>
        Ieee.le (row.lower (.finite z)) (portable.smallestUppers.headD Ieee.infinity)) := by
    apply sortBy_eq_of_perm (rankLess_compares Extended.orderedBy) (hperm.filter _)
    · exact fun row hrow => hscannable.estimates row (hmem (List.mem_of_mem_filter hrow))
    · exact fun x hx y hy heq => rowRank_injective Extended.key hdistinct.ids
        (hmem (List.mem_of_mem_filter hx)) (hmem (List.mem_of_mem_filter hy)) heq
  rw [hsort]

/-- The interval scan collects the rows `scan_all` returns, or throws as it does. -/
theorem scanIntervalCandidates_collects (layout : CodeLayout) (mode : LutMode)
    (h : host.Exact quantizer query) (hz : 0 ≤ z)
    {blocks : List CodeBlockView} (hids : (blocks.flatMap CodeBlockView.rowIds).Nodup)
    {start : FusedIntervalAccumulator (Extended F)}
    (hcreate : FusedIntervalAccumulator.create host.avx512 topk (.finite z) maxCandidates =
      .ok start) (hlimit : 0 < maxCandidates → maxCandidates = limit) :
    (∀ outputs, blocks.mapM (host.scanAll quantizer layout mode query) = .ok outputs →
      Distinct outputs.flatten ∧ ∃ final,
        host.Collected limit topk z maxCandidates outputs.flatten final ∧
        host.scanIntervalCandidates quantizer layout mode query blocks topk (.finite z)
          maxCandidates = final.finish) ∧
    ∀ error, blocks.mapM (host.scanAll quantizer layout mode query) = .error error →
      host.scanIntervalCandidates quantizer layout mode query blocks topk (.finite z)
        maxCandidates = .error error := by
  obtain ⟨hpos, hstart⟩ := @FusedIntervalAccumulator.create_scanned _ _ _ _ Extended.key (· ≠ .nan)
    _ (fun row => row.upper (.finite z)) _ _ _ _ _ hcreate hlimit
  have hcollected : host.Collected limit topk z maxCandidates [] start := hstart
  have hnone : ∀ row ∈ ([] : List (DistanceEstimate (Extended F))),
      Measured row ∧ bothInfinite row = false ∧ row.id < 2 ^ 32 :=
    fun row hrow => absurd hrow List.not_mem_nil
  obtain ⟨hcollects, hthrows⟩ := hcollected.addBlocks h hpos hz hnone hids
  unfold scanIntervalCandidates
  rw [hcreate, ok_bind]
  constructor
  · intro outputs hscan
    obtain ⟨hdistinct, final, hfinal, hrows⟩ := hcollects outputs hscan
    rw [hfinal, ok_bind]
    exact ⟨hdistinct, final, hrows, rfl⟩
  · intro error hscan
    rw [hthrows error hscan, error_bind]

/-- The interval scan selects the same rows on every host, if it does not throw. -/
theorem scanIntervalCandidates_agrees (h : host.Exact quantizer query) (avx512 : Bool)
    (hmode : mode ≠ .auto) {blocks : List CodeBlockView}
    (hids : (blocks.flatMap CodeBlockView.rowIds).Nodup) (topk : ℕ) (zScore : Extended F)
    (maxCandidates : ℕ) :
    ((host.withAvx512 avx512).scanIntervalCandidates quantizer layout mode query blocks topk zScore
        maxCandidates).toOption =
      (host.scanIntervalCandidates quantizer layout mode query blocks topk zScore
        maxCandidates).toOption := by
  have hhere := create_host host.avx512 topk zScore maxCandidates
  have hthere := create_host avx512 topk zScore maxCandidates
  cases hcreate : FusedIntervalAccumulator.create false topk zScore maxCandidates with
  | error error =>
      rw [hcreate] at hhere hthere
      unfold scanIntervalCandidates
      rw [hhere, show (host.withAvx512 avx512).avx512 = avx512 from rfl, hthere]
      rfl
  | ok start =>
      rw [hcreate] at hhere hthere
      obtain ⟨z, hz, rfl⟩ := create_zScore hcreate
      have hscans : (blocks.mapM ((host.withAvx512 avx512).scanAll quantizer layout mode
            query)).toOption =
          (blocks.mapM (host.scanAll quantizer layout mode query)).toOption :=
        mapM_toOption_congr fun block _ => scanAll_agrees h avx512 hmode
      -- without a cap the shortlist has room for all rows
      have hlimit (count : ℕ) : 0 < maxCandidates → maxCandidates = limitOf maxCandidates count :=
        fun hcap => (if_neg hcap.ne').symm
      have hcollects (count : ℕ) := scanIntervalCandidates_collects layout mode h hz hids hhere
        (hlimit count)
      have hcollects' (count : ℕ) := scanIntervalCandidates_collects layout mode
        (h.withAvx512 avx512) hz hids hthere (hlimit count)
      cases hscan : blocks.mapM (host.scanAll quantizer layout mode query) with
      | error error =>
          rw [hscan] at hscans
          obtain ⟨error', hscan'⟩ := toOption_eq_none hscans
          rw [(hcollects 0).2 error hscan, (hcollects' 0).2 error' hscan']
          rfl
      | ok outputs =>
          rw [hscan] at hscans
          obtain ⟨hdistinct, portable, hportable, hselect⟩ :=
            (hcollects outputs.flatten.length).1 outputs hscan
          obtain ⟨-, lanes, hlanes, hselect'⟩ :=
            (hcollects' outputs.flatten.length).1 outputs (toOption_eq_some hscans)
          rw [hselect, hselect', finish_agrees hz hdistinct hlanes hportable]

/-- The interval scan of enough rows returns a selection. -/
theorem scanIntervalCandidates_returns (h : host.Exact quantizer query) (hz : 0 ≤ z)
    {blocks : List CodeBlockView} (hids : (blocks.flatMap CodeBlockView.rowIds).Nodup)
    {start : FusedIntervalAccumulator (Extended F)}
    (hcreate : FusedIntervalAccumulator.create host.avx512 topk (.finite z) maxCandidates =
      .ok start) {outputs : List (List (DistanceEstimate (Extended F)))}
    (hscan : blocks.mapM (host.scanAll quantizer layout mode query) = .ok outputs)
    (henough : topk ≤ outputs.flatten.length) :
    ∃ selection, host.scanIntervalCandidates quantizer layout mode query blocks topk (.finite z)
      maxCandidates = .ok selection := by
  have hlimit : 0 < maxCandidates →
      maxCandidates = limitOf maxCandidates outputs.flatten.length :=
    fun hcap => (if_neg hcap.ne').symm
  obtain ⟨hdistinct, final, hcollected, hselect⟩ :=
    (scanIntervalCandidates_collects layout mode h hz hids hcreate hlimit).1 outputs hscan
  obtain ⟨shrunk, -, -, hfinish⟩ := scanned_selects hcollected (hdistinct.scannable hz) henough
  exact ⟨_, hselect.trans hfinish⟩

end

/-! ## A trained quantizer over the reals -/

/-- A host with exact arithmetic. -/
noncomputable def exactHost (avx512 : Bool)
    (accumulateQuantized : CodeLayout → List ℝ → ℕ → Bytes → Except Error (List UInt16 × ℝ × ℝ)) :
    ScanHost ℝ ℝ (Extended ℝ) where
  avx512 := avx512
  numerics := exactNumerics
  float := .finite
  accumulateQuantized := accumulateQuantized

variable {faiss : Faiss ℝ} {quantizer : RecastQuantizer ℝ ℝ} {query : List ℝ}
  {context : QueryContext ℝ}

/-- Training leaves ranges that are not negative. -/
theorem completed_nonneg (h : Completed exactNumerics faiss quantizer) :
    0 ≤ quantizer.normMax ∧ 0 ≤ quantizer.normStep := by
  cases h with
  | train hrun rows hrows htrain =>
      obtain ⟨-, hnormMax, hnormStep, -⟩ := RecastQuantizer.train_ranges htrain
      have hmax : 0 ≤ quantizer.normMax := by
        rw [hnormMax]
        apply start_le_foldl
        intro top norm
        rw [maxOf_eq_max]
        exact le_max_left top norm
      refine ⟨hmax, ?_⟩
      rw [hnormStep]
      unfold stepOf
      split
      · positivity
      · exact zero_le_one

/-- The norm of a prepared query is not negative. -/
theorem prepareQuery_norm (h : quantizer.prepareQuery exactNumerics faiss query = .ok context) :
    0 ≤ context.queryNorm := by
  simp only [RecastQuantizer.prepareQuery, guard_eq_ok, bind_eq_ok, Prod.exists] at h
  obtain ⟨-, centered, norm, squared, hcenter, hcontext⟩ := h
  rw [← Except.ok.inj hcontext]
  change 0 ≤ norm
  unfold RecastQuantizer.centerQuery at hcenter
  cases hmetric : quantizer.config.metric with
  | cosine =>
      simp only [hmetric, guard_eq_ok] at hcenter
      obtain ⟨-, hcenter⟩ := hcenter
      cases hcenter
      exact zero_le_one
  | squaredL2 =>
      simp only [hmetric] at hcenter
      cases hcenter
      exact Real.sqrt_nonneg _
  | innerProduct =>
      simp only [hmetric] at hcenter
      cases hcenter
      exact Real.sqrt_nonneg _

theorem exactHost_exact (hcompleted : Completed exactNumerics faiss quantizer)
    (hprepare : quantizer.prepareQuery exactNumerics faiss query = .ok context)
    (accumulateQuantized : CodeLayout → List ℝ → ℕ → Bytes → Except Error (List UInt16 × ℝ × ℝ)) :
    (exactHost false accumulateQuantized).Exact quantizer context := by
  obtain ⟨hnormMax, hnormStep⟩ := completed_nonneg hcompleted
  exact ⟨fun _ => rfl, rfl, Real.sqrt_nonneg _, hnormMax, hnormStep, prepareQuery_norm hprepare⟩

/-- With exact arithmetic a trained quantizer scans alike with and without AVX-512:
`scan_all` returns the same estimates of every block, and the interval scan of
blocks with distinct IDs the same candidates. `Auto`, which asks the host for its
mode, is left out. -/
theorem hosts_scan_alike (hcompleted : Completed exactNumerics faiss quantizer)
    (hprepare : quantizer.prepareQuery exactNumerics faiss query = .ok context)
    (accumulateQuantized : CodeLayout → List ℝ → ℕ → Bytes → Except Error (List UInt16 × ℝ × ℝ))
    (layout : CodeLayout) {mode : LutMode} (hmode : mode ≠ .auto) :
    (∀ block, ((exactHost true accumulateQuantized).scanAll quantizer layout mode context
        block).toOption =
      ((exactHost false accumulateQuantized).scanAll quantizer layout mode context
        block).toOption) ∧
    ∀ blocks topk zScore maxCandidates, (blocks.flatMap CodeBlockView.rowIds).Nodup →
      ((exactHost true accumulateQuantized).scanIntervalCandidates quantizer layout mode context
          blocks topk zScore maxCandidates).toOption =
        ((exactHost false accumulateQuantized).scanIntervalCandidates quantizer layout mode context
          blocks topk zScore maxCandidates).toOption := by
  have hexact := exactHost_exact hcompleted hprepare accumulateQuantized
  constructor
  · intro block
    exact scanAll_agrees hexact true hmode
  · intro blocks topk zScore maxCandidates hids
    exact scanIntervalCandidates_agrees hexact true hmode hids topk zScore maxCandidates

/-- The codes of twenty rows, no two of them alike. -/
def twentyCodes : Bytes :=
  CodeLayout.oneByte.packCodesRange
    ((List.range 20).map fun row => ⟨[UInt8.ofNat (13 * row)], rfl⟩) 0 (List.replicate 32 0)

def twentyMetadata : Bytes := List.replicate 64 127 ++ List.replicate 32 20

def twentyRows : CodeBlockView := ⟨some twentyCodes, some twentyMetadata, none, 20, 32, 32, 7⟩

theorem twentyRows_checked :
    twentyRows.Checked .oneByte planeContext twentyCodes twentyMetadata where
  codes := rfl
  metadata := rfl
  size := by decide
  lanes := by decide
  blockSize := rfl
  padded := rfl
  lut := length_table productTerm planePq [2, 1]

/-- A host for the scan of these rows. -/
noncomputable def planeHost (avx512 : Bool) : ScanHost ℝ ℝ (Extended ℝ) :=
  exactHost avx512 fun _ _ _ _ => .ok ([], 1, 0)

/-- Two registers of rows, and a shortlist of six that is shrunk on the way. -/
theorem hosts_scan_alike_twenty :
    ∃ estimates selection,
      (planeHost false).scanAll planeQuantizer .oneByte .exactFloat planeContext twentyRows =
        .ok estimates ∧ estimates.length = 20 ∧
      ((planeHost true).scanAll planeQuantizer .oneByte .exactFloat planeContext
        twentyRows).toOption = some estimates ∧
      (planeHost false).scanIntervalCandidates planeQuantizer .oneByte .exactFloat planeContext
        [twentyRows] 2 (.finite 1) 3 = .ok selection ∧
      ((planeHost true).scanIntervalCandidates planeQuantizer .oneByte .exactFloat planeContext
        [twentyRows] 2 (.finite 1) 3).toOption = some selection := by
  obtain ⟨hall, hinterval⟩ := hosts_scan_alike planeQuantizer_completed prepareQuery_plane
    (fun _ _ _ _ => .ok ([], 1, 0)) .oneByte (by decide : LutMode.exactFloat ≠ .auto)
  obtain ⟨estimates, hscan, hlength⟩ : ∃ estimates, (planeHost false).scanAll planeQuantizer
      .oneByte .exactFloat planeContext twentyRows = .ok estimates ∧ estimates.length = 20 :=
    ⟨_, scanAll_scanExact rfl (.inl rfl) twentyRows_checked, by
      rw [List.length_mapIdx, scanExact, List.length_map, List.length_range]
      rfl⟩
  have hids : ([twentyRows].flatMap CodeBlockView.rowIds).Nodup := by decide
  have hcreate : ∃ start, FusedIntervalAccumulator.create false 2 (Extended.finite (1 : ℝ)) 3 =
      .ok start := by
    have haccepted : ¬Ieee.lt (Extended.finite (1 : ℝ)) Ieee.zero = true := by
      change ¬decide ((1 : ℝ) < 0) = true
      norm_num
    rw [FusedIntervalAccumulator.create, if_neg (by simp [haccepted, Ieee.isInf, Ieee.isNaN, sizeMax])]
    exact ⟨_, rfl⟩
  obtain ⟨start, hcreate⟩ := hcreate
  have houtputs : [twentyRows].mapM ((planeHost false).scanAll planeQuantizer .oneByte .exactFloat
      planeContext) = .ok [estimates] := by
    rw [List.mapM_cons, hscan]
    rfl
  obtain ⟨selection, hselection⟩ := scanIntervalCandidates_returns
    (exactHost_exact planeQuantizer_completed prepareQuery_plane _) zero_le_one hids hcreate
    houtputs (by simp [hlength])
  refine ⟨estimates, selection, hscan, hlength, ?_, hselection, ?_⟩
  · exact (hall twentyRows).trans (congrArg Except.toOption hscan)
  · exact (hinterval _ _ _ _ hids).trans (congrArg Except.toOption hselection)

end ScanHost

end Recast
