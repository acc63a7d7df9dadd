import Recast.Scan.BlockScan
import Recast.Model.SavedModel

/-!
# What the interval scan returns

All blocks of a scan go to one collector. It has met the rows of `scan_all`, block
after block, so that the interval scan returns their selection. Neither the
blocks the rows came in nor their order matter.
-/

namespace Recast

open Foundation

/-- The order of machine numbers. -/
abbrev float32Key (value : Float32) : ℤ ×ₗ ℤ ×ₗ ℤ := floatKey value.toModel.unpack

namespace FusedIntervalAccumulator

/-- The constructor accepts a cap the planes have room for. -/
theorem create_ok {E : Type} [Ieee E] {topk maxCandidates : ℕ} {zScore : E} (avx512 : Bool)
    (hpos : 0 < topk) (hinf : Ieee.isInf zScore = false) (hnan : Ieee.isNaN zScore = false)
    (hsign : Ieee.lt zScore Ieee.zero = false) (hcap : maxCandidates = 0 ∨ topk ≤ maxCandidates)
    (hroom : 2 * maxCandidates + 16 ≤ planeMax) :
    ∃ start, create avx512 topk zScore maxCandidates = .ok start := by
  have hplanes : planeMax = (2 ^ 63 - 1) / 4 := rfl
  have hsize : sizeMax = 2 ^ 64 - 1 := rfl
  have hfits : (2 * maxCandidates + 16) % 2 ^ 64 = 2 * maxCandidates + 16 := by omega
  have hinvalid : ¬(topk = 0 ∨ Ieee.isInf zScore = true ∨ Ieee.isNaN zScore = true ∨
      Ieee.lt zScore Ieee.zero = true ∨ (0 < maxCandidates ∧ maxCandidates < topk) ∨
      sizeMax / 2 < maxCandidates) := by
    simp only [hinf, hnan, hsign, Bool.false_eq_true, false_or, not_or]
    omega
  rw [create, if_neg hinvalid]
  dsimp only
  split
  · rw [hfits, resizePlanes, if_neg (not_lt.mpr hroom)]
    exact ⟨_, rfl⟩
  · exact ⟨_, rfl⟩

end FusedIntervalAccumulator

/-- What the constructor of the collector checks. -/
structure SelectionParameters (topk : ℕ) (zScore : Float32) (maxCandidates : ℕ) : Prop where
  topk_pos : 0 < topk
  finite : zScore.isInf = false ∧ zScore.isNaN = false
  sign : ¬zScore < 0
  cap : maxCandidates = 0 ∨ topk ≤ maxCandidates
  room : 2 * maxCandidates + 16 ≤ planeMax

/-- Rows of a scan: numbers with IDs of 32 bits. -/
def ScannedRows (rows : List (DistanceEstimate Float32)) : Prop :=
  ∀ row ∈ rows, row.estimatedDistance.isNaN = false ∧ row.id < 2 ^ 32

theorem ScannedRows.scannable {rows : List (DistanceEstimate Float32)} (h : ScannedRows rows)
    (hids : (rows.map DistanceEstimate.id).Nodup) (zScore : Float32) :
    FusedIntervalAccumulator.Scannable (fun x : Float32 => x.isNaN = false)
      (fun row => row.upper zScore) rows where
  estimates row hrow := (h row hrow).1
  uppers row hrow := row.upper_valid float32_numbers (h row hrow).1 zScore
  ids := hids
  room := FusedIntervalAccumulator.ids_room hids fun row hrow => (h row hrow).2

namespace RecastFastScanner

variable {scanner : RecastFastScanner} {faiss : FaissScan} {mode : LutMode}
  {query : QueryContext Float32} {topk maxCandidates limit : ℕ} {zScore : Float32}
  {rows : List (DistanceEstimate Float32)} {accumulator : FusedIntervalAccumulator Float32}

/-- The collector after some rows of a portable scan. -/
def Collected (limit topk : ℕ) (zScore : Float32) (maxCandidates : ℕ)
    (rows : List (DistanceEstimate Float32)) (accumulator : FusedIntervalAccumulator Float32) :
    Prop :=
  FusedIntervalAccumulator.Scanned float32Key (fun x => x.isNaN = false) limit
    (false, topk, zScore, maxCandidates) (fun row => row.upper zScore) rows accumulator

theorem scanBlock_scannedRows {block : CodeBlockView} {tiles : List (List (DistanceEstimate Float32))}
    (h : scanner.scanBlock faiss mode query block = .ok tiles) : ScannedRows tiles.flatten := by
  intro row hrow
  refine ⟨scanBlock_valid h row hrow, ?_⟩
  have hid := List.mem_map_of_mem (f := DistanceEstimate.id) hrow
  rw [scanBlock_ids h, CodeBlockView.rowIds] at hid
  obtain ⟨place, -, hid⟩ := List.mem_map.mp hid
  exact hid ▸ UInt32.toNat_lt _

/-- The rows `scan_all` returns have the IDs of the views. -/
theorem mapM_scanAll {blocks : List CodeBlockView} {outputs : List (List (DistanceEstimate Float32))}
    (h : blocks.mapM (scanner.scanAll faiss mode query) = .ok outputs) :
    outputs.flatten.map DistanceEstimate.id = blocks.flatMap CodeBlockView.rowIds ∧
      ScannedRows outputs.flatten := by
  induction blocks generalizing outputs with
  | nil =>
      rw [mapM_nil_ok] at h
      rw [← Except.ok.inj h]
      exact ⟨rfl, nofun⟩
  | cons block rest ih =>
      rw [mapM_cons_except] at h
      obtain ⟨rows, hrows, h⟩ := bind_eq_ok.mp h
      obtain ⟨others, hothers, h⟩ := bind_eq_ok.mp h
      obtain ⟨tiles, htiles, rfl⟩ := scanAll_eq_ok.mp hrows
      obtain ⟨hids, hrest⟩ := ih hothers
      rw [← Except.ok.inj h, List.flatten_cons, List.map_append, scanBlock_ids htiles, hids,
        List.flatMap_cons]
      exact ⟨rfl, List.forall_mem_append.mpr ⟨scanBlock_scannedRows htiles, hrest⟩⟩

/-- The rows of one block. -/
theorem collectBlock_collected (hpos : 0 < topk)
    (h : Collected limit topk zScore maxCandidates rows accumulator) {block : CodeBlockView}
    {tiles : List (List (DistanceEstimate Float32))}
    (htiles : scanner.scanBlock faiss mode query block = .ok tiles)
    (hrows : ScannedRows (rows ++ tiles.flatten))
    (hids : ((rows ++ tiles.flatten).map DistanceEstimate.id).Nodup) :
    ∃ next, scanner.collectBlock faiss mode query zScore accumulator block = .ok next ∧
      Collected limit topk zScore maxCandidates (rows ++ tiles.flatten) next := by
  have hnext := h.blocks (fun accumulator rows block hscanned hscannable =>
    hscanned.addScalarBlock float32_numbers.toOrderedBy float32_numbers.negInfinity hpos hscannable)
    (hrows.scannable hids zScore)
  refine ⟨_, ?_, hnext⟩
  rw [collectBlock, htiles, ok_bind]
  dsimp only
  rw [hnext.collects.running]

/-- All blocks: the collector meets the rows `scan_all` returns, and throws what
`scan_all` throws. -/
theorem collectBlocks (hpos : 0 < topk)
    (h : Collected limit topk zScore maxCandidates rows accumulator) (hrows : ScannedRows rows)
    {blocks : List CodeBlockView}
    (hids : (rows.map DistanceEstimate.id ++ blocks.flatMap CodeBlockView.rowIds).Nodup) :
    (∀ outputs, blocks.mapM (scanner.scanAll faiss mode query) = .ok outputs →
      ScannedRows (rows ++ outputs.flatten) ∧
      ((rows ++ outputs.flatten).map DistanceEstimate.id).Nodup ∧
      ∃ final, blocks.foldlM (scanner.collectBlock faiss mode query zScore) accumulator = .ok final ∧
        Collected limit topk zScore maxCandidates (rows ++ outputs.flatten) final) ∧
    ∀ error, blocks.mapM (scanner.scanAll faiss mode query) = .error error →
      blocks.foldlM (scanner.collectBlock faiss mode query zScore) accumulator = .error error := by
  induction blocks generalizing rows accumulator with
  | nil =>
      rw [mapM_nil_ok]
      refine ⟨fun outputs houtputs => ?_, fun error herror => by cases herror⟩
      rw [← Except.ok.inj houtputs, List.flatten_nil, List.append_nil]
      rw [List.flatMap_nil, List.append_nil] at hids
      exact ⟨hrows, hids, accumulator, rfl, h⟩
  | cons block rest ih =>
      rw [mapM_cons_except, List.foldlM_cons]
      rw [List.flatMap_cons, ← List.append_assoc] at hids
      cases htiles : scanner.scanBlock faiss mode query block with
      | error error =>
          have hall : scanner.scanAll faiss mode query block = .error error := by
            rw [scanAll, htiles, error_bind]
          have hcollect : scanner.collectBlock faiss mode query zScore accumulator block =
              .error error := by
            rw [collectBlock, htiles, error_bind]
          rw [hall, hcollect, error_bind, error_bind]
          exact ⟨fun outputs houtputs => (by cases houtputs),
            fun _ herror => congrArg _ (Except.error.inj herror)⟩
      | ok tiles =>
          have hall : scanner.scanAll faiss mode query block = .ok tiles.flatten := by
            rw [scanAll, htiles, ok_bind, pure_eq_ok]
          have hboth : ScannedRows (rows ++ tiles.flatten) :=
            List.forall_mem_append.mpr ⟨hrows, scanBlock_scannedRows htiles⟩
          rw [← scanBlock_ids htiles, ← List.map_append] at hids
          obtain ⟨next, hnext, hcollected⟩ := collectBlock_collected hpos h htiles hboth
            (hids.sublist (List.sublist_append_left _ _))
          obtain ⟨hok, herror⟩ := ih hcollected hboth hids
          rw [hall, ok_bind, hnext, ok_bind]
          constructor
          · intro outputs houtputs
            obtain ⟨others, hothers, houtputs⟩ := bind_eq_ok.mp houtputs
            rw [← Except.ok.inj houtputs, List.flatten_cons, ← List.append_assoc]
            exact hok others hothers
          · intro error hrest
            rcases bind_eq_error.mp hrest with hrest | ⟨others, -, hnone⟩
            · exact herror error hrest
            · cases hnone

/-- The limit of the collector: with no cap, all rows. -/
theorem exists_collected (h : SelectionParameters topk zScore maxCandidates)
    (count : ℕ) :
    ∃ start, FusedIntervalAccumulator.create false topk zScore maxCandidates = .ok start ∧
      Collected (if maxCandidates = 0 then count else maxCandidates) topk zScore maxCandidates []
        start := by
  have hsign : Ieee.lt zScore Ieee.zero = false := decide_eq_false h.sign
  obtain ⟨start, hstart⟩ := FusedIntervalAccumulator.create_ok false h.topk_pos h.finite.1
    h.finite.2 hsign h.cap h.room
  exact ⟨start, hstart, (FusedIntervalAccumulator.create_scanned hstart fun hcap =>
    (if_neg hcap.ne').symm).2⟩

/-- What `scan_all` throws on a block, the interval scan throws. -/
theorem scanIntervalCandidates_throws (h : SelectionParameters topk zScore maxCandidates)
    {blocks : List CodeBlockView} (hids : (blocks.flatMap CodeBlockView.rowIds).Nodup)
    {error : Error} (herror : blocks.mapM (scanner.scanAll faiss mode query) = .error error) :
    scanner.scanIntervalCandidates faiss mode query blocks topk zScore maxCandidates =
      .error error := by
  obtain ⟨start, hstart, hcollected⟩ := exists_collected h 0
  have hscan := (@collectBlocks scanner faiss mode query _ _ _ _ _ _ h.topk_pos hcollected nofun _
    hids).2 error herror
  rw [scanIntervalCandidates, hstart, ok_bind, hscan, error_bind]

/-- The interval scan of the blocks is the selection of the rows `scan_all` returns,
in any order of them. -/
theorem scanIntervalCandidates_selects (h : SelectionParameters topk zScore maxCandidates)
    {blocks : List CodeBlockView} (hids : (blocks.flatMap CodeBlockView.rowIds).Nodup)
    {outputs : List (List (DistanceEstimate Float32))}
    (houtputs : blocks.mapM (scanner.scanAll faiss mode query) = .ok outputs)
    (hperm : rows.Perm outputs.flatten) :
    SameSelection
      (scanner.scanIntervalCandidates faiss mode query blocks topk zScore maxCandidates)
      (intervalSelection topk zScore maxCandidates rows) := by
  obtain ⟨start, hstart, hcollected⟩ := exists_collected h outputs.flatten.length
  obtain ⟨hrows, hdistinct, final, hfinal, hscanned⟩ := (@collectBlocks scanner faiss mode query _ _ _
    _ _ _ h.topk_pos hcollected nofun _ hids).1 outputs houtputs
  rw [List.nil_append] at hrows hdistinct hscanned
  rw [scanIntervalCandidates, hstart, ok_bind, hfinal, ok_bind]
  exact hscanned.finish_eq float32_numbers h.topk_pos rfl (hrows.scannable hdistinct zScore) hperm

/-- The interval scan and `scan_all` followed by the selection. -/
theorem scanIntervalCandidates_same (h : SelectionParameters topk zScore maxCandidates)
    {blocks : List CodeBlockView} (hids : (blocks.flatMap CodeBlockView.rowIds).Nodup) :
    SameSelection
      (scanner.scanIntervalCandidates faiss mode query blocks topk zScore maxCandidates)
      (do
        let outputs ← blocks.mapM (scanner.scanAll faiss mode query)
        intervalSelection topk zScore maxCandidates outputs.flatten) := by
  cases houtputs : blocks.mapM (scanner.scanAll faiss mode query) with
  | error error =>
      rw [scanIntervalCandidates_throws h hids houtputs, error_bind]
      rfl
  | ok outputs =>
      rw [ok_bind]
      exact scanIntervalCandidates_selects h hids houtputs (List.Perm.refl _)

/-- The interval scan against `scan_all` followed by two sorts, for all blocks with
pairwise distinct row IDs: the same candidates and the same exceptions, however
the rows are split into blocks and in whatever order. -/
theorem interval_scan_is_selection (h : SelectionParameters topk zScore maxCandidates)
    {blocks : List CodeBlockView} (hids : (blocks.flatMap CodeBlockView.rowIds).Nodup) :
    SameSelection
        (scanner.scanIntervalCandidates faiss mode query blocks topk zScore maxCandidates)
        (do
          let outputs ← blocks.mapM (scanner.scanAll faiss mode query)
          intervalSelection topk zScore maxCandidates outputs.flatten) ∧
      ∀ outputs, blocks.mapM (scanner.scanAll faiss mode query) = .ok outputs →
        ∀ rows, rows.Perm outputs.flatten → SameSelection
          (scanner.scanIntervalCandidates faiss mode query blocks topk zScore maxCandidates)
          (intervalSelection topk zScore maxCandidates rows) :=
  ⟨scanIntervalCandidates_same h hids,
    fun _ houtputs _ => scanIntervalCandidates_selects h hids houtputs⟩

/-- A scanner of the quantizer of the plane. -/
def planarScanner : RecastFastScanner where
  quantizer := planarQuantizer
  trained := planarQuantizer_trained
  layout := .oneByte
  layout_eq := congrArg QuantizerConfig.subquantizers planarQuantizer_config.symm

/-- The query `(3, 7)`: centered, rotated, and multiplied with the centroids. -/
def planarQuery : QueryContext Float32 :=
  ⟨[0, 2], [2, 0], (List.replicate 4 [2, -2, 0, 0]).flatten ++ List.replicate 16 0, 2, 4, 0⟩

/-- A view of three rows with codes that differ. -/
def threeRows (implicitIdBase : UInt32) : CodeBlockView where
  packedCodes := some ((List.range 32).map fun i => UInt8.ofNat (37 * i))
  packedMetadata := some (List.replicate 96 100)
  ids := none
  size := 3
  paddedSize := 32
  blockSize := 32
  implicitIdBase := implicitIdBase

/-- Two blocks of three rows, of which four are kept. -/
theorem interval_scan_is_selection_six :
    SameSelection
      (planarScanner.scanIntervalCandidates ⟨fun _ _ => ([], 1, 0), fun _ _ _ _ => []⟩ .scalarFloat
        planarQuery [threeRows 0, threeRows 3] 2 1 4)
      (do
        let outputs ← [threeRows 0, threeRows 3].mapM (planarScanner.scanAll
          ⟨fun _ _ => ([], 1, 0), fun _ _ _ _ => []⟩ .scalarFloat planarQuery)
        intervalSelection 2 1 4 outputs.flatten) :=
  (interval_scan_is_selection ⟨by decide, by decide, by decide, by decide, by decide⟩
    (by decide)).1

end RecastFastScanner

end Recast
