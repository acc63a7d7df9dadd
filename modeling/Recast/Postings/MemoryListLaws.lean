import Recast.Postings.MemoryList
import Recast.Postings.PackingLaws
import Mathlib.Data.List.GetD

/-!
# What resident lists hold

Each update of a resident list is the corresponding operation on the list of
its postings, for any buffer capacity; the lanes past the rows stay empty.
-/

namespace Recast

open Foundation

theorem roundUpBlock_eq (rows : Nat) : roundUpBlock rows = (rows + 31) / 32 * 32 := rfl

theorem le_roundUpBlock (rows : Nat) : rows ≤ roundUpBlock rows := by
  rw [roundUpBlock_eq]
  omega

theorem roundUpBlock_blocks (rows : Nat) : roundUpBlock rows = roundUpBlock rows / 32 * 32 := by
  rw [roundUpBlock_eq]
  omega

theorem roundUpBlock_le_iff {rows blocks : Nat} : roundUpBlock rows ≤ blocks * 32 ↔ rows ≤ blocks * 32 := by
  rw [roundUpBlock_eq]
  omega

theorem roundUpBlock_mono {rows rows' : Nat} (h : rows ≤ rows') :
    roundUpBlock rows ≤ roundUpBlock rows' := by
  rw [roundUpBlock_eq, roundUpBlock_eq]
  omega

namespace MemoryList

variable {layout : CodeLayout}

/-- The buffers have `blocks` whole blocks, whose lanes hold the postings and
are empty after them; all sizes stay addressable. -/
structure Holds (layout : CodeLayout) (list : MemoryList) (postings : List (Posting layout))
    (blocks : Nat) : Prop where
  codes_length : list.packedCodes.length = blocks * layout.blockBytes
  metadata_length : list.packedMetadata.length = blocks * 96
  lanes : Lanes (list.posting layout) (Posting.empty layout) (blocks * 32) postings
  size : list.logicalSize = postings.length
  padded : list.paddedSize = paddedTo postings.length
  codes_le : blocks * layout.blockBytes ≤ sizeMax
  size_le : postings.length ≤ uint32Max
  blocks_le : blocks * 32 ≤ 2 ^ 32

theorem holds_empty (layout : CodeLayout) : Holds layout empty [] 0 where
  codes_length := by simp [empty]
  metadata_length := by simp [empty]
  lanes := ⟨by simp, by simp⟩
  size := rfl
  padded := by simp [empty, paddedTo, roundUpBlock, kUpdateBlockSize]
  codes_le := by simp
  size_le := by simp
  blocks_le := by simp

variable {list : MemoryList} {postings : List (Posting layout)} {blocks : Nat}

theorem Holds.posting_lt (hholds : Holds layout list postings blocks) {row : Nat}
    (h : row < postings.length) : list.posting layout row = postings[row] :=
  hholds.lanes.lane_lt h

theorem Holds.code_zero (hholds : Holds layout list postings blocks) {row : Nat}
    (h : postings.length ≤ row) (hrow : row < blocks * 32) :
    layout.unpackRow list.packedCodes row = Code.zero layout :=
  congrArg Posting.code (hholds.lanes.lane_empty h hrow)

theorem Holds.metadata_empty (hholds : Holds layout list postings blocks) {row : Nat}
    (h : postings.length ≤ row) (hrow : row < blocks * 32) :
    Metadata.load list.packedMetadata row = Metadata.empty :=
  congrArg Posting.metadata (hholds.lanes.lane_empty h hrow)

/-- Two lists with the same postings agree on the lanes they share. -/
theorem Holds.posting_eq {list' : MemoryList} {blocks' : Nat}
    (hholds : Holds layout list postings blocks) (hholds' : Holds layout list' postings blocks')
    {row : Nat} (hrow : row < blocks * 32) (hrow' : row < blocks' * 32) :
    list'.posting layout row = list.posting layout row := by
  rw [hholds.lanes.lane row hrow, hholds'.lanes.lane row hrow']

/-- Buffers of the same number of blocks with the same lanes are the same. -/
theorem Holds.unique {list' : MemoryList} (hholds : Holds layout list postings blocks)
    (hholds' : Holds layout list' postings blocks) : list = list' := by
  have hlane : ∀ row < blocks * 32, list.posting layout row = list'.posting layout row :=
    fun row hrow => (hholds.lanes.lane row hrow).trans (hholds'.lanes.lane row hrow).symm
  have hcodes : list.packedCodes = list'.packedCodes :=
    CodeLayout.packed_ext hholds.codes_length hholds'.codes_length fun row hrow =>
      congrArg Posting.code (hlane row hrow)
  have hmetadata : list.packedMetadata = list'.packedMetadata :=
    Metadata.packed_ext hholds.metadata_length hholds'.metadata_length fun row hrow =>
      congrArg Posting.metadata (hlane row hrow)
  cases list
  cases list'
  have hsize := hholds.size.trans hholds'.size.symm
  have hpadded := hholds.padded.trans hholds'.padded.symm
  dsimp only at hcodes hmetadata hsize hpadded
  rw [hcodes, hmetadata, hsize, hpadded]
theorem blocks_codes_le (layout : CodeLayout) {rows blocks : Nat} (hroom : rows ≤ blocks * 32) :
    roundUpBlock rows * layout.codeSize ≤ blocks * layout.blockBytes := by
  have h := Nat.mul_le_mul_right layout.codeSize (roundUpBlock_le_iff.mpr hroom)
  rwa [Nat.mul_assoc, ← layout.blockBytes_eq] at h

/-- The emptiness check passes on the lanes past the rows. -/
theorem Holds.validateEmptyCodes (hholds : Holds layout list postings blocks) {last : Nat}
    (hfirst : postings.length ≤ last) (hlast : last ≤ blocks * 32) :
    layout.validateEmptyCodes list.logicalSize last list.packedCodes = .ok () := by
  have hcodes := hholds.codes_le
  have hlength := hholds.codes_length
  have hneeded := blocks_codes_le layout hlast
  have hblocks := hholds.blocks_le
  rw [hholds.size, CodeLayout.validateEmptyCodes, if_neg (by omega)]
  split
  next => rfl
  next =>
    have hbig : ¬ sizeMax - (kUpdateBlockSize - 1) < last := by
      unfold sizeMax kUpdateBlockSize
      omega
    rw [if_neg hbig]
    dsimp only
    rw [if_neg (by omega), if_neg (by omega), if_pos]
    rw [CodeLayout.lanesEmpty_iff]
    intro row hlow hhigh
    exact hholds.code_zero hlow (by omega)

theorem Holds.validateEmptyMetadata (hholds : Holds layout list postings blocks) {last : Nat}
    (hfirst : postings.length ≤ last) (hlast : last ≤ blocks * 32) :
    Metadata.validateEmptyRange list.logicalSize last list.packedMetadata = .ok () := by
  have hlength := hholds.metadata_length
  have hneeded := roundUpBlock_le_iff.mpr hlast
  have hblocks := hholds.blocks_le
  rw [hholds.size, Metadata.validateEmptyRange, if_neg (by omega)]
  split
  next => rfl
  next =>
    have hbig : ¬ sizeMax - (kUpdateBlockSize - 1) < last := by
      unfold sizeMax kUpdateBlockSize
      omega
    have hfits : ¬ sizeMax < roundUpBlock last * 3 := by
      unfold sizeMax
      omega
    rw [if_neg hbig]
    dsimp only
    rw [if_neg hfits, if_neg (by omega), if_pos]
    simp only [List.all_eq_true, List.mem_range'_1, beq_iff_eq]
    intro row hrow
    exact hholds.metadata_empty hrow.1 (by omega)

/-! ### Insertion -/

/-- Whether the reservation for `appendCount` more rows is in range. -/
def CanReserve (layout : CodeLayout) (size appendCount : Nat) : Prop :=
  size + appendCount ≤ uint32Max ∧ roundUpBlock (size + appendCount) * layout.codeSize ≤ sizeMax

instance (size appendCount : Nat) : Decidable (CanReserve layout size appendCount) :=
  inferInstanceAs (Decidable (_ ∧ _))

/-- The error of a reservation out of range. -/
def reserveError (size appendCount : Nat) : Error :=
  if uint32Max < size + appendCount then .overflow "external IVF list exceeds uint32 offsets"
  else .overflow "packed external list code size overflows"

/-- A reservation in range changes the capacity only; one out of range changes
nothing. -/
theorem Holds.reserve (hholds : Holds layout list postings blocks) (appendCount : Nat)
    (hcount : postings.length + appendCount ≤ sizeMax) :
    if CanReserve layout postings.length appendCount then
      (list.reserve layout appendCount).2 = .ok () ∧
        Holds layout (list.reserve layout appendCount).1 postings
          (roundUpBlock (postings.length + appendCount) / 32)
    else list.reserve layout appendCount =
      (list, .error (reserveError postings.length appendCount)) := by
  have hsize := hholds.size
  split
  next hcan =>
    obtain ⟨hfits, hcapacity⟩ := hcan
    have hround := roundUpBlock_blocks (postings.length + appendCount)
    have hcodes : roundUpBlock (postings.length + appendCount) * layout.codeSize =
        roundUpBlock (postings.length + appendCount) / 32 * layout.blockBytes := by
      rw [layout.blockBytes_eq, ← Nat.mul_assoc, ← hround]
    have hmetadata : roundUpBlock (postings.length + appendCount) * 3 =
        roundUpBlock (postings.length + appendCount) / 32 * 96 := by omega
    have hroom := le_roundUpBlock (postings.length + appendCount)
    let reserved : MemoryList := ⟨
      resize 0 list.packedCodes (roundUpBlock (postings.length + appendCount) * layout.codeSize),
      resize 255 list.packedMetadata (roundUpBlock (postings.length + appendCount) * 3),
      postings.length, list.paddedSize⟩
    have hreserved : Holds layout reserved postings
        (roundUpBlock (postings.length + appendCount) / 32) := by
      constructor
      · rw [← hcodes]
        exact length_resize _ _ _
      · rw [← hmetadata]
        exact length_resize _ _ _
      · -- lanes of the old blocks keep their bytes, lanes of the new ones are empty
        refine ⟨by omega, fun row hrow => ?_⟩
        have hread : reserved.posting layout row =
            if row < blocks * 32 then list.posting layout row else Posting.empty layout := by
          simp only [posting, reserved, hcodes, hmetadata]
          rw [CodeLayout.unpackRow_resize hholds.codes_length hrow,
            Metadata.load_resize hholds.metadata_length hrow]
          split <;> rfl
        rw [hread]
        split
        next hold => exact hholds.lanes.lane row hold
        next hnew =>
          have := hholds.lanes.room
          rw [List.getD_eq_getElem?_getD, List.getElem?_eq_none (by omega)]
          rfl
      · rfl
      · exact hholds.padded
      · rwa [← hcodes]
      · exact hholds.size_le
      · rw [← hround, roundUpBlock_eq]
        unfold uint32Max at hfits
        omega
    have hunfold : list.reserve layout appendCount = (reserved, do
        layout.validateEmptyCodes reserved.logicalSize (postings.length + appendCount)
          reserved.packedCodes
        Metadata.validateEmptyRange reserved.logicalSize (postings.length + appendCount)
          reserved.packedMetadata) := by
      simp only [MemoryList.reserve, hsize]
      rw [if_neg (by omega), if_neg (by omega), if_neg (by omega)]
    rw [hunfold]
    refine ⟨?_, hreserved⟩
    rw [hreserved.validateEmptyCodes (by omega) (by omega), ok_bind,
      hreserved.validateEmptyMetadata (by omega) (by omega)]
  -- over a cap, `reserve` throws before it writes
  next hcan =>
    simp only [MemoryList.reserve, hsize, reserveError]
    rw [if_neg (by omega)]
    split
    next => rfl
    next hfits =>
      have hcapacity : sizeMax < roundUpBlock (postings.length + appendCount) * layout.codeSize :=
        Nat.not_le.mp fun h => hcan ⟨by omega, h⟩
      rw [if_pos hcapacity]

/-- Appending into reserved lanes extends the list. -/
theorem Holds.append (hholds : Holds layout list postings blocks) {added : List (Posting layout)}
    (hroom : postings.length + added.length ≤ blocks * 32)
    (hsize : postings.length + added.length ≤ uint32Max) :
    (list.append added).2 = .ok () ∧
      Holds layout (list.append added).1 (postings ++ added) blocks := by
  have hlast : postings.length ≤ postings.length + added.length := by omega
  have hcodes := hholds.codes_le
  have hneeded := blocks_codes_le layout hroom
  have hround := le_roundUpBlock (postings.length + added.length)
  have hflat : added.length * layout.codeSize ≤ sizeMax := by
    have := Nat.mul_le_mul_right layout.codeSize
      (by omega : added.length ≤ roundUpBlock (postings.length + added.length))
    omega
  have hsource : added.length * 3 ≤ sizeMax := by
    unfold uint32Max at hsize
    unfold sizeMax
    omega
  have hemptyCodes := hholds.validateEmptyCodes hlast hroom
  have hemptyMetadata := hholds.validateEmptyMetadata hlast hroom
  rw [hholds.size] at hemptyCodes hemptyMetadata
  have happendCodes : layout.appendFlatCodes (added.map (·.code)) postings.length
      (postings.length + added.length) list.packedCodes =
        .ok (layout.packCodesRange (added.map (·.code)) postings.length list.packedCodes) := by
    simp only [CodeLayout.appendFlatCodes, Nat.add_sub_cancel_left, List.length_map]
    rw [if_neg (by omega), if_neg (by omega), if_neg (by simp)]
    split
    next hzero =>
      rw [List.eq_nil_of_length_eq_zero hzero]
      rfl
    next => rw [hemptyCodes, ok_bind, pure_eq_ok]
  have happendMetadata : Metadata.writeRange (added.map (·.metadata)) postings.length
      (postings.length + added.length) list.packedMetadata =
        .ok (Metadata.storeRows (added.map (·.metadata)) postings.length list.packedMetadata) := by
    simp only [Metadata.writeRange, Nat.add_sub_cancel_left, List.length_map]
    rw [if_neg (by omega)]
    split
    next hnil => rw [hnil]; rfl
    next =>
      rw [if_neg (by omega), hemptyMetadata, ok_bind, pure_eq_ok]
  have hcodeLanes := CodeLayout.packCodesRange_lanes hholds.codes_length
    (hholds.lanes.map Posting.code) (by simpa using hroom : _ + (added.map (·.code)).length ≤ _)
  have hmetadataLanes := Metadata.storeRows_lanes hholds.metadata_length
    (hholds.lanes.map Posting.metadata)
    (by simpa using hroom : _ + (added.map (·.metadata)).length ≤ _)
  rw [List.length_map, ← List.map_append] at hcodeLanes hmetadataLanes
  have happend : list.append added = (⟨layout.packCodesRange (added.map (·.code)) postings.length
      list.packedCodes, Metadata.storeRows (added.map (·.metadata)) postings.length
      list.packedMetadata, postings.length + added.length,
      paddedTo (postings.length + added.length)⟩, .ok ()) := by
    simp only [MemoryList.append, hholds.size, happendCodes, happendMetadata]
  rw [happend]
  refine ⟨rfl, hcodeLanes.1, hmetadataLanes.1, ?_, ?_, ?_, hcodes, ?_, hholds.blocks_le⟩
  · exact Lanes.zip (fun _ => rfl) hcodeLanes.2 hmetadataLanes.2
  · exact List.length_append.symm
  · rw [List.length_append]
  · rwa [List.length_append]

/-! ### Deletion -/

/-- Every unpacked block has one entry for each lane. -/
def BlockSized (scratch : Nat → BlockScratch layout) (loaded : List Nat) : Prop :=
  ∀ block ∈ loaded, (scratch block).codes.length = 32 ∧ (scratch block).metadata.length = 32

theorem setScratchRow_sized {scratch : Nat → BlockScratch layout} {loaded : List Nat}
    (hsized : BlockSized scratch loaded) (row : Nat) (posting : Posting layout) :
    BlockSized (setScratchRow scratch row posting) loaded := by
  intro block hblock
  rw [setScratchRow]
  by_cases heq : block = row / kUpdateBlockSize
  · rw [heq, Function.update_self, BlockScratch.setLane, List.length_set, List.length_set, ← heq]
    exact hsized block hblock
  · rw [Function.update_of_ne heq]
    exact hsized block hblock

theorem scratchRow_setScratchRow {scratch : Nat → BlockScratch layout} {loaded : List Nat}
    (hsized : BlockSized scratch loaded) {row : Nat} (hrow : row / 32 ∈ loaded)
    (posting : Posting layout) (other : Nat) :
    scratchRow (setScratchRow scratch row posting) other =
      Function.update (scratchRow scratch) row posting other := by
  have hlane : row % kUpdateBlockSize < 32 := Nat.mod_lt _ (by decide)
  obtain ⟨hcodes, hmetadata⟩ := hsized _ hrow
  have hblock : row / 32 = row / kUpdateBlockSize := rfl
  rw [hblock] at hcodes hmetadata
  by_cases hsame : other / kUpdateBlockSize = row / kUpdateBlockSize
  · rw [scratchRow, setScratchRow, hsame, Function.update_self, BlockScratch.lane,
      BlockScratch.setLane, getD_set _ (by rw [hcodes]; exact hlane),
      getD_set _ (by rw [hmetadata]; exact hlane)]
    by_cases heq : other = row
    · rw [heq, Function.update_self, if_pos rfl, if_pos rfl]
    · have hne : other % kUpdateBlockSize ≠ row % kUpdateBlockSize := by
        unfold kUpdateBlockSize at hsame ⊢
        omega
      rw [Function.update_of_ne heq, if_neg hne, if_neg hne, scratchRow, hsame, BlockScratch.lane]
  · have hne : other ≠ row := fun h => hsame (by rw [h])
    rw [scratchRow, setScratchRow, Function.update_of_ne hsame, Function.update_of_ne hne, scratchRow]

/-- Writing a batch of rows into the unpacked blocks. -/
theorem scratchRow_foldl {scratch : Nat → BlockScratch layout} {loaded : List Nat}
    (hsized : BlockSized scratch loaded) (updates : List (Nat × Posting layout))
    (hupdates : ∀ update ∈ updates, update.1 / 32 ∈ loaded) :
    BlockSized (updates.foldl (fun scratch update => setScratchRow scratch update.1 update.2) scratch)
        loaded ∧
      ∀ row, scratchRow
        (updates.foldl (fun scratch update => setScratchRow scratch update.1 update.2) scratch) row =
          applyUpdates (scratchRow scratch) updates row :=
  @read_foldl_write Nat (Posting layout) _ (Nat → BlockScratch layout) scratchRow setScratchRow
    (BlockSized · loaded) (fun row _ => row / 32 ∈ loaded)
    (fun _ row posting hsized h => ⟨setScratchRow_sized hsized row posting,
      scratchRow_setScratchRow hsized h posting⟩)
    updates hupdates scratch hsized

/-- The updated blocks: moved rows below the new end, empty lanes past it. -/
theorem scratchRow_updateBlocks {original : Nat → BlockScratch layout} {loaded : List Nat}
    (hsized : BlockSized original loaded) {oldSize newSize : Nat} {moves : List (Nat × Nat)}
    (hmoves : ∀ move ∈ moves, move.1 / 32 ∈ loaded)
    (hcleared : ∀ row, newSize ≤ row → row < oldSize → row / 32 ∈ loaded) (row : Nat) :
    BlockSized (updateBlocks original oldSize newSize moves) loaded ∧
    scratchRow (updateBlocks original oldSize newSize moves) row =
      if newSize ≤ row ∧ row < oldSize then Posting.empty layout
      else scratchRow original (applyUpdates id moves row) := by
  have hmoved := scratchRow_foldl hsized
    (moves.map fun move => (move.1, scratchRow original move.2)) (by
      intro update hupdate
      obtain ⟨move, hmove, rfl⟩ := List.mem_map.mp hupdate
      exact hmoves move hmove)
  have hempty := scratchRow_foldl hmoved.1
    ((List.range' newSize (oldSize - newSize)).map fun row => (row, Posting.empty layout))
    (by
      intro update hupdate
      obtain ⟨row, hrow, rfl⟩ := List.mem_map.mp hupdate
      rw [List.mem_range'_1] at hrow
      exact hcleared row hrow.1 (by omega))
  rw [List.foldl_map, List.foldl_map] at hempty
  rw [List.foldl_map] at hmoved
  refine ⟨hempty.1, (hempty.2 row).trans ?_⟩
  have hkeys : ((List.range' newSize (oldSize - newSize)).map fun row =>
      (row, Posting.empty layout)).map Prod.fst = List.range' newSize (oldSize - newSize) := by
    rw [List.map_map]
    exact List.map_id _
  split
  next hpast =>
    apply applyUpdates_of_mem _ (by rw [hkeys]; exact List.nodup_range')
    exact List.mem_map.mpr ⟨row, List.mem_range'_1.mpr ⟨hpast.1, by omega⟩, rfl⟩
  next hkept =>
    rw [applyUpdates_of_notMem _ (by rw [hkeys, List.mem_range'_1]; omega), hmoved.2 row]
    exact applyUpdates_comp (scratchRow original) id moves row

/-- The unpacked blocks show the postings of the list. -/
def Unpacked (list : MemoryList) (scratch : Nat → BlockScratch layout) (loaded : List Nat) : Prop :=
  BlockSized scratch loaded ∧ ∀ row, row / 32 ∈ loaded → scratchRow scratch row = list.posting layout row

theorem Holds.loadBlock (hholds : Holds layout list postings blocks) {block : Nat}
    (hblock : block < blocks) :
    ∃ loaded, list.loadBlock layout block = .ok loaded ∧ loaded.codes.length = 32 ∧
      loaded.metadata.length = 32 ∧
      ∀ lane < 32, loaded.lane lane = list.posting layout (block * 32 + lane) := by
  have hend := layout.block_end_le hblock
  have hcodes := hholds.codes_le
  have hlength := hholds.codes_length
  have hmetadata := hholds.metadata_length
  have hblocks := hholds.blocks_le
  have hmetadataBlock : Metadata.kMetadataBlockBytes = 96 := rfl
  have hmetadataOffset : block * Metadata.kMetadataBlockBytes = block * 96 := rfl
  rw [MemoryList.loadBlock]
  rw [if_neg (by omega), if_neg (by unfold sizeMax; omega), if_neg (by omega)]
  refine ⟨_, rfl, by simp [CodeLayout.unpackFlatBlock, kUpdateBlockSize],
    by simp [Metadata.unpackBlock, kUpdateBlockSize], fun lane hlane => ?_⟩
  have hlt : lane < kUpdateBlockSize := hlane
  have hcode : (layout.unpackFlatBlock (slice list.packedCodes (block * layout.blockBytes)
      layout.blockBytes)).getD lane (Code.zero layout) =
        layout.unpackRow list.packedCodes (block * 32 + lane) := by
    rw [CodeLayout.unpackFlatBlock, List.getD_eq_getElem?_getD, List.getElem?_map,
      List.getElem?_range hlt,
      ← CodeLayout.unpackRow_slice _ _ hlane]
    rfl
  have hmeta : (Metadata.unpackBlock (slice list.packedMetadata
      (block * Metadata.kMetadataBlockBytes) Metadata.kMetadataBlockBytes)).getD lane
        Metadata.empty = Metadata.load list.packedMetadata (block * 32 + lane) := by
    rw [Metadata.unpackBlock, List.getD_eq_getElem?_getD, List.getElem?_map,
      List.getElem?_range hlt, ← Metadata.load_slice _ _ hlane]
    rfl
  rw [BlockScratch.lane, hcode, hmeta, posting]

theorem Holds.loadBlocks (hholds : Holds layout list postings blocks) {needed loaded : List Nat}
    (hneeded : ∀ block ∈ needed, block < blocks) {scratch : Nat → BlockScratch layout}
    (hunpacked : list.Unpacked scratch loaded) :
    ∃ scratch', list.loadBlocks needed scratch = .ok scratch' ∧
      list.Unpacked scratch' (loaded ++ needed) := by
  induction needed generalizing loaded scratch with
  | nil => exact ⟨scratch, rfl, by rwa [List.append_nil]⟩
  | cons block rest ih =>
      obtain ⟨unpacked, hload, hcodes, hmetadata, hlanes⟩ :=
        hholds.loadBlock (hneeded block List.mem_cons_self)
      obtain ⟨scratch', hrest, hall⟩ := @ih (loaded ++ [block])
        (fun block h => hneeded block (List.mem_cons_of_mem _ h))
        (Function.update scratch block unpacked) (by
          constructor
          · intro other hother
            by_cases heq : other = block
            · rw [heq, Function.update_self]
              exact ⟨hcodes, hmetadata⟩
            · rw [Function.update_of_ne heq]
              exact hunpacked.1 other (by simpa [heq] using hother)
          · intro row hrow
            rw [scratchRow]
            by_cases heq : row / kUpdateBlockSize = block
            · have hlane : row % kUpdateBlockSize < 32 := Nat.mod_lt _ (by decide)
              rw [heq, Function.update_self]
              refine (hlanes _ hlane).trans ?_
              congr 1
              unfold kUpdateBlockSize at heq ⊢
              omega
            · rw [Function.update_of_ne heq]
              have hold : row / 32 ∈ loaded := by
                have : row / 32 ≠ block := heq
                simpa [this] using hrow
              exact hunpacked.2 row hold)
      refine ⟨scratch', ?_, by simpa using hall⟩
      rw [MemoryList.loadBlocks, hload, ok_bind, hrest]

/-- Writing a block back replaces its lanes and no others. -/
theorem storeBlock_spec {list : MemoryList} (hcodes : list.packedCodes.length = blocks * layout.blockBytes)
    (hmetadata : list.packedMetadata.length = blocks * 96) {index : Nat} (hindex : index < blocks)
    {block : BlockScratch layout} (hsized : block.metadata.length = 32) :
    (list.storeBlock index block).packedCodes.length = blocks * layout.blockBytes ∧
      (list.storeBlock index block).packedMetadata.length = blocks * 96 ∧
      ∀ row, (list.storeBlock index block).posting layout row =
        if row / 32 = index then block.lane (row % 32) else list.posting layout row := by
  have hend := layout.block_end_le hindex
  have hsource : (slice list.packedCodes (index * layout.blockBytes) layout.blockBytes).length =
      layout.blockBytes := length_slice_of_le (by omega)
  obtain ⟨hlength, hrows⟩ := CodeLayout.unpackRow_rewriteFlatBlock hsource block.codes
  have hpacked := @Metadata.packBlocks_lanes 1 block.metadata (by rw [hsized])
  rw [Nat.one_mul] at hpacked
  have hmetadataBlock : index * Metadata.kMetadataBlockBytes = index * 96 := rfl
  have hrewritten : (Metadata.rewriteBlock block.metadata).length = 96 := hpacked.1
  refine ⟨?_, ?_, fun row => ?_⟩
  · rw [storeBlock, length_splice_of_le (by omega), hcodes]
  · rw [storeBlock, length_splice_of_le (by rw [hrewritten]; omega), hmetadata]
  · rw [posting, storeBlock, CodeLayout.unpackRow_splice hcodes hindex hlength,
      Metadata.load_splice hmetadata hindex hrewritten]
    have hlane : row % 32 < 32 := Nat.mod_lt _ (by norm_num)
    split
    · rw [hrows _ hlane, BlockScratch.lane]
      congr 1
      exact hpacked.2.lane _ (by omega)
    · rfl

theorem storeBlocks_spec {affected : List Nat} {scratch : Nat → BlockScratch layout}
    (hsized : BlockSized scratch affected) (haffected : ∀ block ∈ affected, block < blocks)
    {list : MemoryList} (hcodes : list.packedCodes.length = blocks * layout.blockBytes)
    (hmetadata : list.packedMetadata.length = blocks * 96) :
    let stored := affected.foldl (fun list index => list.storeBlock index (scratch index)) list
    stored.packedCodes.length = blocks * layout.blockBytes ∧
      stored.packedMetadata.length = blocks * 96 ∧
      ∀ row, stored.posting layout row =
        if row / 32 ∈ affected then scratchRow scratch row else list.posting layout row := by
  induction affected generalizing list with
  | nil => exact ⟨hcodes, hmetadata, fun row => by simp⟩
  | cons index rest ih =>
      obtain ⟨hcodes', hmetadata', hrows⟩ := storeBlock_spec hcodes hmetadata
        (haffected index List.mem_cons_self) (hsized index List.mem_cons_self).2
      obtain ⟨hcodes'', hmetadata'', hrest⟩ := ih
        (fun block h => hsized block (List.mem_cons_of_mem _ h))
        (fun block h => haffected block (List.mem_cons_of_mem _ h)) hcodes' hmetadata'
      refine ⟨hcodes'', hmetadata'', fun row => (hrest row).trans ?_⟩
      by_cases hlater : row / 32 ∈ rest
      · rw [if_pos hlater, if_pos (List.mem_cons_of_mem _ hlater)]
      · rw [if_neg hlater, hrows row]
        by_cases heq : row / 32 = index
        · rw [if_pos heq, if_pos (by rw [heq]; exact List.mem_cons_self), ← heq]
          rfl
        · rw [if_neg heq, if_neg (by simp [heq, hlater])]

theorem mem_affectedBlocks {oldSize newSize block : Nat} {holes : List Nat} :
    block ∈ affectedBlocks oldSize newSize holes ↔ (∃ hole ∈ holes, hole / 32 = block) ∨
      newSize < oldSize ∧ newSize / 32 ≤ block ∧ block ≤ (oldSize - 1) / 32 := by
  have hrange : ∀ first last, block ∈ List.range' first (last + 1 - first) ↔
      first ≤ block ∧ block ≤ last := by
    intro first last
    rw [List.mem_range'_1]
    omega
  simp only [affectedBlocks, List.mem_insertionSort, List.mem_dedup, List.mem_append, List.mem_map,
    kUpdateBlockSize]
  split
  next h => rw [hrange]; simp [h]
  next h => simp [h]

/-- Deleting positions of the list: the packed preparation succeeds, and
writing it back leaves the survivors. -/
theorem Holds.delete (hholds : Holds layout list postings blocks) {deleted : List Nat}
    (hnodup : deleted.Nodup) (hin : ∀ p ∈ deleted, p < postings.length) :
    ∃ prepared, list.prepareBlocks layout postings.length (postings.length - deleted.length)
        ((holes (postings.length - deleted.length) deleted).zip
          (sources postings.length (postings.length - deleted.length) deleted)) = .ok prepared ∧
      Holds layout (list.rewrite (postings.length - deleted.length) prepared)
        (swapDelete postings deleted) blocks := by
  have hroom := hholds.lanes.room
  let newSize := postings.length - deleted.length
  let moves := (holes newSize deleted).zip (sources postings.length newSize deleted)
  have hkeys : moves.map Prod.fst = holes newSize deleted :=
    List.map_fst_zip (Nat.le_of_eq (length_holes_eq_sources hnodup hin))
  let affected := affectedBlocks postings.length newSize (moves.map Prod.fst)
  -- the affected blocks hold every hole and every lane given up
  have hhole : ∀ hole ∈ holes newSize deleted, hole < newSize := fun hole h => (mem_holes.mp h).2
  have hbound : ∀ block ∈ affected, block < blocks := by
    intro block hblock
    rcases mem_affectedBlocks.mp hblock with ⟨hole, hmem, rfl⟩ | ⟨hlt, _, hlast⟩
    · rw [hkeys] at hmem
      have := hhole hole hmem
      omega
    · omega
  have hmoves : ∀ move ∈ moves, move.1 / 32 ∈ affected := fun move hmove =>
    mem_affectedBlocks.mpr (Or.inl ⟨move.1, List.mem_map_of_mem hmove, rfl⟩)
  have hcleared : ∀ row, newSize ≤ row → row < postings.length → row / 32 ∈ affected :=
    fun row hlow hhigh => mem_affectedBlocks.mpr (Or.inr (by omega))
  obtain ⟨original, hload, hsized, horiginal⟩ := @Holds.loadBlocks _ _ _ _
    hholds _ [] hbound (fun _ => ⟨[], []⟩) ⟨by simp [BlockSized], by simp⟩
  rw [List.nil_append] at hsized horiginal
  refine ⟨⟨affected, updateBlocks original postings.length newSize moves⟩, ?_, ?_⟩
  · rw [prepareBlocks, hload]
    rfl
  have hupdated := scratchRow_updateBlocks hsized hmoves hcleared
  obtain ⟨hcodes, hmetadata, hrows⟩ := storeBlocks_spec (hupdated 0).1 hbound
    hholds.codes_length hholds.metadata_length
  have hlength := length_swapDelete hnodup hin
  refine ⟨hcodes, hmetadata, ⟨by rw [hlength]; omega, fun row hrow => ?_⟩, hlength.symm,
    by rw [hlength]; rfl, hholds.codes_le, by rw [hlength]; have := hholds.size_le; omega,
    hholds.blocks_le⟩
  refine (hrows row).trans ?_
  rw [List.getD_eq_getElem?_getD]
  have hkept : row ∉ moves.map Prod.fst → applyUpdates id moves row = row :=
    fun h => applyUpdates_of_notMem id h
  by_cases hnew : row < newSize
  · -- a surviving row: in place, or moved from the end
    rw [getElem?_swapDelete hnodup hin hnew]
    change _ = (postings[applyUpdates id moves row]?).getD _
    rcases applyUpdates_cases id moves row with ⟨hstay, h⟩ | ⟨source, hmem, h⟩
    · have hlt : row < postings.length := by omega
      rw [h, id_eq, List.getElem?_eq_getElem hlt, ← hholds.posting_lt hlt, Option.getD_some]
      split
      next haffected =>
        rw [(hupdated row).2, if_neg (by omega), h, id_eq, horiginal row haffected]
      next => rfl
    · have hsource : source ∈ sources postings.length newSize deleted := (List.of_mem_zip hmem).2
      obtain ⟨⟨hlow, hhigh⟩, -⟩ := mem_sources.mp hsource
      rw [if_pos (hmoves _ hmem), (hupdated row).2, if_neg (by omega), h,
        horiginal source (hcleared source hlow hhigh), hholds.posting_lt hhigh,
        List.getElem?_eq_getElem hhigh, Option.getD_some]
  · rw [List.getElem?_eq_none (by rw [hlength]; exact Nat.not_lt.mp hnew), Option.getD_none]
    have hnotkey : row ∉ moves.map Prod.fst := by
      rw [hkeys]
      exact fun h => hnew (hhole row h)
    by_cases hpast : row < postings.length
    · rw [if_pos (hcleared row (by omega) hpast), (hupdated row).2, if_pos (by omega)]
    · have hempty := hholds.lanes.lane_empty (Nat.not_lt.mp hpast) hrow
      split
      next haffected =>
        rw [(hupdated row).2, if_neg (by omega), hkept hnotkey, horiginal row haffected, hempty]
      next => exact hempty

/-! ### Canonicity -/

/-- A reservation is refused for its size only, and the rows it makes room for
can be appended. -/
theorem Holds.never_refused (hholds : Holds layout list postings blocks)
    (added : List (Posting layout)) :
    (∃ message, (list.reserve layout added.length).2 = .error (.overflow message)) ∨
      (list.reserve layout added.length).2 = .ok () ∧
        ((list.reserve layout added.length).1.append added).2 = .ok () := by
  by_cases hcount : postings.length + added.length ≤ sizeMax
  · have hreserve := hholds.reserve added.length hcount
    split at hreserve
    next hcan =>
      have hround := roundUpBlock_blocks (postings.length + added.length)
      have hroom := le_roundUpBlock (postings.length + added.length)
      exact Or.inr ⟨hreserve.1, (hreserve.2.append (by omega) hcan.1).1⟩
    next =>
      rw [hreserve, reserveError]
      split
      · exact Or.inl ⟨_, rfl⟩
      · exact Or.inl ⟨_, rfl⟩
  · refine Or.inl ⟨"external IVF list size overflows", ?_⟩
    rw [MemoryList.reserve, hholds.size, if_pos (by omega)]

theorem resize_of_le {α : Type*} (fill : α) {xs : List α} {size : Nat} (h : size ≤ xs.length) :
    resize fill xs size = xs.take size := by
  rw [resize, Nat.sub_eq_zero_of_le h, List.replicate_zero, List.append_nil]

/-- The blocks a list needs, in whole rows. -/
theorem Holds.needed_blocks (hholds : Holds layout list postings blocks) :
    roundUpBlock postings.length / 32 ≤ blocks := by
  have hroom := hholds.lanes.room
  have hblocks := roundUpBlock_blocks postings.length
  have := roundUpBlock_le_iff.mpr hroom
  omega

/-- The packed codes are those packed from an empty buffer. -/
theorem Holds.codes_canonical (hholds : Holds layout list postings blocks) :
    list.packedCodes.take (roundUpBlock postings.length * layout.codeSize) =
      layout.packCodesRange (postings.map Posting.code ++ List.replicate
        (roundUpBlock postings.length - postings.length) (Code.zero layout)) 0
        (List.replicate (roundUpBlock postings.length * layout.codeSize) 0) := by
  have hneeded := hholds.needed_blocks
  have hround := roundUpBlock_blocks postings.length
  have hle := le_roundUpBlock postings.length
  have hsize : roundUpBlock postings.length * layout.codeSize =
      roundUpBlock postings.length / 32 * layout.blockBytes := by
    rw [layout.blockBytes_eq, ← Nat.mul_assoc, ← hround]
  have hlength : roundUpBlock postings.length / 32 * layout.blockBytes ≤
      list.packedCodes.length := by
    rw [hholds.codes_length]
    exact Nat.mul_le_mul_right _ hneeded
  have hempty : Lanes (layout.unpackRow (List.replicate
      (roundUpBlock postings.length / 32 * layout.blockBytes) 0)) (Code.zero layout)
      (roundUpBlock postings.length / 32 * 32) [] := by
    refine ⟨Nat.zero_le _, fun row hrow => ?_⟩
    have hzero := @CodeLayout.unpackRow_resize layout [] 0 (by simp) _ _ hrow
    rwa [if_neg (by omega), resize, List.take_nil, List.nil_append, List.length_nil,
      Nat.sub_zero] at hzero
  obtain ⟨hpacked, hlanes⟩ := @CodeLayout.packCodesRange_lanes layout _ _ []
    (postings.map Posting.code ++ List.replicate
        (roundUpBlock postings.length - postings.length) (Code.zero layout))
    (List.length_replicate) hempty (by simp; omega)
  rw [hsize, ← resize_of_le 0 hlength]
  refine CodeLayout.packed_ext (length_resize _ _ _) hpacked fun row hrow => ?_
  rw [CodeLayout.unpackRow_resize hholds.codes_length hrow, if_pos (by omega)]
  have hold := (hholds.lanes.map Posting.code).lane row (by omega)
  have hnew := hlanes.lane row hrow
  refine hold.trans (Eq.trans ?_ hnew.symm)
  rw [List.nil_append]
  by_cases hlt : row < (postings.map Posting.code).length
  · rw [List.getD_append _ _ _ _ hlt]
    rfl
  · rw [List.getD_append_right _ _ _ _ (Nat.not_lt.mp hlt),
      List.getD_eq_default _ _ (Nat.not_lt.mp hlt), List.getD_eq_getElem?_getD,
      List.getElem?_getD_replicate_default_eq]
    rfl

/-- The packed metadata are those packed from sentinels. -/
theorem Holds.metadata_canonical (hholds : Holds layout list postings blocks) :
    list.packedMetadata.take (roundUpBlock postings.length * 3) =
      Metadata.packBlocks (postings.map Posting.metadata) (roundUpBlock postings.length) := by
  have hneeded := hholds.needed_blocks
  have hround := roundUpBlock_blocks postings.length
  have hle := le_roundUpBlock postings.length
  have hsize : roundUpBlock postings.length * 3 = roundUpBlock postings.length / 32 * 96 := by omega
  have hlength : roundUpBlock postings.length / 32 * 96 ≤ list.packedMetadata.length := by
    rw [hholds.metadata_length]
    exact Nat.mul_le_mul_right _ hneeded
  obtain ⟨hpacked, hlanes⟩ := @Metadata.packBlocks_lanes
    (roundUpBlock postings.length / 32) (postings.map Posting.metadata) (by simp; omega)
  rw [hsize, ← resize_of_le 255 hlength]
  conv_rhs => rw [hround]
  refine Metadata.packed_ext (length_resize _ _ _) hpacked fun row hrow => ?_
  rw [Metadata.load_resize hholds.metadata_length hrow, if_pos (by omega)]
  exact ((hholds.lanes.map Posting.metadata).lane row (by omega)).trans (hlanes.lane row hrow).symm

end MemoryList

end Recast
