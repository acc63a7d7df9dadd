import Recast.Postings.Packing
import Recast.Foundation.Slice
import Recast.Foundation.SwapDelete

/-!
# Resident lists

The packed postings of one inverted list, and the steps an update makes on
them: reserve and append on insertion, unpack and rewrite blocks on deletion.
-/

namespace Recast

open Foundation

variable {layout : CodeLayout}

/-- What a list stores in memory for one row. -/
@[ext] structure Posting (layout : CodeLayout) where
  code : Code layout
  metadata : Metadata
  deriving DecidableEq

/-- The contents of an empty lane. -/
def Posting.empty (layout : CodeLayout) : Posting layout := ⟨Code.zero layout, Metadata.empty⟩

/-- The buffers of a list may be longer than its rows need. -/
structure MemoryList where
  packedCodes : Bytes
  packedMetadata : Bytes
  logicalSize : Nat
  paddedSize : Nat
  deriving DecidableEq

namespace MemoryList

def empty : MemoryList := ⟨[], [], 0, 0⟩

/-- The posting a lane holds. -/
def posting (layout : CodeLayout) (list : MemoryList) (row : Nat) : Posting layout :=
  ⟨layout.unpackRow list.packedCodes row, Metadata.load list.packedMetadata row⟩

/-- `round_up` of a list size, cast to 32 bits. -/
def paddedTo (size : Nat) : Nat := roundUpBlock size % 2 ^ 32

/-- The reservation of an insertion: resize both buffers for `appendCount` more
rows and check that their lanes are empty. -/
def reserve (layout : CodeLayout) (list : MemoryList) (appendCount : Nat) :
    MemoryList × Except Error Unit :=
  let newSize := list.logicalSize + appendCount
  if sizeMax < newSize then (list, .error (.overflow "external IVF list size overflows")) else
  if uint32Max < newSize then
    (list, .error (.overflow "external IVF list exceeds uint32 offsets")) else
  let newPadded := roundUpBlock newSize
  let codeCapacity := newPadded * layout.codeSize
  if sizeMax < codeCapacity then
    (list, .error (.overflow "packed external list code size overflows")) else
  let reserved := { list with
    packedCodes := resize 0 list.packedCodes codeCapacity
    packedMetadata := resize 255 list.packedMetadata (newPadded * 3) }
  (reserved, do
    layout.validateEmptyCodes list.logicalSize newSize reserved.packedCodes
    Metadata.validateEmptyRange list.logicalSize newSize reserved.packedMetadata)

/-- The posting update of an insertion. -/
def append (list : MemoryList) (postings : List (Posting layout)) :
    MemoryList × Except Error Unit :=
  let oldSize := list.logicalSize
  let newSize := oldSize + postings.length
  match layout.appendFlatCodes (postings.map (·.code)) oldSize newSize list.packedCodes with
  | .error error => (list, .error error)
  | .ok packedCodes =>
      match Metadata.writeRange (postings.map (·.metadata)) oldSize newSize list.packedMetadata with
      | .error error => ({ list with packedCodes }, .error error)
      | .ok packedMetadata => (⟨packedCodes, packedMetadata, newSize, paddedTo newSize⟩, .ok ())

/-- One unpacked block. -/
structure BlockScratch (layout : CodeLayout) where
  codes : List (Code layout)
  metadata : List Metadata

namespace BlockScratch

def lane (block : BlockScratch layout) (lane : Nat) : Posting layout :=
  ⟨block.codes.getD lane (Code.zero layout), block.metadata.getD lane Metadata.empty⟩

def setLane (block : BlockScratch layout) (lane : Nat) (posting : Posting layout) :
    BlockScratch layout :=
  ⟨block.codes.set lane posting.code, block.metadata.set lane posting.metadata⟩

end BlockScratch

/-- The blocks a deletion rewrites, in increasing order: those with a hole and
those from the new end to the old one. -/
def affectedBlocks (oldSize newSize : Nat) (holes : List Nat) : List Nat :=
  let cleared := if newSize < oldSize then
      let first := newSize / kUpdateBlockSize
      let last := (oldSize - 1) / kUpdateBlockSize
      List.range' first (last + 1 - first)
    else []
  (holes.map (· / kUpdateBlockSize) ++ cleared).dedup.insertionSort (· ≤ ·)

/-- Unpack a block of the list. -/
def loadBlock (layout : CodeLayout) (list : MemoryList) (block : Nat) :
    Except Error (BlockScratch layout) :=
  let codeOffset := block * layout.blockBytes
  let metadataOffset := block * Metadata.kMetadataBlockBytes
  if sizeMax < codeOffset then .error (.overflow "packed deletion code offset overflows") else
  if sizeMax < metadataOffset then
    .error (.overflow "packed deletion metadata offset overflows") else
  if list.packedCodes.length < codeOffset + layout.blockBytes ∨
      list.packedMetadata.length < metadataOffset + Metadata.kMetadataBlockBytes then
    .error (.logic "packed list is shorter than its logical size") else
  .ok ⟨layout.unpackFlatBlock (slice list.packedCodes codeOffset layout.blockBytes),
    Metadata.unpackBlock (slice list.packedMetadata metadataOffset Metadata.kMetadataBlockBytes)⟩

/-- Unpack the blocks one after the other. -/
def loadBlocks (list : MemoryList) :
    List Nat → (Nat → BlockScratch layout) → Except Error (Nat → BlockScratch layout)
  | [], scratch => .ok scratch
  | block :: rest, scratch => do
      let loaded ← loadBlock layout list block
      loadBlocks list rest (Function.update scratch block loaded)

/-- The lane of a row among the unpacked blocks. -/
def scratchRow (scratch : Nat → BlockScratch layout) (row : Nat) : Posting layout :=
  (scratch (row / kUpdateBlockSize)).lane (row % kUpdateBlockSize)

/-- Overwrite the lane of a row among the unpacked blocks. -/
def setScratchRow (scratch : Nat → BlockScratch layout) (row : Nat) (posting : Posting layout) :
    Nat → BlockScratch layout :=
  let block := row / kUpdateBlockSize
  Function.update scratch block ((scratch block).setLane (row % kUpdateBlockSize) posting)

/-- The updated blocks: sources are read from the original blocks, then every
lane past the new end is emptied. -/
def updateBlocks (original : Nat → BlockScratch layout) (oldSize newSize : Nat)
    (moves : List (Nat × Nat)) : Nat → BlockScratch layout :=
  let moved := moves.foldl (fun updated move =>
    setScratchRow updated move.1 (scratchRow original move.2)) original
  (List.range' newSize (oldSize - newSize)).foldl (fun updated row =>
    setScratchRow updated row (Posting.empty layout)) moved

/-- Blocks ready to be written back. -/
structure PreparedBlocks (layout : CodeLayout) where
  affected : List Nat
  blocks : Nat → BlockScratch layout

/-- The packed preparation of a deletion. -/
def prepareBlocks (layout : CodeLayout) (list : MemoryList) (oldSize newSize : Nat)
    (moves : List (Nat × Nat)) : Except Error (PreparedBlocks layout) := do
  let affected := affectedBlocks oldSize newSize (moves.map Prod.fst)
  let original ← list.loadBlocks affected fun _ => ⟨[], []⟩
  return ⟨affected, updateBlocks original oldSize newSize moves⟩

/-- Write one block back. -/
def storeBlock (list : MemoryList) (index : Nat) (block : BlockScratch layout) : MemoryList :=
  let codeOffset := index * layout.blockBytes
  let metadataOffset := index * Metadata.kMetadataBlockBytes
  { list with
    packedCodes := splice list.packedCodes codeOffset (layout.rewriteFlatBlock block.codes
      (slice list.packedCodes codeOffset layout.blockBytes))
    packedMetadata := splice list.packedMetadata metadataOffset
      (Metadata.rewriteBlock block.metadata) }

/-- The posting update of a deletion. -/
def rewrite (list : MemoryList) (newSize : Nat) (prepared : PreparedBlocks layout) : MemoryList :=
  { prepared.affected.foldl (fun list index => list.storeBlock index (prepared.blocks index)) list with
    logicalSize := newSize
    paddedSize := paddedTo newSize }

end MemoryList

end Recast
