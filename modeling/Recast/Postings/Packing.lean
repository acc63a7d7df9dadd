import Recast.Storage.File
import Recast.Foundation.Nibbles

/-!
# Packed postings

The resident form of a list: four-bit PQ codes in the Faiss layout of 32-row
blocks, and three metadata bytes a row in planes of 32.
-/

namespace Recast

open Foundation

/-- The code geometry: `flat_code_size` requires a positive even count. -/
structure CodeLayout where
  subquantizers : Nat
  subquantizers_pos : 0 < subquantizers
  even : subquantizers % 2 = 0

/-- Codes of one byte. -/
def CodeLayout.oneByte : CodeLayout := ⟨2, Nat.two_pos, by decide⟩

/-- Rows of one packed block. -/
def kUpdateBlockSize : Nat := 32

/-- `flat_code_size`: bytes of one row-major code. -/
def CodeLayout.codeSize (layout : CodeLayout) : Nat := layout.subquantizers / 2

/-- A row-major code of two subquantizers a byte. -/
@[ext] structure Code (layout : CodeLayout) where
  bytes : Bytes
  length_bytes : bytes.length = layout.codeSize
  deriving DecidableEq

/-- The code of an empty lane. -/
def Code.zero (layout : CodeLayout) : Code layout :=
  ⟨List.replicate layout.codeSize 0, List.length_replicate⟩

/-- Subquantizer `m` of a flat code: even ones in the low half. -/
def Code.element {layout : CodeLayout} (code : Code layout) (m : Nat) : UInt8 :=
  nibbleAt code.bytes (m / 2) (m % 2 == 1)

/-- The scalar metadata of a row. -/
structure Metadata where
  norm : UInt8
  scale : UInt8
  error : UInt8
  deriving DecidableEq, Repr

/-- The metadata of an empty lane, which is also the overflow sentinel. -/
def Metadata.empty : Metadata := ⟨255, 255, 255⟩

/-- `round_up` to whole blocks. -/
def roundUpBlock (rows : Nat) : Nat :=
  (rows + kUpdateBlockSize - 1) / kUpdateBlockSize * kUpdateBlockSize

namespace CodeLayout

variable (layout : CodeLayout)

/-- `packed_code_block_bytes`. -/
def blockBytes : Nat := kUpdateBlockSize * layout.codeSize

/-- The byte of a 16-byte half that holds vector lane `v`: `perm0` undone. -/
def laneAddress (v : Nat) : Nat := if v < 8 then 2 * v else 2 * (v - 8) + 1

/-- The byte of the packed buffer that holds subquantizer `m` of `row`. -/
def packedAddress (row m : Nat) : Nat :=
  row / kUpdateBlockSize * layout.blockBytes + m / 2 * 32 + m % 2 * 16 + laneAddress (row % 16)

/-- Whether that element is in the high half of its byte. -/
def packedHigh (row : Nat) : Bool := 16 ≤ row % kUpdateBlockSize

/-- `faiss::pq4_get_packed_element`. -/
def getPackedElement (buffer : Bytes) (row m : Nat) : UInt8 :=
  nibbleAt buffer (layout.packedAddress row m) (packedHigh row)

/-- `faiss::pq4_set_packed_element`. -/
def setPackedElement (buffer : Bytes) (row m : Nat) (value : UInt8) : Bytes :=
  setNibbleAt buffer (layout.packedAddress row m) value (packedHigh row)

/-- One row of `faiss::pq4_pack_codes_range`: every element is merged into its
lane with a bitwise or. -/
def packRow (buffer : Bytes) (row : Nat) (code : Code layout) : Bytes :=
  (List.range layout.subquantizers).foldl (fun buffer m =>
    orNibbleAt buffer (layout.packedAddress row m) (code.element m) (packedHigh row)) buffer

/-- `faiss::pq4_pack_codes_range` from row `begin` on. -/
def packCodesRange : List (Code layout) → Nat → Bytes → Bytes
  | [], _, buffer => buffer
  | code :: rest, row, buffer => packCodesRange rest (row + 1) (layout.packRow buffer row code)

/-- Byte `i` of the row-major code of `row`. -/
def unpackByte (buffer : Bytes) (row i : Nat) : UInt8 :=
  layout.getPackedElement buffer row (2 * i) |||
    (layout.getPackedElement buffer row (2 * i + 1) <<< 4)

/-- The row-major code of one row of a block. -/
def unpackRow (buffer : Bytes) (row : Nat) : Code layout where
  bytes := (List.range layout.codeSize).map (layout.unpackByte buffer row)
  length_bytes := by simp

/-- `unpack_flat_block_bbs32`: `CodePackerPQ4::unpack_all` of one block. -/
def unpackFlatBlock (block : Bytes) : List (Code layout) :=
  (List.range kUpdateBlockSize).map (layout.unpackRow block)

/-- `CodePackerPQ4::pack_1`: overwrite the lane of `row`. -/
def setRow (buffer : Bytes) (row : Nat) (code : Code layout) : Bytes :=
  (List.range layout.subquantizers).foldl (fun buffer m =>
    layout.setPackedElement buffer row m (code.element m)) buffer

/-- `rewrite_flat_block_bbs32`: `CodePackerPQ4::pack_all` of one block. -/
def rewriteFlatBlock (codes : List (Code layout)) (block : Bytes) : Bytes :=
  (List.range kUpdateBlockSize).foldl (fun block row =>
    layout.setRow block row (codes.getD row (Code.zero layout))) block

/-- Whether every element of the rows `[begin, end)` is zero. -/
def lanesEmpty (buffer : Bytes) (first last : Nat) : Bool :=
  (List.range' first (last - first)).all fun row =>
    (List.range layout.subquantizers).all fun m => layout.getPackedElement buffer row m == 0

/-- `validate_empty_packed_code_range_bbs32`. -/
def validateEmptyCodes (first last : Nat) (buffer : Bytes) : Except Error Unit :=
  if last < first then .error (.invalidArgument "invalid packed PQ4 validation range") else
  if first = last then .ok () else
  if sizeMax - (kUpdateBlockSize - 1) < last then
    .error (.overflow "packed PQ4 validation row count overflows") else
  let required := roundUpBlock last * layout.codeSize
  if sizeMax < required then .error (.overflow "packed PQ4 validation size overflows") else
  if buffer.length < required then
    .error (.invalidArgument "packed PQ4 validation buffer is too small") else
  if layout.lanesEmpty buffer first last then .ok ()
  else .error (.logic "pq4_pack_codes_range destination lane is not zero")

/-- `append_flat_codes_bbs32` from separate buffers. -/
def appendFlatCodes (codes : List (Code layout)) (first last : Nat) (buffer : Bytes) :
    Except Error Bytes :=
  if last < first then .error (.invalidArgument "invalid packed PQ4 append range") else
  let count := last - first
  if sizeMax < count * layout.codeSize then
    .error (.overflow "flat PQ4 append size overflows") else
  if codes.length * layout.codeSize ≠ count * layout.codeSize then
    .error (.invalidArgument "flat PQ4 append byte count is inconsistent") else
  if count = 0 then .ok buffer else do
  layout.validateEmptyCodes first last buffer
  return layout.packCodesRange codes first buffer

end CodeLayout

namespace Metadata

/-- Bytes of one metadata block. -/
def kMetadataBlockBytes : Nat := kUpdateBlockSize * 3

/-- The first byte of the metadata of `row`; its planes are 32 bytes apart. -/
def address (row : Nat) : Nat := row / kUpdateBlockSize * kMetadataBlockBytes + row % kUpdateBlockSize

/-- Store the three bytes of one row. -/
def store (buffer : Bytes) (row : Nat) (metadata : Metadata) : Bytes :=
  ((buffer.set (address row) metadata.norm).set (address row + kUpdateBlockSize) metadata.scale).set
    (address row + 2 * kUpdateBlockSize) metadata.error

/-- The three bytes of one row. -/
def load (buffer : Bytes) (row : Nat) : Metadata where
  norm := buffer.getD (address row) 0
  scale := buffer.getD (address row + kUpdateBlockSize) 0
  error := buffer.getD (address row + 2 * kUpdateBlockSize) 0

/-- Store consecutive rows from row `first` on. -/
def storeRows : List Metadata → Nat → Bytes → Bytes
  | [], _, buffer => buffer
  | metadata :: rest, row, buffer => storeRows rest (row + 1) (store buffer row metadata)

/-- `pack_metadata_bbs32` of the rows, with sentinels up to `paddedSize`. -/
def packBlocks (metadata : List Metadata) (paddedSize : Nat) : Bytes :=
  storeRows metadata 0 (List.replicate (paddedSize * 3) 255)

/-- `unpack_metadata_block_bbs32`. -/
def unpackBlock (block : Bytes) : List Metadata :=
  (List.range kUpdateBlockSize).map (load block)

/-- `rewrite_metadata_block_bbs32`: the block is filled with sentinels first. -/
def rewriteBlock (metadata : List Metadata) : Bytes := packBlocks metadata kUpdateBlockSize

/-- `validate_empty_packed_metadata_range_bbs32`. -/
def validateEmptyRange (first last : Nat) (buffer : Bytes) : Except Error Unit :=
  if last < first then .error (.invalidArgument "invalid packed metadata validation range") else
  if first = last then .ok () else
  if sizeMax - (kUpdateBlockSize - 1) < last then
    .error (.overflow "packed metadata validation row count overflows") else
  let required := roundUpBlock last * 3
  if sizeMax < required then .error (.overflow "packed metadata validation size overflows") else
  if buffer.length < required then
    .error (.invalidArgument "packed metadata validation buffer is too small") else
  if (List.range' first (last - first)).all fun row => load buffer row == empty then .ok ()
  else .error (.logic "packed metadata destination lane is not empty")

/-- `write_metadata_range_bbs32` from separate buffers. -/
def writeRange (metadata : List Metadata) (first last : Nat) (buffer : Bytes) :
    Except Error Bytes :=
  if last < first ∨ metadata.length ≠ last - first then
    .error (.invalidArgument "invalid packed metadata append range") else
  if metadata = [] then .ok buffer else
  if sizeMax < metadata.length * 3 then
    .error (.overflow "metadata append source size overflows") else do
  validateEmptyRange first last buffer
  return storeRows metadata first buffer

end Metadata

end Recast
