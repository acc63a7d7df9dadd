import Recast.Storage.File
import Recast.Foundation.Paged
import Mathlib.Data.List.Dedup

/-!
# The record store

One file of pages for each list. A record is a Logical ID and its payload; the
records of a page are packed from its first byte on.
-/

namespace Recast

open Foundation

/-- What the record store's constructor accepts. -/
structure RecordLayout where
  pageSize : Nat
  payloadBytes : Nat
  payload_pos : 0 < payloadBytes
  stride_le : 4 + payloadBytes ≤ pageSize

/-- A payload has the store's fixed size. -/
@[ext] structure Payload (layout : RecordLayout) where
  bytes : Bytes
  length_bytes : bytes.length = layout.payloadBytes
  deriving DecidableEq

/-- One stored row. -/
@[ext] structure Record (layout : RecordLayout) where
  logicalId : Nat
  payload : Payload layout
  id_lt : logicalId < 2 ^ 32
  deriving DecidableEq

/-- Copy the record at `source` over the record at `destination`. -/
structure RecordMove where
  destination : Nat
  source : Nat
  deriving DecidableEq, Repr

namespace RecordLayout

variable (layout : RecordLayout)

/-- Pages of one small record. -/
def oneRecord : RecordLayout := ⟨8, 4, by decide, by decide⟩

/-- Pages of two of them. -/
def twoPerPage : RecordLayout := ⟨16, 4, oneRecord.payload_pos, by decide⟩

def recordStride : Nat := 4 + layout.payloadBytes

def recordsPerPage : Nat := layout.pageSize / layout.recordStride

theorem recordStride_pos : 0 < layout.recordStride := by
  unfold recordStride
  omega

theorem recordsPerPage_pos : 0 < layout.recordsPerPage :=
  Nat.div_pos layout.stride_le layout.recordStride_pos

theorem pageSize_pos : 0 < layout.pageSize :=
  Nat.lt_of_lt_of_le layout.recordStride_pos layout.stride_le

/-- A list file as pages of record slots. -/
def paging : Paging where
  pageBytes := layout.pageSize
  perPage := layout.recordsPerPage
  width := layout.recordStride
  perPage_pos := layout.recordsPerPage_pos
  width_pos := layout.recordStride_pos
  fits := Nat.div_mul_le_self _ _

end RecordLayout

namespace Record

variable {layout : RecordLayout}

def encode (record : Record layout) : Bytes :=
  toLittleEndian 4 record.logicalId ++ record.payload.bytes

theorem length_encode (record : Record layout) : record.encode.length = layout.recordStride := by
  rw [encode, List.length_append, length_toLittleEndian, record.payload.length_bytes]
  rfl

/-- The Logical ID at the head of a stored record. -/
def idOf (bytes : Bytes) : Nat := ofLittleEndian (slice bytes 0 4)

@[simp] theorem idOf_encode (record : Record layout) : idOf record.encode = record.logicalId := by
  have hlength : (toLittleEndian 4 record.logicalId).length = 4 := length_toLittleEndian 4 _
  have hslice : slice record.encode 0 4 = toLittleEndian 4 record.logicalId := by
    rw [encode, slice_append_left _ (by omega)]
    simpa [hlength] using slice_zero_length (toLittleEndian 4 record.logicalId)
  rw [idOf, hslice, ofLittleEndian_toLittleEndian record.id_lt]

theorem encode_payload (record : Record layout) :
    slice record.encode 4 layout.payloadBytes = record.payload.bytes := by
  have hslice := slice_append_right (toLittleEndian 4 record.logicalId) record.payload.bytes 0
    layout.payloadBytes
  have hall := slice_zero_length record.payload.bytes
  rw [record.payload.length_bytes] at hall
  rw [length_toLittleEndian, Nat.add_zero, hall] at hslice
  exact hslice

theorem encode_injective : Function.Injective (@encode layout) := by
  intro first second h
  apply Record.ext
  · rw [← idOf_encode first, h, idOf_encode]
  · apply Payload.ext
    rw [← encode_payload first, h, encode_payload]

end Record

namespace RecordLayout

variable (layout : RecordLayout)

/-- `page_offset`. -/
def pageOffset (page : Nat) : Except Error Nat :=
  if offMax / layout.pageSize < page then
    .error (.overflow "list record page offset exceeds off_t")
  else .ok (page * layout.pageSize)

/-- Read a whole page of a list file. -/
def readPage (faults : IoFaults) (listNo : Nat) (bytes : Bytes) (page : Nat) :
    Except Error Bytes := do
  attempt faults (.readRecords listNo page) "pread"
  let offset ← layout.pageOffset page
  preadExact bytes layout.pageSize offset

/-- Write a whole page of a list file. -/
def writePage (faults : IoFaults) (listNo : Nat) (bytes : Bytes) (page : Nat) (buffer : Bytes) :
    Except Error Bytes := do
  attempt faults (.writeRecords listNo page) "pwrite"
  let offset ← layout.pageOffset page
  pwriteExact bytes buffer offset

/-- The lanes of page `page` an append fills: the rows in
`[max(old_size, page_first), min(new_size, page_first + records_per_page))`. -/
def appendLanes (oldSize : Nat) (rows : List (Record layout)) (page : Nat) : List (Nat × Bytes) :=
  let pageFirst := page * layout.recordsPerPage
  let first := max oldSize pageFirst
  let last := min (oldSize + rows.length) (pageFirst + layout.recordsPerPage)
  (slice rows (first - oldSize) (last - first)).mapIdx fun i row =>
    (first + i - pageFirst, row.encode)

/-- The buffer an append starts a page from: the old page, or an empty one. -/
def fetchPage (faults : IoFaults) (listNo oldSize : Nat) (bytes : Bytes) (page : Nat) :
    Except Error Bytes :=
  if page < pageCount oldSize layout.recordsPerPage then layout.readPage faults listNo bytes page
  else .ok (List.replicate layout.pageSize 0)

/-- One page of an append: its old rows and the new ones. -/
def appendPage (faults : IoFaults) (listNo oldSize : Nat) (rows : List (Record layout))
    (bytes : Bytes) (page : Nat) : Except Error Bytes := do
  let buffer ← layout.fetchPage faults listNo oldSize bytes page
  layout.writePage faults listNo bytes page
    (layout.paging.writeLanes buffer (layout.appendLanes oldSize rows page))

/-- The page loop of `append_records`. The pages before a failing one stay
written. -/
def appendPages (faults : IoFaults) (listNo oldSize : Nat) (rows : List (Record layout)) :
    List Nat → Bytes → Bytes × Except Error Unit
  | [], bytes => (bytes, .ok ())
  | page :: rest, bytes =>
      match layout.appendPage faults listNo oldSize rows bytes page with
      | .error error => (bytes, .error error)
      | .ok bytes => appendPages faults listNo oldSize rows rest bytes

/-- The pages `[first_page, new_pages)` of an append. -/
def appendedPages (oldSize newSize : Nat) : List Nat :=
  let firstPage := oldSize / layout.recordsPerPage
  List.range' firstPage (pageCount newSize layout.recordsPerPage - firstPage)

/-- `append_records`: the list file afterwards, and whether the call returned.
A tail an earlier failed append left is cut off first. -/
def appendRecords (faults : IoFaults) (listNo oldSize : Nat) (rows : List (Record layout))
    (file : Option Bytes) : Option Bytes × Except Error Unit :=
  if rows = [] then (file, .ok ()) else
  if uint32Max - oldSize < rows.length then
    (file, .error (.invalidArgument "invalid list record append")) else
  if faults (.openRecords listNo) then (file, .error (.system "open")) else
  -- O_CREAT: a missing file starts empty
  let bytes := file.getD []
  let expectedBytes := pageCount oldSize layout.recordsPerPage * layout.pageSize
  if bytes.length < expectedBytes ∨ bytes.length % layout.pageSize ≠ 0 then
    (some bytes, .error (.runtime "list file size disagrees with logical_size")) else
  if expectedBytes < bytes.length ∧ faults (.truncateRecords listNo) then
    (some bytes, .error (.system "truncate unpublished list tail")) else
  let newSize := oldSize + rows.length
  match layout.appendPages faults listNo oldSize rows (layout.appendedPages oldSize newSize)
      (ftruncate bytes expectedBytes) with
  | (bytes, .error error) => (some bytes, .error error)
  | (bytes, .ok ()) =>
      let finalBytes := pageCount newSize layout.recordsPerPage * layout.pageSize
      if offMax < finalBytes ∨ faults (.finishRecords listNo) then
        (some bytes, .error (.system "ftruncate"))
      else (some (ftruncate bytes finalBytes), .ok ())

/-- `validate_list_file`: a missing file is accepted for an empty list. -/
def validateListFile (logicalSize : Nat) (file : Option Bytes) : Except Error Unit :=
  match file with
  | none => if logicalSize = 0 then .ok () else .error (.system "stat")
  | some bytes =>
      if bytes.length ≠ pageCount logicalSize layout.recordsPerPage * layout.pageSize then
        .error (.runtime "list file size disagrees with checkpoint")
      else .ok ()

/-- A deletion ready to be written: the page buffers after the moves, the pages
to write, and the Logical IDs seen before the moves. -/
structure PreparedRecordMutation where
  oldPages : Nat
  newPages : Nat
  pages : Nat → Bytes
  writePages : List Nat
  observedIds : List Nat

/-- The pages a deletion reads, in increasing order. -/
def neededPages (newSize : Nat) (moves : List RecordMove) (observedOffsets : List Nat) : List Nat :=
  let observed := observedOffsets.map (· / layout.recordsPerPage)
  let moved := moves.flatMap fun move =>
    [move.destination / layout.recordsPerPage, move.source / layout.recordsPerPage]
  let tail := if newSize ≠ 0 ∧ newSize % layout.recordsPerPage ≠ 0 then
    [newSize / layout.recordsPerPage] else []
  (observed ++ moved ++ tail).dedup.insertionSort (· ≤ ·)

/-- The pages a deletion writes, in increasing order. -/
def writtenPages (newSize : Nat) (moves : List RecordMove) : List Nat :=
  let moved := moves.map (·.destination / layout.recordsPerPage)
  let tail := if newSize ≠ 0 ∧ newSize % layout.recordsPerPage ≠ 0 then
    [newSize / layout.recordsPerPage] else []
  ((moved ++ tail).dedup.insertionSort (· ≤ ·)).filter
    (· < pageCount newSize layout.recordsPerPage)

/-- Read the pages one after the other into their buffers. -/
def loadPages (faults : IoFaults) (listNo : Nat) (bytes : Bytes) :
    List Nat → (Nat → Bytes) → Except Error (Nat → Bytes)
  | [], pages => .ok pages
  | page :: rest, pages => do
      let buffer ← layout.readPage faults listNo bytes page
      loadPages faults listNo bytes rest (Function.update pages page buffer)

/-- The bytes of a record slot in the page buffers. -/
def bufferedRecord (pages : Nat → Bytes) (offset : Nat) : Bytes :=
  slice (pages (offset / layout.recordsPerPage))
    (offset % layout.recordsPerPage * layout.recordStride) layout.recordStride

/-- Store a record in the page buffers. -/
def putRecord (pages : Nat → Bytes) (offset : Nat) (record : Bytes) : Nat → Bytes :=
  let page := offset / layout.recordsPerPage
  Function.update pages page
    (splice (pages page) (offset % layout.recordsPerPage * layout.recordStride) record)

/-- Apply the moves: every source is copied before the first one is stored. -/
def moveRecords (pages : Nat → Bytes) (moves : List RecordMove) : Nat → Bytes :=
  let snapshots := moves.map fun move => (move.destination, layout.bufferedRecord pages move.source)
  snapshots.foldl (fun pages snapshot => layout.putRecord pages snapshot.1 snapshot.2) pages

/-- Clear the lanes of the tail page that no longer hold a row. -/
def clearTail (newSize : Nat) (pages : Nat → Bytes) : Nat → Bytes :=
  if newSize ≠ 0 ∧ newSize % layout.recordsPerPage ≠ 0 then
    let tailPage := newSize / layout.recordsPerPage
    let firstStale := newSize % layout.recordsPerPage
    Function.update pages tailPage (splice (pages tailPage) (firstStale * layout.recordStride)
      (List.replicate ((layout.recordsPerPage - firstStale) * layout.recordStride) 0))
  else pages

/-- `prepare_moves_and_truncate`: reads and checks only, no file changes. -/
def prepareMovesAndTruncate (faults : IoFaults) (listNo oldSize newSize : Nat)
    (moves : List RecordMove) (observedOffsets : List Nat) (file : Option Bytes) :
    Except Error PreparedRecordMutation :=
  if oldSize < newSize then
    .error (.invalidArgument "record deletion cannot grow a list") else
  if moves.any fun move =>
      newSize ≤ move.destination || move.source < newSize || oldSize ≤ move.source then
    .error (.invalidArgument "invalid list record move") else
  if observedOffsets.any (oldSize ≤ ·) then
    .error (.invalidArgument "observed record offset exceeds old list size") else do
  attempt faults (.openRecords listNo) "open"
  match file with
  | none => .error (.system "open")
  | some bytes =>
      let oldPages := pageCount oldSize layout.recordsPerPage
      if bytes.length ≠ oldPages * layout.pageSize then
        .error (.runtime "list file size disagrees with deletion input") else do
      let pages ← layout.loadPages faults listNo bytes
        (layout.neededPages newSize moves observedOffsets) fun _ => []
      if sizeMax < moves.length * layout.recordStride then
        .error (.overflow "record move snapshots overflow") else
      return {
        oldPages
        newPages := pageCount newSize layout.recordsPerPage
        pages := layout.clearTail newSize (layout.moveRecords pages moves)
        writePages := layout.writtenPages newSize moves
        observedIds := observedOffsets.map fun offset =>
          Record.idOf (layout.bufferedRecord pages offset) }

/-- The page loop of `commit_prepared_mutation`. -/
def commitPages (faults : IoFaults) (listNo : Nat) (pages : Nat → Bytes) :
    List Nat → Bytes → Bytes × Except Error Unit
  | [], bytes => (bytes, .ok ())
  | page :: rest, bytes =>
      match layout.writePage faults listNo bytes page (pages page) with
      | .error error => (bytes, .error error)
      | .ok bytes => commitPages faults listNo pages rest bytes

/-- `commit_prepared_mutation`: the list file afterwards, and whether the call
returned. -/
def commitPreparedMutation (faults : IoFaults) (listNo : Nat) (mutation : PreparedRecordMutation)
    (file : Option Bytes) : Option Bytes × Except Error Unit :=
  if faults (.openRecords listNo) then (file, .error (.system "open")) else
  match file with
  | none => (none, .error (.system "open"))
  | some bytes =>
      if bytes.length ≠ mutation.oldPages * layout.pageSize then
        (some bytes, .error (.runtime "list file changed after deletion preparation")) else
      match layout.commitPages faults listNo mutation.pages mutation.writePages bytes with
      | (bytes, .error error) => (some bytes, .error error)
      | (bytes, .ok ()) =>
          let finalBytes := mutation.newPages * layout.pageSize
          if offMax < finalBytes ∨ faults (.finishRecords listNo) then
            (some bytes, .error (.system "ftruncate"))
          else (some (ftruncate bytes finalBytes), .ok ())

end RecordLayout

end Recast
