import Recast.Storage.File
import Recast.Foundation.Sorted
import Mathlib.Data.List.Sort
import Mathlib.Data.List.SplitBy
import Mathlib.Logic.Function.Basic

/-!
# The location directory

The headerless file that maps a Logical ID to its list and offset. Reads and
writes go page by page over the sorted IDs of one batch.
-/

namespace Recast

open Foundation

/-- An eight-byte location: a list number and an offset in that list. -/
structure DiskLocation where
  listNo : UInt32
  offset : UInt32
  deriving DecidableEq, Repr

namespace DiskLocation

def tombstone : DiskLocation := ⟨UInt32.ofNat uint32Max, UInt32.ofNat uint32Max⟩

/-- Neither field is the reserved value. -/
def active (location : DiskLocation) : Bool :=
  location.listNo != UInt32.ofNat uint32Max && location.offset != UInt32.ofNat uint32Max

/-- The location of a slot, its coordinates cast to 32 bits. -/
def ofSlot (listNo offset : Nat) : DiskLocation := ⟨UInt32.ofNat listNo, UInt32.ofNat offset⟩

/-- The stored bytes. -/
def encode (location : DiskLocation) : Bytes :=
  toLittleEndian 4 location.listNo.toNat ++ toLittleEndian 4 location.offset.toNat

def decode (bytes : Bytes) : DiskLocation :=
  ⟨UInt32.ofNat (ofLittleEndian (slice bytes 0 4)), UInt32.ofNat (ofLittleEndian (slice bytes 4 4))⟩

@[simp] theorem length_encode (location : DiskLocation) : location.encode.length = 8 := by
  simp [encode]

theorem decode_encode (location : DiskLocation) : decode location.encode = location := by
  have hlist : slice location.encode 0 4 = toLittleEndian 4 location.listNo.toNat := by
    rw [encode, slice_append_left _ (by simp)]
    simpa using slice_zero_length (toLittleEndian 4 location.listNo.toNat)
  have hoffset : slice location.encode 4 4 = toLittleEndian 4 location.offset.toNat := by
    have := slice_append_right (toLittleEndian 4 location.listNo.toNat)
      (toLittleEndian 4 location.offset.toNat) 0 4
    simp only [length_toLittleEndian, Nat.add_zero] at this
    rw [encode, this]
    simpa using slice_zero_length (toLittleEndian 4 location.offset.toNat)
  rw [decode, hlist, hoffset, ofLittleEndian_toLittleEndian location.listNo.toNat_lt,
    ofLittleEndian_toLittleEndian location.offset.toNat_lt, UInt32.ofNat_toNat,
    UInt32.ofNat_toNat]

theorem encode_decode {bytes : Bytes} (h : bytes.length = 8) : (decode bytes).encode = bytes := by
  have hlist : (slice bytes 0 4).length = 4 := length_slice_of_le (by omega)
  have hoffset : (slice bytes 4 4).length = 4 := length_slice_of_le (by omega)
  have hlt : ∀ part : Bytes, part.length = 4 → ofLittleEndian part < 2 ^ 32 := fun part hpart => by
    have := ofLittleEndian_lt part
    rwa [hpart] at this
  have hpart : ∀ part : Bytes, part.length = 4 →
      toLittleEndian 4 (UInt32.ofNat (ofLittleEndian part)).toNat = part := fun part hpart => by
    rw [UInt32.toNat_ofNat_of_lt' (hlt part hpart), ← hpart, toLittleEndian_ofLittleEndian]
  rw [encode, decode, hpart _ hlist, hpart _ hoffset]
  have hwhole := slice_append_slice bytes 0 4 4
  have hall := slice_zero_length bytes
  rw [h] at hall
  rw [Nat.zero_add] at hwhole
  exact hwhole.trans hall

theorem listNo_ofSlot {listNo offset : Nat} (h : listNo < 2 ^ 32) :
    (ofSlot listNo offset).listNo.toNat = listNo :=
  UInt32.toNat_ofNat_of_lt' h

theorem offset_ofSlot {listNo offset : Nat} (h : offset < 2 ^ 32) :
    (ofSlot listNo offset).offset.toNat = offset :=
  UInt32.toNat_ofNat_of_lt' h

@[simp] theorem active_tombstone : tombstone.active = false := rfl

/-- A slot's location is active unless a coordinate is the reserved value. -/
theorem active_ofSlot_iff {listNo offset : Nat} (hlist : listNo < 2 ^ 32)
    (hoffset : offset < 2 ^ 32) :
    (ofSlot listNo offset).active = true ↔ listNo ≠ uint32Max ∧ offset ≠ uint32Max := by
  have hmax : uint32Max < 2 ^ 32 := by decide
  have hcast : ∀ n < 2 ^ 32, UInt32.ofNat n = UInt32.ofNat uint32Max ↔ n = uint32Max := by
    intro n hn
    constructor
    · intro h
      have := congrArg UInt32.toNat h
      rwa [UInt32.toNat_ofNat_of_lt' hn, UInt32.toNat_ofNat_of_lt' hmax] at this
    · exact congrArg UInt32.ofNat
  simp [active, ofSlot, hcast listNo hlist, hcast offset hoffset]

end DiskLocation

/-- What the directory's constructor accepts as a page size. -/
structure DirectoryLayout where
  pageSize : Nat
  pageSize_pos : 8 ≤ pageSize
  entry_dvd : pageSize % 8 = 0

namespace DirectoryLayout

variable (layout : DirectoryLayout)

/-- One entry a page. -/
def oneEntry : DirectoryLayout := ⟨8, by decide, by decide⟩

def entriesPerPage : Nat := layout.pageSize / 8

theorem entriesPerPage_pos : 0 < layout.entriesPerPage :=
  Nat.div_pos layout.pageSize_pos (by norm_num)

theorem pageSize_eq : layout.pageSize = layout.entriesPerPage * 8 := by
  have := layout.entry_dvd
  unfold entriesPerPage
  omega

/-- The page that holds the entry of `id`. -/
def pageOf (id : Nat) : Nat := id / layout.entriesPerPage

/-- `checked_offset`. -/
def checkedOffset (page : Nat) : Except Error Nat :=
  if offMax / layout.pageSize < page then
    .error (.overflow "external directory offset exceeds off_t")
  else .ok (page * layout.pageSize)

/-- One requested ID, with its position in the batch. -/
structure Request where
  page : Nat
  id : Nat
  inputIndex : Nat

def Request.before (lhs rhs : Request) : Prop :=
  if lhs.page ≠ rhs.page then lhs.page < rhs.page else lhs.id ≤ rhs.id

instance : DecidableRel Request.before := fun lhs rhs => by
  unfold Request.before
  infer_instance

/-- Read one page and answer the requests that fall on it. -/
def readGroup (faults : IoFaults) (file : Bytes) (group : List Request)
    (result : Nat → DiskLocation) : Except Error (Nat → DiskLocation) :=
  match group with
  | [] => .ok result
  | head :: _ => do
      let offset ← layout.checkedOffset head.page
      if file.length < offset + layout.pageSize then
        .error (.outOfRange "Logical ID is outside locations.bin") else
      attempt faults (.readDirectory head.page) "pread"
      let page ← preadExact file layout.pageSize offset
      return group.foldl (fun result request =>
        Function.update result request.inputIndex
          (DiskLocation.decode (slice page (request.id % layout.entriesPerPage * 8) 8))) result

def readGroups (faults : IoFaults) (file : Bytes) :
    List (List Request) → (Nat → DiskLocation) → Except Error (Nat → DiskLocation)
  | [], result => .ok result
  | group :: rest, result => do
      let result ← layout.readGroup faults file group result
      readGroups faults file rest result

/-- `read_batch`: the locations of the IDs, in the order of the batch. -/
def readBatch (faults : IoFaults) (file : Bytes) (ids : List Nat) :
    Except Error (List DiskLocation) :=
  if ids = [] then .ok [] else do
    attempt faults .openDirectory "open(locations.bin)"
    if file.length % layout.pageSize ≠ 0 then
      .error (.runtime "external directory is not page aligned") else
    let requests := ids.mapIdx fun i id => Request.mk (layout.pageOf id) id i
    let sorted := requests.insertionSort Request.before
    let groups := sorted.splitBy fun lhs rhs => lhs.page == rhs.page
    let result ← layout.readGroups faults file groups fun _ => DiskLocation.tombstone
    return (List.range ids.length).map result

/-- One ID with its new location. -/
abbrev Update := Nat × DiskLocation

def Update.before (lhs rhs : Update) : Prop := lhs.1 ≤ rhs.1

instance : DecidableRel Update.before := fun lhs rhs => inferInstanceAs (Decidable (lhs.1 ≤ rhs.1))

/-- Store the updates of one page in its buffer. -/
def writeEntries (page : Bytes) (group : List Update) : Bytes :=
  group.foldl (fun page update =>
    splice page (update.1 % layout.entriesPerPage * 8) update.2.encode) page

/-- The buffer an update of a page starts from: the stored page, or tombstones
for a page at or past the end of the file. -/
def fetchPage (faults : IoFaults) (file : Bytes) (currentBytes pageId offset : Nat) :
    Except Error Bytes :=
  if offset < currentBytes then do
    attempt faults (.readDirectory pageId) "pread"
    preadExact file layout.pageSize offset
  else .ok (List.replicate layout.pageSize 0xff)

/-- Read, modify and write one page. The second result is the new
`current_bytes`. -/
def writeGroup (faults : IoFaults) (file : Bytes) (currentBytes : Nat) (group : List Update) :
    Except Error (Bytes × Nat) :=
  match group with
  | [] => .ok (file, currentBytes)
  | head :: _ => do
      let pageId := layout.pageOf head.1
      let offset ← layout.checkedOffset pageId
      let page ← layout.fetchPage faults file currentBytes pageId offset
      attempt faults (.writeDirectory pageId) "pwrite"
      let file ← pwriteExact file (layout.writeEntries page group) offset
      return (file, max currentBytes (offset + layout.pageSize))

/-- The page loop of `write_batch`. The pages before a failing one stay
written. -/
def writeGroups (faults : IoFaults) :
    List (List Update) → Bytes → Nat → Bytes × Except Error Nat
  | [], file, currentBytes => (file, .ok currentBytes)
  | group :: rest, file, currentBytes =>
      match layout.writeGroup faults file currentBytes group with
      | .error error => (file, .error error)
      | .ok (file, currentBytes) => writeGroups faults rest file currentBytes

/-- The updates in ID order, cut into the pages they fall on. -/
def pageGroups (updates : List Update) : List (List Update) :=
  (updates.insertionSort Update.before).splitBy
    fun lhs rhs => layout.pageOf lhs.1 == layout.pageOf rhs.1

/-- `write_batch`: the file afterwards, and whether the call returned. -/
def writeBatch (faults : IoFaults) (file : Bytes) (updates : List Update) :
    Bytes × Except Error Unit :=
  if updates = [] then (file, .ok ()) else
  if hasAdjacentEqual ((updates.insertionSort Update.before).map Prod.fst) then
    (file, .error (.invalidArgument "duplicate Logical ID directory update")) else
  if faults .openDirectory then (file, .error (.system "open(locations.bin)")) else
  if file.length % layout.pageSize ≠ 0 then
    (file, .error (.runtime "external directory is not page aligned")) else
  match layout.writeGroups faults (layout.pageGroups updates) file file.length with
  | (file, .error error) => (file, .error error)
  | (file, .ok currentBytes) =>
      if faults .finishDirectory then (file, .error (.system "ftruncate(locations.bin)"))
      else (ftruncate file currentBytes, .ok ())

/-- The entry stored for `id`. -/
def entryAt (file : Bytes) (id : Nat) : DiskLocation :=
  DiskLocation.decode (slice file (id * 8) 8)

end DirectoryLayout

end Recast
