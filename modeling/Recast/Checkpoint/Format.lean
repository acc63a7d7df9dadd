import Recast.Foundation.Reader
import Recast.Index.State

/-!
# The checkpoint files

A checkpoint writes three files: the sizes of the lists, their postings without
IDs, and the manifest, which names the other two by a generation. Lengths are
not stored; a reload derives them from the sizes.
-/

namespace Recast

open Foundation

/-- What a checkpoint records of an index besides its lists. The quantizer file
is what `RecastQuantizer::save` writes for the trained quantizer. -/
structure CheckpointConfig extends IndexConfig where
  dimension : Nat
  payloadFormat : Nat
  quantizerFile : Bytes

/-- The `magic` of `CheckpointManifest`. -/
def kManifestMagic : Bytes := [82, 67, 88, 76, 73, 83, 84, 49]

/-- `CheckpointManifest`, 120 bytes in the file. -/
@[ext] structure CheckpointManifest where
  magic : Bytes
  formatVersion : UInt64
  dimension : UInt64
  subquantizers : UInt64
  nlist : UInt64
  pageSize : UInt64
  payloadBytes : UInt64
  payloadFormat : UInt64
  recordStride : UInt64
  recordsPerPage : UInt64
  nextId : UInt64
  activeCount : UInt64
  postingBlockSize : UInt64
  metadataLayoutVersion : UInt64
  generation : UInt64
  deriving DecidableEq

namespace CheckpointManifest

/-- The fields after the magic, in file order. -/
def fields (manifest : CheckpointManifest) : List UInt64 :=
  [manifest.formatVersion, manifest.dimension, manifest.subquantizers, manifest.nlist,
    manifest.pageSize, manifest.payloadBytes, manifest.payloadFormat, manifest.recordStride,
    manifest.recordsPerPage, manifest.nextId, manifest.activeCount, manifest.postingBlockSize,
    manifest.metadataLayoutVersion, manifest.generation]

def encode (manifest : CheckpointManifest) : Bytes :=
  manifest.magic ++ manifest.fields.flatMap fun field => toLittleEndian 8 field.toNat

end CheckpointManifest

/-- The manifest of a checkpoint. -/
def checkpointManifest (config : CheckpointConfig) (index : Index) (generation : Nat) :
    CheckpointManifest where
  magic := kManifestMagic
  formatVersion := 1
  dimension := UInt64.ofNat config.dimension
  subquantizers := UInt64.ofNat config.codes.subquantizers
  nlist := UInt64.ofNat config.nlist
  pageSize := UInt64.ofNat config.records.pageSize
  payloadBytes := UInt64.ofNat config.records.payloadBytes
  payloadFormat := UInt64.ofNat config.payloadFormat
  recordStride := UInt64.ofNat config.records.recordStride
  recordsPerPage := UInt64.ofNat config.records.recordsPerPage
  nextId := UInt64.ofNat index.nextId
  activeCount := UInt64.ofNat index.activeCount
  postingBlockSize := UInt64.ofNat kUpdateBlockSize
  metadataLayoutVersion := 1
  generation := UInt64.ofNat generation

/-- The `list_sizes` file. -/
def listSizesFile (config : CheckpointConfig) (index : Index) : Bytes :=
  (List.range config.nlist).flatMap fun listNo =>
    toLittleEndian 4 (index.lists listNo).logicalSize

/-- `packed_metadata_size_bbs32`. -/
def packedMetadataSize (paddedSize : Nat) : Except Error Nat :=
  if paddedSize % kUpdateBlockSize ≠ 0 then
    .error (.invalidArgument "packed metadata row count must be a multiple of 32") else
  if sizeMax / 3 < paddedSize then .error (.overflow "packed metadata size overflow") else
  .ok (paddedSize * 3)

/-- The postings of one list, without its spare capacity. -/
def postingsOf (layout : CodeLayout) (list : MemoryList) : Except Error Bytes :=
  let logicalCodeBytes := list.paddedSize * layout.codeSize
  if sizeMax < logicalCodeBytes then
    .error (.overflow "checkpoint logical code size overflows") else do
  let logicalMetadataBytes ← packedMetadataSize list.paddedSize
  if list.packedCodes.length < logicalCodeBytes ∨
      list.packedMetadata.length < logicalMetadataBytes then
    .error (.logic "packed list is shorter than its logical checkpoint")
  else
    .ok (list.packedCodes.take logicalCodeBytes ++ list.packedMetadata.take logicalMetadataBytes)

/-- The `postings_no_ids` file. -/
def postingsFile (config : CheckpointConfig) (index : Index) : Except Error Bytes := do
  let lists ← (List.range config.nlist).mapM fun listNo =>
    postingsOf config.codes (index.lists listNo)
  return lists.flatten

/-! ### Reading -/

/-- `read_binary` of a block of bytes. -/
def readBlock (count : Nat) : Reader Error Bytes := fun input =>
  if input.length < count then .error (.runtime "checkpoint file is truncated")
  else .ok (input.take count, input.drop count)

/-- `read_binary` of one `uint64_t`. -/
def readWord : Reader Error UInt64 := do
  let value ← Reader.number (.runtime "checkpoint file is truncated") 8
  return UInt64.ofNat value

/-- `read_binary` of a `CheckpointManifest`. -/
def readManifest : Reader Error CheckpointManifest := do
  let magic ← readBlock 8
  let formatVersion ← readWord
  let dimension ← readWord
  let subquantizers ← readWord
  let nlist ← readWord
  let pageSize ← readWord
  let payloadBytes ← readWord
  let payloadFormat ← readWord
  let recordStride ← readWord
  let recordsPerPage ← readWord
  let nextId ← readWord
  let activeCount ← readWord
  let postingBlockSize ← readWord
  let metadataLayoutVersion ← readWord
  let generation ← readWord
  return { magic, formatVersion, dimension, subquantizers, nlist, pageSize, payloadBytes,
           payloadFormat, recordStride, recordsPerPage, nextId, activeCount, postingBlockSize,
           metadataLayoutVersion, generation }

/-- Read a whole file; nothing may follow. -/
def readWhole {α : Type} (reader : Reader Error α) (trailing : String) (file : Bytes) :
    Except Error α := do
  let (value, rest) ← reader file
  if rest ≠ [] then .error (.runtime trailing) else .ok value

/-- The manifest a file holds. -/
def parseManifest (file : Bytes) : Except Error CheckpointManifest :=
  readWhole readManifest "external-list manifest has trailing bytes" file

/-- Whether the manifest belongs to an index of this configuration. -/
def CheckpointManifest.Compatible (config : CheckpointConfig) (manifest : CheckpointManifest) :
    Prop :=
  manifest.magic = kManifestMagic ∧ manifest.formatVersion = 1 ∧
    manifest.dimension = UInt64.ofNat config.dimension ∧
    manifest.subquantizers = UInt64.ofNat config.codes.subquantizers ∧
    manifest.nlist = UInt64.ofNat config.nlist ∧
    manifest.pageSize = UInt64.ofNat config.records.pageSize ∧
    manifest.payloadBytes = UInt64.ofNat config.records.payloadBytes ∧
    manifest.payloadFormat = UInt64.ofNat config.payloadFormat ∧
    manifest.recordStride = UInt64.ofNat config.records.recordStride ∧
    manifest.recordsPerPage = UInt64.ofNat config.records.recordsPerPage ∧
    manifest.postingBlockSize = UInt64.ofNat kUpdateBlockSize ∧
    manifest.metadataLayoutVersion = 1 ∧ manifest.generation ≠ 0 ∧
    manifest.nextId.toNat ≤ uint32Max ∧ manifest.activeCount.toNat ≤ sizeMax

instance (config : CheckpointConfig) (manifest : CheckpointManifest) :
    Decidable (manifest.Compatible config) := by
  unfold CheckpointManifest.Compatible
  infer_instance

/-- The sizes a `list_sizes` file holds. -/
def parseSizes (config : CheckpointConfig) (file : Bytes) : Except Error (List Nat) :=
  readWhole (Reader.many (Reader.number (.runtime "checkpoint file is truncated") 4) config.nlist)
    "external-list sizes have trailing bytes" file

/-- The sum of the sizes; every record file must fit its size. -/
def checkSizes (config : CheckpointConfig) (records : Nat → Option Bytes) :
    List Nat → Nat → Nat → Except Error Nat
  | [], _, activeSum => .ok activeSum
  | size :: rest, listNo, activeSum =>
      if sizeMax < activeSum + size then
        .error (.overflow "checkpoint active count overflows") else do
      config.records.validateListFile size (records listNo)
      checkSizes config records rest (listNo + 1) (activeSum + size)

/-- The lists, each read with the lengths its size implies. -/
def readPostings (layout : CodeLayout) : List Nat → Reader Error (List MemoryList)
  | [] => pure []
  | size :: rest => do
      let paddedSize := MemoryList.paddedTo size
      let codeBytes ← Reader.ofExcept (if sizeMax < paddedSize * layout.codeSize then
        .error (.overflow "checkpoint code size overflows") else .ok (paddedSize * layout.codeSize))
      let metadataBytes ← Reader.ofExcept (packedMetadataSize paddedSize)
      let packedCodes ← readBlock codeBytes
      let packedMetadata ← readBlock metadataBytes
      let lists ← readPostings layout rest
      return ⟨packedCodes, packedMetadata, size, paddedSize⟩ :: lists

/-- A checkpoint file that must exist. -/
def requireFile (file : Option Bytes) (message : String) : Except Error Bytes :=
  match file with
  | some bytes => .ok bytes
  | none => .error (.runtime message)

/-- `load_checkpoint_locked`: the index the checkpoint files describe. `sizes`
and `postings` give the files of a generation. -/
def loadCheckpoint (config : CheckpointConfig) (manifestFile : Option Bytes)
    (sizes postings : Nat → Option Bytes) (records : Nat → Option Bytes) : Except Error Index := do
  let manifest ← requireFile manifestFile "external-list manifest is missing"
  let manifest ← parseManifest manifest
  if ¬ manifest.Compatible config then
    .error (.runtime "external-list manifest is incompatible") else
  let sizes ← requireFile (sizes manifest.generation.toNat)
    "external-list sizes checkpoint is missing"
  let logicalSizes ← parseSizes config sizes
  let activeSum ← checkSizes config records logicalSizes 0 0
  if activeSum ≠ manifest.activeCount.toNat then
    .error (.runtime "manifest active count disagrees with list sizes") else
  let postings ← requireFile (postings manifest.generation.toNat)
    "external-list postings are missing"
  let lists ← readWhole (readPostings config.codes logicalSizes)
    "external-list postings have trailing bytes" postings
  return ⟨fun listNo => lists.getD listNo MemoryList.empty, manifest.nextId.toNat, activeSum,
    manifest.generation.toNat⟩

/-! ### Round trips -/

theorem reads_readBlock {count : Nat} {bytes : Bytes} (h : bytes.length = count) :
    Reader.Reads (readBlock count) bytes bytes := by
  intro rest
  rw [readBlock, if_neg (by rw [List.length_append]; omega), List.take_left' h, List.drop_left' h]

theorem reads_readWord (word : UInt64) :
    Reader.Reads readWord (toLittleEndian 8 word.toNat) word := by
  have hword : Reader.Reads (Reader.number (.runtime "checkpoint file is truncated" : Error) 8)
      (toLittleEndian 8 word.toNat) word.toNat := Reader.reads_number _ word.toNat_lt
  exact hword.finish (by rw [UInt64.ofNat_toNat]; exact Reader.reads_pure word)

theorem reads_readManifest {manifest : CheckpointManifest} (h : manifest.magic.length = 8) :
    Reader.Reads readManifest manifest.encode manifest := by
  rw [CheckpointManifest.encode, CheckpointManifest.fields]
  simp only [List.flatMap_cons, List.flatMap_nil]
  refine (reads_readBlock h).bind ?_
  repeat refine (reads_readWord _).bind ?_
  exact Reader.reads_pure manifest

theorem readWhole_of_reads {α : Type} {reader : Reader Error α} {file : Bytes} {value : α}
    (h : Reader.Reads reader file value) (trailing : String) :
    readWhole reader trailing file = .ok value := by
  have hall := h []
  rw [List.append_nil] at hall
  rw [readWhole, hall]
  rfl

/-- A manifest is read back as it was written. -/
theorem parseManifest_encode {manifest : CheckpointManifest} (h : manifest.magic.length = 8) :
    parseManifest manifest.encode = .ok manifest :=
  readWhole_of_reads (reads_readManifest h) _

/-- A reload takes the generation over from the manifest. -/
theorem loadCheckpoint_generation {config : CheckpointConfig} {manifestFile : Option Bytes}
    {sizes postings : Nat → Option Bytes} {records : Nat → Option Bytes} {index : Index}
    (h : loadCheckpoint config manifestFile sizes postings records = .ok index) :
    ∃ file manifest, manifestFile = some file ∧ parseManifest file = .ok manifest ∧
      manifest.generation ≠ 0 ∧ index.checkpointGeneration = manifest.generation.toNat := by
  unfold loadCheckpoint at h
  obtain ⟨file, hfile, h⟩ := bind_eq_ok.mp h
  obtain ⟨manifest, hmanifest, h⟩ := bind_eq_ok.mp h
  obtain ⟨hcompatible, h⟩ := guard_eq_ok.mp h
  obtain ⟨_, _, h⟩ := bind_eq_ok.mp h
  obtain ⟨_, _, h⟩ := bind_eq_ok.mp h
  obtain ⟨_, _, h⟩ := bind_eq_ok.mp h
  obtain ⟨_, h⟩ := guard_eq_ok.mp h
  obtain ⟨_, _, h⟩ := bind_eq_ok.mp h
  obtain ⟨_, _, h⟩ := bind_eq_ok.mp h
  rw [pure_eq_ok, Except.ok.injEq] at h
  refine ⟨file, manifest, ?_, hmanifest, ?_, ?_⟩
  · cases manifestFile with
    | none => cases hfile
    | some bytes =>
        rw [requireFile, Except.ok.injEq] at hfile
        rw [hfile]
  · rw [not_not] at hcompatible
    exact hcompatible.2.2.2.2.2.2.2.2.2.2.2.2.1
  · rw [← h]

end Recast
