import Recast.Checkpoint.Recovery
import Recast.Index.InsertionRoom
import Recast.Index.ListSizes
import Recast.Scan.BlockScan
import Mathlib.Order.Bounds.Basic

/-!
# Padded sizes

The size guards bound `logical_size` by a `uint32_t`; `padded_size` is its
round-up to whole blocks, cast to the same type. The cast is harmless up to the
last whole block of that type and wraps above it.
-/

namespace Recast

open Foundation

variable {config : CheckpointConfig} {Vector : Type*}

/-- The largest list size that can be padded within a `uint32_t`. -/
def maxPaddedRows : Nat := uint32Max - (kUpdateBlockSize - 1)

/-! ### What depends on the padding -/

/-- The pointer of a byte table; an empty table has none. -/
def tablePointer (table : Bytes) : Option Bytes := if table = [] then none else some table

/-- The loop of `select_candidates_locked` over the probed lists: the blocks of a
search, and the tokens they take. -/
def probedBlocks (index : Index) : List Nat → Nat → Except Error (List CodeBlockView × Nat)
  | [], tokenBase => .ok ([], tokenBase)
  | listNo :: rest, tokenBase =>
      let list := index.lists listNo
      if list.logicalSize = 0 then probedBlocks index rest tokenBase else
      if uint32Max < tokenBase + list.logicalSize then
        .error (.overflow "query-local candidate token space overflows") else do
      let (blocks, tokens) ← probedBlocks index rest (tokenBase + list.logicalSize)
      return ({ packedCodes := tablePointer list.packedCodes
                packedMetadata := tablePointer list.packedMetadata
                ids := none
                size := list.logicalSize
                paddedSize := list.paddedSize
                blockSize := kUpdateBlockSize
                implicitIdBase := UInt32.ofNat tokenBase } :: blocks, tokens)

/-- The blocks a search for `topk` neighbours hands to the scanner, for the lists
the router selected. -/
def searchBlocks (index : Index) (selected : List Nat) (topk : Nat) :
    Except Error (List CodeBlockView) :=
  if topk = 0 ∨ index.activeCount < topk then
    .error (.invalidArgument "invalid external-list search request") else do
  let (blocks, tokens) ← probedBlocks index selected 0
  if tokens < topk then
    .error (.invalidArgument "probed IVF lists contain fewer than topk rows")
  else .ok blocks

/-- The bytes are whole blocks of codes and of metadata, and each row of the list
is in its lane. -/
def WritesRows (layout : CodeLayout) (list : MemoryList) (bytes : Bytes) : Prop :=
  ∃ codes metadata, bytes = codes ++ metadata ∧
    codes.length = roundUpBlock list.logicalSize * layout.codeSize ∧
    metadata.length = roundUpBlock list.logicalSize * 3 ∧
    ∀ row < list.logicalSize,
      MemoryList.posting layout { list with packedCodes := codes, packedMetadata := metadata } row =
        list.posting layout row

/-- The padded sizes have not wrapped, and neither a search nor a checkpoint
drops a row. -/
structure PaddingHolds (config : CheckpointConfig) (index : Index) : Prop where
  least : ∀ l, IsLeast {padded | kUpdateBlockSize ∣ padded ∧ (index.lists l).logicalSize ≤ padded}
    (index.lists l).paddedSize
  views : ∀ selected topk blocks, searchBlocks index selected topk = .ok blocks →
    ∀ block ∈ blocks, block.size ≤ block.paddedSize
  written : ∀ bytes, postingsFile config index = .ok bytes → ∃ parts : Nat → Bytes,
    bytes = (List.range config.nlist).flatMap parts ∧
      ∀ l < config.nlist, WritesRows config.codes (index.lists l) (parts l)

/-! ### Runs -/

/-- A call, or one step of a checkpoint, on an index. A reload is given any
files. -/
inductive ListCall (config : CheckpointConfig) (Vector : Type*) where
  | update (env : Environment) (operation : Operation config.toIndexConfig Vector)
  | checkpoint (number chunk : Nat) (disk : CheckpointDisk) (phase : CheckpointPhase)
  | reload (manifestFile : Option Bytes) (sizes postings : Nat → Option Bytes) (storage : Storage)

/-- What a call leaves behind, whether it returns or throws. -/
def ListCall.run (encoder : Encoder config.toIndexConfig Vector) (system : System) :
    ListCall config Vector → System
  | .update env operation => (operation.run encoder env system).1
  | .checkpoint number chunk disk phase =>
      { system with index := (phase.advance config number chunk ⟨disk, system.index⟩).1.index }
  | .reload manifestFile sizes postings storage =>
      match loadCheckpoint config manifestFile sizes postings storage.records with
      | .ok index => ⟨index, storage⟩
      | .error _ => system

/-- The list sizes that the files of a checkpoint record. -/
def recordedSizes (config : CheckpointConfig) (manifestFile : Option Bytes)
    (sizes : Nat → Option Bytes) : Except Error (List Nat) := do
  let manifest ← requireFile manifestFile "external-list manifest is missing"
  let manifest ← parseManifest manifest
  let sizes ← requireFile (sizes manifest.generation.toNat)
    "external-list sizes checkpoint is missing"
  parseSizes config sizes

/-- No list is asked to take more rows than can be padded. -/
def ListCall.WithinBlocks (encoder : Encoder config.toIndexConfig Vector) (system : System) :
    ListCall config Vector → Prop
  | .update _ (.insert input) => ∀ l, (system.index.lists l).logicalSize +
      (assignmentsOf encoder input).count l ≤ maxPaddedRows
  | .update _ (.erase _) => True
  | .checkpoint .. => True
  | .reload manifestFile sizes _ _ => ∀ logicalSizes,
      recordedSizes config manifestFile sizes = .ok logicalSizes →
        ∀ size ∈ logicalSizes, size ≤ maxPaddedRows

/-- The states of the runs from a fresh index whose calls all obey the rule. -/
inductive ListReachable (encoder : Encoder config.toIndexConfig Vector)
    (rule : System → ListCall config Vector → Prop) : System → Prop where
  | fresh : ListReachable encoder rule System.fresh
  | call {system : System} (call : ListCall config Vector) : ListReachable encoder rule system →
      rule system call → ListReachable encoder rule (call.run encoder system)

/-- Every size is at most `bound`, and padded with the cast. -/
def Index.SizedBy (index : Index) (bound : Nat) : Prop :=
  ∀ l, (index.lists l).logicalSize ≤ bound ∧
    (index.lists l).paddedSize = MemoryList.paddedTo (index.lists l).logicalSize

section Reload

variable {layout : CodeLayout} {manifestFile : Option Bytes} {sizes postings : Nat → Option Bytes}
  {records : Nat → Option Bytes} {index : Index}

theorem readPostings_sizes {logicalSizes : List Nat} {input rest : Bytes} {lists : List MemoryList}
    (h : readPostings layout logicalSizes input = .ok (lists, rest)) :
    lists.map MemoryList.sizes = logicalSizes.map fun size => (size, MemoryList.paddedTo size) := by
  induction logicalSizes generalizing input rest lists with
  | nil =>
      obtain ⟨rfl, -⟩ := Reader.pure_run_eq_ok.mp h
      rfl
  | cons size others ih =>
      unfold readPostings at h
      obtain ⟨codeBytes, _, -, h⟩ := Reader.bind_run_eq_ok.mp h
      obtain ⟨metadataBytes, _, -, h⟩ := Reader.bind_run_eq_ok.mp h
      obtain ⟨packedCodes, _, -, h⟩ := Reader.bind_run_eq_ok.mp h
      obtain ⟨packedMetadata, _, -, h⟩ := Reader.bind_run_eq_ok.mp h
      obtain ⟨lists', _, hlists, h⟩ := Reader.bind_run_eq_ok.mp h
      obtain ⟨rfl, -⟩ := Reader.pure_run_eq_ok.mp h
      rw [List.map_cons, List.map_cons, ih hlists]
      rfl

theorem readWhole_eq_ok {α : Type} {reader : Reader Error α} {trailing : String} {file : Bytes}
    {value : α} (h : readWhole reader trailing file = .ok value) :
    reader file = .ok (value, []) := by
  unfold readWhole at h
  obtain ⟨⟨value', rest⟩, hreader, h⟩ := bind_eq_ok.mp h
  obtain ⟨hrest, h⟩ := guard_eq_ok.mp h
  rw [hreader, not_not.mp hrest, Except.ok.inj h]

/-- A recorded size is a `uint32_t`. -/
theorem recordedSizes_le {logicalSizes : List Nat}
    (h : recordedSizes config manifestFile sizes = .ok logicalSizes) :
    ∀ size ∈ logicalSizes, size ≤ uint32Max := by
  unfold recordedSizes at h
  obtain ⟨_, -, h⟩ := bind_eq_ok.mp h
  obtain ⟨_, -, h⟩ := bind_eq_ok.mp h
  obtain ⟨_, -, h⟩ := bind_eq_ok.mp h
  refine Reader.many_forall (fun input value rest hvalue => ?_) (readWhole_eq_ok h)
  exact Nat.le_sub_one_of_lt (Reader.number_lt hvalue)

/-- Every list of a reloaded index has a recorded size, or is empty. -/
theorem loadCheckpoint_sizes
    (h : loadCheckpoint config manifestFile sizes postings records = .ok index) :
    ∃ logicalSizes, recordedSizes config manifestFile sizes = .ok logicalSizes ∧
      ∀ l, (index.lists l).sizes = (0, 0) ∨ ∃ size ∈ logicalSizes,
        (index.lists l).sizes = (size, MemoryList.paddedTo size) := by
  unfold loadCheckpoint at h
  obtain ⟨file, hfile, h⟩ := bind_eq_ok.mp h
  obtain ⟨manifest, hmanifest, h⟩ := bind_eq_ok.mp h
  obtain ⟨-, h⟩ := guard_eq_ok.mp h
  obtain ⟨sizesFile, hsizesFile, h⟩ := bind_eq_ok.mp h
  obtain ⟨logicalSizes, hsizes, h⟩ := bind_eq_ok.mp h
  obtain ⟨_, -, h⟩ := bind_eq_ok.mp h
  obtain ⟨-, h⟩ := guard_eq_ok.mp h
  obtain ⟨_, -, h⟩ := bind_eq_ok.mp h
  obtain ⟨lists, hlists, h⟩ := bind_eq_ok.mp h
  rw [pure_eq_ok, Except.ok.injEq] at h
  subst h
  have hmap := readPostings_sizes (readWhole_eq_ok hlists)
  refine ⟨logicalSizes, ?_, fun l => ?_⟩
  · rw [recordedSizes, hfile, ok_bind, hmanifest, ok_bind, hsizesFile, ok_bind, hsizes]
  · dsimp only
    rw [List.getD_eq_getElem?_getD]
    cases hl : lists[l]? with
    | none => exact .inl rfl
    | some list =>
        have hmem : list.sizes ∈ lists.map MemoryList.sizes :=
          List.mem_map_of_mem (List.mem_of_getElem? hl)
        rw [hmap] at hmem
        obtain ⟨size, hsize, heq⟩ := List.mem_map.mp hmem
        exact .inr ⟨size, hsize, heq.symm⟩

end Reload

section Sizes

variable {index : Index} {bound : Nat}

theorem Index.SizedBy.mono (h : index.SizedBy bound) {bound' : Nat} (hle : bound ≤ bound') :
    index.SizedBy bound' := fun l => ⟨(h l).1.trans hle, (h l).2⟩

theorem sizedBy_fresh (bound : Nat) : System.fresh.index.SizedBy bound :=
  fun _ => ⟨Nat.zero_le _, (by decide : 0 = MemoryList.paddedTo 0)⟩

/-- Resized lists stay padded. -/
theorem Index.SizedBy.resized (h : index.SizedBy bound) {index' : Index}
    (hresized : ∀ l, (index.lists l).Resized (index'.lists l) bound) : index'.SizedBy bound := by
  intro l
  rcases hresized l with hsame | ⟨size, hle, hsizes⟩
  · obtain ⟨hsize, hpadded⟩ := Prod.mk.inj hsame
    rw [hsize, hpadded]
    exact h l
  · obtain ⟨hsize, hpadded⟩ := Prod.mk.inj hsizes
    rw [hsize, hpadded]
    exact ⟨hle, rfl⟩

theorem MemoryList.Resized.mono {list list' : MemoryList} (h : list.Resized list' bound)
    {bound' : Nat} (hle : bound ≤ bound') : list.Resized list' bound' :=
  h.imp_right fun ⟨size, hsize, hsizes⟩ => ⟨size, hsize.trans hle, hsizes⟩

/-- One call keeps the sizes padded: within `uint32_t` always, and within whole
blocks when the call asks for no more. -/
theorem ListCall.sizedBy (encoder : Encoder config.toIndexConfig Vector) {system : System}
    (h : system.index.SizedBy bound) (call : ListCall config Vector)
    (hbound : bound = uint32Max ∨ bound = maxPaddedRows ∧ call.WithinBlocks encoder system) :
    (call.run encoder system).index.SizedBy bound := by
  cases call with
  | update env operation =>
      cases operation with
      | insert input =>
          refine h.resized fun l => (insertBatch_sizes encoder env system input l).mono ?_
          rcases hbound with rfl | ⟨rfl, hwithin⟩
          · exact Nat.min_le_left _ _
          · exact (Nat.min_le_right _ _).trans (hwithin l)
      | erase ids =>
          exact h.resized fun l =>
            (eraseBatch_sizes config.toIndexConfig env system ids l).mono (h l).1
  | checkpoint number chunk disk phase =>
      obtain ⟨generation, hindex⟩ := advance_index config number chunk ⟨disk, system.index⟩ phase
      rw [run, hindex]
      exact h
  | reload manifestFile sizes postings storage =>
      rw [run]
      split
      next index hload =>
        obtain ⟨logicalSizes, hrecorded, hlists⟩ := loadCheckpoint_sizes hload
        intro l
        rcases hlists l with hempty | ⟨size, hsize, hsizes⟩
        · obtain ⟨hzero, hpadded⟩ := Prod.mk.inj hempty
          rw [hzero, hpadded]
          exact ⟨Nat.zero_le _, rfl⟩
        · obtain ⟨heq, hpadded⟩ := Prod.mk.inj hsizes
          rw [heq, hpadded]
          refine ⟨?_, rfl⟩
          rcases hbound with rfl | ⟨rfl, hwithin⟩
          · exact recordedSizes_le hrecorded size hsize
          · exact hwithin logicalSizes hrecorded size hsize
      next => exact h

theorem ListReachable.sizedBy {encoder : Encoder config.toIndexConfig Vector}
    {rule : System → ListCall config Vector → Prop} {system : System}
    (h : ListReachable encoder rule system) (hbound : bound = uint32Max ∨ bound = maxPaddedRows ∧
      ∀ system call, rule system call → call.WithinBlocks encoder system) :
    system.index.SizedBy bound := by
  induction h with
  | fresh => exact sizedBy_fresh bound
  | call call _ hrule ih =>
      exact call.sizedBy encoder ih (hbound.imp_right fun h => ⟨h.1, h.2 _ call hrule⟩)

/-- The cast keeps the round-up exactly up to the last whole block. -/
theorem isLeast_paddedTo_iff {size : Nat} (hsize : size ≤ uint32Max) :
    IsLeast {padded | kUpdateBlockSize ∣ padded ∧ size ≤ padded} (MemoryList.paddedTo size) ↔
      size ≤ maxPaddedRows := by
  have hround := roundUpBlock_eq size
  unfold uint32Max at hsize
  rw [MemoryList.paddedTo, maxPaddedRows, uint32Max, kUpdateBlockSize]
  constructor
  · rintro ⟨⟨-, hle⟩, -⟩
    by_contra hlarge
    omega
  · intro hsmall
    refine ⟨⟨?_, ?_⟩, fun padded hpadded => ?_⟩
    · omega
    · omega
    · obtain ⟨⟨blocks, rfl⟩, hle⟩ := hpadded
      omega

theorem paddedTo_eq {size : Nat} (h : size ≤ maxPaddedRows) :
    MemoryList.paddedTo size = roundUpBlock size := by
  have hround := roundUpBlock_eq size
  unfold maxPaddedRows uint32Max kUpdateBlockSize at h
  rw [MemoryList.paddedTo]
  omega

/-- The views of a search copy the sizes of the lists. -/
theorem mem_probedBlocks {selected : List Nat} {tokenBase tokens : Nat}
    {blocks : List CodeBlockView} (h : probedBlocks index selected tokenBase = .ok (blocks, tokens)) :
    ∀ block ∈ blocks, ∃ l, block.size = (index.lists l).logicalSize ∧
      block.paddedSize = (index.lists l).paddedSize := by
  induction selected generalizing tokenBase blocks tokens with
  | nil =>
      rw [probedBlocks, Except.ok.injEq, Prod.mk.injEq] at h
      obtain ⟨rfl, -⟩ := h
      simp
  | cons listNo rest ih =>
      unfold probedBlocks at h
      dsimp only at h
      split at h
      next => exact ih h
      next =>
        obtain ⟨-, h⟩ := guard_eq_ok.mp h
        obtain ⟨⟨others, last⟩, hothers, h⟩ := bind_eq_ok.mp h
        rw [pure_eq_ok, Except.ok.injEq, Prod.mk.injEq] at h
        obtain ⟨rfl, -⟩ := h
        exact List.forall_mem_cons.mpr ⟨⟨listNo, rfl, rfl⟩, ih hothers⟩

theorem mem_searchBlocks {selected : List Nat} {topk : Nat} {blocks : List CodeBlockView}
    (h : searchBlocks index selected topk = .ok blocks) :
    ∀ block ∈ blocks, ∃ l, block.size = (index.lists l).logicalSize ∧
      block.paddedSize = (index.lists l).paddedSize := by
  obtain ⟨-, h⟩ := guard_eq_ok.mp h
  obtain ⟨⟨found, tokens⟩, hfound, h⟩ := bind_eq_ok.mp h
  obtain ⟨-, h⟩ := guard_eq_ok.mp h
  rw [← Except.ok.inj h]
  exact mem_probedBlocks hfound

/-- The bytes of a list whose padding has not wrapped hold its rows. -/
theorem writesRows_postingsOf {layout : CodeLayout} {list : MemoryList} {bytes : Bytes}
    (hpadded : list.paddedSize = roundUpBlock list.logicalSize)
    (h : postingsOf layout list = .ok bytes) : WritesRows layout list bytes := by
  obtain ⟨-, h⟩ := guard_eq_ok.mp h
  obtain ⟨metadataBytes, hmetadata, h⟩ := bind_eq_ok.mp h
  rw [packedMetadataSize, guard_eq_ok, guard_eq_ok, Except.ok.injEq] at hmetadata
  obtain ⟨hblocks, -, rfl⟩ := hmetadata
  obtain ⟨hlength, h⟩ := guard_eq_ok.mp h
  rw [not_or, Nat.not_lt, Nat.not_lt] at hlength
  refine ⟨_, _, (Except.ok.inj h).symm, ?_, ?_, fun row hrow => ?_⟩
  · rw [List.length_take_of_le hlength.1, hpadded]
  · rw [List.length_take_of_le hlength.2, hpadded]
  · exact MemoryList.posting_trimmed (not_not.mp hblocks)
      (hpadded ▸ Nat.lt_of_lt_of_le hrow (le_roundUpBlock _))

/-- In an index padded with the cast, nothing wraps exactly when every list is
within whole blocks. -/
theorem Index.SizedBy.paddingHolds_iff (h : index.SizedBy uint32Max) :
    PaddingHolds config index ↔ ∀ l, (index.lists l).logicalSize ≤ maxPaddedRows := by
  constructor
  · intro hpadding l
    have hleast := hpadding.least l
    rw [(h l).2] at hleast
    exact (isLeast_paddedTo_iff (h l).1).mp hleast
  · intro hsmall
    have hpadded : ∀ l, (index.lists l).paddedSize = roundUpBlock (index.lists l).logicalSize :=
      fun l => (h l).2.trans (paddedTo_eq (hsmall l))
    refine ⟨fun l => ?_, fun selected topk blocks hblocks block hblock => ?_, fun bytes hbytes => ?_⟩
    · rw [(h l).2]
      exact (isLeast_paddedTo_iff (h l).1).mpr (hsmall l)
    · obtain ⟨l, hsize, hview⟩ := mem_searchBlocks hblocks block hblock
      rw [hsize, hview, hpadded l]
      exact le_roundUpBlock _
    · obtain ⟨written, hwritten, hflat⟩ := bind_eq_ok.mp hbytes
      have hparts : ∀ l ∈ List.range config.nlist,
          ∃ part, postingsOf config.codes (index.lists l) = .ok part := forall_of_mapM_ok hwritten
      choose! parts hparts using hparts
      have hmap := mapM_ok_of_forall hparts
      rw [hwritten, Except.ok.injEq] at hmap
      refine ⟨parts, ?_, fun l hl =>
        writesRows_postingsOf (hpadded l) (hparts l (List.mem_range.mpr hl))⟩
      rw [← Except.ok.inj hflat, hmap, List.flatMap_def]

end Sizes

/-- In every state of every run, nothing has wrapped exactly when every list is
within whole blocks; so nothing wraps in a run whose calls ask for no more. -/
theorem padded_sizes_within_blocks (encoder : Encoder config.toIndexConfig Vector)
    {system : System} :
    (ListReachable encoder (fun _ _ => True) system →
      (PaddingHolds config system.index ↔
        ∀ l, (system.index.lists l).logicalSize ≤ maxPaddedRows)) ∧
    (ListReachable encoder (fun system call => call.WithinBlocks encoder system) system →
      PaddingHolds config system.index) := by
  constructor
  · intro hreachable
    exact (hreachable.sizedBy (.inl rfl)).paddingHolds_iff
  · intro hreachable
    have hsmall := hreachable.sizedBy (.inr ⟨rfl, fun _ _ hrule => hrule⟩)
    exact (hsmall.mono (Nat.sub_le _ _)).paddingHolds_iff.mpr fun l => (hsmall l).1

/-- Five rows of two lists, and a deletion from one of them. -/
theorem padded_sizes_within_blocks_moved_row :
    PaddingHolds twoListsCheckpoint fourRows.index ∧
      (fourRows.index.lists 0).sizes = (2, 32) ∧ (fourRows.index.lists 1).sizes = (2, 32) := by
  have hwithin : (ListCall.update .quiet (.insert fiveBytes) :
      ListCall twoListsCheckpoint UInt8).WithinBlocks byteEncoder System.fresh := by
    intro l
    have hcount := @List.count_le_length _ _ l (assignmentsOf byteEncoder fiveBytes)
    exact (Nat.add_le_add_left hcount 0).trans (by decide)
  have hinsert : ListReachable byteEncoder
      (fun system (call : ListCall twoListsCheckpoint UInt8) => call.WithinBlocks byteEncoder system)
      fiveRows := .call _ .fresh hwithin
  have herase := ListReachable.call (.update .quiet (.erase [0])) hinsert trivial
  exact ⟨(padded_sizes_within_blocks byteEncoder).2 herase, by decide +kernel, by decide +kernel⟩

/-! ### The last block -/

section Largest

/-- Every row goes to the only list of the smallest index. -/
def onlyListEncoder : Encoder smallestConfig.toIndexConfig Unit :=
  constantEncoder smallestConfig.toIndexConfig 0

def zeroRows (count : Nat) : List (InputRow smallestConfig.toIndexConfig Unit) :=
  List.replicate count (zeroRow smallestConfig.toIndexConfig)

@[simp] theorem length_zeroRows (count : Nat) : (zeroRows count).length = count :=
  List.length_replicate

theorem assignmentsOf_zeroRows (count : Nat) :
    assignmentsOf onlyListEncoder (zeroRows count) = List.replicate count 0 := List.map_replicate

theorem count_zeroRows {count l : Nat} (hl : l ∈ assignmentsOf onlyListEncoder (zeroRows count)) :
    (assignmentsOf onlyListEncoder (zeroRows count)).count l = count := by
  rw [assignmentsOf_zeroRows] at hl ⊢
  rw [List.eq_of_mem_replicate hl, List.count_replicate_self]

theorem planInsert_zeroRows {count : Nat} (hcount : count ≤ uint32Max) :
    ∃ plan, planInsert onlyListEncoder System.fresh.index (zeroRows count) = .ok plan := by
  have hcodes : smallestConfig.codes.codeSize = 1 := rfl
  have hpayload : smallestConfig.records.payloadBytes = 4 := rfl
  have hnext : System.fresh.index.nextId = 0 := rfl
  have hactive : System.fresh.index.activeCount = 0 := rfl
  unfold uint32Max at hcount
  apply planInsert_ok
  · rw [length_zeroRows, hnext, uint32Max]
    omega
  · rw [length_zeroRows, hactive, sizeMax]
    omega
  · rw [length_zeroRows, hcodes, sizeMax]
    omega
  · rw [length_zeroRows, hpayload, sizeMax]
    omega
  · intro l hl
    rw [assignmentsOf_zeroRows] at hl
    exact (List.eq_of_mem_replicate hl).trans_lt Nat.one_pos

/-- The smallest index takes any number of rows that fit a `uint32_t`. -/
theorem insert_zeroRows {count : Nat} (hcount : count ≤ uint32Max) :
    (insertBatch onlyListEncoder .quiet System.fresh (zeroRows count)).2 =
      .ok ((generateRows onlyListEncoder System.fresh.index.nextId (zeroRows count)).map Row.id) := by
  have hcodes : smallestConfig.codes.codeSize = 1 := rfl
  have hpage : smallestConfig.records.pageSize = 8 := rfl
  have hperPage : smallestConfig.records.recordsPerPage = 1 := rfl
  have hentries : smallestConfig.directory.pageSize = 8 := rfl
  have hnext : System.fresh.index.nextId = 0 := rfl
  have hsmall := hcount
  unfold uint32Max at hsmall
  refine insertBatch_ok rfl (stored_fresh smallestConfig.toIndexConfig)
    (planInsert_zeroRows hcount) (fun l hl => ?_) (fun l hl => ?_) fun id hid => ?_
  · rw [count_zeroRows hl, MemoryList.CanReserve, List.length_nil, Nat.zero_add, hcodes,
      roundUpBlock_eq]
    refine ⟨hcount, ?_⟩
    unfold sizeMax
    omega
  · have hpages := (@pageCount_le_iff count 1 count Nat.one_pos).mpr (Nat.mul_one count).ge
    rw [count_zeroRows hl, List.length_nil, Nat.zero_add, hpage, hperPage]
    unfold offMax
    omega
  · have hoffset := @DirectoryLayout.entry_offset smallestConfig.directory id
    rw [hentries] at hoffset ⊢
    rw [length_zeroRows, hnext] at hid
    unfold offMax
    omega

/-- Afterwards its list has them all. -/
theorem sizes_zeroRows {count : Nat} (hcount : count ≤ uint32Max) :
    let system := (insertBatch onlyListEncoder .quiet System.fresh (zeroRows count)).1
    (system.index.lists 0).sizes = (count, MemoryList.paddedTo count) ∧
      system.index.activeCount = count := by
  have hassign := assignmentsOf_zeroRows count
  rcases insertBatch_spec .quiet (stored_fresh smallestConfig.toIndexConfig) onlyListEncoder
    (zeroRows count) with ⟨-, hdone⟩ | ⟨error, -, herror, -⟩
  · have hlength : (insertRows onlyListEncoder System.fresh.index.nextId (zeroRows count)
        (fun _ => []) 0).length = count := by
      rw [insertRows, List.nil_append, length_batchRows (by simp), hassign,
        List.count_replicate_self]
    obtain ⟨blocks, hholds⟩ := hdone.stored.postings 0
    have hsize := hholds.size
    have hpadded := hholds.padded
    rw [List.length_map, hlength] at hsize hpadded
    refine ⟨by rw [MemoryList.sizes, hsize, hpadded], ?_⟩
    have hactive := hdone.stored.active
    have honly : smallestConfig.nlist = 1 := rfl
    rwa [honly, Finset.sum_range_one, hlength] at hactive
  · rw [insert_zeroRows hcount] at herror
    cases herror

/-- One row more than can be padded: every guard admits it, and the padded size
is zero. A search then gets a view of no rows, and a checkpoint writes none. -/
theorem padded_size_wraps : ∃ system : System,
    ListReachable onlyListEncoder (fun _ _ => True) system ∧
      (system.index.lists 0).sizes = (2 ^ 32 - 31, 0) ∧
      (∃ block, searchBlocks system.index [0] 1 = .ok [block] ∧ block.paddedSize < block.size) ∧
      postingsFile smallestConfig system.index = .ok [] ∧
      ¬PaddingHolds smallestConfig system.index := by
  obtain ⟨count, hcount⟩ : ∃ count, count = 2 ^ 32 - 31 := ⟨_, rfl⟩
  obtain ⟨hsizes, hactive⟩ := @sizes_zeroRows count (by rw [hcount]; decide)
  have hreachable : ListReachable onlyListEncoder (fun _ _ => True)
      (insertBatch onlyListEncoder .quiet System.fresh (zeroRows count)).1 :=
    .call (.update .quiet (.insert (zeroRows count))) .fresh trivial
  generalize (insertBatch onlyListEncoder .quiet System.fresh (zeroRows count)).1 = system at *
  have hwrapped : MemoryList.paddedTo count = 0 := by rw [hcount]; decide
  rw [hwrapped] at hsizes
  obtain ⟨hsize, hpadded⟩ := Prod.mk.inj hsizes
  refine ⟨system, hreachable, by rw [hsizes, hcount], ?_, ?_, fun hpadding => ?_⟩
  · have hview : ∃ block, probedBlocks system.index [0] 0 = .ok ([block], count) ∧
        block.paddedSize < block.size := by
      rw [probedBlocks]
      dsimp only
      rw [hsize, hpadded, if_neg (by omega), if_neg (by unfold uint32Max; omega), Nat.zero_add]
      exact ⟨_, rfl, by dsimp only; omega⟩
    obtain ⟨block, hblock, hlt⟩ := hview
    refine ⟨block, ?_, hlt⟩
    rw [searchBlocks, if_neg (by omega), hblock, ok_bind]
    dsimp only
    rw [if_neg (by omega)]
  · have hpart : postingsOf smallestConfig.codes (system.index.lists 0) = .ok [] := by
      rw [postingsOf, hpadded]
      rfl
    have honly : List.range smallestConfig.nlist = [0] := rfl
    rw [postingsFile, honly, mapM_cons_except, hpart]
    rfl
  · have hle := (hpadding.least 0).1.2
    rw [hsize, hpadded] at hle
    omega

end Largest

end Recast
