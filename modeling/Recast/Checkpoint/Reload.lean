import Recast.Checkpoint.Call
import Recast.Index.Runs

/-!
# Reloading a checkpoint

What a reload asks of an index and of its record files, and the index it then
restores: the one that was saved, without the spare capacity of its buffers.
-/

namespace Recast

open Foundation

variable {config : CheckpointConfig}

/-- The buffers of a list cover its padded rows. -/
structure MemoryList.Covers (layout : CodeLayout) (list : MemoryList) : Prop where
  size_le : list.logicalSize ≤ uint32Max
  padded : list.paddedSize = paddedTo list.logicalSize
  codes_le : list.paddedSize * layout.codeSize ≤ sizeMax
  codes : list.paddedSize * layout.codeSize ≤ list.packedCodes.length
  metadata : list.paddedSize * 3 ≤ list.packedMetadata.length

/-- What a reload asks of an index and of its record files. -/
structure Loadable (config : CheckpointConfig) (index : Index) (records : Nat → Option Bytes) :
    Prop where
  covers : ∀ l < config.nlist, (index.lists l).Covers config.codes
  files : ∀ l < config.nlist,
    config.records.validateListFile (index.lists l).logicalSize (records l) = .ok ()
  active : index.activeCount = ∑ l ∈ Finset.range config.nlist, (index.lists l).logicalSize
  active_le : index.activeCount ≤ sizeMax
  nextId_le : index.nextId ≤ uint32Max

/-- A list without its spare capacity. -/
def MemoryList.trimmed (layout : CodeLayout) (list : MemoryList) : MemoryList where
  packedCodes := list.packedCodes.take (list.paddedSize * layout.codeSize)
  packedMetadata := list.packedMetadata.take (list.paddedSize * 3)
  logicalSize := list.logicalSize
  paddedSize := list.paddedSize

/-- The index a checkpoint restores. -/
def Index.restored (config : CheckpointConfig) (index : Index) (generation : Nat) : Index where
  lists := fun l => if l < config.nlist then (index.lists l).trimmed config.codes
    else MemoryList.empty
  nextId := index.nextId
  activeCount := index.activeCount
  checkpointGeneration := generation

namespace MemoryList

variable {layout : CodeLayout} {list : MemoryList}

theorem paddedTo_mod (size : Nat) : paddedTo size % kUpdateBlockSize = 0 := by
  rw [paddedTo, roundUpBlock_eq, kUpdateBlockSize]
  omega

theorem packedMetadataSize_paddedTo (size : Nat) :
    packedMetadataSize (paddedTo size) = .ok (paddedTo size * 3) := by
  have hlt : paddedTo size < 2 ^ 32 := Nat.mod_lt _ (by norm_num)
  rw [packedMetadataSize, if_neg (by rw [paddedTo_mod]; exact not_not.mpr rfl),
    if_neg (by unfold sizeMax; omega)]

/-- The bytes of a list in the postings file. -/
theorem Covers.postingsOf_eq (h : list.Covers layout) : postingsOf layout list =
    .ok ((list.trimmed layout).packedCodes ++ (list.trimmed layout).packedMetadata) := by
  have hcodes := h.codes
  have hmetadata := h.metadata
  rw [postingsOf, if_neg (Nat.not_lt.mpr h.codes_le), h.padded, packedMetadataSize_paddedTo,
    ok_bind, if_neg (by rw [h.padded] at hcodes hmetadata; omega), trimmed, h.padded]

end MemoryList

section Files

variable {index : Index} {records : Nat → Option Bytes}

/-- The postings are read back list by list. -/
theorem reads_readPostings {layout : CodeLayout} {lists : List MemoryList}
    (h : ∀ list ∈ lists, list.Covers layout) :
    Reader.Reads (readPostings layout (lists.map MemoryList.logicalSize))
      (lists.flatMap fun list =>
        (list.trimmed layout).packedCodes ++ (list.trimmed layout).packedMetadata)
      (lists.map (MemoryList.trimmed layout)) := by
  induction lists with
  | nil => exact Reader.reads_pure []
  | cons list rest ih =>
      obtain ⟨hlist, hrest⟩ := List.forall_mem_cons.mp h
      have hcodes : (list.trimmed layout).packedCodes.length =
          MemoryList.paddedTo list.logicalSize * layout.codeSize := by
        rw [← hlist.padded]
        exact List.length_take_of_le hlist.codes
      have hmetadata : (list.trimmed layout).packedMetadata.length =
          MemoryList.paddedTo list.logicalSize * 3 := by
        rw [← hlist.padded]
        exact List.length_take_of_le hlist.metadata
      have hle := hlist.codes_le
      rw [hlist.padded] at hle
      have hresult : list.trimmed layout = ⟨(list.trimmed layout).packedCodes,
          (list.trimmed layout).packedMetadata, list.logicalSize,
          MemoryList.paddedTo list.logicalSize⟩ := by
        rw [← hlist.padded]
        rfl
      rw [List.map_cons, List.map_cons, List.flatMap_cons, readPostings, List.append_assoc]
      refine Reader.Reads.skip (Reader.reads_ofExcept (if_neg (Nat.not_lt.mpr hle))) ?_
      refine Reader.Reads.skip
        (Reader.reads_ofExcept (MemoryList.packedMetadataSize_paddedTo list.logicalSize)) ?_
      refine (reads_readBlock hcodes).bind ((reads_readBlock hmetadata).bind ?_)
      refine Reader.Reads.finish (ih hrest) ?_
      rw [← hresult]
      exact Reader.reads_pure _

theorem sum_map_range (f : Nat → Nat) (n : Nat) :
    ((List.range n).map f).sum = ∑ i ∈ Finset.range n, f i := by
  induction n with
  | zero => rfl
  | succ n ih =>
      rw [List.range_succ, List.map_append, List.sum_append, ih, Finset.sum_range_succ]
      rfl

/-- The sizes are accepted when every record file fits its size. -/
theorem checkSizes_ok {sizes : List Nat} {listNo activeSum : Nat}
    (hfiles : ∀ i (h : i < sizes.length),
      config.records.validateListFile sizes[i] (records (listNo + i)) = .ok ())
    (hsum : activeSum + sizes.sum ≤ sizeMax) :
    checkSizes config records sizes listNo activeSum = .ok (activeSum + sizes.sum) := by
  induction sizes generalizing listNo activeSum with
  | nil => rfl
  | cons size rest ih =>
      rw [List.sum_cons, ← Nat.add_assoc] at hsum ⊢
      have hfirst : config.records.validateListFile size (records listNo) = .ok () :=
        hfiles 0 (Nat.zero_lt_succ _)
      rw [checkSizes, if_neg (Nat.not_lt.mpr (by omega)), hfirst, ok_bind]
      apply ih _ hsum
      intro i hi
      have hnext := hfiles (i + 1) (Nat.succ_lt_succ hi)
      rwa [← Nat.add_assoc, Nat.add_right_comm] at hnext

theorem parseSizes_listSizesFile (h : ∀ l < config.nlist, (index.lists l).logicalSize ≤ uint32Max) :
    parseSizes config (listSizesFile config index) =
      .ok ((List.range config.nlist).map fun l => (index.lists l).logicalSize) := by
  have hreads := @Reader.Reads.many Error Nat
    (Reader.number (.runtime "checkpoint file is truncated") 4) (toLittleEndian 4)
    ((List.range config.nlist).map fun l => (index.lists l).logicalSize) fun size hsize => by
      obtain ⟨l, hl, rfl⟩ := List.mem_map.mp hsize
      have hle := h l (List.mem_range.mp hl)
      exact Reader.reads_number _ (by unfold uint32Max at hle; omega)
  rw [List.length_map, List.length_range, List.flatMap_map] at hreads
  exact readWhole_of_reads hreads _

theorem Loadable.postingsFile_eq (h : Loadable config index records) :
    postingsFile config index = .ok (((List.range config.nlist).map index.lists).flatMap
      fun list => (list.trimmed config.codes).packedCodes ++
        (list.trimmed config.codes).packedMetadata) := by
  have hlists := @mapM_ok_of_forall _ _ _ (fun l => postingsOf config.codes (index.lists l))
    (fun l => ((index.lists l).trimmed config.codes).packedCodes ++
      ((index.lists l).trimmed config.codes).packedMetadata) (List.range config.nlist)
    fun l hl => (h.covers l (List.mem_range.mp hl)).postingsOf_eq
  rw [postingsFile, hlists, ok_bind, List.flatMap_map, List.flatMap_def]
  rfl

theorem Loadable.counts_toNat (h : Loadable config index records) (generation : Nat) :
    (checkpointManifest config index generation).nextId.toNat = index.nextId ∧
      (checkpointManifest config index generation).activeCount.toNat = index.activeCount := by
  have hnext : index.nextId < 2 ^ 64 := Nat.lt_of_le_of_lt h.nextId_le (by decide)
  have hactive : index.activeCount < 2 ^ 64 := Nat.lt_of_le_of_lt h.active_le (by decide)
  exact ⟨UInt64.toNat_ofNat_of_lt' hnext, UInt64.toNat_ofNat_of_lt' hactive⟩

theorem Loadable.compatible (h : Loadable config index records) {generation : Nat}
    (hzero : generation ≠ 0) (hlt : generation < 2 ^ 64) :
    (checkpointManifest config index generation).Compatible config := by
  obtain ⟨hnext, hactive⟩ := h.counts_toNat generation
  refine ⟨rfl, rfl, rfl, rfl, rfl, rfl, rfl, rfl, rfl, rfl, rfl, rfl, fun heq => hzero ?_,
    hnext ▸ h.nextId_le, hactive ▸ h.active_le⟩
  have := congrArg UInt64.toNat heq
  rwa [checkpointManifest, UInt64.toNat_ofNat_of_lt' hlt] at this

/-- The files of a checkpoint restore the index that wrote them. -/
theorem Loadable.loadCheckpoint_eq (h : Loadable config index records) {generation : Nat}
    (hzero : generation ≠ 0) (hlt : generation < 2 ^ 64) {sizes postings : Nat → Option Bytes}
    {postingsBytes : Bytes} (hsizes : sizes generation = some (listSizesFile config index))
    (hpostings : postings generation = some postingsBytes)
    (hbytes : postingsFile config index = .ok postingsBytes) :
    loadCheckpoint config (some (checkpointManifest config index generation).encode) sizes postings
      records = .ok (index.restored config generation) := by
  have hgeneration : (checkpointManifest config index generation).generation.toNat = generation :=
    UInt64.toNat_ofNat_of_lt' hlt
  obtain ⟨hnextId, hactiveCount⟩ := h.counts_toNat generation
  have hsum : ((List.range config.nlist).map fun l => (index.lists l).logicalSize).sum =
      index.activeCount := by
    rw [h.active, sum_map_range]
  have hchecked := @checkSizes_ok config records
    ((List.range config.nlist).map fun l => (index.lists l).logicalSize) 0 0 (fun i hi => by
      rw [List.length_map, List.length_range] at hi
      rw [List.getElem_map, List.getElem_range, Nat.zero_add]
      exact h.files i hi) (by rw [hsum, Nat.zero_add]; exact h.active_le)
  rw [hsum, Nat.zero_add] at hchecked
  have hlists := @reads_readPostings config.codes ((List.range config.nlist).map index.lists)
    fun list hlist => by
      obtain ⟨l, hl, rfl⟩ := List.mem_map.mp hlist
      exact h.covers l (List.mem_range.mp hl)
  rw [List.map_map, List.map_map] at hlists
  rw [h.postingsFile_eq, Except.ok.injEq] at hbytes
  rw [hbytes] at hlists
  have hread := readWhole_of_reads hlists "external-list postings have trailing bytes"
  simp only [Function.comp_def] at hread
  simp only [loadCheckpoint, requireFile, ok_bind, parseManifest_encode (rfl :
      (checkpointManifest config index generation).magic.length = 8),
    if_neg (not_not.mpr (h.compatible hzero hlt)), hgeneration, hsizes, hpostings,
    parseSizes_listSizesFile fun l hl => (h.covers l hl).size_le, hchecked, hactiveCount, ne_eq,
    not_true_eq_false, if_false, hread, hnextId, pure_eq_ok, Except.ok.injEq, Index.restored,
    Index.mk.injEq, and_true]
  funext l
  rw [List.getD_eq_getElem?_getD, List.getElem?_map]
  split
  next hl => rw [List.getElem?_range hl]; rfl
  next hl => rw [List.getElem?_eq_none (by rwa [List.length_range, ← Nat.not_lt])]; rfl

end Files

section Stored

variable {system : System} {rows : Rows config.toIndexConfig}

theorem MemoryList.Holds.covers {layout : CodeLayout} {list : MemoryList}
    {postings : List (Posting layout)} {blocks : Nat} (h : list.Holds layout postings blocks) :
    list.Covers layout := by
  have hpadded : list.paddedSize ≤ blocks * 32 := by
    rw [h.padded, paddedTo]
    exact Nat.le_trans (Nat.mod_le _ _) (roundUpBlock_le_iff.mpr h.lanes.room)
  have hcodes : list.paddedSize * layout.codeSize ≤ blocks * layout.blockBytes := by
    rw [layout.blockBytes_eq, ← Nat.mul_assoc]
    exact Nat.mul_le_mul_right _ hpadded
  refine ⟨h.size ▸ h.size_le, by rw [h.padded, h.size], Nat.le_trans hcodes h.codes_le,
    by rw [h.codes_length]; exact hcodes, ?_⟩
  rw [h.metadata_length]
  omega

/-- An index whose files hold its rows can be reloaded. -/
theorem Stored.loadable (hstored : Stored system rows fun _ => 0)
    (hactive : system.index.activeCount ≤ sizeMax) :
    Loadable config system.index system.storage.records where
  covers := fun l _ => (hstored.postings l).choose_spec.covers
  files := fun l _ => by
    have hlength := (hstored.records l).length_eq
    rw [Nat.add_zero, ← hstored.size_eq] at hlength
    cases hfile : system.storage.records l with
    | none =>
        rw [hfile] at hlength
        have hpages : pageCount (system.index.lists l).logicalSize config.records.recordsPerPage ≤ 0 :=
          Nat.le_of_eq ((Nat.mul_eq_zero.mp hlength.symm).resolve_right
            (Nat.pos_iff_ne_zero.mp config.records.pageSize_pos))
        rw [pageCount_le_iff config.records.recordsPerPage_pos, Nat.zero_mul, Nat.le_zero] at hpages
        exact if_pos hpages
    | some bytes =>
        rw [hfile, Option.getD_some] at hlength
        exact if_neg (not_not.mpr hlength)
  active := by
    rw [hstored.active]
    exact Finset.sum_congr rfl fun l _ => (hstored.size_eq l).symm
  active_le := hactive
  nextId_le := hstored.nextId_le

/-- Every row has an ID of its own below `next_id`. -/
theorem Located.active_le (hlocated : Located system rows)
    (hstored : Stored system rows fun _ => 0) : system.index.activeCount ≤ system.index.nextId := by
  have hnodup : ((List.range config.nlist).flatMap fun l => (rows l).map Row.id).Nodup := by
    rw [List.nodup_flatMap]
    refine ⟨fun l _ => ?_, List.nodup_range.imp fun hne id hid hid' => ?_⟩
    · rw [List.nodup_iff_injective_getElem]
      rintro ⟨i, hi⟩ ⟨j, hj⟩ h
      rw [List.length_map] at hi hj
      simp only [List.getElem_map] at h
      exact Fin.ext (hlocated.slot_unique hstored (List.getElem?_eq_getElem hi)
        (List.getElem?_eq_getElem hj) h).2
    · obtain ⟨row, hrow, rfl⟩ := List.mem_map.mp hid
      obtain ⟨row', hrow', heq⟩ := List.mem_map.mp hid'
      obtain ⟨o, ho⟩ := List.mem_iff_getElem?.mp hrow
      obtain ⟨o', ho'⟩ := List.mem_iff_getElem?.mp hrow'
      exact hne (hlocated.slot_unique hstored ho ho' heq.symm).1
  have hsubset : ((List.range config.nlist).flatMap fun l => (rows l).map Row.id) ⊆
      List.range system.index.nextId := by
    intro id hid
    obtain ⟨l, -, hid⟩ := List.mem_flatMap.mp hid
    obtain ⟨row, hrow, rfl⟩ := List.mem_map.mp hid
    exact List.mem_range.mpr (hlocated.id_lt hrow)
  have hlength := (hnodup.subperm hsubset).length_le
  rw [List.length_range, List.length_flatMap] at hlength
  simp only [List.length_map] at hlength
  rwa [hstored.active, ← sum_map_range]

/-- Every state of a run without I/O errors can be reloaded. -/
theorem Agrees.loadable {ledger : Ledger config.toIndexConfig} (hagrees : Agrees system rows ledger) :
    Loadable config system.index system.storage.records := by
  have hactive := hagrees.located.active_le hagrees.stored
  have hnext := hagrees.stored.nextId_le
  exact hagrees.stored.loadable (Nat.le_trans hactive (Nat.le_trans hnext (by decide)))

end Stored

end Recast
