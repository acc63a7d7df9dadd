import Recast.Index.Agreement
import Recast.Storage.RecordArray

/-!
# Deletion from any store

Whatever the files, the directory and the resident lists hold: a deletion whose
preparation has returned meets no check that stops it.
-/

namespace Recast

open Foundation

namespace Record

variable {layout : RecordLayout}

/-- The record a slot holds, whatever its bytes are. -/
def decode (bytes : Bytes) (hlength : bytes.length = layout.recordStride) : Record layout where
  logicalId := ofLittleEndian (slice bytes 0 4)
  payload := ⟨slice bytes 4 layout.payloadBytes, length_slice_of_le (Nat.le_of_eq hlength.symm)⟩
  id_lt := by
    have hid := ofLittleEndian_lt (slice bytes 0 4)
    rw [length_slice_of_le (by rw [hlength, RecordLayout.recordStride]; omega)] at hid
    exact hid

theorem encode_decode {bytes : Bytes} (hlength : bytes.length = layout.recordStride) :
    (decode bytes hlength).encode = bytes := by
  have hhead : (slice bytes 0 4).length = 4 :=
    length_slice_of_le (by rw [hlength, RecordLayout.recordStride]; omega)
  have hid := toLittleEndian_ofLittleEndian (slice bytes 0 4)
  rw [hhead] at hid
  have hwhole : slice bytes 0 (4 + layout.payloadBytes) = bytes := by
    rw [← RecordLayout.recordStride, ← hlength, slice_zero_length]
  have hsplit := slice_append_slice bytes 0 4 layout.payloadBytes
  rw [Nat.zero_add, hwhole] at hsplit
  exact (congrArg (· ++ _) hid).trans hsplit

end Record

namespace RecordLayout

variable {layout : RecordLayout}

/-- Every file of whole pages is an array of records. -/
theorem exists_records {bytes : Bytes} {pages rows : Nat}
    (hlength : bytes.length = pages * layout.pageSize) (hoff : bytes.length ≤ offMax)
    (hroom : pageCount rows layout.recordsPerPage ≤ pages) :
    ∃ records : List (Record layout), records.length = rows ∧ layout.Holds bytes records pages := by
  have hslot : ∀ i : Fin rows, (layout.paging.slotAt bytes i).length = layout.recordStride := by
    intro i
    apply layout.paging.length_slotAt
    rw [hlength]
    exact layout.paging.slot_end_le_of_pages
      (Nat.lt_of_lt_of_le (div_lt_pageCount layout.recordsPerPage_pos i.isLt) hroom)
  refine ⟨List.ofFn fun i => Record.decode _ (hslot i), List.length_ofFn, hlength, hoff, ?_, ?_⟩
  · rwa [List.length_ofFn]
  · intro i hi
    rw [List.getElem_ofFn, Record.encode_decode]

/-- A mutation prepared from any file is committed when no system call fails. -/
theorem commit_of_prepared {listNo oldSize newSize : Nat} {moves : List RecordMove}
    {offsets : List Nat} {file : Option Bytes} {mutation : PreparedRecordMutation}
    (hoff : ∀ bytes, file = some bytes → bytes.length ≤ offMax)
    (h : layout.prepareMovesAndTruncate IoFaults.none listNo oldSize newSize moves offsets file =
      .ok mutation) :
    (layout.commitPreparedMutation IoFaults.none listNo mutation file).2 = .ok () := by
  obtain ⟨hle, -, -⟩ := prepare_checks h
  obtain ⟨-, -, bytes, rfl, hlength⟩ := prepare_none_of_ok h
  obtain ⟨records, rfl, hholds⟩ := exists_records hlength (hoff bytes rfl) (Nat.le_refl _)
  have hfileHolds : layout.Holds ((some bytes).getD []) records
      (pageCount records.length layout.recordsPerPage) := hholds
  obtain ⟨_, pages, hfile, hbuffered, rfl⟩ := prepared_of_ok hfileHolds h
  obtain rfl := Option.some.inj hfile
  exact commit_none listNo hholds hle hbuffered

end RecordLayout

/-! ### Posting blocks -/

namespace MemoryList

variable {layout : CodeLayout}

/-- Write one block back, with the checks of `rewrite_flat_block_bbs32` and
`rewrite_metadata_block_bbs32`. -/
def checkedStoreBlock (list : MemoryList) (index : Nat) (block : BlockScratch layout) :
    Except Error MemoryList :=
  if block.codes.length * layout.codeSize ≠ layout.blockBytes then
    .error (.invalidArgument "invalid PQ4 block rewrite buffers") else
  if block.metadata.length ≠ kUpdateBlockSize then
    .error (.invalidArgument "invalid metadata block rewrite buffers") else
  .ok (list.storeBlock index block)

/-- The posting update of a deletion, with the checks of its calls. -/
def checkedRewrite (list : MemoryList) (newSize : Nat) (prepared : PreparedBlocks layout) :
    Except Error MemoryList := do
  let list ← prepared.affected.foldlM
    (fun list index => list.checkedStoreBlock index (prepared.blocks index)) list
  return { list with logicalSize := newSize, paddedSize := paddedTo newSize }

theorem loadBlock_sized {list : MemoryList} {block : Nat} {loaded : BlockScratch layout}
    (h : list.loadBlock layout block = .ok loaded) :
    loaded.codes.length = 32 ∧ loaded.metadata.length = 32 := by
  simp only [loadBlock, guard_eq_ok, Except.ok.injEq] at h
  obtain ⟨-, -, -, rfl⟩ := h
  simp [CodeLayout.unpackFlatBlock, Metadata.unpackBlock, kUpdateBlockSize]

theorem loadBlocks_sized {list : MemoryList} {needed loaded : List Nat}
    {scratch scratch' : Nat → BlockScratch layout} (hsized : BlockSized scratch loaded)
    (h : list.loadBlocks needed scratch = .ok scratch') : BlockSized scratch' (loaded ++ needed) := by
  induction needed generalizing loaded scratch with
  | nil =>
      obtain rfl := Except.ok.inj h
      rwa [List.append_nil]
  | cons block rest ih =>
      obtain ⟨unpacked, hload, hrest⟩ := bind_eq_ok.mp h
      have hnext := @ih (loaded ++ [block]) (Function.update scratch block unpacked) (by
        intro other hother
        by_cases heq : other = block
        · rw [heq, Function.update_self]
          exact loadBlock_sized hload
        · rw [Function.update_of_ne heq]
          exact hsized other (by simpa [heq] using hother)) hrest
      simpa using hnext

/-- Setting rows keeps the blocks whole. -/
theorem foldl_setScratchRow_sized {ι : Type*} {loaded : List Nat} (row : ι → Nat)
    (posting : ι → Posting layout) (items : List ι) {scratch : Nat → BlockScratch layout}
    (hsized : BlockSized scratch loaded) :
    BlockSized (items.foldl (fun scratch item => setScratchRow scratch (row item) (posting item))
      scratch) loaded := by
  induction items generalizing scratch with
  | nil => exact hsized
  | cons item rest ih => exact ih (setScratchRow_sized hsized _ _)

theorem prepareBlocks_sized {list : MemoryList} {oldSize newSize : Nat} {moves : List (Nat × Nat)}
    {prepared : PreparedBlocks layout}
    (h : list.prepareBlocks layout oldSize newSize moves = .ok prepared) :
    BlockSized prepared.blocks prepared.affected := by
  obtain ⟨original, hload, hprepared⟩ := bind_eq_ok.mp h
  obtain rfl := Except.ok.inj hprepared
  have hsized := @loadBlocks_sized layout list _ [] (fun _ => ⟨[], []⟩) original
    (by simp [BlockSized]) hload
  exact foldl_setScratchRow_sized id (fun _ => Posting.empty layout) _
    (foldl_setScratchRow_sized Prod.fst (fun move => scratchRow original move.2) _ hsized)

/-- Whole blocks pass the checks of the rewrite. -/
theorem checkedRewrite_ok (list : MemoryList) (newSize : Nat) {prepared : PreparedBlocks layout}
    (hsized : BlockSized prepared.blocks prepared.affected) :
    list.checkedRewrite newSize prepared = .ok (list.rewrite newSize prepared) := by
  have hloop : ∀ (blocks : List Nat) (list : MemoryList), (∀ block ∈ blocks,
      block ∈ prepared.affected) → blocks.foldlM (fun list index =>
        list.checkedStoreBlock index (prepared.blocks index)) list =
      .ok (blocks.foldl (fun list index => list.storeBlock index (prepared.blocks index)) list) := by
    intro blocks
    induction blocks with
    | nil => exact fun _ _ => rfl
    | cons block rest ih =>
        intro list hin
        obtain ⟨hcodes, hmetadata⟩ := hsized block (hin block List.mem_cons_self)
        have hblock : list.checkedStoreBlock block (prepared.blocks block) =
            .ok (list.storeBlock block (prepared.blocks block)) := by
          rw [checkedStoreBlock, hcodes, hmetadata, if_neg (by simp [CodeLayout.blockBytes,
            kUpdateBlockSize]), if_neg (by simp [kUpdateBlockSize])]
        rw [List.foldlM_cons, hblock, ok_bind]
        exact ih _ fun block h => hin block (List.mem_cons_of_mem _ h)
  rw [checkedRewrite, hloop _ list fun _ h => h]
  rfl

end MemoryList

/-! ### The preparation of a batch -/

variable {config : IndexConfig} {system : System} {ids : List Nat}
  {prepared : List (PreparedDeletion config)}

theorem DirectoryLayout.readBatch_aligned {layout : DirectoryLayout} {faults : IoFaults}
    {file : Bytes} {locations : List DiskLocation} (hne : ids ≠ [])
    (h : layout.readBatch faults file ids = .ok locations) : file.length % layout.pageSize = 0 := by
  rw [DirectoryLayout.readBatch, if_neg hne] at h
  simp only [bind_eq_ok, guard_eq_ok] at h
  obtain ⟨-, -, hmod, -⟩ := h
  exact not_not.mp hmod

/-- The moves of a prepared list, in the order of their sources. -/
theorem moves_sublist (holes sources observed : List Nat) :
    ((((holes.zip sources).zipWith (fun move id => (⟨move.1, move.2, id⟩ : PreparedMove))
      observed).map PreparedMove.source)).Sublist sources := by
  induction holes generalizing sources observed with
  | nil => simp
  | cons hole rest ih =>
      cases sources with
      | nil => simp
      | cons source sources =>
          cases observed with
          | nil => simp
          | cons id observed => exact (ih sources observed).cons_cons source

/-- The moves whose check returned are where the directory says. -/
theorem checkMoves_eq_ok {directory : Bytes}
    (h : checkMoves prepared ((prepared.flatMap fun deletion =>
      deletion.moves.map PreparedMove.sourceId).map (DirectoryLayout.entryAt directory)) =
        .ok ()) : ∀ deletion ∈ prepared, ∀ move ∈ deletion.moves,
      (DirectoryLayout.entryAt directory move.sourceId).listNo.toNat = deletion.plan.listNo ∧
      (DirectoryLayout.entryAt directory move.sourceId).offset.toNat = move.source := by
  induction prepared with
  | nil => simp
  | cons deletion rest ih =>
      rw [List.flatMap_cons, List.map_append, checkMoves, List.take_left' (by simp),
        List.drop_left' (by simp)] at h
      split at h
      next hagree =>
        intro other hother move hmove
        rcases List.mem_cons.mp hother with rfl | hrest
        · rw [movesAgree, List.all_eq_true] at hagree
          have hzip : (move, DirectoryLayout.entryAt directory move.sourceId) ∈ other.moves.zip
              ((other.moves.map PreparedMove.sourceId).map (DirectoryLayout.entryAt directory)) := by
            have hmap := @List.zip_map' _ _ _ id
              (fun move : PreparedMove => DirectoryLayout.entryAt directory move.sourceId) other.moves
            rw [List.map_id] at hmap
            rw [List.map_map]
            exact hmap ▸ List.mem_map.mpr ⟨move, hmove, rfl⟩
          have := hagree _ hzip
          simp only [Bool.and_eq_true, beq_iff_eq] at this
          exact ⟨this.1.2, this.2⟩
        · exact ih h other hrest move hmove
      next => cases h

/-- A batch whose preparation has returned, read off the stored bytes. -/
structure Prepares (config : IndexConfig) (system : System) (ids : List Nat)
    (prepared : List (PreparedDeletion config)) : Prop where
  aligned : config.directory.Aligned system.storage.directory
  inside : ∀ id ∈ ids, id * 8 < system.storage.directory.length
  lists_nodup : (prepared.map (·.plan.listNo)).Nodup
  mem_lists : ∀ l, l ∈ prepared.map (·.plan.listNo) ↔ ∃ id ∈ ids,
    (DirectoryLayout.entryAt system.storage.directory id).listNo.toNat = l
  deletions : ∀ deletion ∈ prepared,
    prepareDeletion config IoFaults.none system deletion.plan = .ok deletion
  plans : ∀ deletion ∈ prepared, deletion.plan =
    deletionPlan (system.index.lists deletion.plan.listNo).logicalSize deletion.plan.listNo
      (system.deletedAt ids deletion.plan.listNo)
  moved_inside : ∀ deletion ∈ prepared, ∀ move ∈ deletion.moves,
    move.sourceId * 8 < system.storage.directory.length
  moved : ∀ deletion ∈ prepared, ∀ move ∈ deletion.moves,
    (DirectoryLayout.entryAt system.storage.directory move.sourceId).listNo.toNat =
      deletion.plan.listNo ∧
    (DirectoryLayout.entryAt system.storage.directory move.sourceId).offset.toNat = move.source

theorem planErase_prepares (hne : ids ≠ []) (hnodup : ids.Nodup)
    (hoff : system.storage.directory.length ≤ offMax)
    (h : planErase config IoFaults.none system ids = .ok prepared) :
    Prepares config system ids prepared := by
  simp only [planErase, bind_eq_ok, pure_eq_ok, Except.ok.injEq] at h
  obtain ⟨locations, hread, lists, hlists, plan, hgroup, plans, hplans, prepared', hprepared,
    movedLocations, hmoved, _, hcheck, rfl⟩ := h
  have haligned : config.directory.Aligned system.storage.directory :=
    ⟨DirectoryLayout.readBatch_aligned hne hread, hoff⟩
  obtain ⟨rfl, hinside⟩ := DirectoryLayout.readBatch_eq_ok haligned hread
  obtain ⟨rfl, hlocations⟩ := locationLists_eq_ok.mp hlists
  obtain ⟨rfl, hmovedInside⟩ := DirectoryLayout.readBatch_eq_ok haligned hmoved
  have hfits := length_le_of_inside hoff hnodup hinside
  obtain ⟨plan', hplan, htouched, hmem, hsegment⟩ := groupByList_locations
    (fun location hlocation => (hlocations location hlocation).2.1) (by rwa [List.length_map])
  obtain rfl : plan' = plan := Except.ok.inj (hplan.symm.trans hgroup)
  obtain ⟨hlistNos, hplanned⟩ := mapM_ok_entries hplans (k := DeletionPlan.listNo) (g := id)
    fun l _ plan hplan => by rw [(planDeletion_eq_ok hplan).1]; rfl
  obtain ⟨hkeys, hdeletions⟩ := mapM_ok_entries hprepared (k := fun deletion => deletion.plan.listNo)
    (g := DeletionPlan.listNo) fun plan _ deletion hdeletion => by rw [prepareDeletion_plan hdeletion]
  rw [hlistNos, List.map_id] at hkeys
  refine ⟨haligned, hinside, by rwa [hkeys], fun l => by rw [hkeys, hmem]; simp, ?_, ?_,
    fun deletion hdeletion move hmove => hmovedInside _ ?_, checkMoves_eq_ok hcheck⟩
  · intro deletion hdeletion
    obtain ⟨plan, -, hprepare⟩ := hdeletions deletion hdeletion
    rwa [prepareDeletion_plan hprepare]
  · intro deletion hdeletion
    obtain ⟨plan, hplanMem, hprepare⟩ := hdeletions deletion hdeletion
    obtain ⟨l, hl, hplan⟩ := hplanned plan hplanMem
    obtain ⟨rfl, -⟩ := planDeletion_eq_ok hplan
    rw [select_segment (hsegment l hl)] at hprepare
    rw [prepareDeletion_plan hprepare]
    rfl
  · exact List.mem_flatMap.mpr ⟨deletion, hdeletion, List.mem_map_of_mem hmove⟩

/-- What the preparation of one list has made. -/
theorem prepareDeletion_parts {faults : IoFaults} {plan : DeletionPlan}
    {deletion : PreparedDeletion config}
    (h : prepareDeletion config faults system plan = .ok deletion) :
    config.records.prepareMovesAndTruncate faults plan.listNo plan.oldSize plan.newSize
        (plan.holes.zipWith RecordMove.mk plan.sources) (plan.deletedOffsets ++ plan.sources)
        (system.storage.records plan.listNo) = .ok deletion.recordMutation ∧
      (deletion.moves.map PreparedMove.source).Sublist plan.sources ∧
      (system.index.lists plan.listNo).prepareBlocks config.codes plan.oldSize plan.newSize
        (plan.holes.zip plan.sources) = .ok deletion.blocks := by
  simp only [prepareDeletion, prepareRecords, bind_eq_ok, guard_eq_ok, pure_eq_ok,
    Except.ok.injEq, Prod.exists, Prod.mk.injEq] at h
  obtain ⟨moves, _, ⟨mutation, hprepare, -, rfl, rfl⟩, blocks, hblocks, rfl⟩ := h
  exact ⟨hprepare, moves_sublist _ _ _, hblocks⟩

section Prepared

/-- A deleted ID of a list is stored in one of its deleted slots, a moved one in
one of its sources. -/
theorem Prepares.slot_of_key (hprepares : Prepares config system ids prepared)
    {deletion : PreparedDeletion config} (hdeletion : deletion ∈ prepared) (id : Nat) :
    (id ∈ deletion.plan.deletedIds → id ∈ ids ∧
      (DirectoryLayout.entryAt system.storage.directory id).listNo.toNat = deletion.plan.listNo ∧
      (DirectoryLayout.entryAt system.storage.directory id).offset.toNat ∈
        deletedSlots (system.deletedAt ids deletion.plan.listNo)) ∧
    (id ∈ deletion.moves.map PreparedMove.sourceId →
      (DirectoryLayout.entryAt system.storage.directory id).listNo.toNat = deletion.plan.listNo ∧
      (DirectoryLayout.entryAt system.storage.directory id).offset.toNat ∉
        deletedSlots (system.deletedAt ids deletion.plan.listNo)) := by
  have hplan := hprepares.plans deletion hdeletion
  constructor
  · intro hid
    rw [hplan] at hid
    obtain ⟨⟨id, location⟩, hmem, rfl⟩ := List.mem_map.mp hid
    obtain ⟨hmemIds, rfl, hlist⟩ := System.mem_deletedAt.mp hmem
    exact ⟨hmemIds, hlist, System.mem_deletedSlots hmemIds hlist⟩
  · intro hid
    obtain ⟨move, hmove, rfl⟩ := List.mem_map.mp hid
    obtain ⟨hlist, hoffset⟩ := hprepares.moved deletion hdeletion move hmove
    have hsource := (prepareDeletion_parts (hprepares.deletions deletion hdeletion)).2.1.subset
      (List.mem_map_of_mem hmove)
    rw [hplan] at hsource
    rw [hoffset]
    exact ⟨hlist, (mem_sources.mp hsource).2⟩

/-- The updates name each ID once: within a list the slots differ, and between
lists the list numbers do. -/
theorem Prepares.nodup_updates (hprepares : Prepares config system ids prepared)
    (hids : ids.Nodup) : ((eraseUpdates prepared).map Prod.fst).Nodup := by
  rw [eraseUpdates_keys, List.nodup_flatMap]
  constructor
  · intro deletion hdeletion
    have hplan := hprepares.plans deletion hdeletion
    refine List.Nodup.append ?_ ?_ fun id hdeleted hmoved => ?_
    · rw [hplan]
      have h := ((List.filter_sublist (p := fun row : Nat × DiskLocation =>
        row.2.listNo.toNat = deletion.plan.listNo)
        (l := ids.map fun id => (id, DirectoryLayout.entryAt system.storage.directory id))).map
        Prod.fst)
      rw [List.map_map, Function.comp_def, List.map_id'] at h
      exact hids.sublist h
    · have hsources : deletion.plan.sources.Nodup := by
        rw [hplan]
        exact nodup_sources _ _ _
      have hmoves := hsources.sublist
        (prepareDeletion_parts (hprepares.deletions deletion hdeletion)).2.1
      refine List.pairwise_map.mpr ((List.pairwise_map.mp hmoves).imp_of_mem ?_)
      intro move move' hmove hmove' hne heq
      apply hne
      rw [← (hprepares.moved deletion hdeletion move hmove).2, heq,
        (hprepares.moved deletion hdeletion move' hmove').2]
    · have hslot := hprepares.slot_of_key hdeletion id
      exact (hslot.2 hmoved).2 (hslot.1 hdeleted).2.2
  · refine (List.pairwise_map.mp hprepares.lists_nodup).imp_of_mem ?_
    intro deletion deletion' hmem hmem' hne id hid hid'
    have hlist : ∀ deletion ∈ prepared, id ∈ deletion.plan.deletedIds ++
        deletion.moves.map PreparedMove.sourceId →
        (DirectoryLayout.entryAt system.storage.directory id).listNo.toNat =
          deletion.plan.listNo := by
      intro deletion hdeletion hid
      rcases List.mem_append.mp hid with h | h
      · exact ((hprepares.slot_of_key hdeletion _).1 h).2.1
      · exact ((hprepares.slot_of_key hdeletion _).2 h).1
    exact hne ((hlist deletion hmem hid).symm.trans (hlist deletion' hmem' hid'))

theorem Prepares.update_inside (hprepares : Prepares config system ids prepared)
    {update : DirectoryLayout.Update} (h : update ∈ eraseUpdates prepared) :
    update.1 * 8 < system.storage.directory.length := by
  have hkey : update.1 ∈ (eraseUpdates prepared).map Prod.fst := List.mem_map_of_mem h
  rw [eraseUpdates_keys, List.mem_flatMap] at hkey
  obtain ⟨deletion, hdeletion, hid⟩ := hkey
  rcases List.mem_append.mp hid with hdeleted | hmoved
  · exact hprepares.inside _ ((hprepares.slot_of_key hdeletion _).1 hdeleted).1
  · obtain ⟨move, hmove, heq⟩ := List.mem_map.mp hmoved
    rw [← heq]
    exact hprepares.moved_inside deletion hdeletion move hmove

/-- No check stops the commits of the record files. -/
theorem Prepares.commits (hprepares : Prepares config system ids prepared)
    (hfiles : ∀ l bytes, system.storage.records l = some bytes → bytes.length ≤ offMax) :
    ∀ deletion ∈ prepared, (config.records.commitPreparedMutation IoFaults.none
      deletion.plan.listNo deletion.recordMutation
      (system.storage.records deletion.plan.listNo)).2 = .ok () := fun deletion hdeletion =>
  RecordLayout.commit_of_prepared (hfiles deletion.plan.listNo)
    (prepareDeletion_parts (hprepares.deletions deletion hdeletion)).1

/-- No check stops the directory update. -/
theorem Prepares.writes (hprepares : Prepares config system ids prepared) (hids : ids.Nodup) :
    (config.directory.writeBatch IoFaults.none system.storage.directory
      (eraseUpdates prepared)).2 = .ok () := by
  have hoff := hprepares.aligned.le_off
  rcases DirectoryLayout.writeBatch_none hprepares.aligned (hprepares.nodup_updates hids)
    (fun update h => by have := hprepares.update_inside h; omega) with hok |
      ⟨⟨update, hupdate, hpast⟩, -⟩
  · exact hok
  · exact absurd (hprepares.update_inside hupdate) (Nat.not_lt.mpr hpast)

end Prepared

/-! ### All or nothing -/

/-- The whole deletion: every list file, directory entry, resident list and count
is what the prepared deletions make of it. -/
structure Completes (config : IndexConfig) (system : System) (ids : List Nat)
    (prepared : List (PreparedDeletion config)) (system' : System) : Prop where
  prepared_eq : planErase config IoFaults.none system ids = .ok prepared
  records : ∀ deletion ∈ prepared, config.records.commitPreparedMutation IoFaults.none
      deletion.plan.listNo deletion.recordMutation
      (system.storage.records deletion.plan.listNo) =
    (system'.storage.records deletion.plan.listNo, .ok ())
  postings : ∀ deletion ∈ prepared, (system.index.lists deletion.plan.listNo).checkedRewrite
      deletion.plan.newSize deletion.blocks = .ok (system'.index.lists deletion.plan.listNo)
  untouched : ∀ l, l ∉ prepared.map (·.plan.listNo) →
    system'.storage.records l = system.storage.records l ∧
      system'.index.lists l = system.index.lists l
  directory : ∀ id, id * 8 < system.storage.directory.length →
    DirectoryLayout.entryAt system'.storage.directory id =
      applyUpdates (DirectoryLayout.entryAt system.storage.directory) (eraseUpdates prepared) id
  tombstones : ∀ id ∈ ids,
    DirectoryLayout.entryAt system'.storage.directory id = DiskLocation.tombstone
  sizes : ∀ l, (system'.index.lists l).logicalSize =
    (system.index.lists l).logicalSize - (system.deletedAt ids l).length
  active : system'.index.activeCount = system.index.activeCount - ids.length
  nextId : system'.index.nextId = system.index.nextId

theorem Prepares.tombstone_mem (hprepares : Prepares config system ids prepared) {id : Nat}
    (hid : id ∈ ids) : (id, DiskLocation.tombstone) ∈ eraseUpdates prepared := by
  obtain ⟨deletion, hdeletion, hlist⟩ :=
    List.mem_map.mp ((hprepares.mem_lists _).mpr ⟨id, hid, rfl⟩)
  refine mem_eraseUpdates.mpr ⟨deletion, hdeletion, Or.inl ⟨?_, rfl⟩⟩
  rw [hprepares.plans deletion hdeletion]
  exact List.mem_map.mpr ⟨_, System.mem_deletedAt.mpr ⟨hid, rfl, hlist.symm⟩, rfl⟩

/-- What the commits leave, once they have all returned. -/
theorem Prepares.completes (hprepares : Prepares config system ids prepared) (hids : ids.Nodup)
    (hprepared : planErase config IoFaults.none system ids = .ok prepared) {team : Bool}
    {records : Nat → Option Bytes} {directory : Bytes}
    (hcommitted : committed config IoFaults.none team prepared system.storage.records =
      (records, .ok ()))
    (hwritten : config.directory.writeBatch IoFaults.none system.storage.directory
      (eraseUpdates prepared) = (directory, .ok ())) :
    Completes config system ids prepared
      ⟨{ system.index with
          lists := rewritten prepared system.index.lists
          activeCount := system.index.activeCount - ids.length }, ⟨records, directory⟩⟩ := by
  have hnodup := hprepares.nodup_updates hids
  have hok := congrArg Prod.snd hcommitted
  have hrecords := congrArg Prod.fst hcommitted
  obtain ⟨hall, hkept⟩ := @rewritten_apply _ prepared system.index.lists hprepares.lists_nodup
  have hdirectory : ∀ id, id * 8 < system.storage.directory.length →
      DirectoryLayout.entryAt directory id =
        applyUpdates (DirectoryLayout.entryAt system.storage.directory) (eraseUpdates prepared) id := by
    obtain ⟨done, rest, hperm, hstored, hdone⟩ := DirectoryLayout.writeBatch_written IoFaults.none
      hprepares.aligned (eraseUpdates prepared)
    rw [hwritten] at hstored hdone
    rw [hdone rfl, List.append_nil] at hperm
    intro id hin
    rw [hstored.kept id hin, applyUpdates_perm _ hperm ((hperm.map Prod.fst).nodup_iff.mpr hnodup)]
  refine ⟨hprepared, fun deletion hdeletion => ?_, fun deletion hdeletion => ?_, fun l hl => ⟨?_,
    hkept l hl⟩, hdirectory, fun id hid => ?_, fun l => ?_, rfl, rfl⟩
  · obtain ⟨hstep, hdone⟩ := parallelFor_done hprepares.lists_nodup hok hdeletion
    exact Prod.ext (hdone.symm.trans (congrFun hrecords _)) hstep
  · have hsized := MemoryList.prepareBlocks_sized
      (prepareDeletion_parts (hprepares.deletions deletion hdeletion)).2.2
    exact (MemoryList.checkedRewrite_ok _ _ hsized).trans
      (congrArg Except.ok (hall deletion hdeletion).symm)
  · refine (congrFun hrecords l).symm.trans ?_
    exact (parallelFor_ok hprepares.lists_nodup (parallelFor_eq_ok hprepares.lists_nodup hok)).2.2 l hl
  · exact (hdirectory id (hprepares.inside id hid)).trans
      (applyUpdates_of_mem _ hnodup (hprepares.tombstone_mem hid))
  · by_cases hl : l ∈ prepared.map (·.plan.listNo)
    · obtain ⟨deletion, hdeletion, rfl⟩ := List.mem_map.mp hl
      have hsize := congrArg DeletionPlan.newSize (hprepares.plans deletion hdeletion)
      rw [deletionPlan, length_deletedSlots] at hsize
      refine (congrArg MemoryList.logicalSize (hall deletion hdeletion)).trans ?_
      exact hsize
    · have hnone : system.deletedAt ids l = [] := by
        refine List.eq_nil_iff_forall_not_mem.mpr ?_
        rintro ⟨id, location⟩ hrow
        apply hl
        obtain ⟨hid, rfl, hlist⟩ := System.mem_deletedAt.mp hrow
        exact (hprepares.mem_lists l).mpr ⟨id, hid, hlist⟩
      rw [hnone]
      exact congrArg MemoryList.logicalSize (hkept l hl)

/-- When no system call fails, a deletion from any store either throws before it
changes anything, or is carried out whole. -/
theorem erase_all_or_nothing (team : Stage → Bool) (system : System)
    (hfiles : ∀ l bytes, system.storage.records l = some bytes → bytes.length ≤ offMax)
    (hdirectory : system.storage.directory.length ≤ offMax) (ids : List Nat) :
    (∃ error, eraseBatch config ⟨IoFaults.none, team⟩ system ids = (system, .error error)) ∨
      (eraseBatch config ⟨IoFaults.none, team⟩ system ids).2 = .ok ids.length ∧
        (ids ≠ [] → ∃ prepared, Completes config system ids prepared
          (eraseBatch config ⟨IoFaults.none, team⟩ system ids).1) := by
  unfold eraseBatch
  dsimp only
  split
  next hnil =>
    subst hnil
    exact Or.inr ⟨rfl, fun h => absurd rfl h⟩
  next hne =>
  split
  next => exact Or.inl ⟨_, rfl⟩
  next =>
  split
  next => exact Or.inl ⟨_, rfl⟩
  next hids =>
  rw [not_not] at hids
  split
  next => exact Or.inl ⟨_, rfl⟩
  next prepared hprepared =>
  have hprepares := planErase_prepares hne hids hdirectory hprepared
  have hcommits := (@parallelFor_ok _ _ (team .commitRecords) _ _ _ hprepares.lists_nodup _
    (hprepares.commits hfiles)).1
  split
  next heq => cases (congrArg Prod.snd heq).symm.trans hcommits
  next records hcommitted =>
  split
  next heq => cases (congrArg Prod.snd heq).symm.trans (hprepares.writes hids)
  next directory hwritten =>
  exact Or.inr ⟨rfl, fun _ => ⟨prepared, hprepares.completes hids hprepared hcommitted hwritten⟩⟩

/-- A list of one row that has lost its packed buffers. -/
def damagedSystem : System where
  index := ⟨fun _ => ⟨[], [], 1, 0⟩, 1, 1, 0⟩
  storage := ⟨fun _ => some (List.replicate 8 0), List.replicate 8 0⟩

/-- No file of the index of five rows is large. -/
theorem fiveRows_files (l : Nat) (bytes : Bytes) (h : fiveRows.storage.records l = some bytes) :
    bytes.length ≤ offMax := by
  obtain ⟨rows, hagrees, -⟩ := (reachable_fiveRows ⟨_, run_fiveBytes⟩ :
    Reachable byteEncoder (Succeeds byteEncoder) fiveRows fiveRowsLedger).agrees (fun _ => True)
      fun _ _ _ hrule => ⟨Or.inl hrule, fun _ _ => trivial⟩
  have hlength := (hagrees.stored.records l).length_eq
  have hrows := hagrees.stored.length_le l
  have hpages := (pageCount_le_iff twoLists.records.recordsPerPage_pos).mpr
    (Nat.le_mul_of_pos_right (rows l).length twoLists.records.recordsPerPage_pos)
  have hpage : twoLists.records.pageSize = 16 := rfl
  rw [h, Option.getD_some, hpage] at hlength
  unfold uint32Max at hrows
  unfold offMax
  omega

/-- Its row cannot be deleted, and nothing is touched; two rows of another index can. -/
theorem erase_all_or_nothing_damaged :
    (∃ error, eraseBatch (onePerPage 1 (by decide)) .quiet damagedSystem [0] =
      (damagedSystem, .error error)) ∧
    ∃ prepared, Completes twoLists fiveRows [0, 3] prepared
      (eraseBatch twoLists .quiet fiveRows [0, 3]).1 := by
  constructor
  · refine (@erase_all_or_nothing (onePerPage 1 (by decide)) (fun _ => false) damagedSystem ?_
      (by decide) [0]).resolve_right fun hdone => ?_
    · rintro l bytes h
      rw [← Option.some.inj h]
      decide
    · have hthrows : (eraseBatch (onePerPage 1 (by decide)) .quiet damagedSystem [0]).2 =
          .error (.logic "packed list is shorter than its logical size") := by
        decide +kernel
      cases hthrows.symm.trans hdone.1
  · have hreturns : (eraseBatch twoLists .quiet fiveRows [0, 3]).2 = .ok 2 := by decide +kernel
    rcases @erase_all_or_nothing twoLists (fun _ => false) fiveRows fiveRows_files
      (by decide +kernel) [0, 3] with ⟨error, hthrows⟩ | ⟨-, hcompletes⟩
    · cases hreturns.symm.trans (congrArg Prod.snd hthrows)
    · exact hcompletes (by decide)

end Recast
