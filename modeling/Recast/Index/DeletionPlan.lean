import Recast.Index.Represents

/-!
# Planning a deletion

What a prepared deletion says about its list, the directory entries it changes,
and when a batch can be prepared.
-/

namespace Recast

open Foundation

variable {config : IndexConfig}

/-! ### Preparing the deletion of one list -/

/-- Offset and ID of each deletion, in slot order. -/
def deletedPairs (segment : List (Nat × DiskLocation)) : List (Nat × Nat) :=
  (segment.map fun row => (row.2.offset.toNat, row.1)).insertionSort pairBefore

/-- The slots of the deletions, in increasing order. -/
def deletedSlots (segment : List (Nat × DiskLocation)) : List Nat :=
  (deletedPairs segment).map Prod.fst

instance : Std.Total pairBefore := ⟨fun x y => by unfold pairBefore; omega⟩

instance : IsTrans (Nat × Nat) pairBefore := ⟨fun x y z hxy hyz => by unfold pairBefore at *; omega⟩

theorem mem_deletedPairs {segment : List (Nat × DiskLocation)} {offset id : Nat} :
    (offset, id) ∈ deletedPairs segment ↔
      ∃ location, (id, location) ∈ segment ∧ location.offset.toNat = offset := by
  simp only [deletedPairs, List.mem_insertionSort, List.mem_map, Prod.mk.injEq, Prod.exists]
  constructor
  · rintro ⟨id, location, hmem, hoffset, rfl⟩
    exact ⟨location, hmem, hoffset⟩
  · rintro ⟨location, hmem, hoffset⟩
    exact ⟨id, location, hmem, hoffset, rfl⟩

@[simp] theorem length_deletedSlots (segment : List (Nat × DiskLocation)) :
    (deletedSlots segment).length = segment.length := by
  simp [deletedSlots, deletedPairs, List.length_insertionSort]

theorem mem_deletedSlots {segment : List (Nat × DiskLocation)} {offset : Nat} :
    offset ∈ deletedSlots segment ↔ ∃ row ∈ segment, row.2.offset.toNat = offset := by
  simp only [deletedSlots, List.mem_map, Prod.exists]
  constructor
  · rintro ⟨_, id, hmem, rfl⟩
    obtain ⟨location, hmem, hoffset⟩ := mem_deletedPairs.mp hmem
    exact ⟨id, location, hmem, hoffset⟩
  · rintro ⟨id, location, hmem, hoffset⟩
    exact ⟨offset, id, mem_deletedPairs.mpr ⟨location, hmem, hoffset⟩, rfl⟩

theorem distinct_deletedSlots (segment : List (Nat × DiskLocation)) :
    hasAdjacentEqual (deletedSlots segment) = false ↔ (deletedSlots segment).Nodup := by
  have h := @hasAdjacentEqual_sorted_iff _ Prod.fst pairBefore _ _ _
    (fun x y => by unfold pairBefore; omega) (segment.map fun row => (row.2.offset.toNat, row.1))
  exact h.trans ((((List.perm_insertionSort pairBefore _).map Prod.fst).nodup_iff).symm)

/-- The deletions that fall on list `l`, with the locations the directory has
for them. -/
def System.deletedAt (system : System) (ids : List Nat) (l : Nat) : List (Nat × DiskLocation) :=
  (ids.map fun id => (id, DirectoryLayout.entryAt system.storage.directory id)).filter
    fun row => row.2.listNo.toNat = l

theorem System.mem_deletedAt {system : System} {ids : List Nat} {l id : Nat}
    {location : DiskLocation} : (id, location) ∈ system.deletedAt ids l ↔ id ∈ ids ∧
      DirectoryLayout.entryAt system.storage.directory id = location ∧
      location.listNo.toNat = l := by
  simp only [System.deletedAt, List.mem_filter, List.mem_map, Prod.mk.injEq, decide_eq_true_eq]
  constructor
  · rintro ⟨⟨id, hid, rfl, hlocation⟩, hlist⟩
    exact ⟨hid, hlocation, hlist⟩
  · rintro ⟨hid, hlocation, hlist⟩
    exact ⟨⟨id, hid, rfl, hlocation⟩, hlist⟩

theorem System.mem_deletedSlots {system : System} {ids : List Nat} {l id : Nat} (hid : id ∈ ids)
    (hlist : (DirectoryLayout.entryAt system.storage.directory id).listNo.toNat = l) :
    (DirectoryLayout.entryAt system.storage.directory id).offset.toNat ∈
      deletedSlots (system.deletedAt ids l) :=
  Recast.mem_deletedSlots.mpr ⟨_, System.mem_deletedAt.mpr ⟨hid, rfl, hlist⟩, rfl⟩

theorem locationLists_eq_ok {index : Index} {locations : List DiskLocation} {lists : List Nat} :
    locationLists config index locations = .ok lists ↔
      lists = locations.map (·.listNo.toNat) ∧ ∀ location ∈ locations, location.active = true ∧
        location.listNo.toNat < config.nlist ∧
        location.offset.toNat < (index.lists location.listNo.toNat).logicalSize := by
  induction locations generalizing lists with
  | nil => simp [locationLists]
  | cons location rest ih =>
      simp only [locationLists, guard_eq_ok, bind_eq_ok, ih, pure_eq_ok, Except.ok.injEq,
        List.mem_cons, forall_eq_or_imp, List.map_cons, not_or, Bool.not_eq_false, Nat.not_le]
      constructor
      · rintro ⟨hhead, _, ⟨rfl, hrest⟩, rfl⟩
        exact ⟨rfl, hhead, hrest⟩
      · rintro ⟨rfl, hhead, hrest⟩
        exact ⟨hhead, _, ⟨rfl, hrest⟩, rfl⟩

/-- One location that names no slot spoils the batch. -/
theorem locationLists_error {index : Index} {locations : List DiskLocation}
    (h : ∃ location ∈ locations, location.active = false) :
    locationLists config index locations =
      .error (.invalidArgument "deletion references an inactive location") := by
  induction locations with
  | nil => simp at h
  | cons location rest ih =>
      rw [locationLists]
      split
      next => rfl
      next hok =>
        have hrest : ∃ location ∈ rest, location.active = false := by
          obtain ⟨bad, hmem, hbad⟩ := h
          rcases List.mem_cons.mp hmem with rfl | hmem
          · exact absurd (Or.inl hbad) hok
          · exact ⟨bad, hmem, hbad⟩
        rw [ih hrest, error_bind]

/-- The plan for the deletions of one list. -/
def deletionPlan (oldSize listNo : Nat) (segment : List (Nat × DiskLocation)) : DeletionPlan :=
  let slots := deletedSlots segment
  { listNo, oldSize
    newSize := oldSize - slots.length
    deletedIds := segment.map Prod.fst
    deletedOffsets := slots
    expectedDeletedIds := (deletedPairs segment).map Prod.snd
    holes := holes (oldSize - slots.length) slots
    sources := sources oldSize (oldSize - slots.length) slots }

theorem planDeletion_eq (index : Index) (deleted : List (Nat × DiskLocation))
    (plan : ListBatchPlan) (listNo : Nat) :
    planDeletion index deleted plan listNo =
      let segment := select deleted (plan.segment listNo)
      let slots := deletedSlots segment
      let oldSize := (index.lists listNo).logicalSize
      if oldSize < slots.length then
        .error (.invalidArgument "too many rows deleted from one list") else
      if hasAdjacentEqual slots then
        .error (.invalidArgument "two Logical IDs resolve to one list slot") else
      if (holes (oldSize - slots.length) slots).length ≠
          (sources oldSize (oldSize - slots.length) slots).length then
        .error (.logic "invalid external swap-with-last move plan") else
      .ok (deletionPlan oldSize listNo segment) := by
  simp only [deletionPlan, length_deletedSlots]
  rfl

theorem planDeletion_eq_ok {index : Index} {deleted : List (Nat × DiskLocation)}
    {plan : ListBatchPlan} {listNo : Nat} {deletion : DeletionPlan}
    (h : planDeletion index deleted plan listNo = .ok deletion) :
    deletion = deletionPlan (index.lists listNo).logicalSize listNo
        (select deleted (plan.segment listNo)) ∧
      (deletedSlots (select deleted (plan.segment listNo))).Nodup := by
  simp only [planDeletion_eq, guard_eq_ok, Except.ok.injEq] at h
  obtain ⟨-, hdistinct, -, rfl⟩ := h
  exact ⟨rfl, (distinct_deletedSlots _).mp (Bool.eq_false_iff.mpr hdistinct)⟩

/-- Deletions of distinct occupied slots can be planned. -/
theorem planDeletion_ok {index : Index} {deleted : List (Nat × DiskLocation)}
    {plan : ListBatchPlan} {listNo : Nat}
    (hnodup : (deletedSlots (select deleted (plan.segment listNo))).Nodup)
    (hin : ∀ offset ∈ deletedSlots (select deleted (plan.segment listNo)),
      offset < (index.lists listNo).logicalSize) :
    planDeletion index deleted plan listNo = .ok (deletionPlan (index.lists listNo).logicalSize
      listNo (select deleted (plan.segment listNo))) := by
  have hdistinct := (distinct_deletedSlots _).mpr hnodup
  simp only [planDeletion_eq, guard_eq_ok, Nat.not_lt]
  exact ⟨length_deleted_le hnodup hin, by rw [hdistinct]; exact Bool.false_ne_true,
    not_not.mpr (length_holes_eq_sources hnodup hin), trivial⟩

/-! ### What a prepared deletion does to its list -/

section Slots

variable {slots : List Nat}

/-- The record moves of a deletion. -/
def recordMoves (size : Nat) (slots : List Nat) : List RecordMove :=
  (holes (size - slots.length) slots).zipWith RecordMove.mk
    (sources size (size - slots.length) slots)

theorem moveUpdates_recordMoves (size : Nat) (slots : List Nat) :
    RecordLayout.moveUpdates (recordMoves size slots) =
      (holes (size - slots.length) slots).zip (sources size (size - slots.length) slots) := by
  rw [RecordLayout.moveUpdates, recordMoves, List.map_zipWith]
  rfl

theorem recordMoves_ok (size : Nat) (slots : List Nat) :
    RecordLayout.MovesOk size (size - slots.length) (recordMoves size slots) := by
  intro move hmove
  obtain ⟨destination, source, hmem, rfl⟩ : ∃ destination source, (destination, source) ∈
      (holes (size - slots.length) slots).zip (sources size (size - slots.length) slots) ∧
      move = ⟨destination, source⟩ := by
    rw [recordMoves, ← List.map_uncurry_zip_eq_zipWith] at hmove
    obtain ⟨⟨destination, source⟩, hmem, rfl⟩ := List.mem_map.mp hmove
    exact ⟨destination, source, hmem, rfl⟩
  obtain ⟨hhole, hsource⟩ := List.of_mem_zip hmem
  exact ⟨(mem_holes.mp hhole).2, (mem_sources.mp hsource).1⟩

theorem length_recordMoves_le (size : Nat) (slots : List Nat) :
    (recordMoves size slots).length ≤ size := by
  have hsources : (sources size (size - slots.length) slots).length ≤ size := by
    refine Nat.le_trans (List.length_filter_le _ _) ?_
    rw [List.length_reverse, List.length_range']
    omega
  rw [recordMoves, List.length_zipWith]
  omega

/-- The moves and the cut leave the surviving records. -/
theorem moved_swapDelete {records : List (Record config.records)} {slots : List Nat}
    (hnodup : slots.Nodup) (hin : ∀ offset ∈ slots, offset < records.length) :
    RecordLayout.Moved records (records.length - slots.length) (recordMoves records.length slots)
      (swapDelete records slots) where
  length_eq := length_swapDelete hnodup hin
  getElem?_eq := fun i hi => by
    rw [moveUpdates_recordMoves, getElem?_swapDelete hnodup hin hi]

/-- The slots a deletion reads: the deleted ones, then the moved ones. -/
def observedSlots (size : Nat) (slots : List Nat) : List Nat :=
  slots ++ sources size (size - slots.length) slots

theorem observedSlots_lt {size : Nat} (hin : ∀ offset ∈ slots, offset < size) :
    ∀ offset ∈ observedSlots size slots, offset < size := by
  intro offset hoffset
  rcases List.mem_append.mp hoffset with hslot | hsource
  · exact hin offset hslot
  · exact (mem_sources.mp hsource).1.2

/-- The page buffers of a deletion hold the pages it needs. -/
def ReadPages (config : IndexConfig) (size : Nat) (slots : List Nat) (bytes : Bytes)
    (pages : Nat → Bytes) : Prop :=
  config.records.Buffered bytes pages (config.records.neededPages (size - slots.length)
    (recordMoves size slots) (observedSlots size slots))

/-- The record mutation a deletion prepares from its page buffers. -/
def recordMutation (config : IndexConfig) (size : Nat) (slots : List Nat) (pages : Nat → Bytes) :
    RecordLayout.PreparedRecordMutation :=
  config.records.mutationOf size (size - slots.length) (recordMoves size slots)
    (observedSlots size slots) pages

section Records

variable {rows : List (Row config)} {bytes : Bytes}

/-- A file of exactly the list's pages yields the mutation. -/
theorem prepare_recordMutation (listNo : Nat)
    (hin : ∀ offset ∈ slots, offset < rows.length)
    (hholds : config.records.Holds bytes (rows.map Row.record)
      (pageCount rows.length config.records.recordsPerPage)) :
    ∃ pages, ReadPages config rows.length slots bytes pages ∧
      config.records.prepareMovesAndTruncate IoFaults.none listNo rows.length
        (rows.length - slots.length) (recordMoves rows.length slots)
        (observedSlots rows.length slots) (some bytes) =
          .ok (recordMutation config rows.length slots pages) := by
  obtain ⟨records, hrecords⟩ : ∃ records, rows.map Row.record = records := ⟨_, rfl⟩
  have hsize : rows.length = records.length := by rw [← hrecords, List.length_map]
  rw [hsize] at hin ⊢
  rw [hsize, hrecords] at hholds
  have hmoves := length_recordMoves_le records.length slots
  have hstride := hholds.stride_le
  have hcount : (recordMoves records.length slots).length * config.records.recordStride ≤
      sizeMax := by
    have := Nat.mul_le_mul_right config.records.recordStride hmoves
    unfold offMax at hstride
    unfold sizeMax
    omega
  exact RecordLayout.prepare_eq listNo hholds (recordMoves_ok _ _) (Nat.sub_le _ _)
    (observedSlots_lt hin) hcount

/-- A deletion sees the IDs of the rows it deletes and of those it moves. -/
theorem observedIds_recordMutation (hin : ∀ offset ∈ slots, offset < rows.length)
    (hholds : config.records.Holds bytes (rows.map Row.record)
      (pageCount rows.length config.records.recordsPerPage)) {pages : Nat → Bytes}
    (hread : ReadPages config rows.length slots bytes pages) :
    (recordMutation config rows.length slots pages).observedIds.take slots.length =
        (select rows slots).map Row.id ∧
      (recordMutation config rows.length slots pages).observedIds.drop slots.length =
        (select rows (sources rows.length (rows.length - slots.length) slots)).map Row.id := by
  obtain ⟨records, hrecords⟩ : ∃ records, rows.map Row.record = records := ⟨_, rfl⟩
  have hsize : rows.length = records.length := by rw [← hrecords, List.length_map]
  have hids : ∀ positions, (select rows positions).map Row.id =
      (select records positions).map (·.logicalId) := fun positions => by
    rw [← hrecords, select_map, List.map_map]
    rfl
  rw [hids, hids]
  rw [hsize] at hin hread ⊢
  rw [hsize, hrecords] at hholds
  have hlength : ((select records slots).map (·.logicalId)).length = slots.length := by
    rw [List.length_map, length_select hin]
  rw [recordMutation, RecordLayout.observedIds_eq hholds (observedSlots_lt hin) hread,
    observedSlots, select, List.filterMap_append, ← select, ← select, List.map_append, ← hlength]
  exact ⟨List.take_left, List.drop_left⟩

/-- Committing the mutation leaves the surviving rows. -/
theorem commit_recordMutation (faults : IoFaults) (listNo : Nat) (hnodup : slots.Nodup)
    (hin : ∀ offset ∈ slots, offset < rows.length)
    (hholds : config.records.Holds bytes (rows.map Row.record)
      (pageCount rows.length config.records.recordsPerPage)) {pages : Nat → Bytes}
    (hread : ReadPages config rows.length slots bytes pages)
    (hok : (config.records.commitPreparedMutation faults listNo
      (recordMutation config rows.length slots pages) (some bytes)).2 = .ok ()) :
    ∃ bytes', (config.records.commitPreparedMutation faults listNo
        (recordMutation config rows.length slots pages) (some bytes)).1 = some bytes' ∧
      config.records.Holds bytes' ((swapDelete rows slots).map Row.record)
        (pageCount (swapDelete rows slots).length config.records.recordsPerPage) := by
  obtain ⟨records, hrecords⟩ : ∃ records, rows.map Row.record = records := ⟨_, rfl⟩
  have hsize : rows.length = records.length := by rw [← hrecords, List.length_map]
  have hlength : (swapDelete rows slots).length = (swapDelete records slots).length := by
    rw [← hrecords, swapDelete_map, List.length_map]
  rw [hlength, ← swapDelete_map, hrecords]
  rw [hsize] at hin hread hok ⊢
  rw [hsize, hrecords] at hholds
  exact RecordLayout.commit_holds faults listNo (moved_swapDelete hnodup hin) hholds
    (recordMoves_ok _ _) (Nat.sub_le _ _) hread hok

/-- Without injected faults the mutation is committed. -/
theorem commit_recordMutation_none (listNo : Nat)
    (hholds : config.records.Holds bytes (rows.map Row.record)
      (pageCount rows.length config.records.recordsPerPage)) {pages : Nat → Bytes}
    (hread : ReadPages config rows.length slots bytes pages) :
    (config.records.commitPreparedMutation IoFaults.none listNo
      (recordMutation config rows.length slots pages) (some bytes)).2 = .ok () := by
  obtain ⟨records, hrecords⟩ : ∃ records, rows.map Row.record = records := ⟨_, rfl⟩
  have hsize : rows.length = records.length := by rw [← hrecords, List.length_map]
  rw [hsize] at hread ⊢
  rw [hsize, hrecords] at hholds
  exact RecordLayout.commit_none listNo hholds (Nat.sub_le _ _) hread

end Records

end Slots

section Prepare

variable {system : System} {rows : Rows config} {extra : Nat → Nat}
  {segment : List (Nat × DiskLocation)} {l : Nat}

/-- A deletion prepared for list `l`. -/
structure Deletes (system : System) (rows : Rows config) (segment : List (Nat × DiskLocation))
    (l : Nat) (deletion : PreparedDeletion config) : Prop where
  plan_eq : deletion.plan = deletionPlan (rows l).length l segment
  nodup : (deletedSlots segment).Nodup
  inside : ∀ offset ∈ deletedSlots segment, offset < (rows l).length
  ids : (select (rows l) (deletedSlots segment)).map Row.id =
    (deletedPairs segment).map Prod.snd
  moves : deletion.moves = (deletion.plan.holes.zip deletion.plan.sources).zipWith
    (fun move id => ⟨move.1, move.2, id⟩) ((select (rows l) deletion.plan.sources).map Row.id)
  blocks : ∃ blocks, MemoryList.Holds config.codes
    ((system.index.lists l).rewrite deletion.plan.newSize deletion.blocks)
    ((swapDelete (rows l) (deletedSlots segment)).map Row.posting) blocks
  mutation : ∃ bytes pages, system.storage.records l = some bytes ∧
    ReadPages config (rows l).length (deletedSlots segment) bytes pages ∧
    deletion.recordMutation = recordMutation config (rows l).length (deletedSlots segment) pages

/-- The packed preparation of a deletion. -/
theorem Stored.prepareBlocks_eq (hstored : Stored system rows extra) {slots : List Nat}
    (hnodup : slots.Nodup) (hin : ∀ offset ∈ slots, offset < (rows l).length) :
    ∃ prepared, (system.index.lists l).prepareBlocks config.codes (rows l).length
        ((rows l).length - slots.length) ((holes ((rows l).length - slots.length) slots).zip
          (sources (rows l).length ((rows l).length - slots.length) slots)) = .ok prepared ∧
      ∃ blocks, MemoryList.Holds config.codes
        ((system.index.lists l).rewrite ((rows l).length - slots.length) prepared)
        ((swapDelete (rows l) slots).map Row.posting) blocks := by
  obtain ⟨blocks, hholds⟩ := hstored.postings l
  have hdelete := hholds.delete hnodup (by rwa [List.length_map])
  rw [List.length_map, swapDelete_map] at hdelete
  obtain ⟨prepared, hprepared, hrewrite⟩ := hdelete
  exact ⟨prepared, hprepared, blocks, hrewrite⟩

/-- A file of exactly the list's pages has no spare ones. -/
theorem Stored.extra_eq_zero (hstored : Stored system rows extra) {bytes : Bytes}
    (hfile : system.storage.records l = some bytes)
    (hlength : bytes.length =
      pageCount (rows l).length config.records.recordsPerPage * config.records.pageSize) :
    extra l = 0 := by
  have hpages := (hstored.records l).length_eq
  rw [hfile, Option.getD_some, hlength] at hpages
  have := Nat.eq_of_mul_eq_mul_right config.records.pageSize_pos hpages
  omega

/-- A list with a row has a file. -/
theorem Stored.file_exists (hstored : Stored system rows extra) (h : rows l ≠ []) :
    ∃ bytes, system.storage.records l = some bytes := by
  cases hfile : system.storage.records l with
  | some bytes => exact ⟨bytes, rfl⟩
  | none =>
      have hroom := hstored.records l
      rw [hfile, Option.getD_none] at hroom
      have hstride := hroom.length_eq
      have hpos := List.length_pos_of_ne_nil h
      have hpage := (@lt_pageCount_iff _ _ 0 config.records.recordsPerPage_pos).mpr
        (by simpa using hpos)
      have := Nat.mul_pos (by omega : 0 < pageCount (rows l).length config.records.recordsPerPage +
        extra l) config.records.pageSize_pos
      rw [← hstride] at this
      cases this

theorem Stored.holds_exact (hstored : Stored system rows extra) (hextra : extra l = 0)
    {bytes : Bytes} (hfile : system.storage.records l = some bytes) :
    config.records.Holds bytes ((rows l).map Row.record)
      (pageCount (rows l).length config.records.recordsPerPage) := by
  have hholds := hstored.records l
  rwa [hfile, Option.getD_some, hextra, Nat.add_zero] at hholds

theorem prepareDeletion_plan {faults : IoFaults} {plan : DeletionPlan}
    {deletion : PreparedDeletion config}
    (h : prepareDeletion config faults system plan = .ok deletion) : deletion.plan = plan := by
  simp only [prepareDeletion, bind_eq_ok, pure_eq_ok, Except.ok.injEq, Prod.exists] at h
  obtain ⟨_, _, -, _, -, rfl⟩ := h
  rfl

/-- A preparation that returned, whatever could have failed. -/
theorem Stored.prepareDeletion_eq_ok (hstored : Stored system rows extra) {faults : IoFaults}
    (hnodup : (deletedSlots segment).Nodup)
    (hin : ∀ offset ∈ deletedSlots segment, offset < (rows l).length)
    {deletion : PreparedDeletion config}
    (h : prepareDeletion config faults system (deletionPlan (rows l).length l segment) =
      .ok deletion) : extra l = 0 ∧ Deletes system rows segment l deletion := by
  simp only [prepareDeletion, prepareRecords, bind_eq_ok, guard_eq_ok, pure_eq_ok,
    Except.ok.injEq, Prod.exists, Prod.mk.injEq] at h
  obtain ⟨moves, _, ⟨mutation, hprepare, hids, rfl, rfl⟩, blocks, hblocks, rfl⟩ := h
  obtain ⟨hnone, -, bytes, hfile, hlength⟩ := RecordLayout.prepare_none_of_ok hprepare
  have hextra := hstored.extra_eq_zero hfile hlength
  obtain ⟨pages, hread, hmutation⟩ := prepare_recordMutation l hin
    (hstored.holds_exact hextra hfile)
  rw [show system.storage.records (deletionPlan (rows l).length l segment).listNo = some bytes from
    hfile] at hnone
  obtain rfl : recordMutation config (rows l).length (deletedSlots segment) pages = mutation :=
    Except.ok.inj (hmutation.symm.trans hnone)
  obtain ⟨hobserved, hmoved⟩ := observedIds_recordMutation hin
    (hstored.holds_exact hextra hfile) hread
  obtain ⟨prepared, hprepared, hholds⟩ := hstored.prepareBlocks_eq hnodup hin
  obtain rfl : prepared = blocks := Except.ok.inj (hprepared.symm.trans hblocks)
  refine ⟨hextra, rfl, hnodup, hin, ?_, ?_, hholds, bytes, pages, hfile, hread, rfl⟩
  · rw [← hobserved]
    exact not_not.mp hids
  · exact congrArg (List.zipWith _ _) hmoved

/-- The preparation returns when the list has no spare pages and its records
carry the expected IDs. -/
theorem Stored.prepareDeletion_ok (hstored : Stored system rows extra) (hextra : extra l = 0)
    (hnonempty : rows l ≠ []) (hnodup : (deletedSlots segment).Nodup)
    (hin : ∀ offset ∈ deletedSlots segment, offset < (rows l).length)
    (hids : (select (rows l) (deletedSlots segment)).map Row.id =
      (deletedPairs segment).map Prod.snd) :
    ∃ deletion, prepareDeletion config IoFaults.none system
      (deletionPlan (rows l).length l segment) = .ok deletion := by
  obtain ⟨bytes, hfile⟩ := hstored.file_exists hnonempty
  obtain ⟨pages, hread, hmutation⟩ := prepare_recordMutation l hin
    (hstored.holds_exact hextra hfile)
  obtain ⟨hobserved, -⟩ := observedIds_recordMutation hin (hstored.holds_exact hextra hfile) hread
  obtain ⟨prepared, hprepared, -⟩ := hstored.prepareBlocks_eq hnodup hin
  simp only [prepareDeletion, prepareRecords, bind_eq_ok, guard_eq_ok, pure_eq_ok,
    Except.ok.injEq, Prod.exists, Prod.mk.injEq]
  refine ⟨_, _, _, ⟨recordMutation config (rows l).length (deletedSlots segment) pages, ?_, ?_,
    rfl, rfl⟩, prepared, hprepared, rfl⟩
  · exact (congrArg _ hfile).trans hmutation
  · exact not_not.mpr (hobserved.trans hids)

end Prepare

/-! ### Preparing the whole batch -/

section Batch

variable {system : System} {rows : Rows config} {extra : Nat → Nat} {ids : List Nat}
  {prepared : List (PreparedDeletion config)}

/-- A batch prepared for deletion, list by list. -/
structure Erases (system : System) (rows : Rows config) (extra : Nat → Nat) (ids : List Nat)
    (prepared : List (PreparedDeletion config)) : Prop where
  nodup : (prepared.map (·.plan.listNo)).Nodup
  mem_lists : ∀ l, l ∈ prepared.map (·.plan.listNo) ↔ ∃ id ∈ ids,
    (DirectoryLayout.entryAt system.storage.directory id).listNo.toNat = l
  occupied : ∀ id ∈ ids,
    (DirectoryLayout.entryAt system.storage.directory id).active = true ∧
    (DirectoryLayout.entryAt system.storage.directory id).listNo.toNat < config.nlist ∧
    (DirectoryLayout.entryAt system.storage.directory id).offset.toNat <
      (rows (DirectoryLayout.entryAt system.storage.directory id).listNo.toNat).length
  deletes : ∀ deletion ∈ prepared, extra deletion.plan.listNo = 0 ∧
    Deletes system rows (system.deletedAt ids deletion.plan.listNo) deletion.plan.listNo deletion

theorem deletedSlots_inside (hoccupied : ∀ id ∈ ids,
      (DirectoryLayout.entryAt system.storage.directory id).offset.toNat <
        (rows (DirectoryLayout.entryAt system.storage.directory id).listNo.toNat).length) {l : Nat} :
    ∀ offset ∈ deletedSlots (system.deletedAt ids l), offset < (rows l).length := by
  intro offset hoffset
  obtain ⟨⟨id, location⟩, hmem, rfl⟩ := mem_deletedSlots.mp hoffset
  obtain ⟨hid, rfl, rfl⟩ := System.mem_deletedAt.mp hmem
  exact hoccupied id hid

/-- The grouped segment of a list is what the directory maps to it. -/
theorem select_segment {plan : ListBatchPlan} {l : Nat}
    (h : plan.segment l = positionsOf l
      ((ids.map (DirectoryLayout.entryAt system.storage.directory)).map (·.listNo.toNat))) :
    select (ids.zip (ids.map (DirectoryLayout.entryAt system.storage.directory)))
      (plan.segment l) = system.deletedAt ids l := by
  have hzip : ids.zip (ids.map (DirectoryLayout.entryAt system.storage.directory)) =
      ids.map fun id => (id, DirectoryLayout.entryAt system.storage.directory id) := by
    have h := @List.zip_map' _ _ _ id (DirectoryLayout.entryAt system.storage.directory) ids
    rwa [List.map_id] at h
  have hkeys : (ids.map (DirectoryLayout.entryAt system.storage.directory)).map (·.listNo.toNat) =
      (ids.map fun id => (id, DirectoryLayout.entryAt system.storage.directory id)).map
        (·.2.listNo.toNat) := by simp
  rw [h, hzip, hkeys, select_positionsOf]
  rfl

/-- Grouping the lists of a batch of locations. -/
theorem groupByList_locations {nlist : Nat} {locations : List DiskLocation}
    (hvalid : ∀ location ∈ locations, location.listNo.toNat < nlist)
    (hfits : locations.length ≤ sizeMax) :
    ∃ plan, groupByList (locations.map (·.listNo.toNat)) nlist = .ok plan ∧
      plan.touchedLists.Nodup ∧
      (∀ l, l ∈ plan.touchedLists ↔ ∃ location ∈ locations, location.listNo.toNat = l) ∧
      ∀ l ∈ plan.touchedLists, plan.segment l = positionsOf l (locations.map (·.listNo.toNat)) := by
  have hvalid' : ∀ l ∈ locations.map (·.listNo.toNat), l < nlist := by
    intro l hl
    obtain ⟨location, hlocation, rfl⟩ := List.mem_map.mp hl
    exact hvalid location hlocation
  have h32 : ∀ l ∈ locations.map (·.listNo.toNat), l < 2 ^ 32 := by
    intro l hl
    obtain ⟨location, -, rfl⟩ := List.mem_map.mp hl
    exact location.listNo.toNat_lt
  obtain ⟨plan, hplan, htouched, -, hsegment⟩ := groupByList_ok hvalid' (by rwa [List.length_map])
  have hmem : ∀ l, l ∈ plan.touchedLists ↔ l ∈ locations.map (·.listNo.toNat) := fun l => by
    rw [htouched]
    exact ListBatchPlan.mem_touched hvalid' h32
  refine ⟨plan, hplan, by rw [htouched]; exact ListBatchPlan.nodup_touched h32, fun l => ?_,
    fun l hl => hsegment l (hvalid' l ((hmem l).mp hl))⟩
  rw [hmem, List.mem_map]

/-- Distinct IDs of a file are few. -/
theorem length_le_of_inside {directory : Bytes} (hoff : directory.length ≤ offMax)
    (hnodup : ids.Nodup) (hinside : ∀ id ∈ ids, id * 8 < directory.length) :
    ids.length ≤ sizeMax := by
  have hsubset : ids ⊆ List.range offMax := fun id hid => by
    have := hinside id hid
    rw [List.mem_range]
    omega
  have hlength := (hnodup.subperm hsubset).length_le
  rw [List.length_range] at hlength
  unfold offMax at hlength
  unfold sizeMax
  omega

/-- Preparing every touched list prepares the batch. -/
theorem Stored.erases (hstored : Stored system rows extra) {faults : IoFaults}
    {plan : ListBatchPlan} {plans : List DeletionPlan} (htouched : plan.touchedLists.Nodup)
    (hmem : ∀ l, l ∈ plan.touchedLists ↔ ∃ id ∈ ids,
      (DirectoryLayout.entryAt system.storage.directory id).listNo.toNat = l)
    (hsegment : ∀ l ∈ plan.touchedLists, plan.segment l = positionsOf l
      ((ids.map (DirectoryLayout.entryAt system.storage.directory)).map (·.listNo.toNat)))
    (hoccupied : ∀ id ∈ ids,
      (DirectoryLayout.entryAt system.storage.directory id).active = true ∧
      (DirectoryLayout.entryAt system.storage.directory id).listNo.toNat < config.nlist ∧
      (DirectoryLayout.entryAt system.storage.directory id).offset.toNat <
        (rows (DirectoryLayout.entryAt system.storage.directory id).listNo.toNat).length)
    (hplans : plan.touchedLists.mapM (planDeletion system.index
      (ids.zip (ids.map (DirectoryLayout.entryAt system.storage.directory))) plan) = .ok plans)
    (hprepared : plans.mapM (prepareDeletion config faults system) = .ok prepared) :
    Erases system rows extra ids prepared := by
  have hin : ∀ l, ∀ offset ∈ deletedSlots (system.deletedAt ids l), offset < (rows l).length :=
    fun l => deletedSlots_inside fun id hid => (hoccupied id hid).2.2
  obtain ⟨hlistNos, hplanned⟩ := mapM_ok_entries hplans (k := DeletionPlan.listNo) (g := id)
    fun l _ plan hplan => by rw [(planDeletion_eq_ok hplan).1]; rfl
  obtain ⟨hkeys, hdeletions⟩ := mapM_ok_entries hprepared (k := fun deletion => deletion.plan.listNo)
    (g := DeletionPlan.listNo) fun plan _ deletion hdeletion => by rw [prepareDeletion_plan hdeletion]
  rw [hlistNos, List.map_id] at hkeys
  refine ⟨by rwa [hkeys], fun l => by rw [hkeys, hmem], hoccupied, fun deletion hdeletion => ?_⟩
  obtain ⟨plan, hplanMem, hprepare⟩ := hdeletions deletion hdeletion
  obtain ⟨l, hl, hplan⟩ := hplanned plan hplanMem
  obtain ⟨rfl, hslots⟩ := planDeletion_eq_ok hplan
  rw [select_segment (hsegment l hl)] at hslots hprepare
  rw [hstored.size_eq] at hprepare
  rw [prepareDeletion_plan hprepare]
  exact hstored.prepareDeletion_eq_ok hslots (hin l) hprepare

/-- A plan that was returned, whatever could have failed. -/
theorem Stored.planErase_eq_ok (hstored : Stored system rows extra) {faults : IoFaults}
    (hnodup : ids.Nodup) (h : planErase config faults system ids = .ok prepared) :
    Erases system rows extra ids prepared := by
  simp only [planErase, bind_eq_ok, pure_eq_ok, Except.ok.injEq] at h
  obtain ⟨locations, hread, lists, hlists, plan, hgroup, plans, hplans, prepared', hprepared, -, -,
    -, -, rfl⟩ := h
  obtain ⟨rfl, hinside⟩ := DirectoryLayout.readBatch_eq_ok hstored.aligned hread
  obtain ⟨rfl, hlocations⟩ := locationLists_eq_ok.mp hlists
  have hfits := length_le_of_inside hstored.aligned.le_off hnodup hinside
  obtain ⟨plan', hplan, htouched, hmem, hsegment⟩ := groupByList_locations
    (fun location hlocation => (hlocations location hlocation).2.1) (by rwa [List.length_map])
  obtain rfl : plan' = plan := Except.ok.inj (hplan.symm.trans hgroup)
  have hoccupied : ∀ id ∈ ids, _ := fun id hid =>
    hlocations (DirectoryLayout.entryAt system.storage.directory id) (List.mem_map_of_mem hid)
  simp only [hstored.size_eq] at hoccupied
  exact hstored.erases htouched (fun l => by rw [hmem]; simp) hsegment hoccupied hplans hprepared

end Batch

/-! ### The directory update -/

section Updates

variable {system : System} {rows : Rows config} {extra : Nat → Nat} {ids : List Nat} {l : Nat}
  {segment : List (Nat × DiskLocation)} {deletion : PreparedDeletion config}
  {prepared : List (PreparedDeletion config)}

/-- The moves of a list: holes, sources and the IDs of the rows at the sources. -/
theorem Deletes.moves_eq (hdeletes : Deletes system rows segment l deletion) :
    deletion.moves.map (fun move => (move.destination, move.source)) =
        deletion.plan.holes.zip deletion.plan.sources ∧
      deletion.moves.map PreparedMove.sourceId =
        (select (rows l) deletion.plan.sources).map Row.id ∧
      deletion.plan.holes.length = deletion.plan.sources.length := by
  have hplan := hdeletes.plan_eq
  have hlength : deletion.plan.holes.length = deletion.plan.sources.length := by
    rw [hplan]
    exact length_holes_eq_sources hdeletes.nodup hdeletes.inside
  have hsources : ∀ offset ∈ deletion.plan.sources, offset < (rows l).length := by
    intro offset hoffset
    rw [hplan] at hoffset
    exact (mem_sources.mp hoffset).1.2
  have hids : ((select (rows l) deletion.plan.sources).map Row.id).length =
      (deletion.plan.holes.zip deletion.plan.sources).length := by
    rw [List.length_map, length_select hsources, List.length_zip, hlength, Nat.min_self]
  rw [hdeletes.moves, List.map_zipWith, List.map_zipWith]
  refine ⟨?_, ?_, hlength⟩
  · rw [← List.map_uncurry_zip_eq_zipWith]
    exact List.map_fst_zip (Nat.le_of_eq hids.symm)
  · rw [← List.map_uncurry_zip_eq_zipWith]
    exact List.map_snd_zip (Nat.le_of_eq hids)

/-- A move takes the row at its source to its destination. -/
theorem Deletes.mem_moves (hdeletes : Deletes system rows segment l deletion)
    {move : PreparedMove} (h : move ∈ deletion.moves) :
    (move.destination, move.source) ∈ deletion.plan.holes.zip deletion.plan.sources ∧
      ∃ row, (rows l)[move.source]? = some row ∧ move.sourceId = row.id := by
  obtain ⟨hpairs, hids, hlength⟩ := hdeletes.moves_eq
  refine ⟨by rw [← hpairs]; exact List.mem_map_of_mem h, ?_⟩
  obtain ⟨i, hi, rfl⟩ := List.getElem_of_mem h
  have hsources : ∀ offset ∈ deletion.plan.sources, offset < (rows l).length := by
    intro offset hoffset
    rw [hdeletes.plan_eq] at hoffset
    exact (mem_sources.mp hoffset).1.2
  have hpair := congrArg (·[i]?) hpairs
  have hid := congrArg (·[i]?) hids
  simp only [List.getElem?_map, List.getElem?_eq_getElem hi, Option.map_some] at hpair hid
  obtain ⟨-, hsource⟩ := List.getElem?_zip_eq_some.mp hpair.symm
  rw [getElem?_select hsources, hsource, Option.bind_some] at hid
  cases hrow : (rows l)[deletion.moves[i].source]? with
  | none => rw [hrow] at hid; cases hid
  | some row =>
      rw [hrow] at hid
      exact ⟨row, rfl, Option.some.inj hid⟩

theorem Erases.exists_deletion (herases : Erases system rows extra ids prepared) {id : Nat}
    (hid : id ∈ ids) : ∃ deletion ∈ prepared, deletion.plan.listNo =
      (DirectoryLayout.entryAt system.storage.directory id).listNo.toNat := by
  obtain ⟨deletion, hmem, hlist⟩ := List.mem_map.mp ((herases.mem_lists _).mpr ⟨id, hid, rfl⟩)
  exact ⟨deletion, hmem, hlist⟩

/-- The deleted slots of every list are distinct and occupied. -/
theorem Erases.slots_ok (herases : Erases system rows extra ids prepared) (l : Nat) :
    (deletedSlots (system.deletedAt ids l)).Nodup ∧
      ∀ offset ∈ deletedSlots (system.deletedAt ids l), offset < (rows l).length := by
  refine ⟨?_, deletedSlots_inside fun id hid => (herases.occupied id hid).2.2⟩
  by_cases hl : l ∈ prepared.map (·.plan.listNo)
  · obtain ⟨deletion, hmem, rfl⟩ := List.mem_map.mp hl
    exact (herases.deletes deletion hmem).2.nodup
  · have hnone : deletedSlots (system.deletedAt ids l) = [] := by
      apply List.eq_nil_iff_forall_not_mem.mpr
      intro offset hoffset
      obtain ⟨⟨id, location⟩, hmem, -⟩ := mem_deletedSlots.mp hoffset
      obtain ⟨hid, rfl, hlist⟩ := System.mem_deletedAt.mp hmem
      exact hl ((herases.mem_lists l).mpr ⟨id, hid, hlist⟩)
    rw [hnone]
    exact List.nodup_nil

/-- The slot the directory has for a deleted ID holds the row with this ID. -/
theorem Erases.row_of_id (herases : Erases system rows extra ids prepared) {id : Nat}
    (hid : id ∈ ids) : ∃ row,
      (rows (DirectoryLayout.entryAt system.storage.directory id).listNo.toNat)[
        (DirectoryLayout.entryAt system.storage.directory id).offset.toNat]? = some row ∧
      row.id = id := by
  obtain ⟨deletion, hdeletion, hlist⟩ := herases.exists_deletion hid
  obtain ⟨-, hdeletes⟩ := herases.deletes deletion hdeletion
  rw [hlist] at hdeletes
  have hpair := mem_deletedPairs.mpr
    ⟨_, (@System.mem_deletedAt system ids _ id _).mpr ⟨hid, rfl, rfl⟩, rfl⟩
  obtain ⟨i, hi⟩ := List.mem_iff_getElem?.mp hpair
  have hslot : (deletedSlots (system.deletedAt ids
      (DirectoryLayout.entryAt system.storage.directory id).listNo.toNat))[i]? =
        some (DirectoryLayout.entryAt system.storage.directory id).offset.toNat := by
    rw [deletedSlots, List.getElem?_map, hi, Option.map_some]
  have hids := congrArg (·[i]?) hdeletes.ids
  simp only [List.getElem?_map] at hids
  rw [getElem?_select hdeletes.inside, hslot, Option.bind_some, hi, Option.map_some] at hids
  exact Option.map_eq_some_iff.mp hids

theorem mem_eraseUpdates {id : Nat} {location : DiskLocation} :
    (id, location) ∈ eraseUpdates prepared ↔ ∃ deletion ∈ prepared,
      id ∈ deletion.plan.deletedIds ∧ location = DiskLocation.tombstone ∨
      ∃ move ∈ deletion.moves, id = move.sourceId ∧
        location = DiskLocation.ofSlot deletion.plan.listNo move.destination := by
  simp only [eraseUpdates, List.mem_flatMap, List.mem_append, List.mem_map, Prod.mk.injEq]
  constructor
  · rintro ⟨deletion, hmem, ⟨_, hid, rfl, rfl⟩ | ⟨move, hmove, rfl, rfl⟩⟩
    · exact ⟨deletion, hmem, Or.inl ⟨hid, rfl⟩⟩
    · exact ⟨deletion, hmem, Or.inr ⟨move, hmove, rfl, rfl⟩⟩
  · rintro ⟨deletion, hmem, ⟨hid, rfl⟩ | ⟨move, hmove, rfl, rfl⟩⟩
    · exact ⟨deletion, hmem, Or.inl ⟨_, hid, rfl, rfl⟩⟩
    · exact ⟨deletion, hmem, Or.inr ⟨move, hmove, rfl, rfl⟩⟩

theorem eraseUpdates_keys (prepared : List (PreparedDeletion config)) :
    (eraseUpdates prepared).map Prod.fst = prepared.flatMap fun deletion =>
      deletion.plan.deletedIds ++ deletion.moves.map PreparedMove.sourceId := by
  rw [eraseUpdates, List.map_flatMap]
  apply List.flatMap_congr
  intro deletion _
  simp only [List.map_append, List.map_map, Function.comp_def, List.map_id']

/-- The IDs a deletion deletes in its list. -/
theorem Erases.mem_deletedIds (herases : Erases system rows extra ids prepared)
    (hdeletion : deletion ∈ prepared) {id : Nat} : id ∈ deletion.plan.deletedIds ↔ id ∈ ids ∧
      (DirectoryLayout.entryAt system.storage.directory id).listNo.toNat =
        deletion.plan.listNo := by
  have hplan := (herases.deletes deletion hdeletion).2.plan_eq
  have hids : deletion.plan.deletedIds =
      (system.deletedAt ids deletion.plan.listNo).map Prod.fst := congrArg DeletionPlan.deletedIds hplan
  rw [hids, List.mem_map]
  constructor
  · rintro ⟨⟨id, location⟩, hmem, rfl⟩
    obtain ⟨hid, rfl, hlist⟩ := System.mem_deletedAt.mp hmem
    exact ⟨hid, hlist⟩
  · rintro ⟨hid, hlist⟩
    exact ⟨_, System.mem_deletedAt.mpr ⟨hid, rfl, hlist⟩, rfl⟩

/-- Every ID a deletion updates belongs to a row: to one in a deleted slot, or
to one in a source slot. -/
theorem Erases.row_of_update (herases : Erases system rows extra ids prepared)
    (hdeletion : deletion ∈ prepared) {id : Nat}
    (h : id ∈ deletion.plan.deletedIds ++ deletion.moves.map PreparedMove.sourceId) :
    ∃ (offset : Nat) (row : Row config), (rows deletion.plan.listNo)[offset]? = some row ∧
      row.id = id ∧ (offset ∈ deletedSlots (system.deletedAt ids deletion.plan.listNo) ∨
        offset ∈ deletion.plan.sources) := by
  rcases List.mem_append.mp h with hdeleted | hmoved
  · obtain ⟨hid, hlist⟩ := (herases.mem_deletedIds hdeletion).mp hdeleted
    obtain ⟨row, hrow, hrowId⟩ := herases.row_of_id hid
    rw [hlist] at hrow
    exact ⟨_, row, hrow, hrowId, Or.inl (System.mem_deletedSlots hid hlist)⟩
  · obtain ⟨move, hmove, rfl⟩ := List.mem_map.mp hmoved
    obtain ⟨hpair, row, hrow, hid⟩ := (herases.deletes deletion hdeletion).2.mem_moves hmove
    exact ⟨move.source, row, hrow, hid.symm, Or.inr (List.of_mem_zip hpair).2⟩

/-- Every updated ID belongs to a row. -/
theorem Erases.row_of_key (herases : Erases system rows extra ids prepared) {id : Nat}
    (h : id ∈ (eraseUpdates prepared).map Prod.fst) : ∃ deletion ∈ prepared,
      ∃ (offset : Nat) (row : Row config), (rows deletion.plan.listNo)[offset]? = some row ∧
        row.id = id ∧ (offset ∈ deletedSlots (system.deletedAt ids deletion.plan.listNo) ∨
          offset ∈ deletion.plan.sources) := by
  rw [eraseUpdates_keys, List.mem_flatMap] at h
  obtain ⟨deletion, hdeletion, hid⟩ := h
  exact ⟨deletion, hdeletion, herases.row_of_update hdeletion hid⟩

/-- The updates of a deletion name each ID once. -/
theorem Erases.nodup_updates (herases : Erases system rows extra ids prepared)
    (hstored : Stored system rows extra) (hlocated : Located system rows) (hids : ids.Nodup) :
    ((eraseUpdates prepared).map Prod.fst).Nodup := by
  rw [eraseUpdates_keys, List.nodup_flatMap]
  constructor
  · intro deletion hdeletion
    obtain ⟨-, hdeletes⟩ := herases.deletes deletion hdeletion
    refine List.Nodup.append ?_ ?_ ?_
    · have hsublist : deletion.plan.deletedIds.Sublist ids := by
        rw [hdeletes.plan_eq]
        have h := ((List.filter_sublist (p := fun row : Nat × DiskLocation =>
          row.2.listNo.toNat = deletion.plan.listNo)
          (l := ids.map fun id => (id, DirectoryLayout.entryAt system.storage.directory id))).map
          Prod.fst)
        rwa [List.map_map, Function.comp_def, List.map_id'] at h
      exact hids.sublist hsublist
    · rw [hdeletes.moves_eq.2.1, select, List.map_filterMap]
      have hsources : deletion.plan.sources.Nodup := by
        rw [hdeletes.plan_eq]
        exact nodup_sources _ _ _
      refine hsources.filterMap fun offset offset' id hid hid' => ?_
      obtain ⟨row, hrow, hrowId⟩ := Option.map_eq_some_iff.mp hid
      obtain ⟨row', hrow', hrowId'⟩ := Option.map_eq_some_iff.mp hid'
      exact (hlocated.slot_unique hstored hrow hrow' (hrowId.trans hrowId'.symm)).2
    · intro id hdeleted hmoved
      obtain ⟨move, hmove, rfl⟩ := List.mem_map.mp hmoved
      obtain ⟨hpair, row, hrow, hid⟩ := hdeletes.mem_moves hmove
      obtain ⟨hidMem, hlist⟩ := (herases.mem_deletedIds hdeletion).mp hdeleted
      obtain ⟨row', hrow', hrowId'⟩ := herases.row_of_id hidMem
      rw [hlist] at hrow'
      have hslot := (hlocated.slot_unique hstored hrow hrow' (hid.symm.trans hrowId'.symm)).2
      have hsource := (List.of_mem_zip hpair).2
      rw [hdeletes.plan_eq] at hsource
      rw [hslot] at hsource
      exact (mem_sources.mp hsource).2 (System.mem_deletedSlots hidMem hlist)
  · refine (List.pairwise_map.mp herases.nodup).imp_of_mem ?_
    intro deletion deletion' hmem hmem' hne id hid hid'
    obtain ⟨_, row, hrow, hrowId, -⟩ := herases.row_of_update hmem hid
    obtain ⟨_, row', hrow', hrowId', -⟩ := herases.row_of_update hmem' hid'
    exact hne (hlocated.slot_unique hstored hrow hrow' (hrowId.trans hrowId'.symm)).1

end Updates

/-! ### When a batch can be prepared -/

section Complete

variable {system : System} {rows : Rows config} {extra : Nat → Nat} {ids : List Nat}
  {prepared : List (PreparedDeletion config)}

/-- IDs that can be erased: distinct, each the ID of a row whose list can be
named in a location and has no spare pages. -/
structure Erasable (rows : Rows config) (extra : Nat → Nat) (ids : List Nat) : Prop where
  nodup : ids.Nodup
  held : ∀ id ∈ ids, ∃ (l o : Nat) (row : Row config), (rows l)[o]? = some row ∧ row.id = id ∧
    l ≠ uint32Max ∧ extra l = 0

theorem checkMoves_ok {directory : Bytes}
    (h : ∀ deletion ∈ prepared, ∀ move ∈ deletion.moves,
      (DirectoryLayout.entryAt directory move.sourceId).active = true ∧
      (DirectoryLayout.entryAt directory move.sourceId).listNo.toNat = deletion.plan.listNo ∧
      (DirectoryLayout.entryAt directory move.sourceId).offset.toNat = move.source) :
    checkMoves prepared ((prepared.flatMap fun deletion =>
      deletion.moves.map PreparedMove.sourceId).map (DirectoryLayout.entryAt directory)) =
        .ok () := by
  induction prepared with
  | nil => rfl
  | cons deletion rest ih =>
      have hlength : (deletion.moves.map PreparedMove.sourceId).length = deletion.moves.length :=
        List.length_map _
      rw [List.flatMap_cons, List.map_append, checkMoves, List.take_left' (by simp),
        List.drop_left' (by simp), if_pos, ih fun d hd => h d (List.mem_cons_of_mem _ hd)]
      rw [movesAgree, List.all_eq_true]
      rintro ⟨move, location⟩ hmem
      rw [List.map_map, ← List.map_id deletion.moves, List.map_map, List.zip_map',
        List.mem_map] at hmem
      obtain ⟨move', hmove, heq⟩ := hmem
      obtain ⟨rfl, rfl⟩ := Prod.mk.inj heq
      obtain ⟨hactive, hlist, hoffset⟩ := h deletion List.mem_cons_self move' hmove
      simp [hactive, hlist, hoffset]

/-- When the directory names distinct slots, so do the deletions of a list. -/
theorem nodup_deletedSlots {l : Nat} (hnodup : ids.Nodup)
    (hinjective : ∀ id ∈ ids, ∀ id' ∈ ids,
      (DirectoryLayout.entryAt system.storage.directory id).listNo.toNat =
        (DirectoryLayout.entryAt system.storage.directory id').listNo.toNat →
      (DirectoryLayout.entryAt system.storage.directory id).offset.toNat =
        (DirectoryLayout.entryAt system.storage.directory id').offset.toNat → id = id') :
    (deletedSlots (system.deletedAt ids l)).Nodup := by
  have hsegment : (system.deletedAt ids l).Nodup :=
    (hnodup.map fun _ _ h => (Prod.mk.inj h).1).filter _
  rw [deletedSlots, deletedPairs,
    ((List.perm_insertionSort pairBefore _).map Prod.fst).nodup_iff, List.map_map]
  refine hsegment.map_on ?_
  rintro ⟨id, location⟩ hmem ⟨id', location'⟩ hmem' hoffset
  obtain ⟨hid, rfl, hlist⟩ := System.mem_deletedAt.mp hmem
  obtain ⟨hid', rfl, hlist'⟩ := System.mem_deletedAt.mp hmem'
  obtain rfl := hinjective id hid id' hid' (hlist.trans hlist'.symm) hoffset
  rfl

/-- Erasable IDs can be prepared for deletion. -/
theorem Stored.planErase_ok (hstored : Stored system rows extra) (hlocated : Located system rows)
    (herasable : Erasable rows extra ids) :
    ∃ prepared, planErase config IoFaults.none system ids = .ok prepared := by
  -- the directory names the slot of each row
  have hentry : ∀ (l o : Nat) (row : Row config), (rows l)[o]? = some row →
      row.id * 8 < system.storage.directory.length ∧
      (DirectoryLayout.entryAt system.storage.directory row.id).listNo.toNat = l ∧
      (DirectoryLayout.entryAt system.storage.directory row.id).offset.toNat = o ∧
      (l ≠ uint32Max →
        (DirectoryLayout.entryAt system.storage.directory row.id).active = true) := by
    intro l o row hrow
    obtain ⟨hid, hloc⟩ := hlocated.located l o row hrow
    have hcovered := hlocated.covered
    have hslot := hstored.location_eq hrow
    rw [hloc]
    exact ⟨by omega, hslot.1, hslot.2, (hstored.active_iff hrow).mpr⟩
  have hinside : ∀ id ∈ ids, id * 8 < system.storage.directory.length := by
    intro id hid
    obtain ⟨l, o, row, hrow, rfl, -⟩ := herasable.held id hid
    exact (hentry l o row hrow).1
  have hvalid : ∀ location ∈ ids.map (DirectoryLayout.entryAt system.storage.directory),
      location.active = true ∧ location.listNo.toNat < config.nlist ∧
        location.offset.toNat < (system.index.lists location.listNo.toNat).logicalSize := by
    intro location hlocation
    obtain ⟨id, hid, rfl⟩ := List.mem_map.mp hlocation
    obtain ⟨l, o, row, hrow, rfl, hlist, -⟩ := herasable.held id hid
    obtain ⟨-, hl, ho, hactive⟩ := hentry l o row hrow
    rw [hl, ho, hstored.size_eq]
    exact ⟨hactive hlist, (hstored.slot_lt hrow).1, (List.getElem?_eq_some_iff.mp hrow).1⟩
  have hfits := length_le_of_inside hstored.aligned.le_off herasable.nodup hinside
  obtain ⟨plan, hplan, htouched, hmem, hsegment⟩ := groupByList_locations
    (fun location hlocation => (hvalid location hlocation).2.1) (by rwa [List.length_map])
  have hslots : ∀ l, (deletedSlots (system.deletedAt ids l)).Nodup := fun l =>
    nodup_deletedSlots herasable.nodup fun id hid id' hid' hlist hoffset => by
      obtain ⟨l, o, row, hrow, rfl, -⟩ := herasable.held id hid
      obtain ⟨l', o', row', hrow', rfl, -⟩ := herasable.held id' hid'
      obtain ⟨-, hl, ho, -⟩ := hentry l o row hrow
      obtain ⟨-, hl', ho', -⟩ := hentry l' o' row' hrow'
      obtain rfl : l = l' := hl.symm.trans (hlist.trans hl')
      obtain rfl : o = o' := ho.symm.trans (hoffset.trans ho')
      rw [Option.some.inj (hrow.symm.trans hrow')]
  -- the pairs of a list are the slots of its rows
  have hpairs : ∀ l, ∀ pair ∈ deletedPairs (system.deletedAt ids l),
      ((rows l)[pair.1]?).map Row.id = some pair.2 ∧ extra l = 0 := by
    rintro l ⟨offset, id⟩ hpair
    obtain ⟨location, hmem, rfl⟩ := mem_deletedPairs.mp hpair
    obtain ⟨hid, rfl, rfl⟩ := System.mem_deletedAt.mp hmem
    obtain ⟨l, o, row, hrow, rfl, -, hextra⟩ := herasable.held id hid
    obtain ⟨-, hl, ho, -⟩ := hentry l o row hrow
    rw [hl, ho, hrow]
    exact ⟨rfl, hextra⟩
  have hin : ∀ l, ∀ offset ∈ deletedSlots (system.deletedAt ids l), offset < (rows l).length := by
    intro l offset hoffset
    obtain ⟨pair, hpair, rfl⟩ := List.mem_map.mp hoffset
    obtain ⟨row, hrow, -⟩ := Option.map_eq_some_iff.mp (hpairs l pair hpair).1
    exact (List.getElem?_eq_some_iff.mp hrow).1
  have hplans : plan.touchedLists.mapM (planDeletion system.index
      (ids.zip (ids.map (DirectoryLayout.entryAt system.storage.directory))) plan) =
      .ok (plan.touchedLists.map fun l =>
        deletionPlan (rows l).length l (system.deletedAt ids l)) := by
    apply mapM_ok_of_forall
    intro l hl
    have h := @planDeletion_ok system.index
      (ids.zip (ids.map (DirectoryLayout.entryAt system.storage.directory))) plan l
    rw [select_segment (hsegment l hl), hstored.size_eq] at h
    exact h (hslots l) (hin l)
  obtain ⟨prepared, hprepared⟩ := @exists_mapM_ok _ _ _ (prepareDeletion config IoFaults.none system)
      (plan.touchedLists.map fun l => deletionPlan (rows l).length l (system.deletedAt ids l)) (by
    intro deletion hdeletion
    obtain ⟨l, hl, rfl⟩ := List.mem_map.mp hdeletion
    obtain ⟨location, hlocation, rfl⟩ := (hmem l).mp hl
    obtain ⟨id, hid, rfl⟩ := List.mem_map.mp hlocation
    have hslot := @System.mem_deletedSlots system _ _ _ hid rfl
    obtain ⟨pair, hpair, -⟩ := List.mem_map.mp hslot
    exact hstored.prepareDeletion_ok (hpairs _ pair hpair).2
      (List.ne_nil_of_length_pos (Nat.lt_of_le_of_lt (Nat.zero_le _) (hin _ _ hslot)))
      (hslots _) (hin _) (map_select_fst fun pair hpair => (hpairs _ pair hpair).1))
  have hoccupied : ∀ id ∈ ids, _ := fun id hid =>
    hvalid (DirectoryLayout.entryAt system.storage.directory id) (List.mem_map_of_mem hid)
  simp only [hstored.size_eq] at hoccupied
  have herases := hstored.erases htouched (fun l => by rw [hmem]; simp) hsegment hoccupied hplans
    hprepared
  -- the moved rows are where the directory says
  have hmoved : ∀ deletion ∈ prepared, ∀ move ∈ deletion.moves,
      move.sourceId * 8 < system.storage.directory.length ∧
      (DirectoryLayout.entryAt system.storage.directory move.sourceId).active = true ∧
      (DirectoryLayout.entryAt system.storage.directory move.sourceId).listNo.toNat =
        deletion.plan.listNo ∧
      (DirectoryLayout.entryAt system.storage.directory move.sourceId).offset.toNat =
        move.source := by
    intro deletion hdeletion move hmove
    obtain ⟨-, row, hrow, hid⟩ := (herases.deletes deletion hdeletion).2.mem_moves hmove
    obtain ⟨hinside, hl, ho, hactive⟩ := hentry _ _ row hrow
    obtain ⟨id, hid', hlist⟩ := (herases.mem_lists _).mp (List.mem_map_of_mem hdeletion)
    obtain ⟨l, o, row', hrow', rfl, hne, -⟩ := herasable.held id hid'
    rw [hid]
    exact ⟨hinside, hactive (hlist ▸ (hentry l o row' hrow').2.1 ▸ hne), hl, ho⟩
  have hread := DirectoryLayout.readBatch_ok hstored.aligned hinside
  have hreadMoved := @DirectoryLayout.readBatch_ok _ _ hstored.aligned (prepared.flatMap
    fun deletion => deletion.moves.map PreparedMove.sourceId) (by
      intro id hid
      obtain ⟨deletion, hdeletion, hid⟩ := List.mem_flatMap.mp hid
      obtain ⟨move, hmove, rfl⟩ := List.mem_map.mp hid
      exact (hmoved deletion hdeletion move hmove).1)
  have hlists := locationLists_eq_ok.mpr ⟨rfl, hvalid⟩
  have hcheck := checkMoves_ok fun deletion hdeletion move hmove =>
    (hmoved deletion hdeletion move hmove).2
  refine ⟨prepared, ?_⟩
  simp only [planErase, bind_eq_ok, pure_eq_ok]
  exact ⟨_, hread, _, hlists, plan, hplan, _, hplans, prepared, hprepared, _, hreadMoved, (), hcheck,
    rfl⟩

end Complete

end Recast
