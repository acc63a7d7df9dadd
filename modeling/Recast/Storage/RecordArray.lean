import Recast.Storage.RecordLaws

/-!
# The record store as a growable array

A list file is an array of records on which the store can append rows, and
move rows down before it cuts the end off.
-/

namespace Recast.RecordLayout

open Foundation

variable {layout : RecordLayout}

/-- The row a slot takes its record from: the source of its move, or itself. -/
def sourceOf (moves : List RecordMove) (offset : Nat) : Nat :=
  ((moves.find? (·.destination == offset)).map RecordMove.source).getD offset

/-- The array after a deletion. -/
def moveAndTruncate (records : List (Record layout)) (newSize : Nat) (moves : List RecordMove) :
    List (Record layout) :=
  select records ((List.range newSize).map (sourceOf moves))

/-- The array and the list file after calls that returned. -/
inductive StoreRun (layout : RecordLayout) : List (Record layout) → Option Bytes → Prop where
  | create : StoreRun layout [] none
  | append {records : List (Record layout)} {file : Option Bytes} (faults : IoFaults) (listNo : Nat)
      (rows : List (Record layout)) : StoreRun layout records file →
      (layout.appendRecords faults listNo records.length rows file).2 = .ok () →
      StoreRun layout (records ++ rows) (layout.appendRecords faults listNo records.length rows file).1
  | delete {records : List (Record layout)} {file : Option Bytes} {mutation : PreparedRecordMutation}
      (faults : IoFaults) (listNo newSize : Nat) (moves : List RecordMove) (offsets : List Nat) :
      StoreRun layout records file → (moves.map RecordMove.destination).Nodup →
      layout.prepareMovesAndTruncate faults listNo records.length newSize moves offsets file =
        .ok mutation →
      (layout.commitPreparedMutation faults listNo mutation file).2 = .ok () →
      StoreRun layout (moveAndTruncate records newSize moves)
        (layout.commitPreparedMutation faults listNo mutation file).1

/-- The bytes of row `offset` of a list file. -/
def rowBytes (layout : RecordLayout) (file : Option Bytes) (offset : Nat) : Bytes :=
  slice (file.getD []) (offset / layout.recordsPerPage * layout.pageSize +
    offset % layout.recordsPerPage * layout.recordStride) layout.recordStride

/-- The file is the array, in whole pages. -/
structure Stores (layout : RecordLayout) (file : Option Bytes) (records : List (Record layout)) :
    Prop where
  pages : (file.getD []).length = pageCount records.length layout.recordsPerPage * layout.pageSize
  row : ∀ offset record, records[offset]? = some record →
    layout.rowBytes file offset = toLittleEndian 4 record.logicalId ++ record.payload.bytes

theorem Holds.stores {file : Option Bytes} {records : List (Record layout)}
    (hholds : layout.Holds (file.getD []) records
      (pageCount records.length layout.recordsPerPage)) : layout.Stores file records where
  pages := hholds.length_eq
  row := by
    intro offset record h
    obtain ⟨hlt, rfl⟩ := List.getElem?_eq_some_iff.mp h
    exact hholds.slot offset hlt

/-! ### Moves -/

theorem applyUpdates_eq_sourceOf {moves : List RecordMove}
    (hdistinct : (moves.map RecordMove.destination).Nodup) (offset : Nat) :
    applyUpdates id (moveUpdates moves) offset = sourceOf moves offset := by
  have hkeys : (moveUpdates moves).map Prod.fst = moves.map RecordMove.destination := by
    rw [moveUpdates, List.map_map]
    rfl
  cases hfind : moves.find? (·.destination == offset) with
  | none =>
      rw [sourceOf, hfind, applyUpdates_of_notMem]
      · rfl
      · rw [hkeys]
        intro hmem
        obtain ⟨move, hmove, heq⟩ := List.mem_map.mp hmem
        have hnone := List.find?_eq_none.mp hfind move hmove
        simp [heq] at hnone
  | some move =>
      have hdest : move.destination = offset := by simpa using List.find?_some hfind
      have hmem : (offset, move.source) ∈ moveUpdates moves :=
        List.mem_map.mpr ⟨move, List.mem_of_find?_eq_some hfind, by rw [hdest]⟩
      rw [sourceOf, hfind, applyUpdates_of_mem id (by rwa [hkeys]) hmem]
      rfl

theorem sourceOf_lt {oldSize newSize : Nat} {moves : List RecordMove}
    (hmoves : MovesOk oldSize newSize moves) (hle : newSize ≤ oldSize) {offset : Nat}
    (h : offset < newSize) : sourceOf moves offset < oldSize := by
  rw [sourceOf]
  cases hfind : moves.find? (·.destination == offset) with
  | none => exact Nat.lt_of_lt_of_le h hle
  | some move => exact (hmoves move (List.mem_of_find?_eq_some hfind)).2.2

theorem moved_moveAndTruncate {records : List (Record layout)} {newSize : Nat}
    {moves : List RecordMove} (hmoves : MovesOk records.length newSize moves)
    (hle : newSize ≤ records.length) (hdistinct : (moves.map RecordMove.destination).Nodup) :
    Moved records newSize moves (moveAndTruncate records newSize moves) := by
  have hin : ∀ p ∈ (List.range newSize).map (sourceOf moves), p < records.length := by
    intro p hp
    obtain ⟨offset, hoffset, rfl⟩ := List.mem_map.mp hp
    exact sourceOf_lt hmoves hle (List.mem_range.mp hoffset)
  constructor
  · rw [moveAndTruncate, length_select hin, List.length_map, List.length_range]
  · intro i hi
    have hselect := congrArg (·[i]?) (select_eq_map hin)
    simp only [List.getElem?_map, List.getElem?_range hi, Option.map_some] at hselect
    have hsource := List.getElem?_eq_getElem (sourceOf_lt hmoves hle hi)
    rw [applyUpdates_eq_sourceOf hdistinct, hsource]
    rw [hsource] at hselect
    obtain ⟨record, hrecord, heq⟩ := Option.map_eq_some_iff.mp hselect
    rw [moveAndTruncate, hrecord, heq]

/-! ### Deletions -/

/-- What an accepted preparation has checked. -/
theorem prepare_checks {faults : IoFaults} {listNo oldSize newSize : Nat} {moves : List RecordMove}
    {offsets : List Nat} {file : Option Bytes} {mutation : PreparedRecordMutation}
    (h : layout.prepareMovesAndTruncate faults listNo oldSize newSize moves offsets file =
      .ok mutation) :
    newSize ≤ oldSize ∧ MovesOk oldSize newSize moves ∧ ∀ offset ∈ offsets, offset < oldSize := by
  simp only [prepareMovesAndTruncate, guard_eq_ok] at h
  obtain ⟨hgrow, hmoves, hoffsets, -⟩ := h
  refine ⟨Nat.not_lt.mp hgrow, fun move hmove => ?_, fun offset hoffset => ?_⟩
  · have := List.any_eq_false.mp (Bool.not_eq_true _ ▸ hmoves) move hmove
    simp only [Bool.or_eq_true, decide_eq_true_eq] at this
    omega
  · have := List.any_eq_false.mp (Bool.not_eq_true _ ▸ hoffsets) offset hoffset
    simpa using this

/-- An accepted preparation, in terms of the page buffers it read. -/
theorem prepared_of_ok {faults : IoFaults} {listNo newSize : Nat} {moves : List RecordMove}
    {offsets : List Nat} {file : Option Bytes} {records : List (Record layout)}
    {mutation : PreparedRecordMutation}
    (hholds : layout.Holds (file.getD []) records (pageCount records.length layout.recordsPerPage))
    (h : layout.prepareMovesAndTruncate faults listNo records.length newSize moves offsets file =
      .ok mutation) :
    ∃ bytes pages, file = some bytes ∧
      layout.Buffered bytes pages (layout.neededPages newSize moves offsets) ∧
      mutation = layout.mutationOf records.length newSize moves offsets pages := by
  obtain ⟨hle, hmoves, hoffsets⟩ := prepare_checks h
  obtain ⟨hnone, hcount, bytes, rfl, -⟩ := prepare_none_of_ok h
  obtain ⟨pages, hbuffered, hprepare⟩ := prepare_eq listNo hholds hmoves hle hoffsets hcount
  exact ⟨bytes, pages, rfl, hbuffered, Except.ok.inj (hnone.symm.trans hprepare)⟩

theorem clearTail_stale {newSize : Nat} {pages : Nat → Bytes} {loaded : List Nat}
    (hsized : layout.PageSized pages loaded) (hne : newSize ≠ 0)
    (hrem : newSize % layout.recordsPerPage ≠ 0)
    (htail : newSize / layout.recordsPerPage ∈ loaded) {offset : Nat} (hlow : newSize ≤ offset)
    (hpage : offset / layout.recordsPerPage = newSize / layout.recordsPerPage) :
    layout.bufferedRecord (layout.clearTail newSize pages) offset =
      List.replicate layout.recordStride 0 := by
  have hlength := hsized _ htail
  have hoffset := Nat.div_add_mod offset layout.recordsPerPage
  have hsize := Nat.div_add_mod newSize layout.recordsPerPage
  have hlane := Nat.mod_lt offset layout.recordsPerPage_pos
  have hfirst := Nat.mod_lt newSize layout.recordsPerPage_pos
  rw [hpage] at hoffset
  -- the lane, counted from the first stale one
  obtain ⟨k, hk⟩ : ∃ k, offset % layout.recordsPerPage = newSize % layout.recordsPerPage + k :=
    ⟨_, (Nat.add_sub_cancel' (by omega)).symm⟩
  have hin : k * layout.recordStride + layout.recordStride ≤
      (layout.recordsPerPage - newSize % layout.recordsPerPage) * layout.recordStride := by
    rw [← Nat.succ_mul]
    exact Nat.mul_le_mul_right _ (by omega)
  have hfits : newSize % layout.recordsPerPage * layout.recordStride ≤ layout.pageSize :=
    Nat.le_trans (Nat.mul_le_mul_right _ (Nat.le_of_lt hfirst)) layout.paging.fits
  rw [bufferedRecord, clearTail, if_pos ⟨hne, hrem⟩, hpage, Function.update_self, hk, Nat.add_mul, slice_splice_inside (by omega)
    (by rw [List.length_replicate]; exact hin), slice_replicate _ hin]

section Delete

variable {bytes : Bytes} {records : List (Record layout)} {newSize listNo : Nat}
  {moves : List RecordMove} {offsets : List Nat} {pages : Nat → Bytes} {faults : IoFaults}

/-- After a commit the lanes of the tail page past the last row are zero. -/
theorem commit_tail_zero
    (hholds : layout.Holds bytes records (pageCount records.length layout.recordsPerPage))
    (hle : newSize ≤ records.length)
    (hbuffered : layout.Buffered bytes pages (layout.neededPages newSize moves offsets))
    (hok : (layout.commitPreparedMutation faults listNo
      (layout.mutationOf records.length newSize moves offsets pages) (some bytes)).2 = .ok ())
    {offset : Nat} (hlow : newSize ≤ offset)
    (hhigh : offset < pageCount newSize layout.recordsPerPage * layout.recordsPerPage) :
    layout.rowBytes (layout.commitPreparedMutation faults listNo
      (layout.mutationOf records.length newSize moves offsets pages) (some bytes)).1 offset =
        List.replicate layout.recordStride 0 := by
  obtain ⟨hlength, hslots⟩ := commitPages_spec faults listNo
    (commitBuffers_sized hbuffered) (writtenPages_inside hholds hle)
  obtain ⟨hwritten, hfile⟩ := commit_eq_ok hok
  have hpages : offset / layout.recordsPerPage < pageCount newSize layout.recordsPerPage :=
    (Nat.div_lt_iff_lt_mul layout.recordsPerPage_pos).mpr hhigh
  have hcut : pageCount newSize layout.recordsPerPage * layout.pageSize ≤ bytes.length :=
    (hholds.pages_le_iff _).mpr (pageCount_mono layout.recordsPerPage_pos hle)
  have hin : layout.paging.slotOffset offset + layout.recordStride ≤
      pageCount newSize layout.recordsPerPage * layout.pageSize :=
    layout.paging.slot_end_le_of_pages hpages
  -- a row past the end is in the page the new end cuts
  have hpage : offset / layout.recordsPerPage = newSize / layout.recordsPerPage := by
    have hroom := (lt_pageCount_iff layout.recordsPerPage_pos).mp hpages
    have hmono := Nat.div_le_div_right (c := layout.recordsPerPage) hlow
    have := Nat.div_le_div_right (c := layout.recordsPerPage) (Nat.le_of_lt hroom)
    rw [Nat.mul_div_cancel _ layout.recordsPerPage_pos] at this
    omega
  have hroom := (lt_pageCount_iff layout.recordsPerPage_pos).mp hpages
  have hrem : newSize % layout.recordsPerPage ≠ 0 := by
    have := Nat.div_add_mod' newSize layout.recordsPerPage
    rw [hpage] at hroom
    omega
  have hne : newSize ≠ 0 := by
    intro hzero
    simp [hzero] at hrem
  have htail : newSize / layout.recordsPerPage ∈ layout.writtenPages newSize moves :=
    mem_writtenPages.mpr ⟨Or.inr ⟨⟨hne, hrem⟩, rfl⟩, hpage ▸ hpages⟩
  have hmoved := bufferedRecord_moveRecords hbuffered.pageSized (moves_loaded newSize moves offsets)
  rw [rowBytes, hfile]
  refine Eq.trans (b := layout.paging.slotAt (ftruncate _ _) offset) rfl ?_
  dsimp only [mutationOf] at hwritten ⊢
  rw [ftruncate_of_le (by rw [hlength]; exact hcut), layout.paging.slotAt_take hin,
    hslots hwritten offset (Nat.le_trans hin hcut), hpage, if_pos htail]
  exact clearTail_stale hmoved.1 hne hrem (writtenPages_subset htail) hlow hpage

end Delete

/-! ### Appends -/

/-- An append cuts off whatever whole pages follow the array. -/
theorem appendRecords_tail {faults : IoFaults} {listNo oldSize : Nat} {rows : List (Record layout)}
    {bytes tail : Bytes} (hlength : bytes.length = pageCount oldSize layout.recordsPerPage *
      layout.pageSize) (hrows : rows ≠ [])
    (hok : (layout.appendRecords faults listNo oldSize rows (some (bytes ++ tail))).2 = .ok ()) :
    layout.appendRecords faults listNo oldSize rows (some (bytes ++ tail)) =
      layout.appendRecords faults listNo oldSize rows (some bytes) := by
  have hcut : ftruncate (bytes ++ tail) (pageCount oldSize layout.recordsPerPage *
      layout.pageSize) = ftruncate bytes (pageCount oldSize layout.recordsPerPage *
        layout.pageSize) := by
    rw [← hlength, ftruncate_length, ftruncate_of_le (by simp), List.take_left]
  have hmod : bytes.length % layout.pageSize = 0 := by
    rw [hlength]
    exact Nat.mul_mod_left _ _
  unfold appendRecords at hok ⊢
  rw [if_neg hrows] at hok ⊢
  split at hok
  next => cases hok
  next hcount =>
  rw [if_neg hrows, if_neg hcount, if_neg hcount]
  split at hok
  next => cases hok
  next hopen =>
  rw [if_neg hopen, if_neg hopen]
  simp only [Option.getD_some] at hok ⊢
  split at hok
  next => cases hok
  next hsize =>
  split at hok
  next => cases hok
  next htruncate =>
  rw [if_neg hsize, if_neg htruncate, if_neg (by rw [← hlength]; simp [hmod]),
    if_neg (by rw [← hlength]; simp), hcut]

theorem StoreRun.holds {records : List (Record layout)} {file : Option Bytes}
    (hrun : layout.StoreRun records file) :
    layout.Holds (file.getD []) records (pageCount records.length layout.recordsPerPage) := by
  induction hrun with
  | create => exact holds_nil (by simp) (by simp)
  | append faults listNo rows _ hok ih =>
      by_cases hrows : rows = []
      · subst hrows
        rw [List.append_nil]
        exact ih
      · exact (appendRecords_holds faults listNo ih rows).2 hrows hok
  | delete faults listNo newSize moves offsets _ hdistinct hprepare hok ih =>
      obtain ⟨hle, hmoves, -⟩ := prepare_checks hprepare
      obtain ⟨bytes, pages, rfl, hbuffered, rfl⟩ := prepared_of_ok ih hprepare
      obtain ⟨bytes', hfile, hholds⟩ := commit_holds faults listNo
        (moved_moveAndTruncate hmoves hle hdistinct) ih hmoves hle hbuffered hok
      rw [Option.getD_some] at hfile
      rw [hfile]
      exact hholds

/-- What the store promises about its calls, besides the array they leave. -/
structure StoreCalls (layout : RecordLayout) (file : Option Bytes)
    (records : List (Record layout)) : Prop where
  /-- Whole pages past the array do not change what an append makes of it. -/
  append_tail : ∀ faults listNo rows tail, rows ≠ [] →
    (layout.appendRecords faults listNo records.length rows (some (file.getD [] ++ tail))).2 =
      .ok () →
    layout.Stores (layout.appendRecords faults listNo records.length rows
      (some (file.getD [] ++ tail))).1 (records ++ rows)
  /-- The observed IDs are those of the old rows, in input order. -/
  observed : ∀ faults listNo newSize moves offsets mutation,
    layout.prepareMovesAndTruncate faults listNo records.length newSize moves offsets file =
      .ok mutation →
    mutation.observedIds.map some = offsets.map fun offset => records[offset]?.map (·.logicalId)
  /-- A commit clears the lanes of the tail page past the last row. -/
  tail_zero : ∀ faults listNo newSize moves offsets mutation,
    layout.prepareMovesAndTruncate faults listNo records.length newSize moves offsets file =
      .ok mutation →
    (layout.commitPreparedMutation faults listNo mutation file).2 = .ok () →
    ∀ offset, newSize ≤ offset →
      offset < pageCount newSize layout.recordsPerPage * layout.recordsPerPage →
      layout.rowBytes (layout.commitPreparedMutation faults listNo mutation file).1 offset =
        List.replicate layout.recordStride 0
  /-- Without I/O errors an append that fits returns. -/
  append_returns : ∀ listNo rows, records.length + rows.length ≤ uint32Max →
    (layout.appendRecords IoFaults.none listNo records.length rows file).2 = .ok () ∨
      ∃ operation, (layout.appendRecords IoFaults.none listNo records.length rows file).2 =
        .error (.system operation)
  /-- Without I/O errors accepted moves are prepared and committed. -/
  delete_returns : ∀ listNo newSize moves offsets, file ≠ none →
    newSize ≤ records.length → MovesOk records.length newSize moves →
    (moves.map RecordMove.destination).Nodup → (∀ offset ∈ offsets, offset < records.length) →
    ∃ mutation, layout.prepareMovesAndTruncate IoFaults.none listNo records.length newSize moves
        offsets file = .ok mutation ∧
      (layout.commitPreparedMutation IoFaults.none listNo mutation file).2 = .ok ()

/-- Moves with distinct destinations are no more than the rows. -/
theorem length_moves_le {oldSize newSize : Nat} {moves : List RecordMove}
    (hmoves : MovesOk oldSize newSize moves)
    (hdistinct : (moves.map RecordMove.destination).Nodup) : moves.length ≤ newSize := by
  have hsubset : moves.map RecordMove.destination ⊆ List.range newSize := by
    intro destination h
    obtain ⟨move, hmove, rfl⟩ := List.mem_map.mp h
    exact List.mem_range.mpr (hmoves move hmove).1
  simpa using (List.subperm_of_subset hdistinct hsubset).length_le

/-- After every sequence of appends and deletions that return, the list file is
the array they describe, in exactly its pages, and the next call behaves. -/
theorem record_store_is_array {records : List (Record layout)} {file : Option Bytes}
    (hrun : layout.StoreRun records file) :
    layout.Stores file records ∧ layout.StoreCalls file records := by
  have hholds := hrun.holds
  refine ⟨hholds.stores, ?_, ?_, ?_, ?_, ?_⟩
  · intro faults listNo rows tail hrows hok
    have hsame := appendRecords_tail hholds.length_eq hrows hok
    rw [hsame] at hok ⊢
    have hsome : layout.Holds ((some (file.getD [])).getD []) records
        (pageCount records.length layout.recordsPerPage) := hholds
    exact ((appendRecords_holds faults listNo hsome rows).2 hrows hok).stores
  · intro faults listNo newSize moves offsets mutation hprepare
    obtain ⟨-, -, hoffsets⟩ := prepare_checks hprepare
    obtain ⟨bytes, pages, rfl, hbuffered, rfl⟩ := prepared_of_ok hholds hprepare
    rw [observedIds_eq hholds hoffsets hbuffered, List.map_map]
    have hselect := congrArg (List.map (Option.map (·.logicalId))) (select_eq_map hoffsets)
    rwa [List.map_map, List.map_map] at hselect
  · intro faults listNo newSize moves offsets mutation hprepare hok offset hlow hhigh
    obtain ⟨hle, -, -⟩ := prepare_checks hprepare
    obtain ⟨bytes, pages, rfl, hbuffered, rfl⟩ := prepared_of_ok hholds hprepare
    exact commit_tail_zero hholds hle hbuffered hok hlow hhigh
  · exact fun listNo rows hfits => appendRecords_none listNo hholds hfits
  · intro listNo newSize moves offsets hfile hle hmoves hdistinct hoffsets
    obtain ⟨bytes, rfl⟩ := Option.ne_none_iff_exists'.mp hfile
    have hcount : moves.length * layout.recordStride ≤ sizeMax := by
      have hfew := Nat.le_trans (length_moves_le hmoves hdistinct) hle
      have := Nat.mul_le_mul_right layout.recordStride hfew
      have := hholds.stride_le
      unfold offMax at this
      unfold sizeMax
      omega
    obtain ⟨pages, hbuffered, hprepare⟩ := prepare_eq listNo hholds hmoves hle hoffsets hcount
    exact ⟨_, hprepare, commit_none listNo hholds hle hbuffered⟩

/-- A row of four bytes `7`. -/
def smallRow (id : Fin 4) : Record twoPerPage :=
  ⟨id, ⟨List.replicate 4 7, rfl⟩, Nat.lt_trans id.isLt (by decide)⟩

/-- Append three rows, and move the last one over the first. -/
theorem record_store_is_array_small :
    ∃ file, twoPerPage.Stores file [smallRow 3, smallRow 2] := by
  have happend := @StoreRun.append twoPerPage _ _ IoFaults.none 0
    [smallRow 1, smallRow 2, smallRow 3] .create (by decide +kernel)
  obtain ⟨mutation, hprepare, hcommit⟩ := (record_store_is_array happend).2.delete_returns 0 2
    [⟨0, 2⟩] [0] (by decide) (by decide) (by simp [MovesOk]) (by decide) (by decide)
  exact ⟨_, (record_store_is_array
    (.delete IoFaults.none 0 2 [⟨0, 2⟩] [0] happend (by decide) hprepare hcommit)).1⟩

end Recast.RecordLayout
