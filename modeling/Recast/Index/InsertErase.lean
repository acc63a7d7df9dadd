import Recast.Index.Agreement
import Recast.Index.ListSizes
import Recast.Storage.RecordArray

/-!
# Undoing an insertion

New rows go behind the old ones, and a deletion of all rows behind a position moves
none. Erasing what was just inserted therefore puts every list back slot by slot.
-/

namespace Recast

open Foundation

variable {config : IndexConfig} {Vector : Type*}

section Undo

variable {encoder : Encoder config Vector} {input : List (InputRow config Vector)}
  {system middle : System} {rows : Rows config} {extra : Nat → Nat} {erased : List Nat}

/-- The rows of the new IDs are the rows past the old end of each list. -/
theorem mem_newIds {id : Nat} :
    id ∈ (generateRows encoder system.index.nextId input).map Row.id ↔
      ∃ l o row, (rows l).length ≤ o ∧
        (insertRows encoder system.index.nextId input rows l)[o]? = some row ∧ row.id = id := by
  constructor
  · intro hid
    obtain ⟨row, hrow, rfl⟩ := List.mem_map.mp hid
    obtain ⟨p, hp⟩ := List.mem_iff_getElem?.mp hrow
    have hlt := (List.getElem?_eq_some_iff.mp hp).1
    rw [length_generateRows, ← length_assignmentsOf encoder] at hlt
    obtain ⟨l, hl⟩ : ∃ l, (assignmentsOf encoder input)[p]? = some l :=
      ⟨_, List.getElem?_eq_getElem hlt⟩
    obtain ⟨k, hk⟩ := List.mem_iff_getElem?.mp (mem_batchRows.mpr ⟨p, hl, hp⟩)
    refine ⟨l, (rows l).length + k, row, Nat.le_add_right _ _, ?_, rfl⟩
    rw [insertRows, List.getElem?_append_right (Nat.le_add_right _ _), Nat.add_sub_cancel_left]
    exact hk
  · rintro ⟨l, o, row, hnew, hrow, rfl⟩
    rw [insertRows, List.getElem?_append_right hnew] at hrow
    obtain ⟨p, -, hp⟩ := mem_batchRows.mp (List.mem_of_getElem? hrow)
    exact List.mem_map_of_mem (List.mem_of_getElem? hp)

/-- Deleting the new IDs deletes the slots past the old end of each list. -/
theorem mem_deletedSlots_new
    (hstored : Stored middle (insertRows encoder system.index.nextId input rows) extra)
    (hlocated : Located middle (insertRows encoder system.index.nextId input rows))
    (herased : ∀ id, id ∈ erased ↔ id ∈ (generateRows encoder system.index.nextId input).map Row.id)
    (l p : Nat) :
    p ∈ deletedSlots (middle.deletedAt erased l) ↔ (rows l).length ≤ p ∧
      p < (insertRows encoder system.index.nextId input rows l).length := by
  rw [mem_deletedSlots]
  constructor
  · rintro ⟨⟨id, location⟩, hmem, rfl⟩
    obtain ⟨hid, rfl, rfl⟩ := System.mem_deletedAt.mp hmem
    obtain ⟨l, o, row, hnew, hrow, rfl⟩ := mem_newIds.mp ((herased id).mp hid)
    obtain ⟨hlist, hoffset⟩ := hstored.location_eq hrow
    rw [(hlocated.located l o row hrow).2]
    dsimp only
    rw [hlist, hoffset]
    exact ⟨hnew, (List.getElem?_eq_some_iff.mp hrow).1⟩
  · rintro ⟨hnew, hlt⟩
    have hrow := List.getElem?_eq_getElem hlt
    obtain ⟨hlist, hoffset⟩ := hstored.location_eq hrow
    refine ⟨(_, DirectoryLayout.entryAt middle.storage.directory _), System.mem_deletedAt.mpr
      ⟨(herased _).mpr (mem_newIds.mpr ⟨l, p, _, hnew, hrow, rfl⟩), rfl, ?_⟩, ?_⟩
    · rw [(hlocated.located l p _ hrow).2, hlist]
    · dsimp only
      rw [(hlocated.located l p _ hrow).2, hoffset]

/-- Without the new IDs the rows are the old rows. -/
theorem eraseRows_insertRows
    (hstored : Stored middle (insertRows encoder system.index.nextId input rows) extra)
    (hlocated : Located middle (insertRows encoder system.index.nextId input rows))
    (herased : ∀ id, id ∈ erased ↔ id ∈ (generateRows encoder system.index.nextId input).map Row.id)
    (hnodup : ∀ l, (deletedSlots (middle.deletedAt erased l)).Nodup) :
    eraseRows middle erased (insertRows encoder system.index.nextId input rows) = rows := by
  funext l
  have hle : (rows l).length ≤ (insertRows encoder system.index.nextId input rows l).length := by
    rw [insertRows, List.length_append]
    exact Nat.le_add_right _ _
  rw [eraseRows, swapDelete_suffix _ (hnodup l) hle (mem_deletedSlots_new hstored hlocated herased l),
    insertRows, List.take_left]

end Undo

/-- The index holds the same rows in the same slots. What it does not share are its `next_id_`,
the capacities of its buffers and the directory entries of later IDs. -/
structure SameRows (config : IndexConfig) (system system' : System) : Prop where
  sizes : ∀ l, (system'.index.lists l).sizes = (system.index.lists l).sizes
  postings : ∀ l, ∀ row < (system.index.lists l).logicalSize,
    (system'.index.lists l).posting config.codes row = (system.index.lists l).posting config.codes row
  pages : ∀ l, ((system'.storage.records l).getD []).length =
    ((system.storage.records l).getD []).length
  records : ∀ l, ∀ offset < (system.index.lists l).logicalSize,
    config.records.rowBytes (system'.storage.records l) offset =
      config.records.rowBytes (system.storage.records l) offset
  directory : ∀ id < system.index.nextId,
    DirectoryLayout.entryAt system'.storage.directory id =
      DirectoryLayout.entryAt system.storage.directory id
  active_eq : system'.index.activeCount = system.index.activeCount

section Same

variable {system system' : System} {rows : Rows config}

/-- Two systems that store and locate the same rows. -/
theorem sameRows_of_stored (hstored : Stored system rows fun _ => 0)
    (hstored' : Stored system' rows fun _ => 0) (hlocated : Located system rows)
    (hlocated' : Located system' rows) (hnextId : system.index.nextId ≤ system'.index.nextId) :
    SameRows config system system' := by
  have hslot : ∀ l, ∀ offset < (system.index.lists l).logicalSize, offset < (rows l).length :=
    fun l offset hoffset => hstored.size_eq l ▸ hoffset
  refine ⟨fun l => ?_, fun l row hrow => ?_, fun l => ?_, fun l offset hoffset => ?_,
    fun id hid => ?_, hstored'.active.trans hstored.active.symm⟩
  · obtain ⟨blocks, hholds⟩ := hstored.postings l
    obtain ⟨blocks', hholds'⟩ := hstored'.postings l
    exact Prod.ext (hholds'.size.trans hholds.size.symm) (hholds'.padded.trans hholds.padded.symm)
  · obtain ⟨blocks, hholds⟩ := hstored.postings l
    obtain ⟨blocks', hholds'⟩ := hstored'.postings l
    have hlt := hslot l row hrow
    rw [← List.length_map Row.posting] at hlt
    exact hholds.posting_eq hholds' (hlt.trans_le hholds.lanes.room) (hlt.trans_le hholds'.lanes.room)
  · rw [(hstored'.records l).length_eq, (hstored.records l).length_eq]
  · have hlt : offset < ((rows l).map Row.record).length := by
      rw [List.length_map]
      exact hslot l offset hoffset
    exact ((hstored'.records l).slot offset hlt).trans ((hstored.records l).slot offset hlt).symm
  · by_cases hheld : ∃ l, ∃ row ∈ rows l, row.id = id
    · obtain ⟨l, row, hrow, rfl⟩ := hheld
      obtain ⟨o, ho⟩ := List.mem_iff_getElem?.mp hrow
      rw [(hlocated'.located l o row ho).2, (hlocated.located l o row ho).2]
    · have hnone : ∀ l, ∀ row ∈ rows l, row.id ≠ id := fun l row hrow heq =>
        hheld ⟨l, row, hrow, heq⟩
      rw [hlocated'.vacant id (hid.trans_le hnextId) hnone, hlocated.vacant id hid hnone]

end Same

/-- Erasing the IDs that an insertion returned undoes it: every list has its rows back, in
their slots, and the directory has its entries back. The erased IDs are not issued again. -/
theorem erase_undoes_insert (encoder : Encoder config Vector) {system middle : System}
    {ledger : Ledger config} (hreachable : Reachable encoder (Succeeds encoder) system ledger)
    {env undo : Environment} {input : List (InputRow config Vector)} {ids erased : List Nat}
    (hinsert : insertBatch encoder env system input = (middle, .ok ids))
    (hlists : ∀ l ∈ assignmentsOf encoder input, l ≠ uint32Max)
    (hfaults : undo.faults = IoFaults.none) (hperm : erased.Perm ids) :
    ∃ final, eraseBatch config undo middle erased = (final, .ok ids.length) ∧
      SameRows config system final ∧ final.index.nextId = middle.index.nextId ∧
      ∀ id ∈ ids, DirectoryLayout.entryAt final.storage.directory id = DiskLocation.tombstone := by
  obtain ⟨rows, hagrees, -⟩ := hreachable.agrees (fun _ => True)
    fun _ _ _ hrule => ⟨Or.inl hrule, fun _ _ => trivial⟩
  have hids := insertBatch_spec env hagrees.stored encoder input
  rw [hinsert] at hids
  obtain ⟨hids, hdone⟩ | ⟨error, -, herror, -⟩ := hids
  swap
  · cases herror
  obtain rfl := Except.ok.inj hids
  have hstored := hdone.stored
  have hlocated := hdone.located hagrees.located
  have hextra : insertExtra (assignmentsOf encoder input) (fun _ => 0) = fun _ => 0 := by
    funext l
    exact ite_self 0
  rw [hextra] at hstored
  have herased : ∀ id, id ∈ erased ↔
      id ∈ (generateRows encoder system.index.nextId input).map Row.id := fun id => hperm.mem_iff
  -- `uint32Max` is the only list an erase refuses, and the batch avoids it
  have herasable : Erasable (insertRows encoder system.index.nextId input rows) (fun _ => 0) erased := by
    refine ⟨hperm.nodup_iff.mpr (nodup_generateRows hdone.fits), fun id hid => ?_⟩
    obtain ⟨l, o, row, hnew, hrow, hrowId⟩ :=
      (@mem_newIds _ _ encoder input system rows id).mp ((herased id).mp hid)
    refine ⟨l, o, row, hrow, hrowId, hlists l ?_, rfl⟩
    by_contra hnot
    rw [insertRows, batchRows_eq_nil hnot, List.append_nil] at hrow
    exact absurd hnew (Nat.not_le.mpr (List.getElem?_eq_some_iff.mp hrow).1)
  obtain ⟨hok, hgone⟩ | ⟨error, -, hthrows⟩ := eraseBatch_spec undo hstored erased
  swap
  · exact absurd herasable (hthrows hfaults hlocated).2
  -- swap-delete of a list's last rows moves nothing, so every list is as before
  have hrows := eraseRows_insertRows hstored hlocated herased fun l => (hgone.slots_ok l).1
  have hback := hgone.stored
  have hfound := hgone.located hlocated
  rw [hrows] at hback hfound
  rw [hperm.length_eq] at hok
  refine ⟨_, Prod.ext rfl hok, sameRows_of_stored hagrees.stored hback hagrees.located hfound ?_,
    hgone.nextId_eq, fun id hid => ?_⟩
  · rw [hgone.nextId_eq, hdone.nextId_eq]
    exact Nat.le_add_right _ _
  · obtain ⟨row, hrow, rfl⟩ := List.mem_map.mp hid
    obtain ⟨hold, hnew⟩ := generateRows_new hdone.fits hrow
    apply hfound.vacant
    · rw [hgone.nextId_eq, hdone.nextId_eq]
      exact hnew
    · intro l other hother heq
      obtain ⟨o, ho⟩ := List.mem_iff_getElem?.mp hother
      have := (hagrees.located.located l o other ho).1
      omega

/-- Three more rows for both lists of an index with four rows. -/
def threeBytes : List (InputRow twoLists UInt8) := [0x65, 0x76, 0x87].map byteRow

theorem insert_threeBytes : (insertBatch byteEncoder .quiet fourRows threeBytes).2 = .ok [5, 6, 7] := by
  decide +kernel

/-- They come and go. -/
theorem erase_undoes_insert_three :
    ∃ final, eraseBatch twoLists .quiet (insertBatch byteEncoder .quiet fourRows threeBytes).1
        [6, 5, 7] = (final, .ok 3) ∧
      SameRows twoLists fourRows final ∧ final.index.nextId = 8 ∧
      ∀ id ∈ [5, 6, 7], DirectoryLayout.entryAt final.storage.directory id =
        DiskLocation.tombstone := by
  have hinsert : insertBatch byteEncoder .quiet fourRows threeBytes =
      ((insertBatch byteEncoder .quiet fourRows threeBytes).1, .ok [5, 6, 7]) := by
    rw [← insert_threeBytes]
  obtain ⟨final, herase, hsame, hnextId, hgone⟩ := erase_undoes_insert byteEncoder
    (reachable_fourRows ⟨_, run_fiveBytes⟩ ⟨_, run_eraseFirst⟩) hinsert (by decide)
    (rfl : Environment.quiet.faults = IoFaults.none) (by decide : [6, 5, 7].Perm [5, 6, 7])
  have hmiddle : (insertBatch byteEncoder .quiet fourRows threeBytes).1.index.nextId = 8 := by
    decide +kernel
  exact ⟨final, herase, hsame, hnextId.trans hmiddle, hgone⟩

end Recast
