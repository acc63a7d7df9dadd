import Recast.Index.DeletionPlan

/-!
# Deletion keeps the index stored and located

What committing a prepared batch leaves, and the call as a whole: which batches
it accepts, and that one it refuses changes nothing.
-/

namespace Recast

open Foundation

variable {config : IndexConfig} {system system' : System} {rows : Rows config} {extra : Nat → Nat}
  {ids : List Nat} {prepared : List (PreparedDeletion config)}

/-- The rows after a deletion. -/
def eraseRows (system : System) (ids : List Nat) (rows : Rows config) : Rows config :=
  fun l => swapDelete (rows l) (deletedSlots (system.deletedAt ids l))

/-- The holes of a list are paired with its sources. -/
theorem Erases.zip_keys (herases : Erases system rows extra ids prepared) (l : Nat) :
    let slots := deletedSlots (system.deletedAt ids l)
    ((holes ((rows l).length - slots.length) slots).zip
      (sources (rows l).length ((rows l).length - slots.length) slots)).map Prod.fst =
        holes ((rows l).length - slots.length) slots := by
  obtain ⟨hnodup, hin⟩ := herases.slots_ok l
  exact List.map_fst_zip (Nat.le_of_eq (length_holes_eq_sources hnodup hin))

/-- A list with a deleted slot has a prepared deletion. -/
theorem Erases.deletion_of_slot (herases : Erases system rows extra ids prepared) {l offset : Nat}
    (h : offset ∈ deletedSlots (system.deletedAt ids l)) :
    ∃ deletion ∈ prepared, deletion.plan.listNo = l := by
  obtain ⟨⟨id, location⟩, hmem, -⟩ := mem_deletedSlots.mp h
  obtain ⟨hid, rfl, rfl⟩ := System.mem_deletedAt.mp hmem
  exact herases.exists_deletion hid

/-- A row that stays where it is is not updated. -/
theorem Erases.not_updated (herases : Erases system rows extra ids prepared)
    (hstored : Stored system rows extra) (hlocated : Located system rows) {l o : Nat}
    {row : Row config} (hrow : (rows l)[o]? = some row)
    (hslot : o ∉ deletedSlots (system.deletedAt ids l))
    (ho : o < (rows l).length - (deletedSlots (system.deletedAt ids l)).length) :
    row.id ∉ (eraseUpdates prepared).map Prod.fst := by
  intro hmem
  obtain ⟨deletion, hdeletion, offset, row', hrow', hrowId, hoffset⟩ := herases.row_of_key hmem
  obtain ⟨rfl, rfl⟩ := hlocated.slot_unique hstored hrow' hrow hrowId
  rcases hoffset with hdeleted | hsource
  · exact hslot hdeleted
  · rw [(herases.deletes deletion hdeletion).2.plan_eq] at hsource
    have := (mem_sources.mp hsource).1.1
    omega

/-- Once all updates are written, the surviving rows are located. -/
theorem Located.erase (hlocated : Located system rows) (hstored : Stored system rows extra)
    (herases : Erases system rows extra ids prepared) (hids : ids.Nodup)
    {updates : List DirectoryLayout.Update} (hupdates : updates.Perm (eraseUpdates prepared))
    {directory : Bytes}
    (hwritten : config.directory.Written system.storage.directory updates directory)
    {system' : System} (hnext : system'.index.nextId = system.index.nextId)
    (hdirectory : system'.storage.directory = directory) :
    Located system' (eraseRows system ids rows) := by
  have hupdated : ∀ id location, (id, location) ∈ eraseUpdates prepared →
      DirectoryLayout.entryAt directory id = location := fun id location hmem =>
    hwritten.stored ((hupdates.map Prod.fst).nodup_iff.mpr
      (herases.nodup_updates hstored hlocated hids)) (id, location) (hupdates.mem_iff.mpr hmem)
  have hcovered := hlocated.covered
  -- IDs without an update keep their entry
  have hkept : ∀ id < system.index.nextId, id ∉ (eraseUpdates prepared).map Prod.fst →
      DirectoryLayout.entryAt directory id =
        DirectoryLayout.entryAt system.storage.directory id := by
    intro id hid hnot
    rw [hwritten.kept id (by omega), applyUpdates_of_notMem]
    exact fun hmem => hnot ((hupdates.map Prod.fst).mem_iff.mp hmem)
  constructor
  · rw [hnext, hdirectory]
    exact Nat.le_trans hcovered hwritten.grows
  · intro l o row hrow
    obtain ⟨hnodup, hin⟩ := herases.slots_ok l
    have ho : o < (rows l).length - (deletedSlots (system.deletedAt ids l)).length := by
      have hlt := (List.getElem?_eq_some_iff.mp hrow).1
      rwa [eraseRows, length_swapDelete hnodup hin] at hlt
    rw [eraseRows, getElem?_swapDelete hnodup hin ho] at hrow
    have hkeys := herases.zip_keys l
    rw [hnext, hdirectory]
    rcases applyUpdates_cases id ((holes ((rows l).length -
        (deletedSlots (system.deletedAt ids l)).length) (deletedSlots (system.deletedAt ids l))).zip
        (sources (rows l).length ((rows l).length -
          (deletedSlots (system.deletedAt ids l)).length)
          (deletedSlots (system.deletedAt ids l)))) o with ⟨hnot, hsame⟩ | ⟨source, hpair, hmoved⟩
    · -- the row stays
      rw [hsame, id] at hrow
      obtain ⟨hid, hloc⟩ := hlocated.located l o row hrow
      rw [hkeys] at hnot
      have hslot : o ∉ deletedSlots (system.deletedAt ids l) := fun h =>
        hnot (mem_holes.mpr ⟨h, ho⟩)
      exact ⟨hid, by rw [hkept _ hid (herases.not_updated hstored hlocated hrow hslot ho), hloc]⟩
    · -- the row moves from a source into a hole
      rw [hmoved] at hrow
      obtain ⟨hid, -⟩ := hlocated.located l source row hrow
      obtain ⟨deletion, hdeletion, rfl⟩ :=
        herases.deletion_of_slot (mem_holes.mp (List.of_mem_zip hpair).1).1
      obtain ⟨-, hdeletes⟩ := herases.deletes deletion hdeletion
      have hmoves := hdeletes.moves_eq.1
      rw [hdeletes.plan_eq] at hmoves
      obtain ⟨move, hmove, heq⟩ := List.mem_map.mp (hmoves ▸ hpair)
      obtain ⟨rfl, rfl⟩ := Prod.mk.inj heq
      obtain ⟨-, row', hrow', hrowId⟩ := hdeletes.mem_moves hmove
      obtain rfl := Option.some.inj (hrow'.symm.trans hrow)
      exact ⟨hid, hupdated _ _ (mem_eraseUpdates.mpr
        ⟨deletion, hdeletion, Or.inr ⟨move, hmove, hrowId.symm, rfl⟩⟩)⟩
  · intro id hid hnone
    rw [hnext] at hid
    rw [hdirectory]
    by_cases hexists : ∃ (l o : Nat) (row : Row config), (rows l)[o]? = some row ∧ row.id = id
    · -- the row was deleted
      obtain ⟨l, o, row, hrow, rfl⟩ := hexists
      obtain ⟨hnodup, hin⟩ := herases.slots_ok l
      have hslot : o ∈ deletedSlots (system.deletedAt ids l) := by
        by_contra hslot
        exact hnone l row ((mem_swapDelete hnodup hin).mpr ⟨o, hslot, hrow⟩) rfl
      obtain ⟨⟨id', location⟩, hmem, hoffset⟩ := mem_deletedSlots.mp hslot
      obtain ⟨hid', rfl, rfl⟩ := System.mem_deletedAt.mp hmem
      obtain ⟨row', hrow', rfl⟩ := herases.row_of_id hid'
      dsimp only at hoffset
      rw [hoffset, hrow] at hrow'
      obtain rfl := Option.some.inj hrow'
      obtain ⟨deletion, hdeletion, hlist⟩ := herases.exists_deletion hid'
      exact hupdated _ _ (mem_eraseUpdates.mpr ⟨deletion, hdeletion,
        Or.inl ⟨(herases.mem_deletedIds hdeletion).mpr ⟨hid', hlist.symm⟩, rfl⟩⟩)
    · -- there was no such row
      have hold : ∀ l, ∀ row ∈ rows l, row.id ≠ id := fun l row hrow heq =>
        have ⟨o, ho⟩ := List.mem_iff_getElem?.mp hrow
        hexists ⟨l, o, row, ho, heq⟩
      rw [hkept id hid ?_, hlocated.vacant id hid hold]
      intro hmem
      obtain ⟨deletion, -, offset, row, hrow, hrowId, -⟩ := herases.row_of_key hmem
      exact hexists ⟨_, offset, row, hrow, hrowId⟩

/-! ### Committing -/

theorem swapDelete_nil {α : Type*} (xs : List α) : swapDelete xs [] = xs := by
  apply List.ext_getElem?
  intro i
  by_cases hi : i < xs.length
  · rw [getElem?_swapDelete List.nodup_nil (by simp) hi]
    rfl
  · have hlength := @length_swapDelete _ xs [] List.nodup_nil (by simp)
    rw [List.getElem?_eq_none (by rw [hlength]; exact Nat.not_lt.mp hi),
      List.getElem?_eq_none (Nat.not_lt.mp hi)]

/-- A list without deletions keeps its rows. -/
theorem Erases.eraseRows_eq (herases : Erases system rows extra ids prepared) {l : Nat}
    (hl : l ∉ prepared.map (·.plan.listNo)) : eraseRows system ids rows l = rows l := by
  have hnone : deletedSlots (system.deletedAt ids l) = [] :=
    List.eq_nil_iff_forall_not_mem.mpr fun offset hoffset =>
      have ⟨_, hdeletion, hlist⟩ := herases.deletion_of_slot hoffset
      hl (hlist ▸ List.mem_map_of_mem hdeletion)
  rw [eraseRows, hnone, swapDelete_nil]

/-- The record files after the commits. -/
def committed (config : IndexConfig) (faults : IoFaults) (team : Bool)
    (prepared : List (PreparedDeletion config)) (files : Nat → Option Bytes) :
    (Nat → Option Bytes) × Except Error Unit :=
  parallelFor team (fun deletion : PreparedDeletion config => deletion.plan.listNo)
    (fun deletion file => config.records.commitPreparedMutation faults deletion.plan.listNo
      deletion.recordMutation file) prepared files

theorem committed_holds (hstored : Stored system rows extra)
    (herases : Erases system rows extra ids prepared) {faults : IoFaults} {team : Bool}
    (hok : (committed config faults team prepared system.storage.records).2 = .ok ()) (l : Nat) :
    config.records.Holds
      (((committed config faults team prepared system.storage.records).1 l).getD [])
      ((eraseRows system ids rows l).map Row.record)
      (pageCount (eraseRows system ids rows l).length config.records.recordsPerPage + extra l) := by
  by_cases hl : l ∈ prepared.map (·.plan.listNo)
  · obtain ⟨deletion, hdeletion, rfl⟩ := List.mem_map.mp hl
    obtain ⟨hextra, hdeletes⟩ := herases.deletes deletion hdeletion
    obtain ⟨hstep, hdone⟩ := parallelFor_done herases.nodup hok hdeletion
    obtain ⟨bytes, pages, hfile, hread, hmutation⟩ := hdeletes.mutation
    rw [hfile, hmutation] at hstep hdone
    obtain ⟨bytes', hresult, hholds⟩ := commit_recordMutation faults deletion.plan.listNo
      hdeletes.nodup hdeletes.inside (hstored.holds_exact hextra hfile) hread hstep
    rw [committed, hdone, hresult, hextra]
    exact hholds
  · rw [committed, (parallelFor_ok herases.nodup (parallelFor_eq_ok herases.nodup hok)).2.2 l hl,
      herases.eraseRows_eq hl]
    exact hstored.records l

/-- Without injected faults the commits return. -/
theorem committed_none (hstored : Stored system rows extra)
    (herases : Erases system rows extra ids prepared) (team : Bool) :
    (committed config IoFaults.none team prepared system.storage.records).2 = .ok () := by
  refine (parallelFor_ok herases.nodup fun deletion hdeletion => ?_).1
  obtain ⟨hextra, hdeletes⟩ := herases.deletes deletion hdeletion
  obtain ⟨bytes, pages, hfile, hread, hmutation⟩ := hdeletes.mutation
  rw [hfile, hmutation]
  exact commit_recordMutation_none _ (hstored.holds_exact hextra hfile) hread

/-- The resident lists after the posting updates. -/
def rewritten (prepared : List (PreparedDeletion config)) (lists : Nat → MemoryList) :
    Nat → MemoryList :=
  prepared.foldl (fun lists deletion => Function.update lists deletion.plan.listNo
    ((lists deletion.plan.listNo).rewrite deletion.plan.newSize deletion.blocks)) lists

theorem rewritten_apply {lists : Nat → MemoryList}
    (hnodup : (prepared.map (·.plan.listNo)).Nodup) :
    (∀ deletion ∈ prepared, rewritten prepared lists deletion.plan.listNo =
        (lists deletion.plan.listNo).rewrite deletion.plan.newSize deletion.blocks) ∧
      ∀ l, l ∉ prepared.map (·.plan.listNo) → rewritten prepared lists l = lists l := by
  induction prepared generalizing lists with
  | nil => exact ⟨by simp, fun _ _ => rfl⟩
  | cons head rest ih =>
      rw [List.map_cons, List.nodup_cons] at hnodup
      obtain ⟨hall, hkept⟩ := @ih (Function.update lists head.plan.listNo
        ((lists head.plan.listNo).rewrite head.plan.newSize head.blocks)) hnodup.2
      refine ⟨fun deletion hdeletion => ?_, fun l hl => ?_⟩
      · rw [rewritten, List.foldl_cons, ← rewritten]
        rcases List.mem_cons.mp hdeletion with rfl | hrest
        · rw [hkept _ hnodup.1, Function.update_self]
        · have hne : deletion.plan.listNo ≠ head.plan.listNo := fun heq =>
            hnodup.1 (heq ▸ List.mem_map_of_mem hrest)
          rw [hall deletion hrest, Function.update_of_ne hne]
      · rw [List.map_cons, List.mem_cons, not_or] at hl
        rw [rewritten, List.foldl_cons, ← rewritten, hkept l hl.2, Function.update_of_ne hl.1]

theorem rewritten_holds (hstored : Stored system rows extra)
    (herases : Erases system rows extra ids prepared) (l : Nat) :
    ∃ blocks, MemoryList.Holds config.codes (rewritten prepared system.index.lists l)
      ((eraseRows system ids rows l).map Row.posting) blocks := by
  obtain ⟨hall, hkept⟩ := @rewritten_apply _ prepared system.index.lists herases.nodup
  by_cases hl : l ∈ prepared.map (·.plan.listNo)
  · obtain ⟨deletion, hdeletion, rfl⟩ := List.mem_map.mp hl
    rw [hall deletion hdeletion]
    exact (herases.deletes deletion hdeletion).2.blocks
  · rw [hkept l hl, herases.eraseRows_eq hl]
    exact hstored.postings l

/-- A deletion removes one slot for each ID. -/
theorem sum_deletedSlots (herases : Erases system rows extra ids prepared) :
    ∑ l ∈ Finset.range config.nlist, (deletedSlots (system.deletedAt ids l)).length =
      ids.length := by
  have hcount : ∀ l, (deletedSlots (system.deletedAt ids l)).length = (ids.map fun id =>
      (DirectoryLayout.entryAt system.storage.directory id).listNo.toNat).count l := by
    intro l
    rw [length_deletedSlots, System.deletedAt, ← List.countP_eq_length_filter, List.countP_map,
      List.count_eq_countP, List.countP_map]
    apply List.countP_congr
    intro id _
    simp
  rw [Finset.sum_congr rfl fun l _ => hcount l, sum_count_eq_length, List.length_map]
  intro l hl
  obtain ⟨id, hid, rfl⟩ := List.mem_map.mp hl
  exact (herases.occupied id hid).2.1

theorem sum_eraseRows (herases : Erases system rows extra ids prepared) :
    ∑ l ∈ Finset.range config.nlist, (eraseRows system ids rows l).length + ids.length =
      ∑ l ∈ Finset.range config.nlist, (rows l).length := by
  rw [← sum_deletedSlots herases, ← Finset.sum_add_distrib]
  apply Finset.sum_congr rfl
  intro l _
  obtain ⟨hnodup, hin⟩ := herases.slots_ok l
  have := length_deleted_le hnodup hin
  rw [eraseRows, length_swapDelete hnodup hin]
  omega

/-! ### The whole call -/

/-- What a deletion that returned has done. -/
structure EraseDone (system : System) (rows : Rows config) (extra : Nat → Nat) (ids : List Nat)
    (system' : System) : Prop where
  nodup : ids.Nodup
  slots_ok : ∀ l, (deletedSlots (system.deletedAt ids l)).Nodup ∧
    ∀ offset ∈ deletedSlots (system.deletedAt ids l), offset < (rows l).length
  row_of_id : ∀ id ∈ ids, ∃ row,
    (rows (DirectoryLayout.entryAt system.storage.directory id).listNo.toNat)[
      (DirectoryLayout.entryAt system.storage.directory id).offset.toNat]? = some row ∧ row.id = id
  extra_eq : ∀ id ∈ ids,
    extra (DirectoryLayout.entryAt system.storage.directory id).listNo.toNat = 0
  stored : Stored system' (eraseRows system ids rows) extra
  located : Located system rows → Located system' (eraseRows system ids rows)
  nextId_eq : system'.index.nextId = system.index.nextId
  generation_eq : system'.index.checkpointGeneration = system.index.checkpointGeneration

/-- What is left after a prepared batch is committed. -/
theorem Stored.eraseDone (hstored : Stored system rows extra)
    (herases : Erases system rows extra ids prepared) (hnodup : ids.Nodup) {faults : IoFaults}
    {team : Bool} {records : Nat → Option Bytes} {directory : Bytes}
    (hcommitted : committed config faults team prepared system.storage.records =
      (records, .ok ()))
    (hwritten : config.directory.writeBatch faults system.storage.directory
      (eraseUpdates prepared) = (directory, .ok ())) :
    EraseDone system rows extra ids
      ⟨{ system.index with
          lists := rewritten prepared system.index.lists
          activeCount := system.index.activeCount - ids.length }, ⟨records, directory⟩⟩ := by
  obtain ⟨done, rest, hperm, hdirectory, hall⟩ := DirectoryLayout.writeBatch_written faults
    hstored.aligned (eraseUpdates prepared)
  rw [hwritten] at hdirectory hall
  obtain rfl := hall rfl
  rw [List.append_nil] at hperm
  have hfiles := @committed_holds _ _ _ _ _ _ hstored herases faults team
  rw [hcommitted] at hfiles
  have hsum := sum_eraseRows herases
  rw [← hstored.active] at hsum
  refine ⟨hnodup, herases.slots_ok, fun id hid => herases.row_of_id hid, fun id hid => ?_,
    ⟨rewritten_holds hstored herases, hfiles rfl, hdirectory.aligned, fun l hl => ?_, ?_,
      hstored.nextId_le⟩,
    fun hlocated => hlocated.erase hstored herases hnodup hperm hdirectory rfl rfl, rfl, rfl⟩
  · obtain ⟨deletion, hdeletion, hlist⟩ := herases.exists_deletion hid
    rw [← hlist]
    exact (herases.deletes deletion hdeletion).1
  · refine hstored.outside l fun hnil => hl ?_
    obtain ⟨hslots, hin⟩ := herases.slots_ok l
    apply List.eq_nil_of_length_eq_zero
    rw [eraseRows, length_swapDelete hslots hin, hnil]
    exact Nat.zero_sub _
  · exact Nat.sub_eq_of_eq_add hsum.symm

/-- `erase_batch`: either the batch is deleted, or the call throws. Without
injected faults a located index is then unchanged, and the IDs were not all
erasable. -/
theorem eraseBatch_spec (env : Environment) (hstored : Stored system rows extra)
    (ids : List Nat) :
    ((eraseBatch config env system ids).2 = .ok ids.length ∧
      EraseDone system rows extra ids (eraseBatch config env system ids).1) ∨
    ∃ error, (eraseBatch config env system ids).2 = .error error ∧
      (env.faults = IoFaults.none → Located system rows →
        (eraseBatch config env system ids).1 = system ∧ ¬Erasable rows extra ids) := by
  unfold eraseBatch
  dsimp only
  split
  next hnil =>
    subst hnil
    have hnone : ∀ l, deletedSlots (system.deletedAt [] l) = [] := fun l => rfl
    have hrows : eraseRows system [] rows = rows := funext fun l => by
      rw [eraseRows, hnone, swapDelete_nil]
    refine Or.inl ⟨rfl, List.nodup_nil, fun l => ?_, by simp, by simp, by rw [hrows]; exact hstored,
      by rw [hrows]; exact id, rfl, rfl⟩
    rw [hnone]
    exact ⟨List.nodup_nil, by simp⟩
  next hne =>
  split
  next hfew =>
    exact Or.inr ⟨_, rfl, fun _ _ => ⟨rfl, fun herasable => Nat.not_le.mpr hfew
      (hstored.length_le_active herasable.nodup fun id hid =>
        have ⟨l, _, row, hrow, hrowId, _⟩ := herasable.held id hid
        ⟨l, row, List.mem_of_getElem? hrow, hrowId⟩)⟩⟩
  next =>
  split
  next hrepeated =>
    exact Or.inr ⟨_, rfl, fun _ _ => ⟨rfl, fun herasable => hrepeated herasable.nodup⟩⟩
  next hdistinct =>
  rw [not_not] at hdistinct
  cases hplan : planErase config env.faults system ids with
  | error error =>
      refine Or.inr ⟨error, rfl, fun hnone hlocated => ⟨rfl, fun herasable => ?_⟩⟩
      obtain ⟨prepared, hok⟩ := hstored.planErase_ok hlocated herasable
      rw [hnone, hok] at hplan
      cases hplan
  | ok prepared =>
  have herases := hstored.planErase_eq_ok hdistinct hplan
  dsimp only
  rw [← committed]
  rcases hcommitted : committed config env.faults (env.team .commitRecords) prepared
    system.storage.records with ⟨records, error | _⟩
  · refine Or.inr ⟨error, rfl, fun hnone _ => ?_⟩
    rw [hnone] at hcommitted
    have := committed_none hstored herases (env.team .commitRecords)
    rw [hcommitted] at this
    cases this
  dsimp only
  rcases hdirectory : config.directory.writeBatch env.faults system.storage.directory
    (eraseUpdates prepared) with ⟨directory, error | _⟩
  · refine Or.inr ⟨error, rfl, fun hnone hlocated => ?_⟩
    rw [hnone] at hdirectory
    -- every updated entry lies inside the directory
    have hinside : ∀ update ∈ eraseUpdates prepared,
        update.1 * 8 < system.storage.directory.length := by
      intro update hupdate
      obtain ⟨deletion, -, offset, row, hrow, hid, -⟩ :=
        herases.row_of_key (List.mem_map_of_mem hupdate)
      have hlt := (hlocated.located _ offset row hrow).1
      have := hlocated.covered
      omega
    have hoff := hstored.aligned.le_off
    rcases DirectoryLayout.writeBatch_none hstored.aligned
      (herases.nodup_updates hstored hlocated hdistinct)
      (fun update hupdate => by have := hinside update hupdate; omega) with hok | ⟨hbeyond, -⟩
    · rw [hdirectory] at hok
      cases hok
    · obtain ⟨update, hupdate, hlarge⟩ := hbeyond
      have := hinside update hupdate
      omega
  exact Or.inl ⟨rfl, hstored.eraseDone herases hdistinct hcommitted hdirectory⟩

/-- Without injected faults erasable IDs are erased. -/
theorem eraseBatch_ok {env : Environment} (hfaults : env.faults = IoFaults.none)
    (hstored : Stored system rows extra) (hlocated : Located system rows)
    (herasable : Erasable rows extra ids) :
    (eraseBatch config env system ids).2 = .ok ids.length := by
  rcases eraseBatch_spec env hstored ids with ⟨hok, -⟩ | ⟨error, -, hrefused⟩
  · exact hok
  · exact absurd herasable (hrefused hfaults hlocated).2

/-- A slot is deleted when the ID of its row is. -/
theorem EraseDone.mem_slots (hdone : EraseDone system rows extra ids system')
    (hstored : Stored system rows extra) (hlocated : Located system rows) {l o : Nat}
    {row : Row config} (hrow : (rows l)[o]? = some row) :
    o ∈ deletedSlots (system.deletedAt ids l) ↔ row.id ∈ ids := by
  have hloc := (hlocated.located l o row hrow).2
  have heq := hstored.location_eq hrow
  rw [← hloc] at heq
  constructor
  · intro hslot
    obtain ⟨⟨id, location⟩, hmem, hoffset⟩ := mem_deletedSlots.mp hslot
    obtain ⟨hid, rfl, rfl⟩ := System.mem_deletedAt.mp hmem
    obtain ⟨row', hrow', rfl⟩ := hdone.row_of_id id hid
    dsimp only at hoffset
    rw [hoffset, hrow] at hrow'
    rwa [Option.some.inj hrow']
  · intro hid
    rw [← heq.2]
    exact System.mem_deletedSlots hid heq.1

/-- A deletion takes away the rows with a deleted ID and no others. -/
theorem EraseDone.mem_iff (hdone : EraseDone system rows extra ids system')
    (hstored : Stored system rows extra) (hlocated : Located system rows) {l : Nat}
    {row : Row config} : row ∈ eraseRows system ids rows l ↔ row ∈ rows l ∧ row.id ∉ ids := by
  obtain ⟨hnodup, hin⟩ := hdone.slots_ok l
  have hslot : ∀ o, (rows l)[o]? = some row →
      (o ∈ deletedSlots (system.deletedAt ids l) ↔ row.id ∈ ids) :=
    fun o hrow => hdone.mem_slots hstored hlocated hrow
  rw [eraseRows, mem_swapDelete hnodup hin, List.mem_iff_getElem?]
  constructor
  · rintro ⟨o, hnot, hrow⟩
    exact ⟨⟨o, hrow⟩, fun hid => hnot ((hslot o hrow).mpr hid)⟩
  · rintro ⟨⟨o, hrow⟩, hid⟩
    exact ⟨o, fun hmem => hid ((hslot o hrow).mp hmem), hrow⟩

end Recast
