import Recast.Storage.DirectoryMap
import Recast.Index.InsertionRoom
import Recast.Index.CountedRuns

/-!
# Batches and their splits

An insertion that returned has made of the index what the old index and the new rows
determine, down to the bytes of the files. The rows of two batches after one another are
those of one batch, so that a batch leaves what its parts leave, one after the other.
-/

namespace Recast

open Foundation

variable {config : IndexConfig} {Vector : Type*}

/-- `insert_batch` on some batches, one after the other. -/
def insertBatches (encoder : Encoder config Vector) (env : Environment) :
    System → List (List (InputRow config Vector)) → System × Except Error (List Nat)
  | system, [] => (system, .ok [])
  | system, input :: rest =>
      match insertBatch encoder env system input with
      | (system, .error error) => (system, .error error)
      | (system, .ok ids) =>
          match insertBatches encoder env system rest with
          | (system, .error error) => (system, .error error)
          | (system, .ok later) => (system, .ok (ids ++ later))

/-! ### The rows of two batches -/

section Rows

variable {encoder : Encoder config Vector} {first second : List (InputRow config Vector)}

theorem batchRows_eq_filter {assignments : List Nat} {rows : List (Row config)}
    (hlength : assignments.length = rows.length) (l : Nat) :
    batchRows assignments rows l =
      ((assignments.zip rows).filter fun row => row.1 = l).map Prod.snd := by
  have hfirst : (assignments.zip rows).map Prod.fst = assignments := List.map_fst_zip hlength.le
  have hsecond : (assignments.zip rows).map Prod.snd = rows := List.map_snd_zip hlength.ge
  rw [← select_positionsOf Prod.fst l, hfirst, ← select_map, hsecond, batchRows]

theorem batchRows_append {assignments assignments' : List Nat} {rows rows' : List (Row config)}
    (h : assignments.length = rows.length) (h' : assignments'.length = rows'.length) (l : Nat) :
    batchRows (assignments ++ assignments') (rows ++ rows') l =
      batchRows assignments rows l ++ batchRows assignments' rows' l := by
  rw [batchRows_eq_filter (by simp [h, h']), batchRows_eq_filter h, batchRows_eq_filter h',
    List.zip_append h, List.filter_append, List.map_append]

theorem assignmentsOf_append : assignmentsOf encoder (first ++ second) =
    assignmentsOf encoder first ++ assignmentsOf encoder second := List.map_append

theorem generateRows_append (nextId : Nat) : generateRows encoder nextId (first ++ second) =
    generateRows encoder nextId first ++ generateRows encoder (nextId + first.length) second := by
  rw [generateRows, List.mapIdx_append, generateRows, generateRows]
  simp only [Nat.add_assoc, Nat.add_comm first.length]

/-- One insertion after another adds the rows of both. -/
theorem insertRows_append (nextId : Nat) (rows : Rows config) :
    insertRows encoder nextId (first ++ second) rows =
      insertRows encoder (nextId + first.length) second (insertRows encoder nextId first rows) := by
  funext l
  rw [insertRows, insertRows, insertRows, assignmentsOf_append, generateRows_append,
    batchRows_append (by simp) (by simp), List.append_assoc]

end Rows

/-! ### What an insertion leaves -/

/-- The entries an insertion gives to the directory: the new IDs, with their slots. -/
def NewEntry (before after : Rows config) (update : DirectoryLayout.Update) : Prop :=
  ∃ (l o : Nat) (row : Row config), (before l).length ≤ o ∧ (after l)[o]? = some row ∧
    update = (row.id, DiskLocation.ofSlot l o)

/-- The index and the files after an insertion that returned. -/
structure Inserted (encoder : Encoder config Vector) (input : List (InputRow config Vector))
    (system : System) (rows : Rows config) (system' : System) : Prop where
  lists : ∀ l ∈ assignmentsOf encoder input, MemoryList.Holds config.codes (system'.index.lists l)
    ((insertRows encoder system.index.nextId input rows l).map Row.posting)
    (roundUpBlock (insertRows encoder system.index.nextId input rows l).length / 32)
  otherLists : ∀ l, l ∉ assignmentsOf encoder input →
    system'.index.lists l = system.index.lists l
  files : ∀ l ∈ assignmentsOf encoder input, ∃ bytes, system'.storage.records l = some bytes ∧
    config.records.Appended (rows l).length ((batchRows (assignmentsOf encoder input)
      (generateRows encoder system.index.nextId input) l).map Row.record)
      ((system.storage.records l).getD []) bytes
  otherFiles : ∀ l, l ∉ assignmentsOf encoder input →
    system'.storage.records l = system.storage.records l
  directory : ∃ updates : List DirectoryLayout.Update, (updates.map Prod.fst).Nodup ∧
    (∀ update, update ∈ updates ↔
      NewEntry rows (insertRows encoder system.index.nextId input rows) update) ∧
    config.directory.Grown system.storage.directory updates system'.storage.directory
  nextId_eq : system'.index.nextId = system.index.nextId + input.length
  active_eq : system'.index.activeCount = system.index.activeCount + input.length
  generation_eq : system'.index.checkpointGeneration = system.index.checkpointGeneration

section Inserted

variable {encoder : Encoder config Vector} {input first second : List (InputRow config Vector)}
  {system middle system' system'' : System} {rows : Rows config} {extra : Nat → Nat}

/-- The rows determine what an insertion leaves. -/
theorem Inserted.unique (h : Inserted encoder input system rows system')
    (h' : Inserted encoder input system rows system'') : system' = system'' := by
  have hlists : system'.index.lists = system''.index.lists := by
    funext l
    by_cases hl : l ∈ assignmentsOf encoder input
    · exact (h.lists l hl).unique (h'.lists l hl)
    · rw [h.otherLists l hl, h'.otherLists l hl]
  have hrecords : system'.storage.records = system''.storage.records := by
    funext l
    by_cases hl : l ∈ assignmentsOf encoder input
    · obtain ⟨bytes, hbytes, happended⟩ := h.files l hl
      obtain ⟨bytes', hbytes', happended'⟩ := h'.files l hl
      rw [hbytes, hbytes', happended.unique happended']
    · rw [h.otherFiles l hl, h'.otherFiles l hl]
  have hdirectory : system'.storage.directory = system''.storage.directory := by
    obtain ⟨updates, hnodup, hmem, hgrown⟩ := h.directory
    obtain ⟨updates', hnodup', hmem', hgrown'⟩ := h'.directory
    have hperm : updates.Perm updates' := (List.perm_ext_iff_of_nodup (hnodup.of_map _)
      (hnodup'.of_map _)).mpr fun update => (hmem update).trans (hmem' update).symm
    exact hgrown.unique hgrown' hperm hnodup
  obtain ⟨⟨lists, nextId, activeCount, generation⟩, ⟨records, directory⟩⟩ := system'
  obtain ⟨⟨lists', nextId', activeCount', generation'⟩, ⟨records', directory'⟩⟩ := system''
  have hnextId := h.nextId_eq.trans h'.nextId_eq.symm
  have hactive := h.active_eq.trans h'.active_eq.symm
  have hgeneration := h.generation_eq.trans h'.generation_eq.symm
  dsimp only at hlists hrecords hdirectory hnextId hactive hgeneration
  rw [hlists, hrecords, hdirectory, hnextId, hactive, hgeneration]

/-- An entry of two batches is one of the first or of the second. -/
theorem newEntry_append (before added later : Rows config) (update : DirectoryLayout.Update) :
    NewEntry before (fun l => before l ++ added l ++ later l) update ↔
      NewEntry before (fun l => before l ++ added l) update ∨
      NewEntry (fun l => before l ++ added l) (fun l => before l ++ added l ++ later l) update := by
  constructor
  · rintro ⟨l, o, row, hnew, hrow, rfl⟩
    by_cases ho : o < (before l ++ added l).length
    · rw [List.getElem?_append_left ho] at hrow
      exact .inl ⟨l, o, row, hnew, hrow, rfl⟩
    · exact .inr ⟨l, o, row, Nat.not_lt.mp ho, hrow, rfl⟩
  · rintro (⟨l, o, row, hnew, hrow, rfl⟩ | ⟨l, o, row, hnew, hrow, rfl⟩)
    · refine ⟨l, o, row, hnew, ?_, rfl⟩
      rwa [List.getElem?_append_left (List.getElem?_eq_some_iff.mp hrow).1]
    · refine ⟨l, o, row, ?_, hrow, rfl⟩
      rw [List.length_append] at hnew
      omega

/-- The new entries of an insertion are those of its new IDs. -/
theorem NewEntry.id_of_insert (hfits : system.index.nextId + input.length ≤ uint32Max)
    {update : DirectoryLayout.Update}
    (h : NewEntry rows (insertRows encoder system.index.nextId input rows) update) :
    system.index.nextId ≤ update.1 ∧ update.1 < system.index.nextId + input.length := by
  obtain ⟨l, o, row, hnew, hrow, rfl⟩ := h
  rw [insertRows, List.getElem?_append_right hnew] at hrow
  obtain ⟨p, -, hp⟩ := mem_batchRows.mp (List.mem_of_getElem? hrow)
  exact generateRows_new hfits (List.mem_of_getElem? hp)

/-- Two insertions in a row leave what one insertion of both batches leaves. -/
theorem Inserted.append (hfirst : Inserted encoder first system rows middle)
    (hsecond : Inserted encoder second middle
      (insertRows encoder system.index.nextId first rows) system')
    (haligned : config.directory.Aligned system.storage.directory)
    (hfits : system.index.nextId + (first ++ second).length ≤ uint32Max) :
    Inserted encoder (first ++ second) system rows system' := by
  have hnext := hfirst.nextId_eq
  rw [List.length_append] at hfits
  have hrows := @insertRows_append _ _ encoder first second system.index.nextId rows
  rw [← hnext] at hrows
  constructor
  · intro l hl
    rw [assignmentsOf_append, List.mem_append] at hl
    rw [hrows]
    by_cases hlater : l ∈ assignmentsOf encoder second
    · exact hsecond.lists l hlater
    · have hkept : insertRows encoder middle.index.nextId second
          (insertRows encoder system.index.nextId first rows) l =
            insertRows encoder system.index.nextId first rows l := by
        rw [insertRows, batchRows_eq_nil hlater, List.append_nil]
      rw [hsecond.otherLists l hlater, hkept]
      exact hfirst.lists l (hl.resolve_right hlater)
  · intro l hl
    rw [assignmentsOf_append, List.mem_append, not_or] at hl
    rw [hsecond.otherLists l hl.2, hfirst.otherLists l hl.1]
  · intro l hl
    rw [assignmentsOf_append, List.mem_append] at hl
    rw [assignmentsOf_append, generateRows_append, ← hnext, batchRows_append (by simp) (by simp),
      List.map_append]
    by_cases hearlier : l ∈ assignmentsOf encoder first
    · obtain ⟨bytes, hbytes, happended⟩ := hfirst.files l hearlier
      by_cases hlater : l ∈ assignmentsOf encoder second
      · obtain ⟨bytes', hbytes', happended'⟩ := hsecond.files l hlater
        rw [hbytes, insertRows, List.length_append] at happended'
        refine ⟨bytes', hbytes', happended.append ?_⟩
        rwa [List.length_map]
      · rw [batchRows_eq_nil hlater, List.map_nil, List.append_nil, hsecond.otherFiles l hlater]
        exact ⟨bytes, hbytes, happended⟩
    · obtain ⟨bytes, hbytes, happended⟩ := hsecond.files l (hl.resolve_left hearlier)
      rw [hfirst.otherFiles l hearlier, insertRows, batchRows_eq_nil hearlier,
        List.append_nil] at happended
      rw [batchRows_eq_nil hearlier, List.map_nil, List.nil_append]
      exact ⟨bytes, hbytes, happended⟩
  · intro l hl
    rw [assignmentsOf_append, List.mem_append, not_or] at hl
    rw [hsecond.otherFiles l hl.2, hfirst.otherFiles l hl.1]
  · obtain ⟨updates, hnodup, hmem, hgrown⟩ := hfirst.directory
    obtain ⟨later, hnodup', hmem', hgrown'⟩ := hsecond.directory
    -- the first batch has the smaller IDs
    have hless : ∀ update ∈ updates, ∀ update' ∈ later, update.1 < update'.1 := by
      intro update hupdate update' hupdate'
      have hlow := ((hmem update).mp hupdate).id_of_insert (by omega)
      have hhigh := ((hmem' update').mp hupdate').id_of_insert (by omega)
      omega
    refine ⟨updates ++ later, ?_, fun update => ?_, ?_⟩
    · rw [List.map_append, List.nodup_append]
      refine ⟨hnodup, hnodup', ?_⟩
      rintro id hid id' hid' rfl
      obtain ⟨update, hupdate, rfl⟩ := List.mem_map.mp hid
      obtain ⟨update', hupdate', heq⟩ := List.mem_map.mp hid'
      exact absurd heq (hless update hupdate update' hupdate').ne'
    · rw [List.mem_append, hmem, hmem', hrows]
      exact (newEntry_append rows _ _ update).symm
    · exact hgrown.trans hgrown' haligned fun update hupdate update' hupdate' =>
        Nat.div_le_div_right (hless update hupdate update' hupdate').le
  · rw [hsecond.nextId_eq, hnext, List.length_append, Nat.add_assoc]
  · rw [hsecond.active_eq, hfirst.active_eq, List.length_append, Nat.add_assoc]
  · exact hsecond.generation_eq.trans hfirst.generation_eq

end Inserted

/-! ### Insertions that return -/

section Returns

variable {encoder : Encoder config Vector} {input first second : List (InputRow config Vector)}
  {system middle system' : System} {rows : Rows config} {extra : Nat → Nat} {env : Environment}
  {ids : List Nat}

/-- What an insertion that returned has checked. -/
structure Accepted (encoder : Encoder config Vector) (input : List (InputRow config Vector))
    (system : System) (rows : Rows config) : Prop where
  fits : system.index.nextId + input.length ≤ uint32Max
  active : system.index.activeCount + input.length ≤ sizeMax
  codes : input.length * config.codes.codeSize ≤ sizeMax
  payload : input.length * config.records.payloadBytes ≤ sizeMax
  valid : ∀ l ∈ assignmentsOf encoder input, l < config.nlist
  reserve : ∀ l ∈ assignmentsOf encoder input, MemoryList.CanReserve config.codes
    (rows l).length ((assignmentsOf encoder input).count l)
  files : ∀ l ∈ assignmentsOf encoder input,
    pageCount ((rows l).length + (assignmentsOf encoder input).count l)
      config.records.recordsPerPage * config.records.pageSize ≤ offMax
  directory : ∀ id < system.index.nextId + input.length,
    config.directory.pageOf id * config.directory.pageSize + config.directory.pageSize ≤ offMax

section Phases

variable {plan : ListBatchPlan} {lists lists' : Nat → MemoryList} {records : Nat → Option Bytes}
  {faults : IoFaults} {team : Bool}

theorem Planned.length_segment (hplanned : Planned encoder system.index input plan) {l : Nat}
    (hl : l ∈ plan.touchedLists) :
    (segmentRows plan (generateRows encoder system.index.nextId input) l).length =
      (assignmentsOf encoder input).count l := by
  rw [hplanned.segment l hl, length_batchRows (by simp)]

/-- A loop over the touched lists leaves the others alone. -/
theorem Planned.untouched (hplanned : Planned encoder system.index input plan) {α : Type*}
    {step : Nat → α → α × Except Error Unit} {before after : Nat → α}
    (h : parallelFor team id step plan.touchedLists before = (after, .ok ())) {l : Nat}
    (hl : l ∉ plan.touchedLists) : after l = before l := by
  have hkept := @parallelFor_of_notMem _ team plan.touchedLists step before hplanned.nodup l hl
  rwa [h] at hkept

/-- The reservations that returned were in range, and fit the new rows exactly. -/
theorem Planned.reserved (hplanned : Planned encoder system.index input plan)
    (hstored : Stored system rows extra)
    (h : parallelFor team id (fun listNo list => list.reserve config.codes
      (segmentRows plan (generateRows encoder system.index.nextId input) listNo).length)
      plan.touchedLists system.index.lists = (lists, .ok ())) :
    (∀ l ∈ plan.touchedLists, MemoryList.CanReserve config.codes (rows l).length
        ((assignmentsOf encoder input).count l) ∧
      MemoryList.Holds config.codes (lists l) ((rows l).map Row.posting)
        (roundUpBlock ((rows l).length + (assignmentsOf encoder input).count l) / 32)) ∧
    (∀ l, (lists l).logicalSize = (rows l).length) ∧
    ∀ l, l ∉ plan.touchedLists → lists l = system.index.lists l := by
  have hmap : (plan.touchedLists.map id).Nodup := by
    rw [List.map_id]
    exact hplanned.nodup
  have htouched : ∀ l ∈ plan.touchedLists, MemoryList.CanReserve config.codes (rows l).length
      ((assignmentsOf encoder input).count l) ∧ MemoryList.Holds config.codes (lists l)
        ((rows l).map Row.posting)
        (roundUpBlock ((rows l).length + (assignmentsOf encoder input).count l) / 32) := by
    intro l hl
    obtain ⟨blocks, hholds⟩ := hstored.postings l
    have hold := hstored.length_le l
    have hnew := @List.count_le_length _ _ l (assignmentsOf encoder input)
    have hfits := hplanned.fits
    rw [length_assignmentsOf] at hnew
    have hlist := hholds.reserve ((assignmentsOf encoder input).count l) (by
      rw [List.length_map]
      unfold uint32Max at hold hfits
      unfold sizeMax
      omega)
    obtain ⟨hok, hdone⟩ := parallelFor_done hmap (congrArg Prod.snd h) hl
    rw [h] at hdone
    rw [id, hplanned.length_segment hl] at hok hdone
    rw [List.length_map] at hlist
    split at hlist
    next hcan =>
      refine ⟨hcan, ?_⟩
      dsimp only at hdone
      rw [hdone]
      exact hlist.2
    next =>
      rw [hlist] at hok
      cases hok
  have hkept := fun l (hl : l ∉ plan.touchedLists) => hplanned.untouched h hl
  refine ⟨htouched, fun l => ?_, hkept⟩
  by_cases hl : l ∈ plan.touchedLists
  · rw [(htouched l hl).2.size, List.length_map]
  · rw [hkept l hl, hstored.size_eq]

/-- The appends that returned leave addressable files of the old and the new rows. -/
theorem Planned.appended (hplanned : Planned encoder system.index input plan)
    (hsize : ∀ l, (lists l).logicalSize = (rows l).length)
    (h : parallelFor team id (fun listNo file => config.records.appendRecords faults listNo
      (lists listNo).logicalSize ((segmentRows plan
        (generateRows encoder system.index.nextId input) listNo).map Row.record) file)
      plan.touchedLists system.storage.records = (records, .ok ())) {l : Nat}
    (hl : l ∈ plan.touchedLists) :
    pageCount ((rows l).length + (assignmentsOf encoder input).count l)
        config.records.recordsPerPage * config.records.pageSize ≤ offMax ∧
      ∃ bytes, records l = some bytes ∧ config.records.Appended (rows l).length
        ((batchRows (assignmentsOf encoder input)
          (generateRows encoder system.index.nextId input) l).map Row.record)
        ((system.storage.records l).getD []) bytes := by
  have hmap : (plan.touchedLists.map id).Nodup := by
    rw [List.map_id]
    exact hplanned.nodup
  obtain ⟨hok, hdone⟩ := parallelFor_done hmap (congrArg Prod.snd h) hl
  rw [h] at hdone
  rw [id, hsize] at hok hdone
  have hrows : (segmentRows plan (generateRows encoder system.index.nextId input) l).map
      Row.record ≠ [] := by
    rw [hplanned.segment l hl, ne_eq, List.map_eq_nil_iff]
    exact batchRows_ne_nil (by simp) ((hplanned.mem_touched l).mp hl)
  obtain ⟨-, -, -, hoff, bytes, hbytes, happended⟩ := RecordLayout.appendRecords_eq_ok hrows hok
  rw [List.length_map, hplanned.length_segment hl] at hoff
  rw [hplanned.segment l hl] at happended
  exact ⟨hoff, bytes, hdone.trans hbytes, happended⟩

/-- The directory is given the new entries, and no others. -/
theorem Planned.newEntries (hplanned : Planned encoder system.index input plan)
    (hsize : ∀ l, (lists l).logicalSize = (rows l).length) (update : DirectoryLayout.Update) :
    update ∈ insertUpdates plan (generateRows encoder system.index.nextId input) lists ↔
      NewEntry rows (insertRows encoder system.index.nextId input rows) update := by
  rw [mem_insertUpdates]
  constructor
  · rintro ⟨l, hl, k, row, hrow, rfl⟩
    rw [hplanned.segment l hl] at hrow
    refine ⟨l, (rows l).length + k, row, Nat.le_add_right _ _, ?_, by rw [hsize]⟩
    rw [insertRows, List.getElem?_append_right (Nat.le_add_right _ _), Nat.add_sub_cancel_left]
    exact hrow
  · rintro ⟨l, o, row, hnew, hrow, rfl⟩
    rw [insertRows, List.getElem?_append_right hnew] at hrow
    have hl : l ∈ assignmentsOf encoder input := by
      by_contra hnot
      rw [batchRows_eq_nil hnot] at hrow
      cases hrow
    have htouched := (hplanned.mem_touched l).mpr hl
    refine ⟨l, htouched, o - (rows l).length, row, ?_, ?_⟩
    · rwa [hplanned.segment l htouched]
    · rw [hsize, Nat.add_sub_cancel' hnew]

/-- The posting updates fill the reserved lanes. -/
theorem Planned.published (hplanned : Planned encoder system.index input plan)
    (hfits : ∀ l ∈ plan.touchedLists,
      (rows l).length + (assignmentsOf encoder input).count l ≤ uint32Max)
    (hreserved : ∀ l ∈ plan.touchedLists,
      MemoryList.Holds config.codes (lists l) ((rows l).map Row.posting)
        (roundUpBlock ((rows l).length + (assignmentsOf encoder input).count l) / 32))
    (h : parallelFor false id (fun listNo (list : MemoryList) => list.append ((segmentRows plan
      (generateRows encoder system.index.nextId input) listNo).map Row.posting)) plan.touchedLists
      lists = (lists', .ok ())) {l : Nat} (hl : l ∈ plan.touchedLists) :
    MemoryList.Holds config.codes (lists' l)
      ((insertRows encoder system.index.nextId input rows l).map Row.posting)
      (roundUpBlock (insertRows encoder system.index.nextId input rows l).length / 32) := by
  have hmap : (plan.touchedLists.map id).Nodup := by
    rw [List.map_id]
    exact hplanned.nodup
  obtain ⟨-, hdone⟩ := parallelFor_done hmap (congrArg Prod.snd h) hl
  rw [h] at hdone
  have hblocks := roundUpBlock_blocks ((rows l).length + (assignmentsOf encoder input).count l)
  have hround := le_roundUpBlock ((rows l).length + (assignmentsOf encoder input).count l)
  have hadded := hplanned.length_segment hl
  have hsize := hfits l hl
  have hlast := (@MemoryList.Holds.append _ _ _ _ (hreserved l hl) ((segmentRows plan
    (generateRows encoder system.index.nextId input) l).map Row.posting)
    (by simp only [List.length_map]; omega) (by simp only [List.length_map]; omega)).2
  rw [insertRows, List.length_append, length_batchRows (by simp), List.map_append,
    ← hplanned.segment l hl]
  dsimp only [id] at hdone
  rw [hdone]
  exact hlast

end Phases

/-- The last new ID is on a page of the directory, so every ID below it is. -/
theorem Accepted.page_end {plan : ListBatchPlan} {lists : Nat → MemoryList} {directory : Bytes}
    (hplanned : Planned encoder system.index input plan) (hne : input ≠ [])
    (hgrown : config.directory.Grown system.storage.directory
      (insertUpdates plan (generateRows encoder system.index.nextId input) lists) directory) {id : Nat}
    (hid : id < system.index.nextId + input.length) :
    config.directory.pageOf id * config.directory.pageSize + config.directory.pageSize ≤ offMax := by
  have hpos := List.length_pos_of_ne_nil hne
  obtain ⟨update, hupdate, hlast⟩ := List.mem_map.mp ((@mem_keys_insertUpdates _ _ _ _ _ plan lists
    hplanned (system.index.nextId + input.length - 1)).mpr ⟨by omega, by omega⟩)
  have hreaches : config.directory.Reaches
      (insertUpdates plan (generateRows encoder system.index.nextId input) lists)
      (config.directory.pageOf id) := by
    refine ⟨update, hupdate, Nat.div_le_div_right ?_⟩
    omega
  have hpage := hgrown.aligned.page_le ((hgrown.page_lt _).mpr (.inr hreaches))
  exact hpage.trans hgrown.aligned.le_off

/-- An insertion that returned has checked its sizes and made of the index what the rows
determine. -/
theorem insertBatch_inserted (hstored : Stored system rows extra)
    (h : insertBatch encoder env system input = (system', .ok ids)) :
    Inserted encoder input system rows system' ∧ (input ≠ [] → Accepted encoder input system rows) ∧
      ids = (generateRows encoder system.index.nextId input).map Row.id := by
  by_cases hne : input = []
  · subst hne
    rw [insertBatch, if_pos rfl] at h
    cases h
    have hrows : insertRows encoder system.index.nextId [] rows = rows :=
      funext fun l => List.append_nil _
    refine ⟨⟨fun l hl => absurd hl List.not_mem_nil, fun _ _ => rfl,
      fun l hl => absurd hl List.not_mem_nil, fun _ _ => rfl, ⟨[], List.nodup_nil, fun update => ?_,
      DirectoryLayout.grown_nil hstored.aligned⟩, rfl, rfl, rfl⟩, fun h => absurd rfl h, rfl⟩
    refine ⟨fun hmem => absurd hmem List.not_mem_nil, ?_⟩
    rintro ⟨l, o, row, hnew, hrow, -⟩
    rw [hrows] at hrow
    exact absurd hnew (Nat.not_le.mpr (List.getElem?_eq_some_iff.mp hrow).1)
  obtain ⟨plan, lists, records, directory, published, hplan, hreserve, happend, hwrite, hpublish,
    rfl, rfl⟩ := insertBatch_eq_ok hne h
  have hplanned := planned_of_eq_ok hplan
  obtain ⟨hreserved, hsize, hkept⟩ := hplanned.reserved hstored hreserve
  have hlists := fun l (hl : l ∈ plan.touchedLists) => hplanned.published
    (fun l hl => (hreserved l hl).1.1) (fun l hl => (hreserved l hl).2) hpublish hl
  have hfiles := fun l (hl : l ∈ plan.touchedLists) => hplanned.appended hsize happend hl
  obtain ⟨hkeys, hgrown⟩ := DirectoryLayout.writeBatch_grown hstored.aligned
    (congrArg Prod.snd hwrite)
  rw [hwrite] at hgrown
  refine ⟨⟨fun l hl => hlists l ((hplanned.mem_touched l).mpr hl), fun l hl => ?_,
    fun l hl => (hfiles l ((hplanned.mem_touched l).mpr hl)).2, fun l hl => ?_,
    ⟨_, hkeys, hplanned.newEntries hsize, hgrown⟩, rfl, rfl, rfl⟩, fun _ => ?_, rfl⟩
  · have hnot := mt (hplanned.mem_touched l).mp hl
    exact (hplanned.untouched hpublish hnot).trans (hkept l hnot)
  · exact hplanned.untouched happend (mt (hplanned.mem_touched l).mp hl)
  · simp only [planInsert, guard_eq_ok, bind_eq_ok, pure_eq_ok, Except.ok.injEq, not_or,
      Nat.not_lt] at hplan
    obtain ⟨-, hactive, hcodes, -, -, hpayload, -⟩ := hplan
    exact ⟨hplanned.fits, hactive, hcodes, hpayload, hplanned.valid,
      fun l hl => (hreserved l ((hplanned.mem_touched l).mpr hl)).1,
      fun l hl => (hfiles l ((hplanned.mem_touched l).mpr hl)).1,
      fun _ => Accepted.page_end hplanned hne hgrown⟩

/-- A batch in range returns when no call fails. -/
theorem Accepted.returns (h : Accepted encoder input system rows) (hstored : Stored system rows extra)
    (hfaults : env.faults = IoFaults.none) : ∃ system', insertBatch encoder env system input =
      (system', .ok ((generateRows encoder system.index.nextId input).map Row.id)) :=
  ⟨_, Prod.ext rfl (insertBatch_ok hfaults hstored
    (planInsert_ok h.fits h.active h.codes h.payload h.valid) h.reserve h.files h.directory)⟩

/-- The first part of a batch in range is in range. -/
theorem Accepted.left (h : Accepted encoder (first ++ second) system rows) :
    Accepted encoder first system rows := by
  obtain ⟨hfits, hactive, hcodes, hpayload, hvalid, hreserve, hfiles, hdirectory⟩ := h
  rw [List.length_append] at hfits hactive hcodes hpayload hdirectory
  rw [assignmentsOf_append] at hvalid hreserve hfiles
  have hpos := config.records.recordsPerPage_pos
  have hmem : ∀ l ∈ assignmentsOf encoder first,
      l ∈ assignmentsOf encoder first ++ assignmentsOf encoder second :=
    fun l hl => List.mem_append_left _ hl
  have hcount : ∀ l, (assignmentsOf encoder first).count l ≤
      (assignmentsOf encoder first ++ assignmentsOf encoder second).count l := fun l => by
    rw [List.count_append]
    exact Nat.le_add_right _ _
  refine ⟨by omega, by omega, (Nat.mul_le_mul_right _ (Nat.le_add_right _ _)).trans hcodes,
    (Nat.mul_le_mul_right _ (Nat.le_add_right _ _)).trans hpayload,
    fun l hl => hvalid l (hmem l hl), fun l hl => ?_, fun l hl => ?_,
    fun id hid => hdirectory id (by omega)⟩
  · obtain ⟨hlength, hsize⟩ := hreserve l (hmem l hl)
    exact ⟨(Nat.add_le_add_left (hcount l) _).trans hlength, (Nat.mul_le_mul_right _
      (roundUpBlock_mono (Nat.add_le_add_left (hcount l) _))).trans hsize⟩
  · exact (Nat.mul_le_mul_right _ (pageCount_mono hpos (Nat.add_le_add_left (hcount l) _))).trans
      (hfiles l (hmem l hl))

/-- After the first part of a batch in range the rest is. -/
theorem Accepted.right (h : Accepted encoder (first ++ second) system rows)
    (hfirst : Inserted encoder first system rows middle) :
    Accepted encoder second middle (insertRows encoder system.index.nextId first rows) := by
  obtain ⟨hfits, hactive, hcodes, hpayload, hvalid, hreserve, hfiles, hdirectory⟩ := h
  rw [List.length_append] at hfits hactive hcodes hpayload hdirectory
  rw [assignmentsOf_append] at hvalid hreserve hfiles
  have hmem : ∀ l ∈ assignmentsOf encoder second,
      l ∈ assignmentsOf encoder first ++ assignmentsOf encoder second :=
    fun l hl => List.mem_append_right _ hl
  have hcount : ∀ l, (insertRows encoder system.index.nextId first rows l).length +
      (assignmentsOf encoder second).count l = (rows l).length +
        (assignmentsOf encoder first ++ assignmentsOf encoder second).count l := fun l => by
    rw [insertRows, List.length_append, length_batchRows (by simp), List.count_append, Nat.add_assoc]
  refine ⟨by rw [hfirst.nextId_eq]; omega, by rw [hfirst.active_eq]; omega,
    (Nat.mul_le_mul_right _ (Nat.le_add_left _ _)).trans hcodes,
    (Nat.mul_le_mul_right _ (Nat.le_add_left _ _)).trans hpayload,
    fun l hl => hvalid l (hmem l hl), fun l hl => ?_, fun l hl => ?_,
    fun id hid => hdirectory id (by rw [hfirst.nextId_eq] at hid; omega)⟩
  · rw [MemoryList.CanReserve, hcount]
    exact hreserve l (hmem l hl)
  · rw [hcount]
    exact hfiles l (hmem l hl)

/-- Batches whose rows are in range together return one after the other. -/
theorem insertBatches_inserted (hfaults : env.faults = IoFaults.none)
    (batches : List (List (InputRow config Vector))) (hstored : Stored system rows extra)
    (h : Accepted encoder batches.flatten system rows) :
    ∃ system', insertBatches encoder env system batches =
        (system', .ok ((generateRows encoder system.index.nextId batches.flatten).map Row.id)) ∧
      Inserted encoder batches.flatten system rows system' := by
  induction batches generalizing system rows extra with
  | nil => exact ⟨system, rfl, (@insertBatch_inserted _ _ encoder [] system system rows extra env []
      hstored rfl).1⟩
  | cons input rest ih =>
      rw [List.flatten_cons] at h ⊢
      obtain ⟨middle, hinsert⟩ := h.left.returns hstored hfaults
      have hfirst := (insertBatch_inserted hstored hinsert).1
      have hmiddle : Stored middle (insertRows encoder system.index.nextId input rows)
          (insertExtra (assignmentsOf encoder input) extra) := by
        rcases insertBatch_spec env hstored encoder input with ⟨-, hdone⟩ | ⟨error, _, herror, -⟩
        · rw [hinsert] at hdone
          exact hdone.stored
        · rw [hinsert] at herror
          cases herror
      obtain ⟨system', hrest, hsecond⟩ := ih hmiddle (h.right hfirst)
      refine ⟨system', ?_, hfirst.append hsecond hstored.aligned h.fits⟩
      rw [insertBatches, hinsert]
      dsimp only
      rw [hrest]
      dsimp only
      rw [generateRows_append, hfirst.nextId_eq, List.map_append]

theorem insertBatches_nil (encoder : Encoder config Vector) (env : Environment) (system : System)
    {batches : List (List (InputRow config Vector))} (h : batches.flatten = []) :
    insertBatches encoder env system batches = (system, .ok []) := by
  induction batches with
  | nil => rfl
  | cons input rest ih =>
      rw [List.flatten_cons, List.append_eq_nil_iff] at h
      rw [insertBatches, h.1, insertBatch, if_pos rfl]
      dsimp only
      rw [ih h.2]
      rfl

/-- Inserting is invariant under splits of the batch. When one call has inserted all rows,
their insertion in parts, none of which meets a failing call, returns the same IDs and leaves
the same index and the same bytes in every file. -/
theorem insert_batch_splits (encoder : Encoder config Vector) {ledger : Ledger config}
    (hreachable : Reachable encoder (Succeeds encoder) system ledger) (env : Environment)
    (batches : List (List (InputRow config Vector))) {ids : List Nat}
    (h : insertBatch encoder env system batches.flatten = (system', .ok ids)) {parts : Environment}
    (hfaults : parts.faults = IoFaults.none) :
    insertBatches encoder parts system batches = (system', .ok ids) := by
  obtain ⟨rows, hagrees, -⟩ := hreachable.agrees (fun _ => True)
    fun _ _ _ hrule => ⟨Or.inl hrule, fun _ _ => trivial⟩
  obtain ⟨hwhole, haccepted, rfl⟩ := insertBatch_inserted hagrees.stored h
  by_cases hne : batches.flatten = []
  · rw [insertBatches_nil encoder parts system hne, hne]
    rw [hne, insertBatch, if_pos rfl] at h
    exact h
  obtain ⟨system'', hparts, hinserted⟩ :=
    insertBatches_inserted hfaults batches hagrees.stored (haccepted hne)
  rw [hparts, hinserted.unique hwhole]

end Returns

/-- Rows for both lists of an index with five rows, where the last page of a list is
half full: in one batch, and in three. -/
theorem insert_batch_splits_five :
    (insertBatch byteEncoder .quiet fiveRows
        [byteRow 0x65, byteRow 0x76, byteRow 0x98, byteRow 0x87]).2 = .ok [5, 6, 7, 8] ∧
      insertBatches byteEncoder .quiet fiveRows
          [[byteRow 0x65, byteRow 0x76], [], [byteRow 0x98, byteRow 0x87]] =
        insertBatch byteEncoder .quiet fiveRows
          [byteRow 0x65, byteRow 0x76, byteRow 0x98, byteRow 0x87] := by
  have hids : (insertBatch byteEncoder .quiet fiveRows
      [byteRow 0x65, byteRow 0x76, byteRow 0x98, byteRow 0x87]).2 = .ok [5, 6, 7, 8] := by
    decide +kernel
  have hwhole : insertBatch byteEncoder .quiet fiveRows
      [byteRow 0x65, byteRow 0x76, byteRow 0x98, byteRow 0x87] =
        ((insertBatch byteEncoder .quiet fiveRows
          [byteRow 0x65, byteRow 0x76, byteRow 0x98, byteRow 0x87]).1, .ok [5, 6, 7, 8]) := by
    rw [← hids]
  exact ⟨hids, (insert_batch_splits byteEncoder (reachable_fiveRows ⟨_, run_fiveBytes⟩) .quiet
    [[byteRow 0x65, byteRow 0x76], [], [byteRow 0x98, byteRow 0x87]] hwhole rfl).trans
      hwhole.symm⟩

end Recast
