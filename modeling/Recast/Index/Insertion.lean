import Recast.Index.Represents

/-!
# Insertion keeps the index stored and located

The four phases of `insert_batch` one by one, and the call as a whole: what it
has done when it returns, and what it leaves when it throws.
-/

namespace Recast

open Foundation

variable {config : IndexConfig} {Vector : Type*}

/-- The lists a batch assigns its rows to. -/
def assignmentsOf (encoder : Encoder config Vector) (input : List (InputRow config Vector)) :
    List Nat :=
  input.map fun row => (encoder.assign row.vector).toNat

/-- What a batch adds to each list. -/
def batchRows (assignments : List Nat) (rows : List (Row config)) : Rows config :=
  fun l => select rows (positionsOf l assignments)

theorem assignmentsOf_lt (encoder : Encoder config Vector)
    (input : List (InputRow config Vector)) :
    ∀ l ∈ assignmentsOf encoder input, l < 2 ^ 32 := by
  intro l h
  obtain ⟨row, -, rfl⟩ := List.mem_map.mp h
  exact (encoder.assign row.vector).toNat_lt

@[simp] theorem length_assignmentsOf (encoder : Encoder config Vector)
    (input : List (InputRow config Vector)) :
    (assignmentsOf encoder input).length = input.length := List.length_map _

@[simp] theorem length_generateRows (encoder : Encoder config Vector) (nextId : Nat)
    (input : List (InputRow config Vector)) :
    (generateRows encoder nextId input).length = input.length := List.length_mapIdx

theorem generateRows_id (encoder : Encoder config Vector) {nextId : Nat}
    {input : List (InputRow config Vector)} (hfits : nextId + input.length ≤ uint32Max) {i : Nat}
    {row : Row config} (h : (generateRows encoder nextId input)[i]? = some row) :
    row.id = nextId + i := by
  have hlt := (List.getElem?_eq_some_iff.mp h).1
  rw [length_generateRows] at hlt
  rw [generateRows, List.getElem?_mapIdx, List.getElem?_eq_getElem hlt, Option.map_some] at h
  rw [← Option.some.inj h]
  refine Nat.mod_eq_of_lt ?_
  unfold uint32Max at hfits
  omega

theorem positionsOf_lt {l p : Nat} {assignments : List Nat} (h : p ∈ positionsOf l assignments) :
    p < assignments.length :=
  (List.getElem?_eq_some_iff.mp (mem_positionsOf.mp h)).1

section Plan

variable {encoder : Encoder config Vector} {index : Index} {input : List (InputRow config Vector)}

/-- A plan places the rows of each list, in batch order. -/
structure Planned (encoder : Encoder config Vector) (index : Index)
    (input : List (InputRow config Vector)) (plan : ListBatchPlan) : Prop where
  fits : index.nextId + input.length ≤ uint32Max
  valid : ∀ l ∈ assignmentsOf encoder input, l < config.nlist
  nodup : plan.touchedLists.Nodup
  mem_touched : ∀ l, l ∈ plan.touchedLists ↔ l ∈ assignmentsOf encoder input
  segment : ∀ l ∈ plan.touchedLists,
    segmentRows plan (generateRows encoder index.nextId input) l =
      batchRows (assignmentsOf encoder input) (generateRows encoder index.nextId input) l

theorem planned_of_eq_ok {plan : ListBatchPlan} (h : planInsert encoder index input = .ok plan) :
    Planned encoder index input plan := by
  simp only [planInsert, guard_eq_ok, bind_eq_ok, pure_eq_ok, Except.ok.injEq, not_or,
    Nat.not_lt] at h
  obtain ⟨hfits, -, -, found, hgroup, -, rfl⟩ := h
  have hvalid : ∀ l ∈ assignmentsOf encoder input, l < config.nlist := by
    by_contra hinvalid
    push Not at hinvalid
    rw [← assignmentsOf, groupByList_error hinvalid] at hgroup
    cases hgroup
  have h32 := assignmentsOf_lt encoder input
  have hcount : (assignmentsOf encoder input).length ≤ sizeMax := by
    rw [length_assignmentsOf]
    unfold uint32Max at hfits
    unfold sizeMax
    omega
  obtain ⟨plan, hplan, htouched, -, hsegment⟩ := groupByList_ok hvalid hcount
  obtain rfl : plan = found := Except.ok.inj (hplan.symm.trans hgroup)
  have hmem : ∀ l, l ∈ plan.touchedLists ↔ l ∈ assignmentsOf encoder input := fun l => by
    rw [htouched]
    exact ListBatchPlan.mem_touched hvalid h32
  refine ⟨by omega, hvalid, by rw [htouched]; exact ListBatchPlan.nodup_touched h32, hmem, ?_⟩
  intro l hl
  rw [segmentRows, hsegment l (hvalid l ((hmem l).mp hl))]
  rfl

/-- What an insertion checks before it groups its rows. -/
theorem planInsert_ok (hfits : index.nextId + input.length ≤ uint32Max)
    (hactive : index.activeCount + input.length ≤ sizeMax)
    (hcodes : input.length * config.codes.codeSize ≤ sizeMax)
    (hpayload : input.length * config.records.payloadBytes ≤ sizeMax)
    (hvalid : ∀ l ∈ assignmentsOf encoder input, l < config.nlist) :
    ∃ plan, planInsert encoder index input = .ok plan := by
  have hcount : (assignmentsOf encoder input).length ≤ sizeMax := by
    rw [length_assignmentsOf]
    omega
  obtain ⟨plan, hplan, -⟩ := groupByList_ok hvalid hcount
  refine ⟨plan, ?_⟩
  simp only [planInsert, guard_eq_ok, bind_eq_ok, pure_eq_ok, Except.ok.injEq]
  exact ⟨by omega, by omega, by omega, plan, hplan, by omega, rfl⟩

end Plan

section Batch

variable {encoder : Encoder config Vector} {nextId : Nat} {input : List (InputRow config Vector)}

theorem batchRows_eq_nil {assignments : List Nat} {rows : List (Row config)} {l : Nat}
    (h : l ∉ assignments) : batchRows assignments rows l = [] := by
  have hnone : positionsOf l assignments = [] := List.eq_nil_iff_forall_not_mem.mpr fun p hp =>
    h (List.mem_of_getElem? (mem_positionsOf.mp hp))
  rw [batchRows, hnone]
  rfl

theorem length_batchRows {assignments : List Nat} {rows : List (Row config)}
    (hlength : assignments.length = rows.length) (l : Nat) :
    (batchRows assignments rows l).length = assignments.count l := by
  rw [batchRows, length_select fun _ hp => hlength ▸ positionsOf_lt hp, length_positionsOf]

theorem batchRows_ne_nil {assignments : List Nat} {rows : List (Row config)}
    (hlength : assignments.length = rows.length) {l : Nat} (h : l ∈ assignments) :
    batchRows assignments rows l ≠ [] := by
  apply List.ne_nil_of_length_pos
  rw [length_batchRows hlength]
  exact List.count_pos_iff.mpr h

/-- The `k`-th row a list receives is the batch row at its `k`-th position. -/
theorem getElem?_batchRows {assignments : List Nat} {rows : List (Row config)}
    (hlength : assignments.length = rows.length) (l k : Nat) :
    (batchRows assignments rows l)[k]? =
      (positionsOf l assignments)[k]?.bind fun p : Nat => rows[p]? :=
  getElem?_select (fun _ hp => hlength ▸ positionsOf_lt hp) k

/-- Every row of the batch goes to the list it is assigned to. -/
theorem mem_batchRows {assignments : List Nat} {rows : List (Row config)} {l : Nat}
    {row : Row config} :
    row ∈ batchRows assignments rows l ↔
      ∃ p : Nat, assignments[p]? = some l ∧ rows[p]? = some row := by
  simp only [batchRows, mem_select, mem_positionsOf]

/-- The new IDs of each list, by position in the batch. -/
theorem map_id_batchRows (hfits : nextId + input.length ≤ uint32Max) (l : Nat) :
    (batchRows (assignmentsOf encoder input) (generateRows encoder nextId input) l).map Row.id =
      (positionsOf l (assignmentsOf encoder input)).map (nextId + ·) := by
  have hlength : (assignmentsOf encoder input).length =
      (generateRows encoder nextId input).length := by simp
  apply List.ext_getElem?
  intro k
  rw [List.getElem?_map, getElem?_batchRows hlength, List.getElem?_map]
  cases hposition : (positionsOf l (assignmentsOf encoder input))[k]? with
  | none => rfl
  | some p =>
      have hp := positionsOf_lt (List.mem_of_getElem? hposition)
      rw [hlength] at hp
      rw [Option.bind_some, List.getElem?_eq_getElem hp, Option.map_some, Option.map_some,
        generateRows_id encoder hfits (List.getElem?_eq_getElem hp)]

end Batch

/-! ### The phases -/

section Phases

variable {system : System} {rows added : Rows config} {extra : Nat → Nat} {touched : List Nat}

/-- The resident lists after the reservations. -/
def reserved (config : IndexConfig) (team : Bool) (added : Rows config) (touched : List Nat)
    (lists : Nat → MemoryList) : (Nat → MemoryList) × Except Error Unit :=
  parallelFor team id (fun l list => list.reserve config.codes (added l).length) touched lists

theorem reserved_holds (hstored : Stored system rows extra) (hnodup : touched.Nodup)
    (hcount : ∀ l ∈ touched, (added l).length ≤ uint32Max) (team : Bool) :
    (∀ l, ∃ blocks, MemoryList.Holds config.codes
        ((reserved config team added touched system.index.lists).1 l)
        ((rows l).map Row.posting) blocks) ∧
      ((reserved config team added touched system.index.lists).2 = .ok () → ∀ l ∈ touched,
        (rows l).length + (added l).length ≤ uint32Max ∧ ∃ blocks, MemoryList.Holds config.codes
          ((reserved config team added touched system.index.lists).1 l)
          ((rows l).map Row.posting) blocks ∧
          (rows l).length + (added l).length ≤ blocks * 32) := by
  have hmap : (touched.map id).Nodup := by rwa [List.map_id]
  have hsizes : ∀ l ∈ touched, ((rows l).map Row.posting).length + (added l).length ≤ sizeMax := by
    intro l hl
    have hold := hstored.length_le l
    have hnew := hcount l hl
    rw [List.length_map]
    unfold uint32Max at hold hnew
    unfold sizeMax
    omega
  refine ⟨fun l => ?_, fun hok l hl => ?_⟩
  · obtain ⟨blocks, hholds⟩ := hstored.postings l
    rcases parallelFor_id_cases hnodup system.index.lists l with hkept | ⟨hl, hstep⟩
    · exact ⟨blocks, by rw [reserved, hkept]; exact hholds⟩
    · have hreserve := hholds.reserve (added l).length (hsizes l hl)
      rw [reserved, hstep]
      split at hreserve
      next => exact ⟨_, hreserve.2⟩
      next => exact ⟨blocks, by rw [hreserve]; exact hholds⟩
  · obtain ⟨blocks, hholds⟩ := hstored.postings l
    have hreserve := hholds.reserve (added l).length (hsizes l hl)
    obtain ⟨hstep, hdone⟩ := parallelFor_done hmap hok hl
    split at hreserve
    next hcan =>
      rw [List.length_map] at hcan hreserve
      refine ⟨hcan.1, _, by rw [reserved]; exact hdone ▸ hreserve.2, ?_⟩
      rw [← roundUpBlock_blocks]
      exact le_roundUpBlock _
    next => rw [id, hreserve] at hstep; cases hstep

/-- The record files after the appends. -/
def appended (config : IndexConfig) (faults : IoFaults) (team : Bool) (rows added : Rows config)
    (touched : List Nat) (files : Nat → Option Bytes) : (Nat → Option Bytes) × Except Error Unit :=
  parallelFor team id (fun l file => config.records.appendRecords faults l (rows l).length
    ((added l).map Row.record) file) touched files

theorem appended_holds (hstored : Stored system rows extra) (hnodup : touched.Nodup)
    (faults : IoFaults) (team : Bool) (l : Nat) :
    ∃ pages, config.records.Holds
      (((appended config faults team rows added touched system.storage.records).1 l).getD [])
      ((rows l).map Row.record)
      (pageCount (rows l).length config.records.recordsPerPage + pages) := by
  have hfile := hstored.records l
  rcases parallelFor_id_cases hnodup system.storage.records l with hkept | ⟨-, hstep⟩
  · exact ⟨extra l, by rw [appended, hkept]; exact hfile⟩
  · obtain ⟨⟨pages, hholds⟩, -⟩ :=
      RecordLayout.appendRecords_holds faults l hfile ((added l).map Row.record)
    rw [List.length_map] at hholds
    have hroom := hholds.room
    rw [List.length_map] at hroom
    refine ⟨pages - pageCount (rows l).length config.records.recordsPerPage, ?_⟩
    rw [appended, hstep, Nat.add_sub_cancel' hroom]
    exact hholds

theorem appended_of_ok (hstored : Stored system rows extra) (hnodup : touched.Nodup)
    (hadded : ∀ l ∈ touched, added l ≠ []) {faults : IoFaults} {team : Bool}
    (hok : (appended config faults team rows added touched system.storage.records).2 = .ok ()) :
    ∀ l ∈ touched, config.records.Holds
      (((appended config faults team rows added touched system.storage.records).1 l).getD [])
      ((rows l ++ added l).map Row.record)
      (pageCount (rows l ++ added l).length config.records.recordsPerPage) := by
  intro l hl
  have hmap : (touched.map id).Nodup := by rwa [List.map_id]
  obtain ⟨hstep, hdone⟩ := parallelFor_done hmap hok hl
  have happend := (RecordLayout.appendRecords_holds faults l (hstored.records l)
    ((added l).map Row.record)).2 (by simpa using hadded l hl)
  rw [List.length_map] at happend
  have hholds := happend hstep
  rw [← List.map_append, List.length_map] at hholds
  rw [appended]
  exact hdone ▸ hholds

theorem appended_none (hstored : Stored system rows extra) (hnodup : touched.Nodup)
    (hfits : ∀ l ∈ touched, (rows l).length + (added l).length ≤ uint32Max) {team : Bool}
    {error : Error}
    (h : (appended config IoFaults.none team rows added touched system.storage.records).2 =
      .error error) : error.isSystem := by
  have hmap : (touched.map id).Nodup := by rwa [List.map_id]
  obtain ⟨l, hl, hstep⟩ := parallelFor_error hmap h
  have hnone := @RecordLayout.appendRecords_none _ l _ _ _ (hstored.records l)
    ((added l).map Row.record) (by simpa using hfits l hl)
  rw [List.length_map] at hnone
  rcases hnone with hok | ⟨operation, herror⟩
  · cases hok.symm.trans hstep
  · cases herror.symm.trans hstep
    rfl

/-- The resident lists after the posting updates. -/
def published (added : Rows config) (touched : List Nat) (lists : Nat → MemoryList) :
    (Nat → MemoryList) × Except Error Unit :=
  parallelFor false id (fun l (list : MemoryList) => list.append ((added l).map Row.posting))
    touched lists

theorem published_holds {lists : Nat → MemoryList} (hnodup : touched.Nodup)
    (hroom : ∀ l ∈ touched, (rows l).length + (added l).length ≤ uint32Max ∧ ∃ blocks,
      MemoryList.Holds config.codes (lists l) ((rows l).map Row.posting) blocks ∧
      (rows l).length + (added l).length ≤ blocks * 32) :
    (published added touched lists).2 = .ok () ∧ ∀ l ∈ touched, ∃ blocks,
      MemoryList.Holds config.codes ((published added touched lists).1 l)
        ((rows l ++ added l).map Row.posting) blocks := by
  have hmap : (touched.map id).Nodup := by rwa [List.map_id]
  have happend : ∀ l ∈ touched, ((lists l).append ((added l).map Row.posting)).2 = .ok () ∧
      ∃ blocks, MemoryList.Holds config.codes ((lists l).append ((added l).map Row.posting)).1
        ((rows l ++ added l).map Row.posting) blocks := by
    intro l hl
    obtain ⟨hsize, blocks, hholds, hblocks⟩ := hroom l hl
    have happend := @MemoryList.Holds.append _ _ _ _ hholds ((added l).map Row.posting) (by simpa using hblocks)
      (by simpa using hsize)
    rw [← List.map_append] at happend
    exact ⟨happend.1, blocks, happend.2⟩
  obtain ⟨hok, hdone, -⟩ := @parallelFor_ok _ _ false id
    (fun l (list : MemoryList) => list.append ((added l).map Row.posting)) touched hmap lists
    fun l hl => (happend l hl).1
  refine ⟨hok, fun l hl => ?_⟩
  obtain ⟨blocks, hholds⟩ := (happend l hl).2
  exact ⟨blocks, by rw [published]; exact hdone l hl ▸ hholds⟩

end Phases

/-! ### The directory update -/

section Directory

variable {system : System} {rows : Rows config} {extra : Nat → Nat}
  {encoder : Encoder config Vector} {input : List (InputRow config Vector)} {plan : ListBatchPlan}
  {lists : Nat → MemoryList} {updates : List DirectoryLayout.Update} {directory : Bytes}

theorem mem_insertUpdates {newRows : List (Row config)} {update : DirectoryLayout.Update} :
    update ∈ insertUpdates plan newRows lists ↔ ∃ l ∈ plan.touchedLists, ∃ (k : Nat) (row : Row config),
      (segmentRows plan newRows l)[k]? = some row ∧
        update = (row.id, DiskLocation.ofSlot l ((lists l).logicalSize + k)) := by
  simp only [insertUpdates, List.mem_flatMap, List.mem_mapIdx]
  constructor
  · rintro ⟨l, hl, k, hk, rfl⟩
    exact ⟨l, hl, k, _, List.getElem?_eq_getElem hk, rfl⟩
  · rintro ⟨l, hl, k, row, hrow, rfl⟩
    obtain ⟨hk, rfl⟩ := List.getElem?_eq_some_iff.mp hrow
    exact ⟨l, hl, k, hk, rfl⟩

/-- The updates name the new IDs, each once. -/
theorem nodup_insertUpdates (hplanned : Planned encoder system.index input plan) :
    ((insertUpdates plan (generateRows encoder system.index.nextId input) lists).map
      Prod.fst).Nodup := by
  have hkeys : (insertUpdates plan (generateRows encoder system.index.nextId input) lists).map
        Prod.fst = (plan.touchedLists.flatMap fun l =>
          positionsOf l (assignmentsOf encoder input)).map (system.index.nextId + ·) := by
    rw [insertUpdates, List.map_flatMap, List.map_flatMap]
    apply List.flatMap_congr
    intro l hl
    rw [← map_id_batchRows hplanned.fits, ← hplanned.segment l hl]
    apply List.ext_getElem?
    intro k
    rw [List.getElem?_map, List.getElem?_mapIdx, Option.map_map, List.getElem?_map]
    rfl
  rw [hkeys]
  refine List.Nodup.map (fun _ _ h => Nat.add_left_cancel h) (List.nodup_flatMap.mpr
    ⟨fun l _ => nodup_positionsOf l _, hplanned.nodup.imp fun hne => ?_⟩)
  intro p hp hp'
  exact hne (Option.some.inj ((mem_positionsOf.mp hp).symm.trans (mem_positionsOf.mp hp')))

/-- Entries of issued IDs survive an update of IDs not issued yet. -/
theorem Located.write (hlocated : Located system rows)
    (hwritten : config.directory.Written system.storage.directory updates directory)
    (hnew : ∀ update ∈ updates, system.index.nextId ≤ update.1) :
    system.storage.directory.length ≤ directory.length ∧ ∀ id < system.index.nextId,
      DirectoryLayout.entryAt directory id =
        DirectoryLayout.entryAt system.storage.directory id := by
  refine ⟨hwritten.grows, fun id hid => ?_⟩
  have hin : id * 8 < system.storage.directory.length := by
    have := hlocated.covered
    omega
  rw [hwritten.kept id hin, applyUpdates_of_notMem]
  intro hmem
  obtain ⟨update, hupdate, rfl⟩ := List.mem_map.mp hmem
  have := hnew update hupdate
  omega

/-- Insertions only update IDs not issued yet, and only 32-bit ones. -/
theorem insertUpdates_new (hplanned : Planned encoder system.index input plan) :
    ∀ update ∈ insertUpdates plan (generateRows encoder system.index.nextId input) lists,
      system.index.nextId ≤ update.1 ∧ update.1 < uint32Max := by
  intro update hupdate
  obtain ⟨l, hl, k, row, hrow, rfl⟩ := mem_insertUpdates.mp hupdate
  rw [hplanned.segment l hl] at hrow
  obtain ⟨p, -, hp⟩ := mem_batchRows.mp (List.mem_of_getElem? hrow)
  have hlt := (List.getElem?_eq_some_iff.mp hp).1
  have hfits := hplanned.fits
  rw [length_generateRows] at hlt
  rw [generateRows_id encoder hplanned.fits hp]
  omega

/-- Once all updates are written, old and new rows are located. -/
theorem Located.insert (hlocated : Located system rows)
    (hplanned : Planned encoder system.index input plan)
    (hsize : ∀ l, (lists l).logicalSize = (rows l).length)
    (hupdates : updates.Perm
      (insertUpdates plan (generateRows encoder system.index.nextId input) lists))
    (hwritten : config.directory.Written system.storage.directory updates directory)
    {system' : System} (hnext : system'.index.nextId = system.index.nextId + input.length)
    (hdirectory : system'.storage.directory = directory) :
    Located system' fun l => rows l ++ batchRows (assignmentsOf encoder input)
      (generateRows encoder system.index.nextId input) l := by
  obtain ⟨hgrows, hkept⟩ := hlocated.write hwritten fun update hupdate =>
    (insertUpdates_new hplanned update (hupdates.mem_iff.mp hupdate)).1
  have hstored := hwritten.stored
    ((hupdates.map Prod.fst).nodup_iff.mpr (nodup_insertUpdates hplanned))
  -- the entry of the `p`-th row of the batch
  have hentry : ∀ (l k : Nat) (row : Row config), (batchRows (assignmentsOf encoder input)
        (generateRows encoder system.index.nextId input) l)[k]? = some row →
      row.id * 8 < directory.length ∧ DirectoryLayout.entryAt directory row.id =
        DiskLocation.ofSlot l ((rows l).length + k) := by
    intro l k row hrow
    obtain ⟨p, hassigned, -⟩ := mem_batchRows.mp (List.mem_of_getElem? hrow)
    have hl := (hplanned.mem_touched l).mpr (List.mem_of_getElem? hassigned)
    have hmem : (row.id, DiskLocation.ofSlot l ((lists l).logicalSize + k)) ∈ updates :=
      hupdates.mem_iff.mpr (mem_insertUpdates.mpr
        ⟨l, hl, k, row, by rw [hplanned.segment l hl]; exact hrow, rfl⟩)
    have hcovered := hwritten.covers _ hmem
    have hentry := hstored _ hmem
    rw [hsize] at hentry
    exact ⟨hcovered, hentry⟩
  have hbatch : ∀ p < input.length, ∃ (l k : Nat) (row : Row config), (batchRows (assignmentsOf encoder input)
        (generateRows encoder system.index.nextId input) l)[k]? = some row ∧
      row.id = system.index.nextId + p := by
    intro p hp
    have hp' : p < (generateRows encoder system.index.nextId input).length := by simpa using hp
    have hin : p < (assignmentsOf encoder input).length := by simpa using hp
    have hassigned := List.getElem?_eq_getElem hin
    have hrow := List.getElem?_eq_getElem hp'
    obtain ⟨k, hk⟩ := List.mem_iff_getElem?.mp (mem_batchRows.mpr ⟨p, hassigned, hrow⟩)
    exact ⟨_, k, _, hk, generateRows_id encoder hplanned.fits hrow⟩
  constructor
  · rw [hnext, hdirectory]
    cases hcount : input.length with
    | zero => exact Nat.le_trans hlocated.covered hgrows
    | succ count =>
        obtain ⟨l, k, row, hrow, hid⟩ := hbatch count (by omega)
        have hin := (hentry l k row hrow).1
        have := hwritten.aligned.entry_le hin
        omega
  · intro l o row hrow
    rw [hnext, hdirectory]
    rcases Nat.lt_or_ge o (rows l).length with hold | hnew
    · rw [List.getElem?_append_left hold] at hrow
      obtain ⟨hid, hloc⟩ := hlocated.located l o row hrow
      exact ⟨by omega, by rw [hkept _ hid, hloc]⟩
    · rw [List.getElem?_append_right hnew] at hrow
      obtain ⟨p, -, hp⟩ := mem_batchRows.mp (List.mem_of_getElem? hrow)
      have hlt := (List.getElem?_eq_some_iff.mp hp).1
      rw [length_generateRows] at hlt
      refine ⟨by rw [generateRows_id encoder hplanned.fits hp]; omega, ?_⟩
      rw [(hentry l _ row hrow).2, Nat.add_sub_cancel' hnew]
  · intro id hid hnone
    rw [hnext] at hid
    rw [hdirectory]
    rcases Nat.lt_or_ge id system.index.nextId with hold | hnew
    · rw [hkept id hold]
      exact hlocated.vacant id hold fun l row hrow =>
        hnone l row (List.mem_append_left _ hrow)
    · obtain ⟨l, k, row, hrow, hrowId⟩ := hbatch (id - system.index.nextId) (by omega)
      exact absurd (by omega) (hnone l row (List.mem_append_right _ (List.mem_of_getElem? hrow)))

/-- A write that failed part of the way leaves the old rows located. -/
theorem Located.keep (hlocated : Located system rows)
    (hwritten : config.directory.Written system.storage.directory updates directory)
    (hnew : ∀ update ∈ updates, system.index.nextId ≤ update.1) {system' : System}
    (hnext : system'.index.nextId = system.index.nextId)
    (hdirectory : system'.storage.directory = directory) : Located system' rows := by
  obtain ⟨hgrows, hkept⟩ := hlocated.write hwritten hnew
  constructor
  · rw [hnext, hdirectory]
    exact Nat.le_trans hlocated.covered hgrows
  · intro l o row hrow
    obtain ⟨hid, hloc⟩ := hlocated.located l o row hrow
    rw [hnext, hdirectory, hkept _ hid]
    exact ⟨hid, hloc⟩
  · intro id hid hnone
    rw [hnext] at hid
    rw [hdirectory, hkept id hid]
    exact hlocated.vacant id hid hnone

end Directory

/-! ### The whole call -/

section Insert

variable {system : System} {rows : Rows config} {extra : Nat → Nat}
  {encoder : Encoder config Vector} {input : List (InputRow config Vector)}

/-- The rows after an insertion. -/
def insertRows (encoder : Encoder config Vector) (nextId : Nat)
    (input : List (InputRow config Vector)) (rows : Rows config) : Rows config :=
  fun l => rows l ++ batchRows (assignmentsOf encoder input) (generateRows encoder nextId input) l

/-- The spare pages after an insertion: an append cuts them off. -/
def insertExtra (assignments : List Nat) (extra : Nat → Nat) (l : Nat) : Nat :=
  if l ∈ assignments then 0 else extra l

/-- What an insertion that threw leaves behind: the rows it found, and spare
pages in the lists it touched. -/
structure InsertRefused (encoder : Encoder config Vector) (input : List (InputRow config Vector))
    (system : System) (rows : Rows config) (extra : Nat → Nat) (system' : System)
    (extra' : Nat → Nat) : Prop where
  stored : Stored system' rows extra'
  located : Located system rows → Located system' rows
  nextId_eq : system'.index.nextId = system.index.nextId
  generation_eq : system'.index.checkpointGeneration = system.index.checkpointGeneration
  others : ∀ l, l ∉ assignmentsOf encoder input →
    system'.storage.records l = system.storage.records l ∧ extra' l = extra l

/-- What an insertion that returned has done. -/
structure InsertDone (encoder : Encoder config Vector) (input : List (InputRow config Vector))
    (system : System) (rows : Rows config) (extra : Nat → Nat) (system' : System) : Prop where
  fits : system.index.nextId + input.length ≤ uint32Max
  valid : ∀ l ∈ assignmentsOf encoder input, l < config.nlist
  stored : Stored system' (insertRows encoder system.index.nextId input rows)
    (insertExtra (assignmentsOf encoder input) extra)
  located : Located system rows →
    Located system' (insertRows encoder system.index.nextId input rows)
  nextId_eq : system'.index.nextId = system.index.nextId + input.length
  generation_eq : system'.index.checkpointGeneration = system.index.checkpointGeneration
  others : ∀ l, l ∉ assignmentsOf encoder input →
    system'.storage.records l = system.storage.records l

theorem sum_insertRows (hvalid : ∀ l ∈ assignmentsOf encoder input, l < config.nlist)
    (nextId : Nat) (rows : Rows config) :
    ∑ l ∈ Finset.range config.nlist, (insertRows encoder nextId input rows l).length =
      ∑ l ∈ Finset.range config.nlist, (rows l).length + input.length := by
  have hlength : (assignmentsOf encoder input).length =
      (generateRows encoder nextId input).length := by simp
  have heach : ∀ l, (insertRows encoder nextId input rows l).length =
      (rows l).length + (assignmentsOf encoder input).count l := fun l => by
    rw [insertRows, List.length_append, length_batchRows hlength]
  rw [Finset.sum_congr rfl fun l _ => heach l, Finset.sum_add_distrib,
    sum_count_eq_length hvalid, length_assignmentsOf]

/-- Other resident lists and record files that hold the same rows. -/
theorem Stored.replace (hstored : Stored system rows extra) {lists : Nat → MemoryList}
    {records : Nat → Option Bytes} {directory : Bytes} {extra' : Nat → Nat}
    (hlists : ∀ l, ∃ blocks, MemoryList.Holds config.codes (lists l) ((rows l).map Row.posting) blocks)
    (hrecords : ∀ l, config.records.Holds ((records l).getD []) ((rows l).map Row.record)
      (pageCount (rows l).length config.records.recordsPerPage + extra' l))
    (haligned : config.directory.Aligned directory) :
    Stored ⟨{ system.index with lists }, ⟨records, directory⟩⟩ rows extra' where
  postings := hlists
  records := hrecords
  aligned := haligned
  outside := hstored.outside
  active := hstored.active
  nextId_le := hstored.nextId_le

/-- A plan makes the phases of the insertion run one after the other. -/
theorem insertBatch_of_plan {env : Environment} (hne : input ≠ []) {plan : ListBatchPlan}
    (hplan : planInsert encoder system.index input = .ok plan)
    (hstored : Stored system rows extra) (hnodup : plan.touchedLists.Nodup) {added : Rows config}
    (hadded : segmentRows plan (generateRows encoder system.index.nextId input) = added)
    (hcount : ∀ l ∈ plan.touchedLists, (added l).length ≤ uint32Max) :
    insertBatch encoder env system input =
      match reserved config (env.team .reserve) added plan.touchedLists system.index.lists with
      | (lists, .error error) => (⟨{ system.index with lists }, system.storage⟩, .error error)
      | (lists, .ok ()) =>
      match appended config env.faults (env.team .appendRecords) rows added plan.touchedLists
        system.storage.records with
      | (records, .error error) =>
          (⟨{ system.index with lists }, { system.storage with records }⟩, .error error)
      | (records, .ok ()) =>
      match config.directory.writeBatch env.faults system.storage.directory
        (insertUpdates plan (generateRows encoder system.index.nextId input) lists) with
      | (directory, .error error) =>
          (⟨{ system.index with lists }, ⟨records, directory⟩⟩, .error error)
      | (directory, .ok ()) =>
      match published added plan.touchedLists lists with
      | (lists, .error error) =>
          (⟨{ system.index with lists }, ⟨records, directory⟩⟩, .error error)
      | (lists, .ok ()) =>
      (⟨{ system.index with
          lists
          nextId := system.index.nextId + input.length
          activeCount := system.index.activeCount + input.length }, ⟨records, directory⟩⟩,
        .ok ((generateRows encoder system.index.nextId input).map Row.id)) := by
  subst hadded
  have hholds := (reserved_holds hstored hnodup hcount (env.team .reserve)).1
  simp only [insertBatch, if_neg hne, hplan]
  rw [← reserved]
  rcases hreserved : reserved config (env.team .reserve)
    (segmentRows plan (generateRows encoder system.index.nextId input)) plan.touchedLists
    system.index.lists with ⟨lists, error | _⟩
  · rfl
  · have hsize : ∀ l, (lists l).logicalSize = (rows l).length := fun l => by
      rw [hreserved] at hholds
      obtain ⟨blocks, h⟩ := hholds l
      rw [h.size, List.length_map]
    simp only [hsize]
    rfl

/-- `insert_batch`: either all rows are added, or the call throws and the old
rows stand. Without injected faults the code's own errors change no file. -/
theorem insertBatch_spec (env : Environment) (hstored : Stored system rows extra)
    (encoder : Encoder config Vector) (input : List (InputRow config Vector)) :
    ((insertBatch encoder env system input).2 =
        .ok ((generateRows encoder system.index.nextId input).map Row.id) ∧
      InsertDone encoder input system rows extra (insertBatch encoder env system input).1) ∨
    ∃ error extra', (insertBatch encoder env system input).2 = .error error ∧
      InsertRefused encoder input system rows extra (insertBatch encoder env system input).1
        extra' ∧
      (env.faults = IoFaults.none → error.isSystem = false →
        (insertBatch encoder env system input).1.storage = system.storage ∧ extra' = extra) := by
  by_cases hne : input = []
  · subst hne
    have hrows : insertRows encoder system.index.nextId [] rows = rows := by
      funext l
      exact List.append_nil _
    refine Or.inl ⟨by simp [insertBatch, generateRows], ?_⟩
    rw [insertBatch, if_pos rfl]
    exact ⟨hstored.nextId_le, by simp [assignmentsOf], by rw [hrows]; exact hstored,
      by rw [hrows]; exact id, rfl, rfl, fun _ _ => rfl⟩
  cases hplan : planInsert encoder system.index input with
  | error error =>
      refine Or.inr ⟨error, extra, ?_⟩
      rw [insertBatch, if_neg hne, hplan]
      exact ⟨rfl, ⟨hstored, id, rfl, rfl, fun _ _ => ⟨rfl, rfl⟩⟩, fun _ _ => ⟨rfl, rfl⟩⟩
  | ok plan =>
  have hplanned := planned_of_eq_ok hplan
  have hnodup := hplanned.nodup
  have hlength : (assignmentsOf encoder input).length =
      (generateRows encoder system.index.nextId input).length := by simp
  obtain ⟨added, hadded⟩ : ∃ added,
      segmentRows plan (generateRows encoder system.index.nextId input) = added := ⟨_, rfl⟩
  have hsegment : ∀ l ∈ plan.touchedLists, added l = batchRows (assignmentsOf encoder input)
      (generateRows encoder system.index.nextId input) l := hadded ▸ hplanned.segment
  have hcount : ∀ l ∈ plan.touchedLists, (added l).length ≤ uint32Max := by
    intro l hl
    have hcount := @List.count_le_length _ _ l (assignmentsOf encoder input)
    have hfits := hplanned.fits
    rw [hsegment l hl, length_batchRows hlength]
    rw [length_assignmentsOf] at hcount
    omega
  have hnonempty : ∀ l ∈ plan.touchedLists, added l ≠ [] := fun l hl => by
    rw [hsegment l hl]
    exact batchRows_ne_nil hlength ((hplanned.mem_touched l).mp hl)
  rw [insertBatch_of_plan hne hplan hstored hnodup hadded hcount]
  have hreserve := reserved_holds hstored hnodup hcount (env.team .reserve)
  have happend := @appended_holds _ _ _ added _ _ hstored hnodup env.faults
    (env.team .appendRecords)
  have happendOk := @appended_of_ok _ _ _ _ _ _ hstored hnodup hnonempty env.faults
    (env.team .appendRecords)
  have happendNone := fun h => @appended_none _ system rows added extra plan.touchedLists hstored
    hnodup h (env.team .appendRecords)
  rcases hreserved : reserved config (env.team .reserve) added plan.touchedLists
    system.index.lists with ⟨lists, error | _⟩ <;> rw [hreserved] at hreserve
  · exact Or.inr ⟨error, extra, rfl,
      ⟨hstored.replace hreserve.1 hstored.records hstored.aligned,
        fun h => ⟨h.covered, h.located, h.vacant⟩, rfl, rfl, fun _ _ => ⟨rfl, rfl⟩⟩,
      fun _ _ => ⟨rfl, rfl⟩⟩
  have hroom := hreserve.2 rfl
  have hlists := hreserve.1
  -- an append changes the files of the touched lists only
  have hothers : ∀ l, l ∉ assignmentsOf encoder input → (appended config env.faults
      (env.team .appendRecords) rows added plan.touchedLists system.storage.records).1 l =
        system.storage.records l := fun l hl =>
    parallelFor_of_notMem hnodup fun hmem => hl ((hplanned.mem_touched l).mp hmem)
  choose pages hpages using happend
  have hrecords : ∀ l, config.records.Holds (((appended config env.faults
      (env.team .appendRecords) rows added plan.touchedLists system.storage.records).1 l).getD [])
      ((rows l).map Row.record) (pageCount (rows l).length config.records.recordsPerPage +
        if l ∈ assignmentsOf encoder input then pages l else extra l) := fun l => by
    split
    next => exact hpages l
    next hl => rw [hothers l hl]; exact hstored.records l
  dsimp only
  rcases happended : appended config env.faults (env.team .appendRecords) rows added
    plan.touchedLists system.storage.records with ⟨records, error | _⟩
  · rw [happended] at hrecords hothers
    refine Or.inr ⟨error, _, rfl, ⟨hstored.replace hlists hrecords hstored.aligned,
        fun h => ⟨h.covered, h.located, h.vacant⟩, rfl, rfl,
        fun l hl => ⟨hothers l hl, if_neg hl⟩⟩, fun hnone herror => ?_⟩
    rw [hnone] at happended
    have hsystem := happendNone (fun l hl => (hroom l hl).1) (by rw [happended])
    rw [hsystem] at herror
    cases herror
  rw [happended] at hrecords hothers happendOk
  obtain ⟨done, rest, hperm, hwritten, hall⟩ := DirectoryLayout.writeBatch_written env.faults
    hstored.aligned (insertUpdates plan (generateRows encoder system.index.nextId input) lists)
  dsimp only
  rcases hdirectory : config.directory.writeBatch env.faults system.storage.directory
    (insertUpdates plan (generateRows encoder system.index.nextId input) lists) with
    ⟨directory, error | _⟩
  · rw [hdirectory] at hwritten
    refine Or.inr ⟨error, _, rfl, ⟨hstored.replace hlists hrecords hwritten.aligned,
        fun h => h.keep hwritten (fun update hupdate => (insertUpdates_new hplanned update
          (hperm.mem_iff.mp (List.mem_append_left _ hupdate))).1) rfl rfl, rfl, rfl,
        fun l hl => ⟨hothers l hl, if_neg hl⟩⟩, fun hnone herror => ?_⟩
    have hin : ∀ update ∈ insertUpdates plan (generateRows encoder system.index.nextId input) lists,
        update.1 * 8 ≤ offMax := fun update hupdate => by
      have := (insertUpdates_new hplanned update hupdate).2
      unfold uint32Max at this
      unfold offMax
      omega
    rw [hnone] at hdirectory
    rcases DirectoryLayout.writeBatch_none hstored.aligned (nodup_insertUpdates hplanned) hin with
      hok | ⟨-, hfailed⟩
    · rw [hdirectory] at hok
      cases hok
    · rw [hdirectory] at hfailed
      cases hfailed
      cases herror
  rw [hdirectory] at hwritten hall
  obtain rfl := hall rfl
  rw [List.append_nil] at hperm
  -- what each list holds afterwards
  have htouched : ∀ l ∈ plan.touchedLists,
      insertRows encoder system.index.nextId input rows l = rows l ++ added l := fun l hl => by
    rw [insertRows, hsegment l hl]
  have huntouched : ∀ l, l ∉ assignmentsOf encoder input →
      insertRows encoder system.index.nextId input rows l = rows l := fun l hl => by
    rw [insertRows, batchRows_eq_nil hl, List.append_nil]
  obtain ⟨hpublished, hholds⟩ := published_holds hnodup hroom
  dsimp only
  rcases hlast : published added plan.touchedLists lists with ⟨lists', error | _⟩
  · rw [hlast] at hpublished
    cases hpublished
  rw [hlast] at hholds
  have hkept : ∀ l, l ∉ plan.touchedLists → lists' l = lists l := fun l hl => by
    have := @parallelFor_of_notMem _ false _ (fun l (list : MemoryList) =>
      list.append ((added l).map Row.posting)) lists hnodup _ hl
    rwa [← published, hlast] at this
  have hsize : ∀ l, (lists l).logicalSize = (rows l).length := fun l => by
    obtain ⟨blocks, h⟩ := hlists l
    rw [h.size, List.length_map]
  dsimp only at hothers
  have hpostings : ∀ l, ∃ blocks, MemoryList.Holds config.codes (lists' l)
      ((insertRows encoder system.index.nextId input rows l).map Row.posting) blocks := by
    intro l
    by_cases hl : l ∈ plan.touchedLists
    · rw [htouched l hl]
      exact hholds l hl
    · rw [huntouched l (mt (hplanned.mem_touched l).mpr hl), hkept l hl]
      exact hlists l
  have hfiles : ∀ l, config.records.Holds ((records l).getD [])
      ((insertRows encoder system.index.nextId input rows l).map Row.record)
      (pageCount (insertRows encoder system.index.nextId input rows l).length
        config.records.recordsPerPage + insertExtra (assignmentsOf encoder input) extra l) := by
    intro l
    by_cases hl : l ∈ plan.touchedLists
    · rw [htouched l hl, insertExtra, if_pos ((hplanned.mem_touched l).mp hl)]
      exact happendOk rfl l hl
    · have hnot := mt (hplanned.mem_touched l).mpr hl
      rw [huntouched l hnot, insertExtra, if_neg hnot, hothers l hnot]
      exact hstored.records l
  refine Or.inl ⟨rfl, hplanned.fits, hplanned.valid,
    ⟨hpostings, hfiles, hwritten.aligned, fun l hl => ?_, ?_, hplanned.fits⟩,
    fun h => h.insert hplanned hsize hperm hwritten rfl rfl, rfl, rfl, hothers⟩
  · by_cases hmem : l ∈ assignmentsOf encoder input
    · exact ⟨hplanned.valid l hmem, assignmentsOf_lt encoder input l hmem⟩
    · exact hstored.outside l (huntouched l hmem ▸ hl)
  · rw [sum_insertRows hplanned.valid, ← hstored.active]

end Insert

end Recast
