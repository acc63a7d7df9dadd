import Recast.Index.CallLogs

/-!
# The counters equal the calls

In every state that calls which returned lead to, the directory has exactly the
pages of the issued IDs. From such a state an update that returns adds to its
counters what it has read, written and opened, which is what the update without
a log attempts.
-/

namespace Recast

open Foundation

variable {config : IndexConfig} {Vector : Type*}

section Loops

variable {ι α : Type} {key : ι → Nat} {plain : ι → α → α × Except Error Unit}
  {step : ι → α → Logged Error IoCall α} {total : ι → UpdateStats}

/-- A loop that returned costs what its iterations cost. -/
theorem costs_visitLists {team : Bool} {items : List ι} (hnodup : (items.map key).Nodup)
    {state state' : Nat → α} (h : parallelFor team key plain items state = (state', .ok ()))
    (hstep : ∀ item ∈ items, ∀ value, plain item (state (key item)) = (value, .ok ()) →
      Logged.Costs IoCall.counts (step item (state (key item))) value (total item)) :
    Logged.Costs IoCall.counts (visitListsLogged key step items state) state'
      (items.map total).sum := by
  induction items generalizing state with
  | nil =>
      cases h
      exact Logged.costs_pure _
  | cons item rest ih =>
      rw [List.map_cons, List.nodup_cons] at hnodup
      rw [parallelFor] at h
      split at h
      next value hvalue =>
        rw [List.map_cons, List.sum_cons]
        refine (hstep item List.mem_cons_self value hvalue).bind (ih hnodup.2 h ?_)
        intro other hmem
        have hne : key other ≠ key item := fun heq =>
          hnodup.1 (heq ▸ List.mem_map_of_mem hmem)
        rw [Function.update_of_ne hne]
        exact hstep other (List.mem_cons_of_mem _ hmem)
      next => cases h

end Loops

/-! ### The pages of the directory -/

/-- The directory has the pages of the IDs issued so far. -/
def System.Paged (config : IndexConfig) (system : System) : Prop :=
  system.storage.directory.length =
    pageCount system.index.nextId config.directory.entriesPerPage * config.directory.pageSize

theorem paged_fresh (config : IndexConfig) : System.fresh.Paged config := by
  rw [System.Paged]
  exact (Nat.zero_mul _).symm

/-- A file of whole pages with an entry for each ID has all their pages. -/
theorem DirectoryLayout.Aligned.pageCount_le {layout : DirectoryLayout} {file : Bytes}
    (haligned : layout.Aligned file) {count : Nat} (h : count * 8 ≤ file.length) :
    pageCount count layout.entriesPerPage * layout.pageSize ≤ file.length := by
  obtain ⟨pages, hpages⟩ := Nat.dvd_of_mod_eq_zero haligned.mod_eq
  rw [hpages, Nat.mul_comm layout.pageSize]
  apply Nat.mul_le_mul_right
  rw [pageCount_le_iff layout.entriesPerPage_pos]
  rw [hpages, layout.pageSize_eq] at h
  have hsame : layout.entriesPerPage * 8 * pages = pages * layout.entriesPerPage * 8 := by ring
  omega

/-- The pages of a run of IDs. -/
theorem mem_pages_iff {perPage first last page : Nat} (hpos : 0 < perPage) (h : first < last) :
    page ∈ List.range' (first / perPage) ((last - 1) / perPage - first / perPage + 1) ↔
      ∃ id, first ≤ id ∧ id < last ∧ id / perPage = page := by
  have hle : first / perPage ≤ (last - 1) / perPage := Nat.div_le_div_right (by omega)
  rw [List.mem_range'_1]
  constructor
  · rintro ⟨hfirst, hlast⟩
    have hstart := (Nat.le_div_iff_mul_le hpos).mp (show page ≤ (last - 1) / perPage by omega)
    rcases Nat.le_total first (page * perPage) with hcase | hcase
    · exact ⟨page * perPage, hcase, by omega, Nat.mul_div_cancel _ hpos⟩
    · refine ⟨first, Nat.le_refl _, h, ?_⟩
      have := (Nat.le_div_iff_mul_le hpos).mpr hcase
      omega
  · rintro ⟨id, hfirst, hlast, rfl⟩
    have hlow := Nat.div_le_div_right (c := perPage) hfirst
    have hhigh := Nat.div_le_div_right (c := perPage) (show id ≤ last - 1 by omega)
    omega

section Insert

variable {system : System} {encoder : Encoder config Vector} {input : List (InputRow config Vector)}
  {plan : ListBatchPlan} {lists : Nat → MemoryList}

/-- The updates name exactly the new IDs. -/
theorem mem_keys_insertUpdates (hplanned : Planned encoder system.index input plan) {id : Nat} :
    id ∈ (insertUpdates plan (generateRows encoder system.index.nextId input) lists).map Prod.fst ↔
      system.index.nextId ≤ id ∧ id < system.index.nextId + input.length := by
  constructor
  · intro hmem
    obtain ⟨update, hupdate, rfl⟩ := List.mem_map.mp hmem
    obtain ⟨l, hl, k, row, hrow, rfl⟩ := mem_insertUpdates.mp hupdate
    rw [hplanned.segment l hl] at hrow
    obtain ⟨p, -, hp⟩ := mem_batchRows.mp (List.mem_of_getElem? hrow)
    exact generateRows_new hplanned.fits (List.mem_of_getElem? hp)
  · rintro ⟨hfirst, hlast⟩
    have hp : id - system.index.nextId < input.length := by omega
    have hrow := List.getElem?_eq_getElem (show id - system.index.nextId <
      (generateRows encoder system.index.nextId input).length by simpa using hp)
    have hassigned := List.getElem?_eq_getElem (show id - system.index.nextId <
      (assignmentsOf encoder input).length by simpa using hp)
    have hl := (hplanned.mem_touched _).mpr (List.mem_of_getElem? hassigned)
    obtain ⟨k, hk⟩ := List.mem_iff_getElem?.mp (mem_batchRows.mpr ⟨_, hassigned, hrow⟩)
    rw [← hplanned.segment _ hl] at hk
    refine List.mem_map.mpr ⟨_, mem_insertUpdates.mpr ⟨_, hl, k, _, hk, rfl⟩, ?_⟩
    rw [generateRows_id encoder hplanned.fits hrow]
    omega

/-- The formulas of an insertion count the pages of the new IDs, and those of
them the directory has. -/
theorem insertDirectoryStats_eq {directory : DirectoryLayout} {nextId newNextId length : Nat}
    (hnew : nextId < newNextId)
    (hlength : length = pageCount nextId directory.entriesPerPage * directory.pageSize) :
    let first := nextId / directory.entriesPerPage
    let pages := List.range' first ((newNextId - 1) / directory.entriesPerPage - first + 1)
    (⟨0, 0, pages.countP (· * directory.pageSize < length), pages.length, 0⟩ : UpdateStats) =
      insertDirectoryStats directory nextId newNextId := by
  intro first pages
  have hle : first ≤ (newNextId - 1) / directory.entriesPerPage :=
    Nat.div_le_div_right (by omega)
  have hpos : 0 < directory.pageSize := DirectoryLayout.directory_pageSize_pos
  have hcount : pages.countP (· * directory.pageSize < length) =
      pages.countP (· < pageCount nextId directory.entriesPerPage) := by
    apply List.countP_congr
    intro page _
    simp only [hlength, decide_eq_true_eq]
    exact Nat.mul_lt_mul_right hpos
  rw [hcount, countP_range'_lt, List.length_range', insertDirectoryStats]
  simp only [UpdateStats.mk.injEq, true_and, and_true]
  split
  next hpartial => omega
  next hfull => omega

/-- The phases of an insertion that returned. -/
theorem insertBatch_eq_ok {env : Environment} (hne : input ≠ []) {system' : System}
    {ids : List Nat} (h : insertBatch encoder env system input = (system', .ok ids)) :
    ∃ plan lists records directory published,
      planInsert encoder system.index input = .ok plan ∧
      parallelFor (env.team .reserve) id (fun listNo list => list.reserve config.codes
        (segmentRows plan (generateRows encoder system.index.nextId input) listNo).length)
        plan.touchedLists system.index.lists = (lists, .ok ()) ∧
      parallelFor (env.team .appendRecords) id (fun listNo file =>
        config.records.appendRecords env.faults listNo (lists listNo).logicalSize
          ((segmentRows plan (generateRows encoder system.index.nextId input) listNo).map
            Row.record) file) plan.touchedLists system.storage.records = (records, .ok ()) ∧
      config.directory.writeBatch env.faults system.storage.directory (insertUpdates plan
        (generateRows encoder system.index.nextId input) lists) = (directory, .ok ()) ∧
      parallelFor false id (fun listNo (list : MemoryList) => list.append
        ((segmentRows plan (generateRows encoder system.index.nextId input) listNo).map
          Row.posting)) plan.touchedLists lists = (published, .ok ()) ∧
      system' = ⟨{ system.index with
        lists := published
        nextId := system.index.nextId + input.length
        activeCount := system.index.activeCount + input.length }, ⟨records, directory⟩⟩ ∧
      ids = (generateRows encoder system.index.nextId input).map Row.id := by
  rw [insertBatch, if_neg hne] at h
  split at h
  next => cases h
  next plan hplan =>
  dsimp only at h
  split at h
  next => cases h
  next lists hreserve =>
  split at h
  next => cases h
  next records happend =>
  split at h
  next => cases h
  next directory hwrite =>
  split at h
  next => cases h
  next published hpublish =>
  cases h
  exact ⟨plan, lists, records, directory, published, hplan, hreserve, happend, hwrite, hpublish,
    rfl, rfl⟩

/-- Opening every touched list once and appending to it. -/
theorem sum_opened_add {ι : Type} (stats : ι → UpdateStats) (items : List ι) :
    (items.map fun item => (⟨0, 0, 0, 0, 1⟩ : UpdateStats) + stats item).sum =
      ⟨0, 0, 0, 0, items.length⟩ + (items.map stats).sum := by
  rw [List.sum_map_add, List.map_const', List.sum_replicate, UpdateStats.nsmul_mk]
  simp

/-- The appends open each touched list once and issue the predicted page calls. -/
theorem costs_appendLists (hplanned : Planned encoder system.index input plan) {faults : IoFaults}
    {team : Bool} {records : Nat → Option Bytes}
    (h : parallelFor team id (fun listNo file =>
      config.records.appendRecords faults listNo (lists listNo).logicalSize
        ((segmentRows plan (generateRows encoder system.index.nextId input) listNo).map
          Row.record) file) plan.touchedLists system.storage.records = (records, .ok ())) :
    Logged.Costs IoCall.counts (visitListsLogged id (fun listNo file =>
      config.records.appendRecordsLogged faults listNo (lists listNo).logicalSize
        ((segmentRows plan (generateRows encoder system.index.nextId input) listNo).map
          Row.record) file) plan.touchedLists system.storage.records) records
      (⟨0, 0, 0, 0, plan.touchedLists.length⟩ +
        insertRecordStats plan (generateRows encoder system.index.nextId input) lists) := by
  have hlists : (plan.touchedLists.map id).Nodup := by
    rw [List.map_id]
    exact hplanned.nodup
  rw [insertRecordStats, ← sum_opened_add]
  refine costs_visitLists hlists h fun listNo hlist file hfile => ?_
  -- every touched list receives a row
  have hsegment : (segmentRows plan (generateRows encoder system.index.nextId input) listNo).map
      Row.record ≠ [] := by
    rw [hplanned.segment listNo hlist, ne_eq, List.map_eq_nil_iff]
    exact batchRows_ne_nil (by simp) ((hplanned.mem_touched listNo).mp hlist)
  have happended := RecordLayout.costs_appendRecords hsegment hfile
  rwa [List.length_map] at happended

/-- A page with a new ID is a page with an update. -/
theorem exists_id_iff (hplanned : Planned encoder system.index input plan) {page : Nat} :
    (∃ id, system.index.nextId ≤ id ∧ id < system.index.nextId + input.length ∧
        id / config.directory.entriesPerPage = page) ↔
      ∃ update ∈ insertUpdates plan (generateRows encoder system.index.nextId input) lists,
        config.directory.pageOf update.1 = page := by
  constructor
  · rintro ⟨id, hfirst, hlast, hpage⟩
    obtain ⟨update, hupdate, rfl⟩ := List.mem_map.mp
      ((@mem_keys_insertUpdates _ _ _ _ _ plan lists hplanned id).mpr ⟨hfirst, hlast⟩)
    exact ⟨update, hupdate, hpage⟩
  · rintro ⟨update, hupdate, hpage⟩
    obtain ⟨hfirst, hlast⟩ := (mem_keys_insertUpdates hplanned).mp (List.mem_map_of_mem hupdate)
    exact ⟨update.1, hfirst, hlast, hpage⟩

/-- The directory write of an insertion issues the predicted page calls, and
leaves the pages of the issued IDs. -/
theorem costs_insertDirectory (hplanned : Planned encoder system.index input plan)
    (hne : input ≠ []) (haligned : config.directory.Aligned system.storage.directory)
    (hpaged : system.Paged config) {faults : IoFaults} {directory : Bytes}
    (h : config.directory.writeBatch faults system.storage.directory (insertUpdates plan
      (generateRows encoder system.index.nextId input) lists) = (directory, .ok ())) :
    Logged.Costs IoCall.counts (config.directory.writeBatchLogged faults system.storage.directory
        (insertUpdates plan (generateRows encoder system.index.nextId input) lists)) directory
        (insertDirectoryStats config.directory system.index.nextId
          (system.index.nextId + input.length)) ∧
      directory.length ≤ pageCount (system.index.nextId + input.length)
        config.directory.entriesPerPage * config.directory.pageSize := by
  have hpos := config.directory.entriesPerPage_pos
  have hnew : system.index.nextId < system.index.nextId + input.length :=
    Nat.lt_add_of_pos_right (List.length_pos_of_ne_nil hne)
  have hpages := fun page => @mem_pages_iff _ _ _ page hpos hnew
  obtain ⟨hcosts, hlength⟩ := DirectoryLayout.costs_writeBatch haligned
    (List.pairwise_lt_range' 1) (fun page => (hpages page).trans (exists_id_iff hplanned)) h
  refine ⟨hcosts.congr (insertDirectoryStats_eq hnew hpaged), hlength _ ?_ fun page hpage => ?_⟩
  · rw [hpaged]
    exact Nat.mul_le_mul_right _ (pageCount_mono hpos (Nat.le_of_lt hnew))
  · obtain ⟨id, -, hlast, rfl⟩ := (hpages page).mp hpage
    rw [← Nat.succ_mul]
    exact Nat.mul_le_mul_right _ (div_lt_pageCount hpos hlast)

/-- `insert_batch` adds what it has read, written and opened. -/
theorem costs_insertBatch {env : Environment} {rows : Rows config} {extra : Nat → Nat}
    (hstored : Stored system rows extra) (hpaged : system.Paged config) {system' : System}
    {ids : List Nat} (h : insertBatch encoder env system input = (system', .ok ids))
    (stats : UpdateStats) : ∃ total, Logged.Costs IoCall.counts
      (insertBatchLogged encoder env system input stats) (system', ids, stats + total) total := by
  by_cases hne : input = []
  · subst hne
    rw [insertBatch, if_pos rfl] at h
    cases h
    refine ⟨0, ?_⟩
    rw [add_zero]
    exact Logged.costs_pure _
  obtain ⟨plan, lists, records, directory, published, hplan, hreserve, happend, hwrite, hpublish,
    rfl, rfl⟩ := insertBatch_eq_ok hne h
  have hplanned := planned_of_eq_ok hplan
  have hrecords := costs_appendLists hplanned happend
  have hdirectory := (costs_insertDirectory hplanned hne hstored.aligned hpaged hwrite).1
  refine ⟨⟨0, 0, 0, 0, plan.touchedLists.length⟩ +
    insertRecordStats plan (generateRows encoder system.index.nextId input) lists +
    insertDirectoryStats config.directory system.index.nextId
      (system.index.nextId + input.length), ?_⟩
  unfold insertBatchLogged
  rw [← add_assoc stats]
  refine Logged.Costs.guard hne (Logged.Costs.skip (Logged.costs_quiet hplan) (Logged.Costs.skip
    (Logged.costs_quiet (Logged.returned_eq_ok hreserve)) (hrecords.bind (hdirectory.finish ?_))))
  exact Logged.Costs.skip (Logged.costs_quiet (Logged.returned_eq_ok hpublish))
    (Logged.costs_pure _)

/-- An insertion appends the pages its new IDs lack. -/
theorem Paged.insert {env : Environment} {rows : Rows config} {extra : Nat → Nat}
    (hstored : Stored system rows extra) (hlocated : Located system rows)
    (hpaged : system.Paged config) {system' : System} {ids : List Nat}
    (h : insertBatch encoder env system input = (system', .ok ids)) : system'.Paged config := by
  by_cases hne : input = []
  · subst hne
    rw [insertBatch, if_pos rfl] at h
    cases h
    exact hpaged
  have hdone : InsertDone encoder input system rows extra system' := by
    rcases insertBatch_spec env hstored encoder input with ⟨-, hdone⟩ | ⟨error, extra', herror, -⟩
    · rwa [h] at hdone
    · rw [h] at herror
      cases herror
  obtain ⟨plan, lists, records, directory, published, hplan, -, -, hwrite, -, rfl, rfl⟩ :=
    insertBatch_eq_ok hne h
  have hupper := (costs_insertDirectory (planned_of_eq_ok hplan) hne hstored.aligned hpaged
    hwrite).2
  exact Nat.le_antisymm hupper (hdone.stored.aligned.pageCount_le (hdone.located hlocated).covered)

end Insert

/-! ### Deletions -/

section Erase

variable {system : System} {rows : Rows config} {extra : Nat → Nat} {ids : List Nat}
  {prepared : List (PreparedDeletion config)}

/-- Preparing a deletion opens its list once and reads each page it needs once. -/
theorem costs_prepareDeletion {faults : IoFaults} {plan : DeletionPlan}
    {deletion : PreparedDeletion config}
    (h : prepareDeletion config faults system plan = .ok deletion) :
    Logged.Costs IoCall.counts (prepareDeletionLogged config faults system plan) deletion
      ⟨deletion.pagesRead, 0, 0, 0, 1⟩ := by
  obtain ⟨⟨moves, recordMutation⟩, hrecords, h⟩ := bind_eq_ok.mp h
  obtain ⟨blocks, hblocks, h⟩ := bind_eq_ok.mp h
  obtain ⟨mutation, hprepare, hrecords⟩ := bind_eq_ok.mp hrecords
  rw [guard_eq_ok] at hrecords
  obtain ⟨hids, hrecords⟩ := hrecords
  obtain ⟨rfl, rfl⟩ := Prod.mk.inj (Except.ok.inj hrecords)
  obtain rfl := Except.ok.inj h
  refine Logged.Costs.finish ((RecordLayout.costs_prepare hprepare).finish
    (Logged.Costs.guard hids (Logged.costs_pure _))) ?_
  exact Logged.Costs.skip (Logged.costs_quiet hblocks) (Logged.costs_pure _)

/-- The preparation of a batch adds what it has read and opened. -/
theorem costs_planErase (hcast : config.directory.entriesPerPage < 2 ^ 32) {faults : IoFaults}
    (h : planErase config faults system ids = .ok prepared) (stats : UpdateStats) :
    ∃ total, Logged.Costs IoCall.counts (planEraseLogged config faults system ids stats)
      (prepared, stats + total) total := by
  obtain ⟨locations, hread, h⟩ := bind_eq_ok.mp h
  obtain ⟨assignments, hassign, h⟩ := bind_eq_ok.mp h
  obtain ⟨plan, hgroup, h⟩ := bind_eq_ok.mp h
  obtain ⟨plans, hplans, h⟩ := bind_eq_ok.mp h
  obtain ⟨result, hprepare, h⟩ := bind_eq_ok.mp h
  obtain ⟨movedLocations, hmoved, h⟩ := bind_eq_ok.mp h
  obtain ⟨_, hcheck, h⟩ := bind_eq_ok.mp h
  obtain rfl : result = prepared := Except.ok.inj h
  have hprepared := Logged.costs_mapAll hprepare fun plan _ deletion hdeletion =>
    costs_prepareDeletion hdeletion
  have hmovedReads := DirectoryLayout.costs_readBatch hcast hmoved
  refine ⟨⟨0, 0, uniquePages ids config.directory.entriesPerPage, 0, 0⟩ +
    ((result.map fun deletion => ⟨deletion.pagesRead, 0, 0, 0, 1⟩).sum +
      ⟨0, 0, uniquePages (result.flatMap fun deletion => deletion.moves.map
        PreparedMove.sourceId) config.directory.entriesPerPage, 0, 0⟩), ?_⟩
  refine Logged.Costs.bind (DirectoryLayout.costs_readBatch hcast hread) (Logged.Costs.skip
    (Logged.costs_quiet hassign) (Logged.Costs.skip (Logged.costs_quiet hgroup)
      (Logged.Costs.skip (Logged.costs_quiet hplans) (Logged.Costs.bind hprepared
        (Logged.Costs.finish hmovedReads (Logged.Costs.skip (Logged.costs_quiet hcheck) ?_))))))
  split
  next hnone =>
    rw [hnone, uniquePages_nil, ← UpdateStats.zero_def, add_zero, ← add_assoc]
    exact Logged.costs_pure _
  next =>
    rw [← add_assoc, ← add_assoc]
    exact Logged.costs_pure _

/-- The commits open each list once and write the pages of its mutation. -/
theorem costs_commitLists (herases : Erases system rows extra ids prepared) {faults : IoFaults}
    {team : Bool} {records : Nat → Option Bytes}
    (h : parallelFor team (fun deletion : PreparedDeletion config => deletion.plan.listNo)
      (fun deletion file => config.records.commitPreparedMutation faults deletion.plan.listNo
        deletion.recordMutation file) prepared system.storage.records = (records, .ok ())) :
    Logged.Costs IoCall.counts
      (visitListsLogged (fun deletion : PreparedDeletion config => deletion.plan.listNo)
        (fun deletion file => config.records.commitPreparedMutationLogged faults
          deletion.plan.listNo deletion.recordMutation file) prepared system.storage.records) records
      ⟨0, (prepared.map PreparedDeletion.pagesWritten).sum, 0, 0, prepared.length⟩ := by
  have hsum : ∀ items : List (PreparedDeletion config),
      (items.map fun deletion => (⟨0, deletion.pagesWritten, 0, 0, 1⟩ : UpdateStats)).sum =
        ⟨0, (items.map PreparedDeletion.pagesWritten).sum, 0, 0, items.length⟩ := by
    intro items
    induction items with
    | nil => rfl
    | cons item rest ih =>
        rw [List.map_cons, List.sum_cons, ih, List.map_cons, List.sum_cons, List.length_cons,
          UpdateStats.mk_add_mk, Nat.add_comm 1]
  rw [← hsum]
  exact costs_visitLists herases.nodup h fun deletion _ file hfile => RecordLayout.costs_commit hfile

/-- The directory write of a deletion reads and writes the pages of its updates,
all of which the directory has. -/
theorem costs_eraseDirectory (hcast : config.directory.entriesPerPage < 2 ^ 32)
    (hstored : Stored system rows extra) (hlocated : Located system rows)
    (herases : Erases system rows extra ids prepared) {faults : IoFaults} {directory : Bytes}
    (h : config.directory.writeBatch faults system.storage.directory (eraseUpdates prepared) =
      (directory, .ok ())) :
    Logged.Costs IoCall.counts (config.directory.writeBatchLogged faults system.storage.directory
        (eraseUpdates prepared)) directory
        ⟨0, 0, uniquePages ((eraseUpdates prepared).map Prod.fst) config.directory.entriesPerPage,
          uniquePages ((eraseUpdates prepared).map Prod.fst) config.directory.entriesPerPage, 0⟩ ∧
      directory.length ≤ system.storage.directory.length := by
  obtain ⟨keys, hkeys, hmem, -⟩ := DirectoryLayout.exists_update_keys (eraseUpdates prepared)
  have hunique : uniquePages ((eraseUpdates prepared).map Prod.fst)
      config.directory.entriesPerPage = keys.length := by
    refine uniquePages_eq hcast hkeys fun page => (hmem page).trans ?_
    simp only [List.mem_map, exists_exists_and_eq_and]
    rfl
  have hinside : ∀ page ∈ keys, page * config.directory.pageSize + config.directory.pageSize ≤
      system.storage.directory.length := by
    intro page hpage
    obtain ⟨update, hupdate, rfl⟩ := (hmem page).mp hpage
    obtain ⟨deletion, -, offset, row, hrow, hid, -⟩ :=
      herases.row_of_key (List.mem_map_of_mem hupdate)
    have hlt := (hlocated.located _ offset row hrow).1
    have hcovered := hlocated.covered
    exact hstored.aligned.page_le_of_entry (by omega)
  have hall : keys.countP (· * config.directory.pageSize < system.storage.directory.length) =
      keys.length := by
    rw [List.countP_eq_length]
    intro page hpage
    have hle := hinside page hpage
    have hpos : 0 < config.directory.pageSize := DirectoryLayout.directory_pageSize_pos
    exact decide_eq_true (by omega)
  obtain ⟨hcosts, hlength⟩ := DirectoryLayout.costs_writeBatch hstored.aligned hkeys hmem h
  rw [hall, ← hunique] at hcosts
  exact ⟨hcosts, hlength _ (Nat.le_refl _) hinside⟩

/-- The phases of a deletion that returned. -/
theorem eraseBatch_eq_ok {env : Environment} (hne : ids ≠ []) {system' : System} {count : Nat}
    (h : eraseBatch config env system ids = (system', .ok count)) :
    ¬system.index.activeCount < ids.length ∧ ids.Nodup ∧ ∃ prepared records directory,
      planErase config env.faults system ids = .ok prepared ∧
      parallelFor (env.team .commitRecords) (fun deletion : PreparedDeletion config =>
        deletion.plan.listNo) (fun deletion file => config.records.commitPreparedMutation env.faults
          deletion.plan.listNo deletion.recordMutation file) prepared system.storage.records =
        (records, .ok ()) ∧
      config.directory.writeBatch env.faults system.storage.directory (eraseUpdates prepared) =
        (directory, .ok ()) ∧
      system' = ⟨{ system.index with
        lists := rewritten prepared system.index.lists
        activeCount := system.index.activeCount - ids.length }, ⟨records, directory⟩⟩ ∧
      count = ids.length := by
  rw [eraseBatch, if_neg hne] at h
  split at h
  next => cases h
  next hactive =>
  split at h
  next => cases h
  next hnodup =>
  split at h
  next => cases h
  next prepared hplan =>
  split at h
  next => cases h
  next records hcommit =>
  split at h
  next => cases h
  next directory hwrite =>
  cases h
  exact ⟨hactive, not_not.mp hnodup, prepared, records, directory, hplan, hcommit, hwrite, rfl, rfl⟩

/-- `erase_batch` adds what it has read, written and opened. -/
theorem costs_eraseBatch (hcast : config.directory.entriesPerPage < 2 ^ 32) {env : Environment}
    (hstored : Stored system rows extra) (hlocated : Located system rows) {system' : System}
    {count : Nat} (h : eraseBatch config env system ids = (system', .ok count))
    (stats : UpdateStats) : ∃ total, Logged.Costs IoCall.counts
      (eraseBatchLogged config env system ids stats) (system', count, stats + total) total := by
  by_cases hne : ids = []
  · subst hne
    rw [eraseBatch, if_pos rfl] at h
    cases h
    refine ⟨0, ?_⟩
    rw [add_zero]
    exact Logged.costs_pure _
  obtain ⟨hactive, hnodup, prepared, records, directory, hplan, hcommit, hwrite, rfl, rfl⟩ :=
    eraseBatch_eq_ok hne h
  have herases := hstored.planErase_eq_ok hnodup hplan
  obtain ⟨planned, hplanned⟩ := costs_planErase hcast hplan stats
  have hrecords := costs_commitLists herases hcommit
  have hdirectory := (costs_eraseDirectory hcast hstored hlocated herases hwrite).1
  refine ⟨planned + (⟨0, (prepared.map PreparedDeletion.pagesWritten).sum, 0, 0, prepared.length⟩ +
    ⟨0, 0, uniquePages ((eraseUpdates prepared).map Prod.fst) config.directory.entriesPerPage,
      uniquePages ((eraseUpdates prepared).map Prod.fst) config.directory.entriesPerPage, 0⟩), ?_⟩
  unfold eraseBatchLogged
  rw [← add_assoc stats, ← add_assoc (stats + planned)]
  exact Logged.Costs.guard hne (Logged.Costs.guard hactive (Logged.Costs.guard
    (not_not.mpr hnodup) (hplanned.bind (hrecords.bind
      (hdirectory.finish (Logged.costs_pure _))))))

/-- A deletion adds no page to the directory. -/
theorem Paged.erase (hcast : config.directory.entriesPerPage < 2 ^ 32) {env : Environment}
    (hstored : Stored system rows extra) (hlocated : Located system rows)
    (hpaged : system.Paged config) {system' : System} {count : Nat}
    (h : eraseBatch config env system ids = (system', .ok count)) : system'.Paged config := by
  by_cases hne : ids = []
  · subst hne
    rw [eraseBatch, if_pos rfl] at h
    cases h
    exact hpaged
  obtain ⟨-, hnodup, prepared, records, directory, hplan, -, hwrite, rfl, -⟩ :=
    eraseBatch_eq_ok hne h
  have hupper := (costs_eraseDirectory hcast hstored hlocated
    (hstored.planErase_eq_ok hnodup hplan) hwrite).2
  obtain ⟨done, rest, -, hwritten, -⟩ := DirectoryLayout.writeBatch_written env.faults hstored.aligned
    (eraseUpdates prepared)
  rw [hwrite] at hwritten
  exact (Nat.le_antisymm hupper hwritten.grows).trans hpaged

end Erase

/-! ### Runs -/

theorem erase_eq_ok {encoder : Encoder config Vector} {env : Environment} {system : System}
    {erased ids : List Nat}
    (h : (Operation.run encoder env system (.erase erased)).2 = .ok ids) :
    ids = [] ∧ ∃ count, (eraseBatch config env system erased).2 = .ok count := by
  rw [Operation.run] at h
  cases hresult : (eraseBatch config env system erased).2 with
  | error error => rw [hresult] at h; cases h
  | ok count =>
      rw [hresult] at h
      cases h
      exact ⟨rfl, count, rfl⟩

/-- Every state of a run of calls that return has the pages of its IDs. -/
theorem Reachable.paged (hcast : config.directory.entriesPerPage < 2 ^ 32)
    {encoder : Encoder config Vector} {system : System} {ledger : Ledger config}
    (hreachable : Reachable encoder (Succeeds encoder) system ledger) : system.Paged config := by
  induction hreachable with
  | fresh => exact paged_fresh config
  | @step system ledger env operation hprevious hstep ih =>
      obtain ⟨rows, hagrees, -⟩ := hprevious.agrees (fun _ => True)
        fun _ _ _ hrule => ⟨Or.inl hrule, fun _ _ => trivial⟩
      obtain ⟨ids, hok⟩ := hstep
      cases operation with
      | insert input => exact Paged.insert hagrees.stored hagrees.located ih (Prod.ext rfl hok)
      | erase erased =>
          obtain ⟨-, count, hcount⟩ := erase_eq_ok hok
          exact Paged.erase hcast hagrees.stored hagrees.located ih (Prod.ext rfl hcount)

/-- An update that returns, from any state that calls which returned lead to:
the counters it keeps grow by the page reads, the page writes and the list-file
opens of its log. Whichever calls fail, the update without a log is the logged
one; it throws when a call of the log fails and does the same when none does. -/
theorem counters_equal_calls (encoder : Encoder config Vector)
    (hcast : config.directory.entriesPerPage < 2 ^ 32) {system : System} {ledger : Ledger config}
    (hreachable : Reachable encoder (Succeeds encoder) system ledger) (env : Environment)
    (operation : Operation config Vector) {ids : List Nat}
    (hok : (operation.run encoder env system).2 = .ok ids) (stats : UpdateStats) :
    ∃ calls, operation.runLogged encoder env system stats =
        .ok (((operation.run encoder env system).1, ids, stats + UpdateStats.ofCalls calls),
          calls) ∧
      ∀ faults : IoFaults,
        Logged.outcome (operation.run encoder { env with faults } system) =
            Except.map (fun logged => (logged.1.1, logged.1.2.1))
              (operation.runLogged encoder { env with faults } system stats) ∧
          ((∃ call ∈ calls, faults call = true) →
            ∃ error, (operation.run encoder { env with faults } system).2 = .error error) ∧
          ((∀ call ∈ calls, faults call = false) →
            operation.run encoder { env with faults } system =
              operation.run encoder env system) := by
  obtain ⟨rows, hagrees, -⟩ := hreachable.agrees (fun _ => True)
    fun _ _ _ hrule => ⟨Or.inl hrule, fun _ _ => trivial⟩
  have hcosts : ∃ total, Logged.Costs IoCall.counts (operation.runLogged encoder env system stats)
      ((operation.run encoder env system).1, ids, stats + total) total := by
    cases operation with
    | insert input =>
        exact costs_insertBatch hagrees.stored (hreachable.paged hcast) (Prod.ext rfl hok) stats
    | erase erased =>
        obtain ⟨rfl, count, hcount⟩ := erase_eq_ok hok
        obtain ⟨total, herase⟩ := costs_eraseBatch hcast hagrees.stored hagrees.located
          (Prod.ext rfl hcount) stats
        exact ⟨total, herase.finish (Logged.costs_pure _)⟩
  obtain ⟨total, calls, hrun, rfl⟩ := hcosts
  have htraces := operation.traces_run encoder env system stats
  refine ⟨calls, by rw [← sum_counts]; exact hrun, fun faults => ⟨(htraces.erase faults).symm,
    fun hfails => ?_, fun hnone => ?_⟩⟩
  · obtain ⟨call, hcall, hfails⟩ := hfails
    obtain ⟨error, herror⟩ := htraces.plain_fails env.faults hrun hcall hfails
    exact ⟨error, Logged.outcome_eq_error.mp herror⟩
  · have hreturns := Logged.outcome_eq_ok.mp (htraces.plain_returns env.faults hrun hnone)
    have hplain : operation.run encoder env system = ((operation.run encoder env system).1, .ok ids) :=
      Prod.ext rfl hok
    exact hreturns.trans hplain.symm

/-- The deletion that moves a row, and an insertion into a page that has room.
The log of the deletion has the second directory page, so the deletion throws
when that write fails. -/
theorem counters_equal_calls_moved_row :
    (∃ calls, Operation.runLogged byteEncoder .quiet fiveRows 0 (.erase [0]) =
        .ok ((fourRows, [], ⟨2, 1, 4, 2, 2⟩), calls) ∧
      UpdateStats.ofCalls calls = ⟨2, 1, 4, 2, 2⟩ ∧ IoCall.writeDirectory 2 ∈ calls ∧
      ∀ faults : IoFaults, faults (.writeDirectory 2) = true → ∃ error,
        (Operation.run byteEncoder { Environment.quiet with faults } fiveRows (.erase [0])).2 =
          .error error) ∧
    ∃ calls, Operation.runLogged byteEncoder .quiet fiveRows 0 (.insert [byteRow 0x78]) =
        .ok (((Operation.run byteEncoder .quiet fiveRows (.insert [byteRow 0x78])).1, [5],
          ⟨1, 1, 1, 1, 1⟩), calls) ∧
      UpdateStats.ofCalls calls = ⟨1, 1, 1, 1, 1⟩ := by
  have hreachable := @reachable_fiveRows (Succeeds byteEncoder) ⟨_, run_fiveBytes⟩
  constructor
  · obtain ⟨calls, hrun, hfaults⟩ := counters_equal_calls byteEncoder (by decide) hreachable .quiet
      (.erase [0]) run_eraseFirst 0
    have hlog : Except.map (fun logged => (logged.1.2.2, UpdateStats.ofCalls logged.2,
        decide (IoCall.writeDirectory 2 ∈ logged.2)))
        (Operation.runLogged byteEncoder .quiet fiveRows 0 (.erase [0])) =
          .ok (⟨2, 1, 4, 2, 2⟩, ⟨2, 1, 4, 2, 2⟩, true) := by
      decide +kernel
    rw [hrun] at hlog
    obtain ⟨hstats, hlog⟩ := Prod.mk.inj (Except.ok.inj hlog)
    obtain ⟨hcounts, hmem⟩ := Prod.mk.inj hlog
    refine ⟨calls, ?_, hcounts, of_decide_eq_true hmem, fun faults hfails =>
      (hfaults faults).2.1 ⟨_, of_decide_eq_true hmem, hfails⟩⟩
    rw [hrun, ← hstats]
    rfl
  · obtain ⟨calls, hrun, -⟩ := counters_equal_calls byteEncoder (by decide) hreachable .quiet
      (.insert [byteRow 0x78]) (show _ = Except.ok [5] by decide +kernel) 0
    have hlog : Except.map (fun logged => (logged.1.2.2, UpdateStats.ofCalls logged.2))
        (Operation.runLogged byteEncoder .quiet fiveRows 0 (.insert [byteRow 0x78])) =
          .ok (⟨1, 1, 1, 1, 1⟩, ⟨1, 1, 1, 1, 1⟩) := by
      decide +kernel
    rw [hrun] at hlog
    obtain ⟨hstats, hcounts⟩ := Prod.mk.inj (Except.ok.inj hlog)
    refine ⟨calls, ?_, hcounts⟩
    rw [hrun, ← hstats]

end Recast
