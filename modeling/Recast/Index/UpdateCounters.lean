import Recast.Storage.DirectoryCalls
import Recast.Index.Agreement

/-!
# The update counters

`insert_batch` and `erase_batch` with the system calls they issue and the
counters they keep. The counters come from sizes and IDs; the calls come from
the page loops of the two stores.
-/

namespace Recast

open Foundation

variable {config : IndexConfig} {Vector : Type*}

/-! ### The calls of an update -/

/-- The loop over the lists of an update. When the call succeeds every worker
finishes its lists; the log has them in list order. -/
def visitListsLogged {ι α : Type} (key : ι → Nat) (step : ι → α → Logged Error IoCall α) :
    List ι → (Nat → α) → Logged Error IoCall (Nat → α)
  | [], state => pure state
  | item :: rest, state => do
      let value ← step item (state (key item))
      visitListsLogged key step rest (Function.update state (key item) value)

/-- The page counts `insert_batch` adds up over the touched lists. -/
def insertRecordStats (plan : ListBatchPlan) (rows : List (Row config))
    (lists : Nat → MemoryList) : UpdateStats :=
  (plan.touchedLists.map fun listNo => config.records.appendStats (lists listNo).logicalSize
    (segmentRows plan rows listNo).length).sum

/-- The directory pages of the IDs `[next_id, new_next_id)`, and those of them
that exist. -/
def insertDirectoryStats (directory : DirectoryLayout) (nextId newNextId : Nat) : UpdateStats :=
  let firstDirectoryPage := nextId / directory.entriesPerPage
  let lastDirectoryPage := (newNextId - 1) / directory.entriesPerPage
  let oldDirectoryPages := pageCount nextId directory.entriesPerPage
  ⟨0, 0, if firstDirectoryPage < oldDirectoryPages then
      min (lastDirectoryPage + 1) oldDirectoryPages - firstDirectoryPage else 0,
    lastDirectoryPage - firstDirectoryPage + 1, 0⟩

/-- `insert_batch` with its calls and its counters. -/
def insertBatchLogged (encoder : Encoder config Vector) (env : Environment) (system : System)
    (input : List (InputRow config Vector)) (stats : UpdateStats) :
    Logged Error IoCall (System × List Nat × UpdateStats) :=
  let index := system.index
  let storage := system.storage
  if input = [] then pure (system, [], stats) else do
  let plan ← .quiet (planInsert encoder index input)
  let rows := generateRows encoder index.nextId input
  let lists ← .quiet (Logged.returned (parallelFor (env.team .reserve) id (fun listNo list =>
    list.reserve config.codes (segmentRows plan rows listNo).length) plan.touchedLists index.lists))
  let updates := insertUpdates plan rows lists
  let recordStats := insertRecordStats plan rows lists
  let directoryStats := insertDirectoryStats config.directory index.nextId
    (index.nextId + input.length)
  let records ← visitListsLogged id (fun listNo file =>
    config.records.appendRecordsLogged env.faults listNo (lists listNo).logicalSize
      ((segmentRows plan rows listNo).map Row.record) file) plan.touchedLists storage.records
  let stats := stats + (⟨0, 0, 0, 0, plan.touchedLists.length⟩ + recordStats)
  let directory ← config.directory.writeBatchLogged env.faults storage.directory updates
  let stats := stats + directoryStats
  let lists ← .quiet (Logged.returned (parallelFor false id (fun listNo (list : MemoryList) =>
    list.append ((segmentRows plan rows listNo).map Row.posting)) plan.touchedLists lists))
  pure (⟨{ index with
      lists
      nextId := index.nextId + input.length
      activeCount := index.activeCount + input.length }, ⟨records, directory⟩⟩,
    rows.map Row.id, stats)

def prepareRecordsLogged (config : IndexConfig) (faults : IoFaults) (storage : Storage)
    (plan : DeletionPlan) :
    Logged Error IoCall (List PreparedMove × RecordLayout.PreparedRecordMutation) := do
  let mutation ← config.records.prepareMovesAndTruncateLogged faults plan.listNo plan.oldSize
    plan.newSize (plan.holes.zipWith RecordMove.mk plan.sources)
    (plan.deletedOffsets ++ plan.sources) (storage.records plan.listNo)
  if mutation.observedIds.take plan.deletedOffsets.length ≠ plan.expectedDeletedIds then
    .fail (.logic "external record Logical ID disagrees with its directory entry") else
  pure ((plan.holes.zip plan.sources).zipWith (fun move id => ⟨move.1, move.2, id⟩)
    (mutation.observedIds.drop plan.deletedOffsets.length), mutation)

def prepareDeletionLogged (config : IndexConfig) (faults : IoFaults) (system : System)
    (plan : DeletionPlan) : Logged Error IoCall (PreparedDeletion config) := do
  let (moves, recordMutation) ← prepareRecordsLogged config faults system.storage plan
  let blocks ← .quiet ((system.index.lists plan.listNo).prepareBlocks config.codes plan.oldSize
    plan.newSize (plan.holes.zip plan.sources))
  pure { plan, moves, recordMutation, blocks }

/-- `pages_read`: a prepared mutation buffers each page it needs. -/
def PreparedDeletion.pagesRead (deletion : PreparedDeletion config) : Nat :=
  let plan := deletion.plan
  (config.records.neededPages plan.newSize (plan.holes.zipWith RecordMove.mk plan.sources)
    (plan.deletedOffsets ++ plan.sources)).length

/-- `pages_written`. -/
def PreparedDeletion.pagesWritten (deletion : PreparedDeletion config) : Nat :=
  deletion.recordMutation.writePages.length

/-- The preparation of `erase_batch` with its calls and its counters. -/
def planEraseLogged (config : IndexConfig) (faults : IoFaults) (system : System) (ids : List Nat)
    (stats : UpdateStats) : Logged Error IoCall (List (PreparedDeletion config) × UpdateStats) := do
  let entriesPerPage := config.directory.entriesPerPage
  let locations ← config.directory.readBatchLogged faults system.storage.directory ids
  let stats := stats + ⟨0, 0, uniquePages ids entriesPerPage, 0, 0⟩
  let assignments ← .quiet (locationLists config system.index locations)
  let plan ← .quiet (groupByList assignments config.nlist)
  let plans ← .quiet (plan.touchedLists.mapM (planDeletion system.index (ids.zip locations) plan))
  let prepared ← Logged.mapAll (prepareDeletionLogged config faults system) plans
  let stats := stats + (prepared.map fun deletion => ⟨deletion.pagesRead, 0, 0, 0, 1⟩).sum
  let movedIds := prepared.flatMap fun deletion => deletion.moves.map PreparedMove.sourceId
  let movedLocations ← config.directory.readBatchLogged faults system.storage.directory movedIds
  let stats := if movedIds = [] then stats else
    stats + ⟨0, 0, uniquePages movedIds entriesPerPage, 0, 0⟩
  .quiet (checkMoves prepared movedLocations)
  pure (prepared, stats)

/-- `erase_batch` with its calls and its counters. -/
def eraseBatchLogged (config : IndexConfig) (env : Environment) (system : System) (ids : List Nat)
    (stats : UpdateStats) : Logged Error IoCall (System × Nat × UpdateStats) :=
  let index := system.index
  let storage := system.storage
  if ids = [] then pure (system, 0, stats) else
  if index.activeCount < ids.length then
    .fail (.invalidArgument "invalid external-list deletion batch") else
  if ¬ ids.Nodup then
    .fail (.invalidArgument "deletion batch contains duplicate Logical IDs") else do
  let (prepared, stats) ← planEraseLogged config env.faults system ids stats
  let recordCommitPagesWritten := (prepared.map PreparedDeletion.pagesWritten).sum
  let directoryCommitPages :=
    uniquePages ((eraseUpdates prepared).map Prod.fst) config.directory.entriesPerPage
  let records ← visitListsLogged (fun deletion : PreparedDeletion config => deletion.plan.listNo)
    (fun deletion file => config.records.commitPreparedMutationLogged env.faults
      deletion.plan.listNo deletion.recordMutation file) prepared storage.records
  let stats := stats + ⟨0, recordCommitPagesWritten, 0, 0, prepared.length⟩
  let directory ← config.directory.writeBatchLogged env.faults storage.directory
    (eraseUpdates prepared)
  let stats := stats + ⟨0, 0, directoryCommitPages, directoryCommitPages, 0⟩
  let lists := prepared.foldl (fun lists deletion => Function.update lists deletion.plan.listNo
    ((lists deletion.plan.listNo).rewrite deletion.plan.newSize deletion.blocks)) index.lists
  pure (⟨{ index with lists, activeCount := index.activeCount - ids.length }, ⟨records, directory⟩⟩,
    ids.length, stats)

/-- Run one call with its calls and its counters. -/
def Operation.runLogged (encoder : Encoder config Vector) (env : Environment) (system : System)
    (stats : UpdateStats) :
    Operation config Vector → Logged Error IoCall (System × List Nat × UpdateStats)
  | .insert input => insertBatchLogged encoder env system input stats
  | .erase ids => do
      let (system, _, stats) ← eraseBatchLogged config env system ids stats
      pure (system, [], stats)

end Recast
