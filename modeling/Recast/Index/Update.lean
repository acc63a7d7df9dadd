import Recast.Index.State

/-!
# Batched insertion and deletion

`insert_batch` appends every touched list once; `erase_batch` fills the holes
of each touched list with its last survivors. Everything that can be checked is
checked before the first file changes.
-/

namespace Recast

open Foundation

variable {config : IndexConfig} {Vector : Type*}

/-! ### Insertion -/

/-- The rows of one segment of the grouped arrays. -/
def segmentRows (plan : ListBatchPlan) (rows : List (Row config)) (listNo : Nat) :
    List (Row config) :=
  select rows (plan.segment listNo)

/-- The rows of a batch under their generated IDs `next_id + i`. -/
def generateRows (encoder : Encoder config Vector) (nextId : Nat)
    (input : List (InputRow config Vector)) : List (Row config) :=
  input.mapIdx fun i row =>
    ⟨⟨(nextId + i) % 2 ^ 32, row.payload, Nat.mod_lt _ (by norm_num)⟩, encoder.encode row.vector⟩

/-- The checks of an insertion up to its grouping. -/
def planInsert (encoder : Encoder config Vector) (index : Index)
    (input : List (InputRow config Vector)) : Except Error ListBatchPlan := do
  let count := input.length
  if uint32Max < index.nextId ∨ uint32Max - index.nextId < count then
    .error (.overflow "prototype exhausts its 32-bit Logical ID space") else
  if sizeMax < index.activeCount + count then
    .error (.overflow "active external-list vector count overflows") else
  if sizeMax < count * config.codes.codeSize then
    .error (.overflow "inserted PQ4 code size overflows") else
  let plan ← groupByList (input.map fun row => (encoder.assign row.vector).toNat) config.nlist
  if sizeMax < count * config.records.payloadBytes then
    .error (.overflow "grouped exact payload size overflows") else
  return plan

/-- The directory entries of the new rows. -/
def insertUpdates (plan : ListBatchPlan) (rows : List (Row config)) (lists : Nat → MemoryList) :
    List DirectoryLayout.Update :=
  plan.touchedLists.flatMap fun listNo =>
    (segmentRows plan rows listNo).mapIdx fun i row =>
      (row.id, DiskLocation.ofSlot listNo ((lists listNo).logicalSize + i))

/-- `insert_batch`: the index and its files afterwards, and the new IDs. -/
def insertBatch (encoder : Encoder config Vector) (env : Environment) (system : System)
    (input : List (InputRow config Vector)) : System × Except Error (List Nat) :=
  let index := system.index
  let storage := system.storage
  if input = [] then (system, .ok []) else
  match planInsert encoder index input with
  | .error error => (system, .error error)
  | .ok plan =>
  let rows := generateRows encoder index.nextId input
  -- every packed destination is reserved before the first external append
  match parallelFor (env.team .reserve) id (fun listNo list =>
      list.reserve config.codes (segmentRows plan rows listNo).length)
      plan.touchedLists index.lists with
  | (lists, .error error) => (⟨{ index with lists }, storage⟩, .error error)
  | (lists, .ok ()) =>
  let updates := insertUpdates plan rows lists
  match parallelFor (env.team .appendRecords) id (fun listNo file =>
      config.records.appendRecords env.faults listNo (lists listNo).logicalSize
        ((segmentRows plan rows listNo).map Row.record) file)
      plan.touchedLists storage.records with
  | (records, .error error) => (⟨{ index with lists }, { storage with records }⟩, .error error)
  | (records, .ok ()) =>
  match config.directory.writeBatch env.faults storage.directory updates with
  | (directory, .error error) => (⟨{ index with lists }, ⟨records, directory⟩⟩, .error error)
  | (directory, .ok ()) =>
  match parallelFor false id (fun listNo (list : MemoryList) =>
      list.append ((segmentRows plan rows listNo).map Row.posting)) plan.touchedLists lists with
  | (lists, .error error) => (⟨{ index with lists }, ⟨records, directory⟩⟩, .error error)
  | (lists, .ok ()) =>
  (⟨{ index with
      lists
      nextId := index.nextId + input.length
      activeCount := index.activeCount + input.length }, ⟨records, directory⟩⟩,
    .ok (rows.map Row.id))

/-! ### Deletion -/

/-- `PreparedMove`. -/
structure PreparedMove where
  destination : Nat
  source : Nat
  sourceId : Nat

/-- The deletions of one list, before anything is read from it. -/
structure DeletionPlan where
  listNo : Nat
  oldSize : Nat
  newSize : Nat
  deletedIds : List Nat
  deletedOffsets : List Nat
  expectedDeletedIds : List Nat
  holes : List Nat
  sources : List Nat

/-- `PreparedDeletion`: a deletion ready to be committed. -/
structure PreparedDeletion (config : IndexConfig) where
  plan : DeletionPlan
  moves : List PreparedMove
  recordMutation : RecordLayout.PreparedRecordMutation
  blocks : MemoryList.PreparedBlocks config.codes

/-- The order of `std::pair`: by offset, then by ID. -/
def pairBefore (lhs rhs : Nat × Nat) : Prop := lhs.1 < rhs.1 ∨ lhs.1 = rhs.1 ∧ lhs.2 ≤ rhs.2

instance : DecidableRel pairBefore := fun lhs rhs =>
  inferInstanceAs (Decidable (lhs.1 < rhs.1 ∨ lhs.1 = rhs.1 ∧ lhs.2 ≤ rhs.2))

/-- The list numbers of the locations; each must name an occupied slot. -/
def locationLists (config : IndexConfig) (index : Index) :
    List DiskLocation → Except Error (List Nat)
  | [] => .ok []
  | location :: rest =>
      if location.active = false ∨ config.nlist ≤ location.listNo.toNat ∨
          (index.lists location.listNo.toNat).logicalSize ≤ location.offset.toNat then
        .error (.invalidArgument "deletion references an inactive location")
      else do
        let rest ← locationLists config index rest
        return location.listNo.toNat :: rest

/-- Match the holes of one list with its last survivors. -/
def planDeletion (index : Index) (deleted : List (Nat × DiskLocation)) (plan : ListBatchPlan)
    (listNo : Nat) : Except Error DeletionPlan :=
  let segment := select deleted (plan.segment listNo)
  let oldSize := (index.lists listNo).logicalSize
  if oldSize < segment.length then
    .error (.invalidArgument "too many rows deleted from one list") else
  let newSize := oldSize - segment.length
  let deletedRows := (segment.map fun row => (row.2.offset.toNat, row.1)).insertionSort pairBefore
  let deletedOffsets := deletedRows.map Prod.fst
  if hasAdjacentEqual deletedOffsets then
    .error (.invalidArgument "two Logical IDs resolve to one list slot") else
  let holes := holes newSize deletedOffsets
  let sources := sources oldSize newSize deletedOffsets
  if holes.length ≠ sources.length then
    .error (.logic "invalid external swap-with-last move plan") else
  .ok { listNo, oldSize, newSize, deletedIds := segment.map Prod.fst, deletedOffsets,
        expectedDeletedIds := deletedRows.map Prod.snd, holes, sources }

/-- Read the records of a deletion and check their IDs. -/
def prepareRecords (config : IndexConfig) (faults : IoFaults) (storage : Storage)
    (plan : DeletionPlan) :
    Except Error (List PreparedMove × RecordLayout.PreparedRecordMutation) := do
  let mutation ← config.records.prepareMovesAndTruncate faults plan.listNo plan.oldSize plan.newSize
    (plan.holes.zipWith RecordMove.mk plan.sources) (plan.deletedOffsets ++ plan.sources)
    (storage.records plan.listNo)
  if mutation.observedIds.take plan.deletedOffsets.length ≠ plan.expectedDeletedIds then
    .error (.logic "external record Logical ID disagrees with its directory entry") else
  return ((plan.holes.zip plan.sources).zipWith (fun move id => ⟨move.1, move.2, id⟩)
    (mutation.observedIds.drop plan.deletedOffsets.length), mutation)

/-- Prepare the records and the posting blocks of one list. -/
def prepareDeletion (config : IndexConfig) (faults : IoFaults) (system : System)
    (plan : DeletionPlan) : Except Error (PreparedDeletion config) := do
  let (moves, recordMutation) ← prepareRecords config faults system.storage plan
  let blocks ← (system.index.lists plan.listNo).prepareBlocks config.codes plan.oldSize plan.newSize
    (plan.holes.zip plan.sources)
  return { plan, moves, recordMutation, blocks }

/-- Whether the directory still maps every moved ID to its source. -/
def movesAgree (listNo : Nat) (moves : List PreparedMove) (locations : List DiskLocation) : Bool :=
  (moves.zip locations).all fun (move, location) =>
    location.active && location.listNo.toNat == listNo && location.offset.toNat == move.source

/-- Compare the locations read for all moved IDs, list by list. -/
def checkMoves : List (PreparedDeletion config) → List DiskLocation → Except Error Unit
  | [], _ => .ok ()
  | deletion :: rest, locations =>
      if movesAgree deletion.plan.listNo deletion.moves (locations.take deletion.moves.length) then
        checkMoves rest (locations.drop deletion.moves.length)
      else .error (.logic "external directory disagrees with a move source")

/-- All that `erase_batch` does before it changes a file. -/
def planErase (config : IndexConfig) (faults : IoFaults) (system : System) (ids : List Nat) :
    Except Error (List (PreparedDeletion config)) := do
  let locations ← config.directory.readBatch faults system.storage.directory ids
  let assignments ← locationLists config system.index locations
  let plan ← groupByList assignments config.nlist
  let plans ← plan.touchedLists.mapM (planDeletion system.index (ids.zip locations) plan)
  let prepared ← plans.mapM (prepareDeletion config faults system)
  let movedIds := prepared.flatMap fun deletion => deletion.moves.map PreparedMove.sourceId
  let movedLocations ← config.directory.readBatch faults system.storage.directory movedIds
  checkMoves prepared movedLocations
  return prepared

/-- The directory entries a deletion changes: tombstones and moved rows. -/
def eraseUpdates (prepared : List (PreparedDeletion config)) : List DirectoryLayout.Update :=
  prepared.flatMap fun deletion =>
    deletion.plan.deletedIds.map (fun id => (id, DiskLocation.tombstone)) ++
    deletion.moves.map fun move =>
      (move.sourceId, DiskLocation.ofSlot deletion.plan.listNo move.destination)

/-- `erase_batch`: the index and its files afterwards, and the number of rows
deleted. -/
def eraseBatch (config : IndexConfig) (env : Environment) (system : System) (ids : List Nat) :
    System × Except Error Nat :=
  let index := system.index
  let storage := system.storage
  if ids = [] then (system, .ok 0) else
  if index.activeCount < ids.length then
    (system, .error (.invalidArgument "invalid external-list deletion batch")) else
  if ¬ ids.Nodup then
    (system, .error (.invalidArgument "deletion batch contains duplicate Logical IDs")) else
  match planErase config env.faults system ids with
  | .error error => (system, .error error)
  | .ok prepared =>
  match parallelFor (env.team .commitRecords) (fun deletion : PreparedDeletion config =>
      deletion.plan.listNo) (fun deletion file =>
        config.records.commitPreparedMutation env.faults deletion.plan.listNo
          deletion.recordMutation file) prepared storage.records with
  | (records, .error error) => (⟨index, { storage with records }⟩, .error error)
  | (records, .ok ()) =>
  match config.directory.writeBatch env.faults storage.directory (eraseUpdates prepared) with
  | (directory, .error error) => (⟨index, ⟨records, directory⟩⟩, .error error)
  | (directory, .ok ()) =>
  let lists := prepared.foldl (fun lists deletion => Function.update lists deletion.plan.listNo
    ((lists deletion.plan.listNo).rewrite deletion.plan.newSize deletion.blocks)) index.lists
  (⟨{ index with lists, activeCount := index.activeCount - ids.length }, ⟨records, directory⟩⟩,
    .ok ids.length)

end Recast
