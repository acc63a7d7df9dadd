import Recast.Index.UpdateCounters

/-!
# The logs of the updates

Without its log an update is the update that runs without one, and its log
names the calls this update attempts: failing any of them makes it throw, and
failing only other calls changes nothing.
-/

namespace Recast

open Foundation

variable {config : IndexConfig} {Vector : Type*}

section Loops

variable {ι α : Type} {key : ι → Nat} {step : IoFaults → ι → α → Logged Error IoCall α}
  {plain : IoFaults → ι → α → α × Except Error Unit}

theorem returned_parallelFor_cons (team : Bool) (key : ι → Nat)
    (step : ι → α → α × Except Error Unit) (item : ι) (rest : List ι) (state : Nat → α) :
    Logged.returned (parallelFor team key step (item :: rest) state) =
      Logged.returned (step item (state (key item))) >>= fun value =>
        Logged.returned (parallelFor team key step rest
          (Function.update state (key item) value)) := by
  rw [parallelFor]
  cases step item (state (key item)) with
  | mk value result =>
      cases result with
      | error error => rfl
      | ok _ => rfl

/-- A loop over lists attempts what its iterations attempt, whatever the team. -/
theorem traces_visitLists (team : Bool) (hstep : ∀ item value,
      Logged.Traces id (fun faults => step faults item value)
        fun faults => Logged.returned (plain faults item value))
    (items : List ι) (state : Nat → α) :
    Logged.Traces id (fun faults => visitListsLogged key (step faults) items state)
      fun faults => Logged.returned (parallelFor team key (plain faults) items state) := by
  induction items generalizing state with
  | nil => exact Logged.traces_pure state
  | cons item rest ih =>
      exact Logged.Traces.congr (.bind (hstep item (state (key item))) fun value => ih _)
        fun faults => returned_parallelFor_cons team key (plain faults) item rest state

end Loops

/-! ### Insertions -/

theorem traces_insertBatch (encoder : Encoder config Vector) (env : Environment) (system : System)
    (input : List (InputRow config Vector)) (stats : UpdateStats) :
    Logged.Traces (fun result => (result.1, result.2.1))
      (fun faults => insertBatchLogged encoder { env with faults } system input stats)
      fun faults => Logged.outcome (insertBatch encoder { env with faults } system input) := by
  dsimp only [insertBatchLogged]
  refine Logged.Traces.congr (.ite (Logged.traces_quiet_out _ (.ok (system, [], stats)))
    (.bind (Logged.traces_quiet (planInsert encoder system.index input)) fun plan =>
      .bind (Logged.traces_quiet _) fun lists =>
        .bind (traces_visitLists (env.team .appendRecords)
          (fun listNo file => RecordLayout.traces_appendRecords listNo _ _ file) _ _) fun records =>
          .bind (DirectoryLayout.traces_writeBatch _ _) fun directory =>
            .bind (Logged.traces_quiet _) fun lists => Logged.traces_quiet_out _ (.ok _)))
    fun faults => ?_
  rw [insertBatch]
  split
  next => rfl
  cases planInsert encoder system.index input with
  | error error => rfl
  | ok plan =>
  rw [ok_bind]
  dsimp only
  split
  next lists error hreserve => rw [hreserve]; rfl
  next lists hreserve =>
  rw [hreserve, Logged.returned_ok, ok_bind]
  split
  next records error happend => rw [happend]; rfl
  next records happend =>
  rw [happend, Logged.returned_ok, ok_bind]
  split
  next directory error hwrite => rw [hwrite]; rfl
  next directory hwrite =>
  rw [hwrite, Logged.returned_ok, ok_bind]
  split
  next lists error hpublish => rw [hpublish]; rfl
  next lists hpublish => rw [hpublish]; rfl

/-! ### Deletions -/

theorem traces_prepareRecords (storage : Storage) (plan : DeletionPlan) :
    Logged.Traces id (fun faults => prepareRecordsLogged config faults storage plan)
      fun faults => prepareRecords config faults storage plan :=
  .bind (RecordLayout.traces_prepare _ _ _ _ _ _) fun _ => .ite (Logged.traces_fail _)
    (Logged.traces_pure _)

theorem traces_prepareDeletion (system : System) (plan : DeletionPlan) :
    Logged.Traces id (fun faults => prepareDeletionLogged config faults system plan)
      fun faults => prepareDeletion config faults system plan :=
  .bind (traces_prepareRecords system.storage plan) fun (_, _) => .bind (Logged.traces_quiet _)
    fun _ => Logged.traces_pure _

theorem traces_planErase (system : System) (ids : List Nat) (stats : UpdateStats) :
    Logged.Traces Prod.fst (fun faults => planEraseLogged config faults system ids stats)
      fun faults => planErase config faults system ids :=
  .bind (DirectoryLayout.traces_readBatch _ ids) fun _ =>
    .bind (Logged.traces_quiet _) fun _ => .bind (Logged.traces_quiet _) fun _ =>
      .bind (Logged.traces_quiet _) fun plans =>
        .bind (Logged.traces_mapAll (traces_prepareDeletion system) plans) fun _ =>
          .bind (DirectoryLayout.traces_readBatch _ _) fun _ =>
            .bind (Logged.traces_quiet _) fun _ => Logged.traces_quiet_out Prod.fst (.ok _)

theorem traces_eraseBatch (env : Environment) (system : System) (ids : List Nat)
    (stats : UpdateStats) :
    Logged.Traces (fun result => (result.1, result.2.1))
      (fun faults => eraseBatchLogged config { env with faults } system ids stats)
      fun faults => Logged.outcome (eraseBatch config { env with faults } system ids) := by
  have h : Logged.Traces (fun result => (result.1, result.2.1))
      (fun faults => eraseBatchLogged config { env with faults } system ids stats) fun faults =>
      if ids = [] then .ok (system, 0) else
      if system.index.activeCount < ids.length then
        .error (.invalidArgument "invalid external-list deletion batch") else
      if ¬ ids.Nodup then
        .error (.invalidArgument "deletion batch contains duplicate Logical IDs") else (do
      let prepared ← planErase config faults system ids
      let records ← Logged.returned (parallelFor (env.team .commitRecords)
        (fun deletion : PreparedDeletion config => deletion.plan.listNo) (fun deletion file =>
          config.records.commitPreparedMutation faults deletion.plan.listNo
            deletion.recordMutation file) prepared system.storage.records)
      let directory ← Logged.returned (config.directory.writeBatch faults system.storage.directory
        (eraseUpdates prepared))
      .ok (⟨{ system.index with
          lists := rewritten prepared system.index.lists
          activeCount := system.index.activeCount - ids.length }, ⟨records, directory⟩⟩,
        ids.length)) :=
    .ite (Logged.traces_quiet_out _ (.ok (system, 0, stats))) (.ite (Logged.traces_fail _)
      (.ite (Logged.traces_fail _) (.bind_out (traces_planErase system ids stats) fun _ =>
        .bind (traces_visitLists (env.team .commitRecords)
          (fun deletion : PreparedDeletion config =>
            RecordLayout.traces_commit deletion.plan.listNo deletion.recordMutation) _ _)
          fun _ => .bind (DirectoryLayout.traces_writeBatch _ _) fun _ =>
            Logged.traces_quiet_out _ (.ok _))))
  refine h.congr fun faults => ?_
  rw [eraseBatch]
  split
  next => rfl
  split
  next => rfl
  split
  next => rfl
  cases planErase config faults system ids with
  | error error => rfl
  | ok prepared =>
  rw [ok_bind]
  dsimp only
  split
  next records error hcommit => rw [hcommit]; rfl
  next records hcommit =>
  rw [hcommit, Logged.returned_ok, ok_bind]
  split
  next directory error hwrite => rw [hwrite]; rfl
  next directory hwrite => rw [hwrite]; rfl

/-- A call of the client attempts the calls of its log. -/
theorem Operation.traces_run (encoder : Encoder config Vector) (env : Environment)
    (system : System) (operation : Operation config Vector) (stats : UpdateStats) :
    Logged.Traces (fun result => (result.1, result.2.1))
      (fun faults => operation.runLogged encoder { env with faults } system stats)
      fun faults => Logged.outcome (operation.run encoder { env with faults } system) := by
  cases operation with
  | insert input => exact traces_insertBatch encoder env system input stats
  | erase ids =>
      have h : Logged.Traces (fun result => (result.1, result.2.1))
          (fun faults => Operation.runLogged encoder { env with faults } system stats (.erase ids))
          fun faults => Logged.outcome (eraseBatch config { env with faults } system ids) >>=
            fun result => .ok (result.1, []) :=
        .bind_out (traces_eraseBatch env system ids stats) fun (_, _, _) =>
          Logged.traces_quiet_out _ (.ok _)
      refine h.congr fun faults => ?_
      rw [run]
      obtain ⟨system', result⟩ := eraseBatch config { env with faults } system ids
      cases result with
      | error error => rfl
      | ok count => rfl

end Recast
