import Recast.Storage.RecordAppend
import Recast.Index.Agreement

/-!
# Insertions that return

Without injected faults an insertion returns whenever its sizes are in range
and the file system can address the pages it writes.
-/

namespace Recast

open Foundation

variable {config : IndexConfig} {Vector : Type*}

section Room

variable {system : System} {rows added : Rows config} {extra : Nat → Nat} {touched : List Nat}

theorem reserved_ok (hstored : Stored system rows extra) (hnodup : touched.Nodup)
    (hreserve : ∀ l ∈ touched,
      MemoryList.CanReserve config.codes (rows l).length (added l).length) (team : Bool) :
    (reserved config team added touched system.index.lists).2 = .ok () := by
  refine (@parallelFor_ok _ _ _ _ _ touched (by rwa [List.map_id]) _ fun l hl => ?_).1
  obtain ⟨blocks, hholds⟩ := hstored.postings l
  have hcan := hreserve l hl
  have hfits := hcan.1
  have hlist := hholds.reserve (added l).length (by
    rw [List.length_map]
    unfold uint32Max at hfits
    unfold sizeMax
    omega)
  rw [List.length_map, if_pos hcan] at hlist
  exact hlist.1

theorem appended_ok (hstored : Stored system rows extra) (hnodup : touched.Nodup)
    (hfits : ∀ l ∈ touched, (rows l).length + (added l).length ≤ uint32Max)
    (hoff : ∀ l ∈ touched, pageCount ((rows l).length + (added l).length)
      config.records.recordsPerPage * config.records.pageSize ≤ offMax) (team : Bool) :
    (appended config IoFaults.none team rows added touched system.storage.records).2 = .ok () := by
  refine (@parallelFor_ok _ _ _ _ _ touched (by rwa [List.map_id]) _ fun l hl => ?_).1
  have hlength := (hstored.records l).length_eq
  apply RecordLayout.appendRecords_ok l
  · have := hfits l hl
    rw [List.length_map]
    omega
  · rw [id, hlength]
    exact Nat.mul_le_mul_right _ (Nat.le_add_right _ _)
  · rw [id, hlength]
    exact Nat.mul_mod_left _ _
  · rw [List.length_map]
    exact hoff l hl

variable {encoder : Encoder config Vector} {input : List (InputRow config Vector)}
  {env : Environment}

/-- An insertion in range returns. -/
theorem insertBatch_ok (hfaults : env.faults = IoFaults.none) (hstored : Stored system rows extra)
    (hplan : ∃ plan, planInsert encoder system.index input = .ok plan)
    (hreserve : ∀ l ∈ assignmentsOf encoder input, MemoryList.CanReserve config.codes
      (rows l).length ((assignmentsOf encoder input).count l))
    (hfiles : ∀ l ∈ assignmentsOf encoder input,
      pageCount ((rows l).length + (assignmentsOf encoder input).count l)
        config.records.recordsPerPage * config.records.pageSize ≤ offMax)
    (hdirectory : ∀ id < system.index.nextId + input.length,
      config.directory.pageOf id * config.directory.pageSize + config.directory.pageSize ≤ offMax) :
    (insertBatch encoder env system input).2 =
      .ok ((generateRows encoder system.index.nextId input).map Row.id) := by
  by_cases hne : input = []
  · subst hne
    rfl
  obtain ⟨plan, hplan⟩ := hplan
  have hplanned := planned_of_eq_ok hplan
  have hnodup := hplanned.nodup
  have hlength : (assignmentsOf encoder input).length =
      (generateRows encoder system.index.nextId input).length := by simp
  obtain ⟨added, hadded⟩ : ∃ added,
      segmentRows plan (generateRows encoder system.index.nextId input) = added := ⟨_, rfl⟩
  have hcount : ∀ l ∈ plan.touchedLists,
      (added l).length = (assignmentsOf encoder input).count l := fun l hl => by
    rw [← hadded, hplanned.segment l hl, length_batchRows hlength]
  have hcan : ∀ l ∈ plan.touchedLists,
      MemoryList.CanReserve config.codes (rows l).length (added l).length := fun l hl => by
    rw [hcount l hl]
    exact hreserve l ((hplanned.mem_touched l).mp hl)
  -- each of the four fallible steps is shown to pass, then the pipeline is run
  have hreserved := reserved_ok hstored hnodup hcan (env.team .reserve)
  have hroom := (reserved_holds hstored hnodup
    (fun l hl => Nat.le_of_add_left_le (hcan l hl).1) (env.team .reserve)).2 hreserved
  have happended := appended_ok hstored hnodup (fun l hl => (hcan l hl).1) (fun l hl => by
    rw [hcount l hl]
    exact hfiles l ((hplanned.mem_touched l).mp hl)) (env.team .appendRecords)
  rw [insertBatch_of_plan hne hplan hstored hnodup hadded
    fun l hl => Nat.le_of_add_left_le (hcan l hl).1, hfaults]
  rcases hlists : reserved config (env.team .reserve) added plan.touchedLists system.index.lists
    with ⟨lists, error | _⟩
  · rw [hlists] at hreserved
    cases hreserved
  rw [hlists] at hroom
  rcases hrecords : appended config IoFaults.none (env.team .appendRecords) rows added
    plan.touchedLists system.storage.records with ⟨records, error | _⟩
  · rw [hrecords] at happended
    cases happended
  dsimp only
  have hwritten := DirectoryLayout.writeBatch_addressable hstored.aligned
    (@nodup_insertUpdates _ _ _ _ _ _ lists hplanned) fun update hupdate => by
      obtain ⟨l, hl, k, row, hrow, rfl⟩ := mem_insertUpdates.mp hupdate
      rw [hplanned.segment l hl] at hrow
      obtain ⟨p, -, hp⟩ := mem_batchRows.mp (List.mem_of_getElem? hrow)
      exact hdirectory _ (generateRows_new hplanned.fits (List.mem_of_getElem? hp)).2
  rcases hdirectory : config.directory.writeBatch IoFaults.none system.storage.directory
    (insertUpdates plan (generateRows encoder system.index.nextId input) lists) with
    ⟨directory, error | _⟩
  · rw [hdirectory] at hwritten
    cases hwritten
  dsimp only
  have hpublished := (published_holds hnodup hroom).1
  rcases hlast : published added plan.touchedLists lists with ⟨lists', error | _⟩
  · rw [hlast] at hpublished
    cases hpublished
  · rfl

end Room

end Recast
