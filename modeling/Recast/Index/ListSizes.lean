import Recast.Index.Insertion
import Recast.Index.DeletionPlan

/-!
# The sizes of the lists

What an update does to `logical_size` and `padded_size` of a list, whatever
becomes of the call: they stay, or both are set from one new size.
-/

namespace Recast

open Foundation

variable {config : IndexConfig} {Vector : Type*}

namespace MemoryList

variable {layout : CodeLayout} {list list' : MemoryList}

/-- `logical_size` and `padded_size`. -/
def sizes (list : MemoryList) : Nat × Nat := (list.logicalSize, list.paddedSize)

/-- The sizes are kept, or set from a size that is not above `bound`. -/
def Resized (list list' : MemoryList) (bound : Nat) : Prop :=
  list'.sizes = list.sizes ∨ ∃ size ≤ bound, list'.sizes = (size, paddedTo size)

theorem sizes_reserve (list : MemoryList) (appendCount : Nat) :
    (list.reserve layout appendCount).1.sizes = list.sizes := by
  rw [reserve]
  split
  next => rfl
  next =>
    split
    next => rfl
    next =>
      dsimp only
      split
      next => rfl
      next => rfl

theorem size_of_reserve {appendCount : Nat} (h : (list.reserve layout appendCount).2 = .ok ()) :
    list.logicalSize + appendCount ≤ uint32Max := by
  rw [reserve] at h
  split at h
  next => cases h
  next =>
    split at h
    next => cases h
    next hfits => exact Nat.not_lt.mp hfits

theorem sizes_append (list : MemoryList) (postings : List (Posting layout)) :
    list.Resized (list.append postings).1 (list.logicalSize + postings.length) := by
  rw [append]
  split
  next => exact .inl rfl
  next =>
    split
    next => exact .inl rfl
    next => exact .inr ⟨_, Nat.le_refl _, rfl⟩

end MemoryList

/-- A list after `insert_batch` is at most as long as its old rows and its share
of the batch. -/
theorem insertBatch_sizes (encoder : Encoder config Vector) (env : Environment) (system : System)
    (input : List (InputRow config Vector)) (l : Nat) :
    (system.index.lists l).Resized ((insertBatch encoder env system input).1.index.lists l)
      (min uint32Max ((system.index.lists l).logicalSize +
        (assignmentsOf encoder input).count l)) := by
  unfold insertBatch
  dsimp only
  split
  next => exact .inl rfl
  split
  next => exact .inl rfl
  next plan hplan =>
  have hplanned := planned_of_eq_ok hplan
  have hnodup := hplanned.nodup
  have hlength : (assignmentsOf encoder input).length =
      (generateRows encoder system.index.nextId input).length := by simp
  have hcount : ∀ l ∈ plan.touchedLists,
      (segmentRows plan (generateRows encoder system.index.nextId input) l).length =
        (assignmentsOf encoder input).count l := fun l hl => by
    rw [hplanned.segment l hl, length_batchRows hlength]
  have hreserved := @parallelFor_id_cases _ (env.team .reserve) plan.touchedLists
    (fun listNo list => list.reserve config.codes
      (segmentRows plan (generateRows encoder system.index.nextId input) listNo).length)
    hnodup system.index.lists
  have hdone := @parallelFor_done _ _ (env.team .reserve) id
    (fun listNo (list : MemoryList) => list.reserve config.codes
      (segmentRows plan (generateRows encoder system.index.nextId input) listNo).length)
    plan.touchedLists (by rwa [List.map_id]) system.index.lists
  -- the reservations leave the sizes alone, whichever of them fail
  have hkept : ∀ l, ((parallelFor (env.team .reserve) id (fun listNo (list : MemoryList) =>
      list.reserve config.codes
        (segmentRows plan (generateRows encoder system.index.nextId input) listNo).length)
      plan.touchedLists system.index.lists).1 l).sizes = (system.index.lists l).sizes := fun l => by
    rcases hreserved l with h | ⟨-, h⟩
    · rw [h]
    · rw [h, MemoryList.sizes_reserve]
  split
  next lists error heq =>
    rw [heq] at hkept
    exact .inl (hkept l)
  next lists heq =>
    rw [heq] at hkept hdone
    split
    next => exact .inl (hkept l)
    next =>
      split
      next => exact .inl (hkept l)
      next =>
        have hsize : (lists l).logicalSize = (system.index.lists l).logicalSize :=
          congrArg Prod.fst (hkept l)
        have hlast := @parallelFor_id_cases _ false plan.touchedLists
          (fun listNo (list : MemoryList) => list.append
            ((segmentRows plan (generateRows encoder system.index.nextId input) listNo).map
              Row.posting)) hnodup lists l
        have hresult : (system.index.lists l).Resized ((parallelFor false id
            (fun listNo (list : MemoryList) => list.append
              ((segmentRows plan (generateRows encoder system.index.nextId input) listNo).map
                Row.posting)) plan.touchedLists lists).1 l)
            (min uint32Max ((system.index.lists l).logicalSize +
              (assignmentsOf encoder input).count l)) := by
          rcases hlast with h | ⟨hl, h⟩
          · rw [h]
            exact .inl (hkept l)
          · rw [h]
            have hfits := MemoryList.size_of_reserve (hdone rfl hl).1
            rw [id, hcount l hl] at hfits
            have happend := (lists l).sizes_append ((segmentRows plan
              (generateRows encoder system.index.nextId input) l).map Row.posting)
            rw [List.length_map, hcount l hl, hsize] at happend
            rcases happend with hsame | ⟨size, hle, hsizes⟩
            · exact .inl (hsame.trans (hkept l))
            · exact .inr ⟨size, le_min (hle.trans hfits) hle, hsizes⟩
        split
        next heq => rwa [heq] at hresult
        next heq => rwa [heq] at hresult

/-- The rewrites of the prepared deletions, one after the other. -/
theorem rewritten_sizes (prepared : List (PreparedDeletion config)) (lists : Nat → MemoryList)
    (l : Nat) :
    let after := prepared.foldl (fun lists deletion => Function.update lists deletion.plan.listNo
      ((lists deletion.plan.listNo).rewrite deletion.plan.newSize deletion.blocks)) lists
    (after l).sizes = (lists l).sizes ∨ ∃ deletion ∈ prepared, deletion.plan.listNo = l ∧
      (after l).sizes = (deletion.plan.newSize, MemoryList.paddedTo deletion.plan.newSize) := by
  induction prepared generalizing lists with
  | nil => exact .inl rfl
  | cons deletion rest ih =>
      dsimp only
      rw [List.foldl_cons]
      rcases ih (Function.update lists deletion.plan.listNo
        ((lists deletion.plan.listNo).rewrite deletion.plan.newSize deletion.blocks)) with
        h | ⟨later, hlater, hlist, h⟩
      · by_cases hl : l = deletion.plan.listNo
        · subst hl
          rw [Function.update_self] at h
          exact .inr ⟨deletion, List.mem_cons_self, rfl, h⟩
        · rw [Function.update_of_ne hl] at h
          exact .inl h
      · exact .inr ⟨later, List.mem_cons_of_mem _ hlater, hlist, h⟩

/-- A planned deletion does not lengthen its list. -/
theorem planErase_newSize {faults : IoFaults} {system : System} {ids : List Nat}
    {prepared : List (PreparedDeletion config)}
    (h : planErase config faults system ids = .ok prepared) {deletion : PreparedDeletion config}
    (hmem : deletion ∈ prepared) :
    deletion.plan.newSize ≤ (system.index.lists deletion.plan.listNo).logicalSize := by
  simp only [planErase, bind_eq_ok, pure_eq_ok, Except.ok.injEq] at h
  obtain ⟨locations, -, assignments, -, plan, -, plans, hplans, prepared', hprepared, -, -, -, -,
    rfl⟩ := h
  obtain ⟨plan', hplan', hdeletion⟩ :=
    (@mapM_ok_entries _ _ _ _ _ _ hprepared Unit (fun _ => ()) (fun _ => ())
      fun _ _ _ _ => rfl).2 deletion hmem
  rw [prepareDeletion_plan hdeletion]
  obtain ⟨listNo, -, hplanned⟩ :=
    (@mapM_ok_entries _ _ _ _ _ _ hplans Unit (fun _ => ()) (fun _ => ())
      fun _ _ _ _ => rfl).2 plan' hplan'
  obtain ⟨rfl, -⟩ := planDeletion_eq_ok hplanned
  exact Nat.sub_le _ _

/-- A list after `erase_batch` is not longer than before. -/
theorem eraseBatch_sizes (config : IndexConfig) (env : Environment) (system : System)
    (ids : List Nat) (l : Nat) :
    (system.index.lists l).Resized ((eraseBatch config env system ids).1.index.lists l)
      (system.index.lists l).logicalSize := by
  unfold eraseBatch
  dsimp only
  split
  next => exact .inl rfl
  split
  next => exact .inl rfl
  split
  next => exact .inl rfl
  split
  next => exact .inl rfl
  next prepared hplan =>
  split
  next => exact .inl rfl
  next =>
    split
    next => exact .inl rfl
    next =>
      rcases rewritten_sizes prepared system.index.lists l with h | ⟨deletion, hmem, rfl, h⟩
      · exact .inl h
      · exact .inr ⟨_, planErase_newSize hplan hmem, h⟩

end Recast
