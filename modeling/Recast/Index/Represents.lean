import Recast.Storage.DirectoryLaws
import Recast.Storage.RecordLaws
import Recast.Postings.MemoryListLaws
import Recast.Index.Update

/-!
# What an index stores

The rows of an index, list by list. `Stored` ties them to the resident
postings and the record files; `Located` ties them to the directory. A reload
can bring back an index that is stored without being located.
-/

namespace Recast

open Foundation

variable {config : IndexConfig}

/-- The rows of each list, in slot order. -/
abbrev Rows (config : IndexConfig) := Nat → List (Row config)

/-- The lists and record files of a system hold the rows. File `l` has
`extra l` pages more than its list needs. -/
structure Stored (system : System) (rows : Rows config) (extra : Nat → Nat) : Prop where
  postings : ∀ l, ∃ blocks, MemoryList.Holds config.codes (system.index.lists l)
    ((rows l).map Row.posting) blocks
  records : ∀ l, config.records.Holds ((system.storage.records l).getD [])
    ((rows l).map Row.record) (pageCount (rows l).length config.records.recordsPerPage + extra l)
  aligned : config.directory.Aligned system.storage.directory
  outside : ∀ l, rows l ≠ [] → l < config.nlist ∧ l < 2 ^ 32
  active : system.index.activeCount = ∑ l ∈ Finset.range config.nlist, (rows l).length
  nextId_le : system.index.nextId ≤ uint32Max

/-- The directory maps the ID of each row to its slot, and every other issued
ID to a tombstone. -/
structure Located (system : System) (rows : Rows config) : Prop where
  covered : system.index.nextId * 8 ≤ system.storage.directory.length
  located : ∀ l o row, (rows l)[o]? = some row → row.id < system.index.nextId ∧
    DirectoryLayout.entryAt system.storage.directory row.id = DiskLocation.ofSlot l o
  vacant : ∀ id < system.index.nextId, (∀ l, ∀ row ∈ rows l, row.id ≠ id) →
    DirectoryLayout.entryAt system.storage.directory id = DiskLocation.tombstone

section Stored

variable {system : System} {rows : Rows config} {extra : Nat → Nat}

theorem Stored.size_eq (hstored : Stored system rows extra) (l : Nat) :
    (system.index.lists l).logicalSize = (rows l).length := by
  obtain ⟨blocks, hholds⟩ := hstored.postings l
  rw [hholds.size, List.length_map]

theorem Stored.length_le (hstored : Stored system rows extra) (l : Nat) :
    (rows l).length ≤ uint32Max := by
  obtain ⟨blocks, hholds⟩ := hstored.postings l
  have := hholds.size_le
  rwa [List.length_map] at this

/-- A slot that holds a row has 32-bit coordinates, and its offset is not the
reserved value. -/
theorem Stored.slot_lt (hstored : Stored system rows extra) {l o : Nat} {row : Row config}
    (h : (rows l)[o]? = some row) : l < config.nlist ∧ l < 2 ^ 32 ∧ o < uint32Max := by
  have hlt := (List.getElem?_eq_some_iff.mp h).1
  have hle := hstored.length_le l
  have hlist := hstored.outside l (List.ne_nil_of_length_pos (by omega))
  exact ⟨hlist.1, hlist.2, by omega⟩

/-- The location of a slot names it. -/
theorem Stored.location_eq (hstored : Stored system rows extra) {l o : Nat} {row : Row config}
    (h : (rows l)[o]? = some row) : (DiskLocation.ofSlot l o).listNo.toNat = l ∧
      (DiskLocation.ofSlot l o).offset.toNat = o := by
  obtain ⟨-, hlist, hoffset⟩ := hstored.slot_lt h
  refine ⟨DiskLocation.listNo_ofSlot hlist, DiskLocation.offset_ofSlot ?_⟩
  unfold uint32Max at hoffset
  omega

/-- There are at least as many rows as distinct IDs of rows. -/
theorem Stored.length_le_active (hstored : Stored system rows extra) {ids : List Nat}
    (hnodup : ids.Nodup) (hheld : ∀ id ∈ ids, ∃ l, ∃ row ∈ rows l, row.id = id) :
    ids.length ≤ system.index.activeCount := by
  have hsubset : ids.toFinset ⊆
      (Finset.range config.nlist).biUnion fun l => ((rows l).map Row.id).toFinset := by
    intro id hid
    obtain ⟨l, row, hrow, hrowId⟩ := hheld id (List.mem_toFinset.mp hid)
    have hl := (hstored.outside l (List.ne_nil_of_mem hrow)).1
    exact Finset.mem_biUnion.mpr ⟨l, Finset.mem_range.mpr hl,
      List.mem_toFinset.mpr (List.mem_map.mpr ⟨row, hrow, hrowId⟩)⟩
  calc ids.length
      = ids.toFinset.card := (List.toFinset_card_of_nodup hnodup).symm
    _ ≤ _ := Finset.card_le_card hsubset
    _ ≤ ∑ l ∈ Finset.range config.nlist, ((rows l).map Row.id).toFinset.card :=
        Finset.card_biUnion_le
    _ ≤ ∑ l ∈ Finset.range config.nlist, (rows l).length :=
        Finset.sum_le_sum fun l _ => by
          rw [← @List.length_map _ _ (rows l) Row.id]
          exact List.toFinset_card_le _
    _ = system.index.activeCount := hstored.active.symm

/-- No two slots hold the same Logical ID. -/
theorem Located.slot_unique (hlocated : Located system rows) (hstored : Stored system rows extra)
    {l l' o o' : Nat} {row row' : Row config} (h : (rows l)[o]? = some row)
    (h' : (rows l')[o']? = some row') (hid : row.id = row'.id) : l = l' ∧ o = o' := by
  have hentry := (hlocated.located l o row h).2
  rw [hid, (hlocated.located l' o' row' h').2] at hentry
  have hslot := hstored.location_eq h
  have hslot' := hstored.location_eq h'
  rw [← hentry] at hslot
  exact ⟨hslot.1.symm.trans hslot'.1, hslot.2.symm.trans hslot'.2⟩

/-- The entry of a row is active unless its list has the reserved number. -/
theorem Stored.active_iff (hstored : Stored system rows extra) {l o : Nat} {row : Row config}
    (h : (rows l)[o]? = some row) :
    (DiskLocation.ofSlot l o).active = true ↔ l ≠ uint32Max := by
  obtain ⟨-, hlist, hoffset⟩ := hstored.slot_lt h
  rw [DiskLocation.active_ofSlot_iff hlist (by unfold uint32Max at hoffset; omega)]
  exact ⟨And.left, fun hne => ⟨hne, Nat.ne_of_lt hoffset⟩⟩

end Stored

/-- A fresh index holds no rows. -/
theorem stored_fresh (config : IndexConfig) :
    Stored System.fresh (fun _ => [] : Rows config) (fun _ => 0) where
  postings := fun _ => ⟨0, MemoryList.holds_empty config.codes⟩
  records := fun _ => RecordLayout.holds_nil (by simp [System.fresh]) (by simp [System.fresh])
  aligned := ⟨Nat.zero_mod _, Nat.zero_le _⟩
  outside := fun _ h => absurd rfl h
  active := by simp [System.fresh]
  nextId_le := Nat.zero_le _

theorem located_fresh (config : IndexConfig) :
    Located System.fresh (fun _ => [] : Rows config) where
  covered := Nat.zero_le _
  located := by simp
  vacant := fun _ h => absurd h (Nat.not_lt_zero _)

end Recast
