import Recast.Storage.LocationDirectory
import Recast.Storage.RecordStore
import Recast.Postings.MemoryList
import Recast.Index.Grouping

/-!
# The external-list index

What an index keeps in memory and in its storage root, and the loop in which
an update visits its lists.
-/

namespace Recast

open Foundation

/-- The options and the trained geometry of an index. One page size serves the
record store and the directory. -/
structure IndexConfig where
  nlist : Nat
  nlist_pos : 0 < nlist
  codes : CodeLayout
  records : RecordLayout
  directory : DirectoryLayout
  page_eq : records.pageSize = directory.pageSize

/-- The members of `ExternalListRecastIndex` that change. Lists are numbered
from zero; those from `nlist` on do not exist and stay empty. -/
structure Index where
  lists : Nat → MemoryList
  nextId : Nat
  activeCount : Nat
  checkpointGeneration : Nat

/-- The files an update writes: one record file for each list, and
`locations.bin`. -/
structure Storage where
  records : Nat → Option Bytes
  directory : Bytes

/-- An open index over its storage root. -/
structure System where
  index : Index
  storage : Storage

/-- A freshly created index over an empty root. -/
def System.fresh : System where
  index := ⟨fun _ => MemoryList.empty, 0, 0, 0⟩
  storage := ⟨fun _ => none, []⟩

/-- One row: its external record and its resident posting. -/
@[ext] structure Row (config : IndexConfig) where
  record : Record config.records
  posting : Posting config.codes
  deriving DecidableEq

/-- The Logical ID of a row. -/
def Row.id {config : IndexConfig} (row : Row config) : Nat := row.record.logicalId

/-- A vector to insert, with its exact payload. -/
structure InputRow (config : IndexConfig) (Vector : Type*) where
  vector : Vector
  payload : Payload config.records

/-- Router assignment and quantizer encoding, as functions of one vector. -/
structure Encoder (config : IndexConfig) (Vector : Type*) where
  assign : Vector → UInt32
  encode : Vector → Posting config.codes

/-- The parallel loops whose iterations change the index or its files. -/
inductive Stage where
  | reserve
  | appendRecords
  | commitRecords
  deriving DecidableEq, Repr

/-- The environment of one operation: which system calls fail, and which loops
run on a team of several workers. -/
structure Environment where
  faults : IoFaults
  team : Stage → Bool

/-- `parallel_for`: a lone worker stops at the first error, a team finishes all
iterations and rethrows an error afterwards. Each item works on its own key. -/
def parallelFor {ι α : Type*} (team : Bool) (key : ι → Nat) (step : ι → α → α × Except Error Unit) :
    List ι → (Nat → α) → (Nat → α) × Except Error Unit
  | [], state => (state, .ok ())
  | item :: rest, state =>
      match step item (state (key item)) with
      | (value, .ok ()) =>
          parallelFor team key step rest (Function.update state (key item) value)
      | (value, .error error) =>
          let state := Function.update state (key item) value
          (if team then (parallelFor team key step rest state).1 else state, .error error)

section ParallelFor

variable {ι α : Type*} {team : Bool} {key : ι → Nat} {step : ι → α → α × Except Error Unit}

/-- A key is untouched, or holds what its own iteration made of it. -/
theorem parallelFor_cases {items : List ι} (hnodup : (items.map key).Nodup) (state : Nat → α)
    (k : Nat) :
    (parallelFor team key step items state).1 k = state k ∨
      ∃ item ∈ items, key item = k ∧
        (parallelFor team key step items state).1 k = (step item (state k)).1 := by
  induction items generalizing state with
  | nil => exact Or.inl rfl
  | cons item rest ih =>
      rw [List.map_cons, List.nodup_cons] at hnodup
      obtain ⟨hfresh, hnodup⟩ := hnodup
      -- the rest of the loop starts from the updated state
      have hrest := ih hnodup (Function.update state (key item) (step item (state (key item))).1)
      have hnext : (parallelFor team key step rest
            (Function.update state (key item) (step item (state (key item))).1)).1 k = state k ∨
          ∃ item' ∈ item :: rest, key item' = k ∧ (parallelFor team key step rest
            (Function.update state (key item) (step item (state (key item))).1)).1 k =
              (step item' (state k)).1 := by
        by_cases hk : k = key item
        · subst hk
          rw [Function.update_self] at hrest
          rcases hrest with h | ⟨other, hmem, hother, _⟩
          · exact Or.inr ⟨item, List.mem_cons_self, rfl, h⟩
          · exact absurd (hother ▸ List.mem_map_of_mem hmem) hfresh
        · rw [Function.update_of_ne hk] at hrest
          rcases hrest with h | ⟨other, hmem, hother, h⟩
          · exact Or.inl h
          · exact Or.inr ⟨other, List.mem_cons_of_mem _ hmem, hother, h⟩
      rw [parallelFor]
      cases hstep : step item (state (key item)) with
      | mk value outcome =>
          rw [hstep] at hnext
          cases outcome with
          | ok _ => exact hnext
          | error error =>
              dsimp only at hnext ⊢
              split
              · exact hnext
              · by_cases hk : k = key item
                · subst hk
                  exact Or.inr ⟨item, List.mem_cons_self, rfl, by rw [Function.update_self, hstep]⟩
                · exact Or.inl (Function.update_of_ne hk _ _)

/-- A loop over the list numbers themselves. -/
theorem parallelFor_id_cases {touched : List Nat} {step : Nat → α → α × Except Error Unit}
    (hnodup : touched.Nodup) (state : Nat → α) (l : Nat) :
    (parallelFor team id step touched state).1 l = state l ∨
      l ∈ touched ∧ (parallelFor team id step touched state).1 l = (step l (state l)).1 := by
  rcases parallelFor_cases (by rwa [List.map_id]) state l with hkept | ⟨item, hmem, rfl, h⟩
  · exact Or.inl hkept
  · exact Or.inr ⟨hmem, h⟩

/-- A loop over list numbers leaves the other lists alone. -/
theorem parallelFor_of_notMem {touched : List Nat} {step : Nat → α → α × Except Error Unit}
    {state : Nat → α} (hnodup : touched.Nodup) {l : Nat} (h : l ∉ touched) :
    (parallelFor team id step touched state).1 l = state l :=
  (parallelFor_id_cases hnodup state l).resolve_right fun hmem => h hmem.1

/-- The loop returns exactly when every iteration does; then every item has
been applied. -/
theorem parallelFor_ok {items : List ι} (hnodup : (items.map key).Nodup) {state : Nat → α}
    (h : ∀ item ∈ items, (step item (state (key item))).2 = .ok ()) :
    (parallelFor team key step items state).2 = .ok () ∧
      (∀ item ∈ items, (parallelFor team key step items state).1 (key item) =
        (step item (state (key item))).1) ∧
      ∀ k, k ∉ items.map key → (parallelFor team key step items state).1 k = state k := by
  induction items generalizing state with
  | nil => exact ⟨rfl, by simp, fun _ _ => rfl⟩
  | cons item rest ih =>
      rw [List.map_cons, List.nodup_cons] at hnodup
      obtain ⟨hfresh, hnodup⟩ := hnodup
      have hne : ∀ other ∈ rest, key other ≠ key item := fun other hmem heq =>
        hfresh (heq ▸ List.mem_map_of_mem hmem)
      have hitem := h item List.mem_cons_self
      obtain ⟨hok, hall, hkept⟩ := @ih hnodup
        (Function.update state (key item) (step item (state (key item))).1)
        (fun other hmem => by
          rw [Function.update_of_ne (hne other hmem)]
          exact h other (List.mem_cons_of_mem _ hmem))
      have hunfold : parallelFor team key step (item :: rest) state = parallelFor team key step rest
          (Function.update state (key item) (step item (state (key item))).1) := by
        rw [parallelFor]
        split
        next value heq => rw [heq]
        next value error heq => rw [heq] at hitem; simp at hitem
      rw [hunfold]
      refine ⟨hok, fun other hmem => ?_, fun k hk => ?_⟩
      · rcases List.mem_cons.mp hmem with rfl | hrest
        · rw [hkept _ hfresh, Function.update_self]
        · rw [hall other hrest, Function.update_of_ne (hne other hrest)]
      · rw [List.map_cons, List.mem_cons, not_or] at hk
        rw [hkept k hk.2, Function.update_of_ne hk.1]

/-- A loop that returned returned in every iteration. -/
theorem parallelFor_eq_ok {items : List ι} (hnodup : (items.map key).Nodup) {state : Nat → α}
    (h : (parallelFor team key step items state).2 = .ok ()) :
    ∀ item ∈ items, (step item (state (key item))).2 = .ok () := by
  induction items generalizing state with
  | nil => simp
  | cons item rest ih =>
      rw [List.map_cons, List.nodup_cons] at hnodup
      obtain ⟨hfresh, hnodup⟩ := hnodup
      rw [parallelFor] at h
      split at h
      next value heq =>
        intro other hmem
        rcases List.mem_cons.mp hmem with rfl | hrest
        · rw [heq]
        · have := ih hnodup h other hrest
          have hne : key other ≠ key item := fun heq => hfresh (heq ▸ List.mem_map_of_mem hrest)
          rwa [Function.update_of_ne hne] at this
      next => simp at h

/-- What a loop that returned has made of the items. -/
theorem parallelFor_done {items : List ι} (hnodup : (items.map key).Nodup) {state : Nat → α}
    (h : (parallelFor team key step items state).2 = .ok ()) {item : ι} (hitem : item ∈ items) :
    (step item (state (key item))).2 = .ok () ∧
      (parallelFor team key step items state).1 (key item) = (step item (state (key item))).1 :=
  have hstep := parallelFor_eq_ok hnodup h
  ⟨hstep item hitem, (parallelFor_ok hnodup hstep).2.1 item hitem⟩

/-- An error of the loop is an error of one of its iterations. -/
theorem parallelFor_error {items : List ι} (hnodup : (items.map key).Nodup) {state : Nat → α}
    {error : Error} (h : (parallelFor team key step items state).2 = .error error) :
    ∃ item ∈ items, (step item (state (key item))).2 = .error error := by
  induction items generalizing state with
  | nil => simp [parallelFor] at h
  | cons item rest ih =>
      rw [List.map_cons, List.nodup_cons] at hnodup
      obtain ⟨hfresh, hnodup⟩ := hnodup
      rw [parallelFor] at h
      split at h
      next value heq =>
        obtain ⟨other, hmem, hother⟩ := ih hnodup h
        have hne : key other ≠ key item := fun heq => hfresh (heq ▸ List.mem_map_of_mem hmem)
        rw [Function.update_of_ne hne] at hother
        exact ⟨other, List.mem_cons_of_mem _ hmem, hother⟩
      next value error' heq =>
        refine ⟨item, List.mem_cons_self, ?_⟩
        rw [heq]
        exact h

end ParallelFor

end Recast
