import Recast.Index.Agreement
import Recast.Index.BatchSplit

/-!
# The table an index implements

The rows of each list and the next ID, without pages, buffers or a directory. Every call
answers as it would on the table, so that two indexes that represent one table cannot be
told apart by insertions and deletions, however they came to hold their rows.
-/

namespace Recast

open Foundation

variable {config : IndexConfig} {Vector : Type*}

/-- What an index holds for its clients. -/
structure Table (config : IndexConfig) where
  rows : Rows config
  nextId : Nat

namespace Table

def empty : Table config := ⟨fun _ => [], 0⟩

/-- The number of rows. -/
def active (table : Table config) : Nat := ∑ l ∈ Finset.range config.nlist, (table.rows l).length

/-- The checks of `insert_batch`, and what files can hold. -/
def Admits (encoder : Encoder config Vector) (table : Table config)
    (input : List (InputRow config Vector)) : Prop :=
  table.nextId + input.length ≤ uint32Max ∧ table.active + input.length ≤ sizeMax ∧
    input.length * config.codes.codeSize ≤ sizeMax ∧
    input.length * config.records.payloadBytes ≤ sizeMax ∧
    config.directory.pageOf (table.nextId + input.length - 1) * config.directory.pageSize +
      config.directory.pageSize ≤ offMax ∧
    ∀ l ∈ assignmentsOf encoder input, l < config.nlist ∧
      MemoryList.CanReserve config.codes (table.rows l).length
        ((assignmentsOf encoder input).count l) ∧
      pageCount ((table.rows l).length + (assignmentsOf encoder input).count l)
        config.records.recordsPerPage * config.records.pageSize ≤ offMax

instance (encoder : Encoder config Vector) (table : Table config)
    (input : List (InputRow config Vector)) : Decidable (table.Admits encoder input) :=
  inferInstanceAs (Decidable (_ ∧ _ ∧ _ ∧ _ ∧ _ ∧ _))

/-- `insert_batch`. -/
def insert (encoder : Encoder config Vector) (table : Table config)
    (input : List (InputRow config Vector)) : Table config :=
  ⟨insertRows encoder table.nextId input table.rows, table.nextId + input.length⟩

/-- The IDs are distinct, and each is the ID of a row that a location can name. -/
def CanErase (table : Table config) (ids : List Nat) : Prop :=
  ids.Nodup ∧ ∀ id ∈ ids, ∃ l < config.nlist, l ≠ uint32Max ∧ ∃ row ∈ table.rows l, row.id = id

instance (table : Table config) (ids : List Nat) : Decidable (table.CanErase ids) :=
  inferInstanceAs (Decidable (_ ∧ _))

end Table

/-- The slots of the rows with one of the IDs. -/
def slotsOf (ids : List Nat) (rows : List (Row config)) : List Nat :=
  (List.range rows.length).filter fun o => rows[o]?.any fun row => row.id ∈ ids

theorem mem_slotsOf {ids : List Nat} {rows : List (Row config)} {o : Nat} :
    o ∈ slotsOf ids rows ↔ ∃ row, rows[o]? = some row ∧ row.id ∈ ids := by
  simp only [slotsOf, List.mem_filter, List.mem_range, Option.any_eq_true, decide_eq_true_eq]
  exact ⟨fun h => h.2, fun ⟨row, hrow, hid⟩ =>
    ⟨(List.getElem?_eq_some_iff.mp hrow).1, row, hrow, hid⟩⟩

namespace Table

/-- `erase_batch`: the last rows of a list move into the slots that became free. -/
def erase (table : Table config) (ids : List Nat) : Table config :=
  ⟨fun l => swapDelete (table.rows l) (slotsOf ids (table.rows l)), table.nextId⟩

/-- One call: what it returns, or that it throws, and the table after it. -/
def run (encoder : Encoder config Vector) (table : Table config) :
    Operation config Vector → Table config × Option (List Nat)
  | .insert input =>
      if input.isEmpty ∨ table.Admits encoder input then
        (table.insert encoder input, some (List.range' table.nextId input.length))
      else (table, none)
  | .erase ids => if table.CanErase ids then (table.erase ids, some []) else (table, none)

end Table

/-- The index holds the rows of the table. -/
structure Represents (system : System) (table : Table config) : Prop where
  stored : Stored system table.rows fun _ => 0
  located : Located system table.rows
  nextId_eq : system.index.nextId = table.nextId

theorem represents_fresh (config : IndexConfig) :
    Represents System.fresh (Table.empty : Table config) :=
  ⟨stored_fresh config, located_fresh config, rfl⟩

section Step

variable {encoder : Encoder config Vector} {system : System} {table : Table config}
  {input : List (InputRow config Vector)} {ids : List Nat} {env : Environment}

theorem DirectoryLayout.pageOf_mono (layout : DirectoryLayout) {id id' : Nat} (h : id ≤ id') :
    layout.pageOf id ≤ layout.pageOf id' :=
  Nat.div_le_div_right h

/-- The table decides whether an insertion can return. -/
theorem Represents.accepted_iff (h : Represents system table) (hne : input ≠ []) :
    Accepted encoder input system table.rows ↔ table.Admits encoder input := by
  have hactive : system.index.activeCount = table.active := h.stored.active
  have hpos := List.length_pos_iff.mpr hne
  constructor
  · rintro ⟨hfits, hcount, hcodes, hpayload, hvalid, hreserve, hfiles, hdirectory⟩
    rw [h.nextId_eq] at hfits hdirectory
    exact ⟨hfits, hactive ▸ hcount, hcodes, hpayload, hdirectory _ (by omega),
      fun l hl => ⟨hvalid l hl, hreserve l hl, hfiles l hl⟩⟩
  · rintro ⟨hfits, hcount, hcodes, hpayload, hdirectory, hlists⟩
    rw [← h.nextId_eq] at hfits hdirectory
    refine ⟨hfits, hactive ▸ hcount, hcodes, hpayload, fun l hl => (hlists l hl).1,
      fun l hl => (hlists l hl).2.1, fun l hl => (hlists l hl).2.2, fun id hid => ?_⟩
    -- the last new entry has the last page
    have hpage := config.directory.pageOf_mono (Nat.le_sub_one_of_lt hid)
    exact (Nat.add_le_add_right (Nat.mul_le_mul_right _ hpage) _).trans hdirectory

theorem map_id_generateRows (encoder : Encoder config Vector) {nextId : Nat}
    (hfits : nextId + input.length ≤ uint32Max) :
    (generateRows encoder nextId input).map Row.id = List.range' nextId input.length := by
  apply List.ext_getElem?
  intro i
  rw [List.getElem?_map]
  by_cases hi : i < input.length
  · have hrow := List.getElem?_eq_getElem
      (show i < (generateRows encoder nextId input).length by rwa [length_generateRows])
    rw [hrow, Option.map_some, generateRows_id encoder hfits hrow, List.getElem?_range' hi, Nat.one_mul]
  · rw [List.getElem?_eq_none (by rw [length_generateRows]; omega),
      List.getElem?_eq_none (by rw [List.length_range']; omega)]
    rfl

/-- An insertion answers as the table does. -/
theorem Represents.insert (h : Represents system table)
    (hclean : NoIoError encoder system env (.insert input)) :
    (insertBatch encoder env system input).2.toOption = (table.run encoder (.insert input)).2 ∧
      Represents (insertBatch encoder env system input).1 (table.run encoder (.insert input)).1 := by
  obtain ⟨hfaults, hcode⟩ := hclean
  rcases insertBatch_spec env h.stored encoder input with
    ⟨hok, hdone⟩ | ⟨error, extra, herror, hrefused, hunchanged⟩
  · have hadmits : input.isEmpty ∨ table.Admits encoder input := by
      rw [List.isEmpty_iff]
      refine or_iff_not_imp_left.mpr fun hne => (h.accepted_iff hne).mp ?_
      exact (insertBatch_inserted h.stored (Prod.ext rfl hok)).2.1 hne
    rw [Table.run, if_pos hadmits, hok, map_id_generateRows encoder hdone.fits]
    have hstored := hdone.stored
    have hlocated := hdone.located h.located
    rw [h.nextId_eq] at hstored hlocated ⊢
    refine ⟨rfl, ?_, hlocated, hdone.nextId_eq.trans (congrArg (· + _) h.nextId_eq)⟩
    have hextra : insertExtra (assignmentsOf encoder input) (fun _ => 0) = fun _ => 0 := by
      funext l
      exact ite_self 0
    rwa [hextra] at hstored
  · have hadmits : ¬(input.isEmpty ∨ table.Admits encoder input) := by
      rw [List.isEmpty_iff]
      rintro (hnil | hadmits)
      · rw [hnil, insertBatch, if_pos rfl] at herror
        cases herror
      · by_cases hne : input = []
        · rw [hne, insertBatch, if_pos rfl] at herror
          cases herror
        · obtain ⟨system', hreturns⟩ :=
            ((h.accepted_iff hne).mpr hadmits).returns h.stored hfaults
          rw [hreturns] at herror
          cases herror
    obtain rfl := (hunchanged hfaults (hcode error herror)).2
    rw [Table.run, if_neg hadmits, herror]
    exact ⟨rfl, hrefused.stored, hrefused.located h.located,
      hrefused.nextId_eq.trans h.nextId_eq⟩

/-- The rows with one of the IDs are where the directory says. -/
theorem EraseDone.slots_eq {extra : Nat → Nat} {system' : System} {rows : Rows config}
    (hdone : EraseDone system rows extra ids system') (hstored : Stored system rows extra)
    (hlocated : Located system rows) (l : Nat) :
    deletedSlots (system.deletedAt ids l) = slotsOf ids (rows l) := by
  obtain ⟨hnodup, hin⟩ := hdone.slots_ok l
  have hmem : ∀ o, o ∈ deletedSlots (system.deletedAt ids l) ↔ o ∈ slotsOf ids (rows l) := by
    intro o
    rw [mem_slotsOf]
    constructor
    · intro hslot
      have hrow := List.getElem?_eq_getElem (hin o hslot)
      exact ⟨_, hrow, (hdone.mem_slots hstored hlocated hrow).mp hslot⟩
    · rintro ⟨row, hrow, hid⟩
      exact (hdone.mem_slots hstored hlocated hrow).mpr hid
  have hperm : (deletedSlots (system.deletedAt ids l)).Perm (slotsOf ids (rows l)) :=
    (List.perm_ext_iff_of_nodup hnodup (List.nodup_range.filter _)).mpr hmem
  have hsorted : (deletedSlots (system.deletedAt ids l)).Pairwise (· ≤ ·) := by
    rw [deletedSlots, List.pairwise_map]
    refine (List.pairwise_insertionSort pairBefore _).imp fun hle => ?_
    unfold pairBefore at hle
    omega
  exact hperm.eq_of_pairwise' hsorted (List.pairwise_le_range.filter _)

/-- A deletion that returned found its IDs at locations that name a slot. -/
theorem eraseBatch_active {rows : Rows config} {extra : Nat → Nat} (hstored : Stored system rows extra)
    {count : Nat} (hok : (eraseBatch config env system ids).2 = .ok count) :
    ∀ id ∈ ids, (DirectoryLayout.entryAt system.storage.directory id).active = true := by
  unfold eraseBatch at hok
  dsimp only at hok
  split at hok
  next hnil => simp [hnil]
  next =>
  split at hok
  next => cases hok
  next =>
  split at hok
  next => cases hok
  next =>
  split at hok
  next => cases hok
  next prepared hplan =>
    simp only [planErase, bind_eq_ok] at hplan
    obtain ⟨locations, hread, lists, hlists, -⟩ := hplan
    obtain ⟨rfl, -⟩ := DirectoryLayout.readBatch_eq_ok hstored.aligned hread
    exact fun id hid => ((locationLists_eq_ok.mp hlists).2 _ (List.mem_map_of_mem hid)).1

/-- The rows that a deletion needs are those the table can erase. -/
theorem Stored.erasable_iff {rows : Rows config} (hstored : Stored system rows fun _ => 0)
    {table : Table config} (hrows : table.rows = rows) :
    Erasable rows (fun _ => 0) ids ↔ table.CanErase ids := by
  subst hrows
  constructor
  · rintro ⟨hnodup, hheld⟩
    refine ⟨hnodup, fun id hid => ?_⟩
    obtain ⟨l, o, row, hrow, hrowId, hlist, -⟩ := hheld id hid
    exact ⟨l, (hstored.slot_lt hrow).1, hlist, row, List.mem_of_getElem? hrow, hrowId⟩
  · rintro ⟨hnodup, hheld⟩
    refine ⟨hnodup, fun id hid => ?_⟩
    obtain ⟨l, -, hlist, row, hrow, hrowId⟩ := hheld id hid
    obtain ⟨o, ho⟩ := List.mem_iff_getElem?.mp hrow
    exact ⟨l, o, row, ho, hrowId, hlist, rfl⟩

/-- A deletion answers as the table does. -/
theorem Represents.erase (h : Represents system table) (hfaults : env.faults = IoFaults.none) :
    (eraseBatch config env system ids).2.toOption.map (fun _ => []) =
        (table.run encoder (.erase ids)).2 ∧
      Represents (eraseBatch config env system ids).1 (table.run encoder (.erase ids)).1 := by
  have hiff := @Stored.erasable_iff _ _ ids _ h.stored table rfl
  obtain ⟨hok, hdone⟩ | ⟨error, herror, hrefused⟩ := eraseBatch_spec env h.stored ids
  · have hrows : eraseRows system ids table.rows = (table.erase ids).rows := funext fun l => by
      rw [eraseRows, hdone.slots_eq h.stored h.located, Table.erase]
    have hstored := hdone.stored
    have hlocated := hdone.located h.located
    rw [hrows] at hstored hlocated
    have hcan : table.CanErase ids := by
      refine hiff.mp ⟨hdone.nodup, fun id hid => ?_⟩
      obtain ⟨row, hrow, hrowId⟩ := hdone.row_of_id id hid
      have hactive := eraseBatch_active h.stored hok id hid
      rw [← hrowId, (h.located.located _ _ _ hrow).2, h.stored.active_iff hrow] at hactive
      exact ⟨_, _, row, hrow, hrowId, hactive, rfl⟩
    rw [Table.run, if_pos hcan, hok]
    exact ⟨rfl, hstored, hlocated, hdone.nextId_eq.trans h.nextId_eq⟩
  · obtain ⟨hsame, hcannot⟩ := hrefused hfaults h.located
    rw [Table.run, if_neg (mt hiff.mpr hcannot), herror, hsame]
    exact ⟨rfl, h⟩

/-- One call, on the index and on the table. -/
theorem Represents.step (h : Represents system table) {operation : Operation config Vector}
    (hclean : NoIoError encoder system env operation) :
    (operation.run encoder env system).2.toOption = (table.run encoder operation).2 ∧
      Represents (operation.run encoder env system).1 (table.run encoder operation).1 := by
  cases operation with
  | insert input => exact h.insert hclean
  | erase ids =>
      obtain ⟨hanswer, hafter⟩ := @Represents.erase _ _ encoder _ _ ids _ h hclean.1
      refine ⟨?_, hafter⟩
      rw [← hanswer, Operation.run]
      cases (eraseBatch config env system ids).2 <;> rfl

/-- A call that threw an exception of its own has met no I/O error. -/
theorem noIoError_of_answer {operation : Operation config Vector} (hfaults : env.faults = IoFaults.none)
    (h : (operation.run encoder env system).2.mapError Error.isSystem ≠ .error true) :
    NoIoError encoder system env operation := by
  refine ⟨hfaults, fun error herror => ?_⟩
  rw [herror] at h
  rw [← Bool.not_eq_true]
  exact fun hsystem => h (congrArg Except.error hsystem)

end Step

/-! ### Runs -/

/-- The calls of a client in turn, and what each of them returns. -/
def runCalls (encoder : Encoder config Vector) :
    System → List (Environment × Operation config Vector) → System × List (Option (List Nat))
  | system, [] => (system, [])
  | system, (env, operation) :: rest =>
      let result := operation.run encoder env system
      let later := runCalls encoder result.1 rest
      (later.1, result.2.toOption :: later.2)

/-- No call meets an I/O error. -/
def CleanCalls (encoder : Encoder config Vector) :
    System → List (Environment × Operation config Vector) → Prop
  | _, [] => True
  | system, (env, operation) :: rest => NoIoError encoder system env operation ∧
      CleanCalls encoder (operation.run encoder env system).1 rest

/-- The same calls on a table. -/
def Table.runCalls (encoder : Encoder config Vector) :
    Table config → List (Operation config Vector) → Table config × List (Option (List Nat))
  | table, [] => (table, [])
  | table, operation :: rest =>
      let result := table.run encoder operation
      let later := Table.runCalls encoder result.1 rest
      (later.1, result.2 :: later.2)

section Runs

variable {encoder : Encoder config Vector} {system : System} {table : Table config}
  {calls : List (Environment × Operation config Vector)}

/-- The table answers a run as the index does. -/
theorem Represents.runCalls (h : Represents system table) (hclean : CleanCalls encoder system calls) :
    (Recast.runCalls encoder system calls).2 = (table.runCalls encoder (calls.map Prod.snd)).2 ∧
      Represents (Recast.runCalls encoder system calls).1
        (table.runCalls encoder (calls.map Prod.snd)).1 := by
  induction calls generalizing system table with
  | nil => exact ⟨rfl, h⟩
  | cons call rest ih =>
      obtain ⟨env, operation⟩ := call
      obtain ⟨hfirst, hrest⟩ := hclean
      obtain ⟨hanswer, hafter⟩ := h.step hfirst
      obtain ⟨hanswers, hlast⟩ := ih hafter hrest
      exact ⟨congrArg₂ List.cons hanswer hanswers, hlast⟩

/-- Every run from a new index on that meets no I/O error returns what the table returns,
call by call, and ends with an index that holds the rows of the table. -/
theorem index_refines_table (encoder : Encoder config Vector)
    (calls : List (Environment × Operation config Vector))
    (hclean : CleanCalls encoder System.fresh calls) :
    (runCalls encoder System.fresh calls).2 =
        (Table.empty.runCalls encoder (calls.map Prod.snd)).2 ∧
      Represents (runCalls encoder System.fresh calls).1
        (Table.empty.runCalls encoder (calls.map Prod.snd)).1 :=
  (represents_fresh config).runCalls hclean

/-- A row is inserted and erased, and cannot be erased again. -/
def comingAndGoing : List (Environment × Operation (onePerPage 1 Nat.one_pos) Unit) :=
  [(.quiet, .insert [zeroRow _]), (.quiet, .erase [0]), (.quiet, .erase [0])]

theorem index_refines_table_one :
    (runCalls (constantEncoder _ 0) System.fresh comingAndGoing).2 = [some [0], some [], none] :=
  (index_refines_table (constantEncoder _ 0) comingAndGoing
    ⟨noIoError_of_answer rfl (by decide +kernel), noIoError_of_answer rfl (by decide +kernel),
      noIoError_of_answer rfl (by decide +kernel), trivial⟩).1.trans (by decide +kernel)

end Runs

end Recast
