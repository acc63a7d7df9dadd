import Recast.Index.Insertion
import Recast.Index.Deletion

/-!
# Runs of insertions and deletions

A run keeps a ledger of the IDs it was given and of what it supplied for them.
The rows of the index are the ones the ledger names, after every step.
-/

namespace Recast

open Foundation

variable {config : IndexConfig} {Vector : Type*}

/-- What an index holds for one Logical ID. -/
@[ext] structure Entry (config : IndexConfig) where
  payload : Payload config.records
  posting : Posting config.codes
  deriving DecidableEq

/-- What a row holds besides its ID. -/
def Row.entry (row : Row config) : Entry config := ⟨row.record.payload, row.posting⟩

/-- What an input row stands for once it is encoded. -/
def Encoder.entry (encoder : Encoder config Vector) (row : InputRow config Vector) :
    Entry config :=
  ⟨row.payload, encoder.encode row.vector⟩

/-- A call of the client. -/
inductive Operation (config : IndexConfig) (Vector : Type*) where
  | insert (input : List (InputRow config Vector))
  | erase (ids : List Nat)

/-- Run one call. The result of an insertion is its new IDs. -/
def Operation.run (encoder : Encoder config Vector) (env : Environment) (system : System) :
    Operation config Vector → System × Except Error (List Nat)
  | .insert input => insertBatch encoder env system input
  | .erase ids =>
      let result := eraseBatch config env system ids
      (result.1, result.2.map fun _ => [])

/-- What the client knows: the IDs it was given, those it erased, and what it
supplied for the others. -/
structure Ledger (config : IndexConfig) where
  issued : List Nat
  erased : List Nat
  contents : Nat → Option (Entry config)

def Ledger.empty : Ledger config := ⟨[], [], fun _ => none⟩

/-- The ledger after a call with this result. -/
def Ledger.record (encoder : Encoder config Vector) (ledger : Ledger config) :
    Operation config Vector → Except Error (List Nat) → Ledger config
  | .insert input, .ok ids =>
      { ledger with
        issued := ledger.issued ++ ids
        contents := applyUpdates ledger.contents
          (ids.zip (input.map fun row => some (encoder.entry row))) }
  | .erase ids, .ok _ =>
      { ledger with
        erased := ledger.erased ++ ids
        contents := fun id => if id ∈ ids then none else ledger.contents id }
  | _, .error _ => ledger

/-- Which steps a run may take. -/
abbrev StepRule (config : IndexConfig) (Vector : Type*) :=
  System → Environment → Operation config Vector → Prop

/-- The states of the runs whose steps all obey the rule. -/
inductive Reachable (encoder : Encoder config Vector) (rule : StepRule config Vector) :
    System → Ledger config → Prop where
  | fresh : Reachable encoder rule System.fresh Ledger.empty
  | step {system : System} {ledger : Ledger config} (env : Environment)
      (operation : Operation config Vector) : Reachable encoder rule system ledger →
      rule system env operation →
      Reachable encoder rule (operation.run encoder env system).1
        (ledger.record encoder operation (operation.run encoder env system).2)

/-- The call returns. -/
def Succeeds (encoder : Encoder config Vector) : StepRule config Vector :=
  fun system env operation => ∃ ids, (operation.run encoder env system).2 = .ok ids

/-- The call meets no I/O error: no system call is made to fail, and the file
system refuses nothing. -/
def NoIoError (encoder : Encoder config Vector) : StepRule config Vector :=
  fun system env operation => env.faults = IoFaults.none ∧
    ∀ error, (operation.run encoder env system).2 = .error error → error.isSystem = false

/-- The ledger names exactly the rows of the index. -/
structure Tracks (system : System) (rows : Rows config) (ledger : Ledger config) : Prop where
  contents : ∀ id entry, ledger.contents id = some entry ↔
    ∃ l, ∃ row ∈ rows l, row.id = id ∧ row.entry = entry
  issued_nodup : ledger.issued.Nodup
  issued_lt : ∀ id ∈ ledger.issued, id < system.index.nextId
  active_iff : ∀ id, (ledger.contents id).isSome ↔ id ∈ ledger.issued ∧ id ∉ ledger.erased
  erased_issued : ∀ id ∈ ledger.erased, id ∈ ledger.issued

/-- The rows tie the ledger to the index and its files. -/
structure Agrees (system : System) (rows : Rows config) (ledger : Ledger config) : Prop where
  stored : Stored system rows fun _ => 0
  located : Located system rows
  tracks : Tracks system rows ledger

theorem agrees_fresh (config : IndexConfig) :
    Agrees System.fresh (fun _ => [] : Rows config) Ledger.empty where
  stored := stored_fresh config
  located := located_fresh config
  tracks := ⟨by simp [Ledger.empty], List.nodup_nil, by simp [Ledger.empty],
    by simp [Ledger.empty], by simp [Ledger.empty]⟩

section Insert

variable {encoder : Encoder config Vector} {nextId : Nat} {input : List (InputRow config Vector)}

/-- The ledger of an insertion, written with the new rows. -/
theorem ledger_updates (encoder : Encoder config Vector) (nextId : Nat)
    (input : List (InputRow config Vector)) :
    ((generateRows encoder nextId input).map Row.id).zip
        (input.map fun row => some (encoder.entry row)) =
      (generateRows encoder nextId input).map fun row => (row.id, some row.entry) := by
  have hentries : (input.map fun row => some (encoder.entry row)) =
      (generateRows encoder nextId input).map fun row => some row.entry := by
    apply List.ext_getElem?
    intro i
    rw [List.getElem?_map, List.getElem?_map, generateRows, List.getElem?_mapIdx, Option.map_map]
    rfl
  rw [hentries, List.zip_map']

theorem nodup_generateRows (hfits : nextId + input.length ≤ uint32Max) :
    ((generateRows encoder nextId input).map Row.id).Nodup := by
  rw [List.nodup_iff_injective_getElem]
  rintro ⟨i, hi⟩ ⟨j, hj⟩ h
  rw [List.length_map] at hi hj
  simp only [List.getElem_map] at h
  rw [generateRows_id encoder hfits (List.getElem?_eq_getElem hi),
    generateRows_id encoder hfits (List.getElem?_eq_getElem hj)] at h
  exact Fin.ext (Nat.add_left_cancel h)

theorem generateRows_new (hfits : nextId + input.length ≤ uint32Max) {row : Row config}
    (h : row ∈ generateRows encoder nextId input) :
    nextId ≤ row.id ∧ row.id < nextId + input.length := by
  obtain ⟨i, hi⟩ := List.mem_iff_getElem?.mp h
  have hlt := (List.getElem?_eq_some_iff.mp hi).1
  rw [length_generateRows] at hlt
  rw [generateRows_id encoder hfits hi]
  omega

/-- An insertion leaves the other IDs of the ledger alone. -/
theorem Ledger.record_insert_of_notMem {ledger : Ledger config} {id : Nat}
    (h : id ∉ (generateRows encoder nextId input).map Row.id) :
    (ledger.record encoder (.insert input)
      (.ok ((generateRows encoder nextId input).map Row.id))).contents id = ledger.contents id := by
  simp only [Ledger.record, ledger_updates]
  apply applyUpdates_of_notMem
  rw [List.map_map]
  exact h

/-- Every new row goes to some list. -/
theorem mem_generateRows {row : Row config} : row ∈ generateRows encoder nextId input ↔
    ∃ l, row ∈ batchRows (assignmentsOf encoder input) (generateRows encoder nextId input) l := by
  simp only [mem_batchRows]
  constructor
  · intro h
    obtain ⟨p, hp⟩ := List.mem_iff_getElem?.mp h
    have hlt := (List.getElem?_eq_some_iff.mp hp).1
    have hin : p < (assignmentsOf encoder input).length := by simpa using hlt
    exact ⟨_, p, List.getElem?_eq_getElem hin, hp⟩
  · rintro ⟨l, p, -, hp⟩
    exact List.mem_of_getElem? hp

end Insert

section Steps

variable {system : System} {rows : Rows config} {ledger : Ledger config}
  {encoder : Encoder config Vector}

theorem Located.id_lt (hlocated : Located system rows) {l : Nat} {row : Row config}
    (h : row ∈ rows l) : row.id < system.index.nextId :=
  have ⟨o, ho⟩ := List.mem_iff_getElem?.mp h
  (hlocated.located l o row ho).1

/-- The rows after an insertion are the old ones and those of the batch. -/
theorem mem_insertRows {nextId : Nat} {input : List (InputRow config Vector)} {P : Row config → Prop} :
    (∃ l, ∃ row ∈ insertRows encoder nextId input rows l, P row) ↔
      (∃ l, ∃ row ∈ rows l, P row) ∨ ∃ row ∈ generateRows encoder nextId input, P row := by
  constructor
  · rintro ⟨l, row, hrow, hP⟩
    rcases List.mem_append.mp hrow with hold | hnew
    · exact Or.inl ⟨l, row, hold, hP⟩
    · exact Or.inr ⟨row, mem_generateRows.mpr ⟨l, hnew⟩, hP⟩
  · rintro (⟨l, row, hrow, hP⟩ | ⟨row, hrow, hP⟩)
    · exact ⟨l, row, List.mem_append_left _ hrow, hP⟩
    · obtain ⟨l, hl⟩ := mem_generateRows.mp hrow
      exact ⟨l, row, List.mem_append_right _ hl, hP⟩

/-- The ledger follows an insertion that returned. -/
theorem Agrees.insert (hagrees : Agrees system rows ledger) {input : List (InputRow config Vector)}
    {system' : System} (hdone : InsertDone encoder input system rows (fun _ => 0) system') :
    Agrees system' (insertRows encoder system.index.nextId input rows)
      (ledger.record encoder (.insert input)
        (.ok ((generateRows encoder system.index.nextId input).map Row.id))) := by
  have hextra : insertExtra (assignmentsOf encoder input) (fun _ => 0) = fun _ => 0 :=
    funext fun l => ite_self 0
  have htracks := hagrees.tracks
  have hfits := hdone.fits
  have hnodup := @nodup_generateRows _ _ encoder _ _ hfits
  have hkeys : ((generateRows encoder system.index.nextId input).map
      fun row => (row.id, some row.entry)).map Prod.fst =
        (generateRows encoder system.index.nextId input).map Row.id := by
    rw [List.map_map]
    rfl
  -- a new ID maps to its new row, an old one to what it did
  have hnew : ∀ row ∈ generateRows encoder system.index.nextId input,
      (ledger.record encoder (.insert input) (.ok ((generateRows encoder system.index.nextId
        input).map Row.id))).contents row.id = some row.entry := by
    intro row hrow
    simp only [Ledger.record, ledger_updates]
    exact applyUpdates_of_mem _ (by rwa [hkeys]) (List.mem_map_of_mem hrow)
  have hold := fun id => @Ledger.record_insert_of_notMem _ _ encoder system.index.nextId input
    ledger id
  have hgenerated : ∀ id ∈ (generateRows encoder system.index.nextId input).map Row.id,
      system.index.nextId ≤ id ∧ id < system.index.nextId + input.length := by
    intro id hid
    obtain ⟨row, hrow, rfl⟩ := List.mem_map.mp hid
    exact generateRows_new hfits hrow
  have hfresh : ∀ id ∈ ledger.issued,
      id ∉ (generateRows encoder system.index.nextId input).map Row.id := fun id hid hmem =>
    Nat.not_le.mpr (htracks.issued_lt id hid) (hgenerated id hmem).1
  refine ⟨hextra ▸ hdone.stored, hdone.located hagrees.located, ?_, ?_, ?_, ?_, ?_⟩
  · intro id entry
    rw [mem_insertRows]
    by_cases hid : id ∈ (generateRows encoder system.index.nextId input).map Row.id
    · obtain ⟨row, hrow, rfl⟩ := List.mem_map.mp hid
      rw [hnew row hrow, Option.some.injEq]
      constructor
      · exact fun hentry => Or.inr ⟨row, hrow, rfl, hentry⟩
      · rintro (⟨l, row', hrow', heq, -⟩ | ⟨row', hrow', heq, hentry⟩)
        · have := hagrees.located.id_lt hrow'
          have := (generateRows_new hfits hrow).1
          omega
        · rwa [List.inj_on_of_nodup_map hnodup hrow hrow' heq.symm]
    · rw [hold id hid, htracks.contents]
      refine ⟨Or.inl, fun h => h.resolve_right ?_⟩
      rintro ⟨row, hrow, heq, -⟩
      exact hid (heq ▸ List.mem_map_of_mem hrow)
  · exact htracks.issued_nodup.append hnodup fun id hid hmem => hfresh id hid hmem
  · intro id hid
    rw [hdone.nextId_eq]
    rcases List.mem_append.mp hid with hissued | hmem
    · exact Nat.lt_of_lt_of_le (htracks.issued_lt id hissued) (Nat.le_add_right _ _)
    · exact (hgenerated id hmem).2
  · intro id
    by_cases hid : id ∈ (generateRows encoder system.index.nextId input).map Row.id
    · obtain ⟨row, hrow, rfl⟩ := List.mem_map.mp hid
      rw [hnew row hrow]
      refine iff_of_true rfl ⟨List.mem_append_right _ hid, fun herased => ?_⟩
      exact hfresh _ (htracks.erased_issued _ herased) hid
    · rw [hold id hid, htracks.active_iff]
      refine and_congr_left fun _ => ⟨List.mem_append_left _, fun h => ?_⟩
      exact (List.mem_append.mp h).resolve_right hid
  · exact fun id hid => List.mem_append_left _ (htracks.erased_issued id hid)

/-- The ledger follows a deletion that returned. -/
theorem Agrees.erase (hagrees : Agrees system rows ledger) {ids : List Nat} {system' : System}
    (hdone : EraseDone system rows (fun _ => 0) ids system') :
    Agrees system' (eraseRows system ids rows)
      (ledger.record encoder (.erase ids : Operation config Vector) (.ok [])) := by
  have htracks := hagrees.tracks
  have hmem := fun l row => @EraseDone.mem_iff _ _ _ _ _ _ hdone hagrees.stored hagrees.located l row
  refine ⟨hdone.stored, hdone.located hagrees.located, ?_, htracks.issued_nodup, ?_, ?_, ?_⟩
  · intro id entry
    simp only [Ledger.record, hmem]
    by_cases hid : id ∈ ids
    · rw [if_pos hid]
      refine iff_of_false (by simp) ?_
      rintro ⟨l, row, ⟨-, hnot⟩, rfl, -⟩
      exact hnot hid
    · rw [if_neg hid, htracks.contents]
      constructor
      · rintro ⟨l, row, hrow, rfl, hentry⟩
        exact ⟨l, row, ⟨hrow, hid⟩, rfl, hentry⟩
      · rintro ⟨l, row, ⟨hrow, -⟩, heq⟩
        exact ⟨l, row, hrow, heq⟩
  · intro id hid
    rw [hdone.nextId_eq]
    exact htracks.issued_lt id hid
  · intro id
    simp only [Ledger.record, List.mem_append, not_or]
    by_cases hid : id ∈ ids
    · simp [hid]
    · rw [if_neg hid, htracks.active_iff]
      simp [hid]
  · intro id hid
    rcases List.mem_append.mp hid with herased | herased
    · exact htracks.erased_issued id herased
    · obtain ⟨row, hrow, rfl⟩ := hdone.row_of_id id herased
      have hcontents := (htracks.contents row.id row.entry).mpr
        ⟨_, row, List.mem_of_getElem? hrow, rfl, rfl⟩
      exact ((htracks.active_iff row.id).mp (by rw [hcontents]; rfl)).1

/-- The lists a call can give rows to. -/
def Operation.lists (encoder : Encoder config Vector) : Operation config Vector → List Nat
  | .insert input => assignmentsOf encoder input
  | .erase _ => []

/-- One step keeps the agreement: a call that returned does what the ledger
says, and one that threw without an I/O error does nothing. -/
theorem Agrees.step (hagrees : Agrees system rows ledger) {env : Environment}
    {operation : Operation config Vector}
    (hrule : Succeeds encoder system env operation ∨ NoIoError encoder system env operation) :
    ∃ rows', Agrees (operation.run encoder env system).1 rows'
        (ledger.record encoder operation (operation.run encoder env system).2) ∧
      ∀ l, rows' l ≠ [] → rows l ≠ [] ∨ l ∈ operation.lists encoder := by
  cases operation with
  | insert input =>
      rcases insertBatch_spec env hagrees.stored encoder input with
        ⟨hok, hdone⟩ | ⟨error, extra', herror, hrefused, hclean⟩
      · refine ⟨_, by rw [Operation.run, hok]; exact hagrees.insert hdone, fun l hl => ?_⟩
        by_cases hmem : l ∈ assignmentsOf encoder input
        · exact Or.inr hmem
        · rw [insertRows, batchRows_eq_nil hmem, List.append_nil] at hl
          exact Or.inl hl
      · have hextra : extra' = fun _ => 0 := by
          rcases hrule with ⟨ids, hok⟩ | ⟨hfaults, hnone⟩
          · cases hok.symm.trans herror
          · exact (hclean hfaults (hnone error herror)).2
        have htracks := hagrees.tracks
        refine ⟨rows, ⟨hextra ▸ hrefused.stored, hrefused.located hagrees.located, ?_⟩,
          fun l hl => Or.inl hl⟩
        rw [Operation.run, herror]
        exact ⟨htracks.contents, htracks.issued_nodup, by
          rw [hrefused.nextId_eq]; exact htracks.issued_lt, htracks.active_iff,
          htracks.erased_issued⟩
  | erase ids =>
      rcases eraseBatch_spec env hagrees.stored ids with ⟨hok, hdone⟩ | ⟨error, herror, hclean⟩
      · refine ⟨_, by rw [Operation.run, hok]; exact hagrees.erase hdone, fun l hl => Or.inl ?_⟩
        intro hnil
        obtain ⟨hnodup, hin⟩ := hdone.slots_ok l
        apply hl
        apply List.eq_nil_of_length_eq_zero
        rw [eraseRows, length_swapDelete hnodup hin, hnil]
        exact Nat.zero_sub _
      · have hsame : (eraseBatch config env system ids).1 = system := by
          rcases hrule with ⟨ids, hok⟩ | ⟨hfaults, -⟩
          · rw [Operation.run, herror] at hok
            cases hok
          · exact (hclean hfaults hagrees.located).1
        refine ⟨rows, ?_, fun l hl => Or.inl hl⟩
        rw [Operation.run, herror, hsame]
        exact hagrees

end Steps

/-- Every state of a run agrees with its ledger, and its rows are in lists some
call named. -/
theorem Reachable.agrees {encoder : Encoder config Vector} {rule : StepRule config Vector}
    {system : System} {ledger : Ledger config} (named : Nat → Prop)
    (hrule : ∀ system env operation, rule system env operation →
      (Succeeds encoder system env operation ∨ NoIoError encoder system env operation) ∧
        ∀ l ∈ operation.lists encoder, named l)
    (hreachable : Reachable encoder rule system ledger) :
    ∃ rows, Agrees system rows ledger ∧ ∀ l, rows l ≠ [] → named l := by
  induction hreachable with
  | fresh => exact ⟨_, agrees_fresh config, fun l hl => absurd rfl hl⟩
  | step env operation _ hstep ih =>
      obtain ⟨rows, hagrees, hnamed⟩ := ih
      obtain ⟨hclean, hlists⟩ := hrule _ env operation hstep
      obtain ⟨rows', hagrees', hkept⟩ := hagrees.step hclean
      exact ⟨rows', hagrees', fun l hl => (hkept l hl).elim (hnamed l) (hlists l)⟩

end Recast
