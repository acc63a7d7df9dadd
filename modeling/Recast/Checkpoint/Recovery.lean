import Recast.Checkpoint.ConcurrentRuns

/-!
# Reopening an index after a stop

Updates change the record files and the directory in place; the sizes and the
postings on the disk are those of the last checkpoint. A reload compares the two
by page counts and by the number of rows only. It restores the last checkpoint,
and its postings are right wherever the slots have kept their rows.
-/

namespace Recast

open Foundation

variable {config : CheckpointConfig} {Vector : Type*}

/-- The states of a checkpoint call that runs alone. -/
inductive LoneCall (config : CheckpointConfig) (number : Nat) (first : CheckpointShared) :
    CheckpointShared → CheckpointPhase → Prop where
  | called : LoneCall config number first first (.create .quantizer)
  | advance {shared : CheckpointShared} {phase : CheckpointPhase} (chunk : Nat) :
      LoneCall config number first shared phase →
      LoneCall config number first (phase.advance config number chunk shared).1
        (phase.advance config number chunk shared).2

/-- An index in its storage root between two calls, and what its client knows. -/
structure SavedIndex (config : CheckpointConfig) where
  disk : CheckpointDisk
  system : System
  ledger : Ledger config.toIndexConfig
  /-- The index and the ledger at the last checkpoint. -/
  saved : Option (System × Ledger config.toIndexConfig)

def SavedIndex.fresh (config : CheckpointConfig) : SavedIndex config :=
  ⟨CheckpointSystem.fresh.disk, System.fresh, Ledger.empty, none⟩

/-- What a process that stops here leaves to a reload. -/
def SavedIndex.reload (s : SavedIndex config) : Except Error Index :=
  reloadCheckpoint config s.disk s.system.storage.records

/-- The index after a call of the client that returned. -/
def SavedIndex.update (encoder : Encoder config.toIndexConfig Vector) (env : Environment)
    (operation : Operation config.toIndexConfig Vector) (s : SavedIndex config) :
    SavedIndex config :=
  { s with
    system := (operation.run encoder env s.system).1
    ledger := s.ledger.record encoder operation (operation.run encoder env s.system).2 }

/-- The index after a checkpoint that left this behind. -/
def SavedIndex.publish (s : SavedIndex config) (shared : CheckpointShared) : SavedIndex config :=
  let system : System := ⟨shared.index, s.system.storage⟩
  ⟨shared.disk, system, s.ledger, some (system, s.ledger)⟩

/-- The states between the calls of a run whose insertions, deletions and
checkpoints all succeed. -/
inductive SavedReachable (encoder : Encoder config.toIndexConfig Vector) : SavedIndex config → Prop where
  | fresh : SavedReachable encoder (SavedIndex.fresh config)
  | update {s : SavedIndex config} (env : Environment)
      (operation : Operation config.toIndexConfig Vector) : SavedReachable encoder s →
      Succeeds encoder s.system env operation → SavedReachable encoder (s.update encoder env operation)
  | checkpoint {s : SavedIndex config} {shared : CheckpointShared} (number : Nat) :
      SavedReachable encoder s → LoneCall config number ⟨s.disk, s.system.index⟩ shared .returned →
      SavedReachable encoder (s.publish shared)

/-! ### A call that runs alone -/

section Lone

open ConcurrentCheckpoints

variable {number : Nat} {first shared : CheckpointShared} {phase : CheckpointPhase}

/-- A lone call, beside one that never starts. -/
def ConcurrentCheckpoints.beside (shared : CheckpointShared) (phase : CheckpointPhase) :
    ConcurrentCheckpoints :=
  ⟨shared, Function.update (fun _ => .create .quantizer) false phase⟩

theorem ConcurrentCheckpoints.calls_beside (shared : CheckpointShared) (phase : CheckpointPhase) :
    (beside shared phase).calls false = phase ∧
      (beside shared phase).calls true = .create .quantizer :=
  ⟨rfl, rfl⟩

/-- A call that never starts disturbs nobody. -/
theorem ConcurrentCheckpoints.Coherent.undisturbed_beside {disk : CheckpointDisk} {content : CheckpointTarget → Bytes}
    {first published : Nat} (h : Coherent config disk content first (beside shared phase) published) :
    (beside shared phase).Undisturbed false := by
  obtain ⟨hcall, hother⟩ := calls_beside shared phase
  have hholds := h.calls false
  rw [hcall] at hholds
  rw [Undisturbed, hcall]
  cases phase with
  | install target =>
      intro _ other file written hwriting
      cases hother.symm.trans hwriting
  | retire generation =>
      intro hsame
      have hpast := hholds.1.past hsame.symm
      rw [Bool.not_false, hother] at hpast
      exact hpast
  | _ => trivial

theorem LoneCall.coherent {disk : CheckpointDisk} {content : CheckpointTarget → Bytes}
    {generation published : Nat} (h : LoneCall config number first shared phase)
    (hfirst : Coherent config disk content generation (beside first (.create .quantizer)) published) :
    ∃ published', Coherent config disk content generation (beside shared phase) published' := by
  induction h with
  | called => exact ⟨published, hfirst⟩
  | @advance shared phase chunk _ ih =>
      obtain ⟨published', hcoherent⟩ := ih
      have hstep := hcoherent.step hcoherent.undisturbed_beside (fun _ => number) chunk
      have hbeside : (beside shared phase).step config (fun _ => number) false chunk =
          beside (phase.advance config number chunk shared).1
            (phase.advance config number chunk shared).2 := by
        rw [ConcurrentCheckpoints.step]
        simp only [beside, Function.update_self, Function.update_idem]
      rwa [hbeside] at hstep

/-- A call changes nothing of the index but `checkpoint_generation_`. -/
theorem advance_index (config : CheckpointConfig) (number chunk : Nat) (shared : CheckpointShared)
    (phase : CheckpointPhase) : ∃ generation, (phase.advance config number chunk shared).1.index =
      { shared.index with checkpointGeneration := generation } := by
  cases phase with
  | store generation oldGeneration => exact ⟨generation, rfl⟩
  | writing target file written =>
      refine ⟨shared.index.checkpointGeneration, ?_⟩
      rw [CheckpointPhase.advance]
      split
      · rfl
      · split <;> rfl
  | install target =>
      refine ⟨shared.index.checkpointGeneration, ?_⟩
      rw [CheckpointPhase.advance]
      split <;> rfl
  | choose =>
      refine ⟨shared.index.checkpointGeneration, ?_⟩
      rw [CheckpointPhase.advance]
      split <;> rfl
  | _ => exact ⟨shared.index.checkpointGeneration, rfl⟩

theorem LoneCall.index_eq (h : LoneCall config number first shared phase) :
    ∃ generation, shared.index = { first.index with checkpointGeneration := generation } := by
  induction h with
  | called => exact ⟨first.index.checkpointGeneration, rfl⟩
  | @advance shared phase chunk _ ih =>
      obtain ⟨generation, hindex⟩ := ih
      obtain ⟨generation', hadvance⟩ := advance_index config number chunk shared phase
      refine ⟨generation', ?_⟩
      rw [hadvance, hindex]

/-- A lone call that returned has published the index. -/
theorem LoneCall.published {records : Nat → Option Bytes}
    (h : LoneCall config number first shared .returned) (hsound : first.disk.Sound)
    (hlt : first.index.checkpointGeneration < 2 ^ 64) (hloadable : Loadable config first.index records) :
    shared.disk.Sound ∧ shared.index.checkpointGeneration < 2 ^ 64 ∧ ∃ generation,
      reloadCheckpoint config shared.disk records = .ok (first.index.restored config generation) := by
  obtain ⟨content, hcontent⟩ := hloadable.exists_content
  have hstart : beside first (.create .quantizer) = start first.disk first.index :=
    congrArg _ (Function.update_eq_self false fun _ => CheckpointPhase.create .quantizer)
  obtain ⟨published, hcoherent⟩ :=
    h.coherent (hstart ▸ coherent_start hsound hcontent hlt)
  have hreturned := hcoherent.calls false
  rw [(calls_beside shared .returned).1] at hreturned
  have hafter : first.index.checkpointGeneration < published := hreturned
  refine ⟨hcoherent.sound, hcoherent.lt, ?_⟩
  rcases hcoherent.intact with ⟨hsame, -⟩ | ⟨-, hlt', hfiles⟩
  · exact absurd (hsame ▸ hafter) (Nat.lt_irrefl _)
  · exact ⟨published, (hloadable.reload_eq hcontent
      (Nat.pos_iff_ne_zero.mp (Nat.lt_of_le_of_lt (Nat.zero_le _) hafter)) hlt' hfiles).2⟩

end Lone

/-! ### What a reload restores -/

section Restored

variable {index index' : Index} {records records' : Nat → Option Bytes}

/-- The sizes are summed, whatever the record files hold. -/
theorem checkSizes_eq {sizes : List Nat} {listNo activeSum total : Nat}
    (h : checkSizes config records sizes listNo activeSum = .ok total) :
    total = activeSum + sizes.sum := by
  induction sizes generalizing listNo activeSum with
  | nil => exact (Except.ok.inj h).symm
  | cons size rest ih =>
      rw [checkSizes] at h
      obtain ⟨-, h⟩ := guard_eq_ok.mp h
      obtain ⟨-, -, h⟩ := bind_eq_ok.mp h
      rw [ih h, List.sum_cons, Nat.add_assoc]

/-- The record files decide whether a checkpoint is accepted, not what it
restores. -/
theorem reloadCheckpoint_unique {disk : CheckpointDisk}
    (h : reloadCheckpoint config disk records = .ok index)
    (h' : reloadCheckpoint config disk records' = .ok index') : index = index' := by
  unfold reloadCheckpoint loadCheckpoint at h h'
  obtain ⟨file, hfile, h⟩ := bind_eq_ok.mp h
  obtain ⟨manifest, hmanifest, h⟩ := bind_eq_ok.mp h
  obtain ⟨hcompatible, h⟩ := guard_eq_ok.mp h
  obtain ⟨sizesFile, hsizesFile, h⟩ := bind_eq_ok.mp h
  obtain ⟨logicalSizes, hsizes, h⟩ := bind_eq_ok.mp h
  obtain ⟨activeSum, hsum, h⟩ := bind_eq_ok.mp h
  obtain ⟨-, h⟩ := guard_eq_ok.mp h
  simp only [hfile, hmanifest, hsizesFile, hsizes, ok_bind, if_neg hcompatible] at h'
  obtain ⟨activeSum', hsum', h'⟩ := bind_eq_ok.mp h'
  obtain ⟨-, h'⟩ := guard_eq_ok.mp h'
  rw [checkSizes_eq hsum'] at h'
  rw [checkSizes_eq hsum] at h
  exact Except.ok.inj (h.symm.trans h')

/-- Bytes past the padded rows do not matter to a lane. -/
theorem MemoryList.posting_trimmed {layout : CodeLayout} {list : MemoryList} {row : Nat}
    (hpadded : list.paddedSize % kUpdateBlockSize = 0) (hrow : row < list.paddedSize) :
    (list.trimmed layout).posting layout row = list.posting layout row := by
  obtain ⟨blocks, hblocks⟩ : ∃ blocks, list.paddedSize = blocks * 32 :=
    ⟨list.paddedSize / 32, by rw [kUpdateBlockSize] at hpadded; omega⟩
  rw [hblocks] at hrow
  apply Posting.ext
  · apply CodeLayout.unpackRow_congr
    intro m hm
    have hlt := layout.packedAddress_lt hrow hm
    rw [CodeLayout.blockBytes_eq, ← Nat.mul_assoc, ← hblocks] at hlt
    rw [CodeLayout.getPackedElement, CodeLayout.getPackedElement, nibbleAt, nibbleAt]
    simp only [MemoryList.trimmed, List.getD_eq_getElem?_getD, List.getElem?_take, if_pos hlt]
  · apply Metadata.load_congr
    intro plane hplane
    have hlt := Metadata.plane_lt hrow
    rw [List.getD_eq_getElem?_getD, List.getD_eq_getElem?_getD, MemoryList.trimmed,
      List.getElem?_take, if_pos (by omega)]

variable {system : System} {rows : Rows config.toIndexConfig} {generation : Nat}

/-- A restored list has the size of the saved one. -/
theorem Stored.restored_size (hstored : Stored system rows fun _ => 0) (l : Nat) :
    ((system.index.restored config generation).lists l).logicalSize = (rows l).length := by
  rw [Index.restored]
  dsimp only
  split
  next => exact hstored.size_eq l
  next hl =>
    by_contra hne
    exact hl (hstored.outside l (List.ne_nil_of_length_pos (Nat.pos_of_ne_zero (Ne.symm hne)))).1

/-- A restored lane is the lane of the saved row. -/
theorem Stored.restored_posting (hstored : Stored system rows fun _ => 0) {l o : Nat}
    {row : Row config.toIndexConfig} (hrow : (rows l)[o]? = some row)
    (hfits : roundUpBlock (rows l).length < 2 ^ 32) :
    ((system.index.restored config generation).lists l).posting config.codes o = row.posting := by
  obtain ⟨hlist, -, -⟩ := hstored.slot_lt hrow
  obtain ⟨hlt, hget⟩ := List.getElem?_eq_some_iff.mp hrow
  obtain ⟨blocks, hholds⟩ := hstored.postings l
  have hpadded : (system.index.lists l).paddedSize = roundUpBlock (rows l).length := by
    rw [hholds.padded, List.length_map, MemoryList.paddedTo, Nat.mod_eq_of_lt hfits]
  have hposting := @MemoryList.Holds.posting_lt _ _ _ _ hholds o (by rwa [List.length_map])
  rw [List.getElem_map, hget] at hposting
  rw [Index.restored]
  dsimp only
  rw [if_pos hlist, MemoryList.posting_trimmed (by rw [hholds.padded]; exact MemoryList.paddedTo_mod _)
    (by rw [hpadded]; exact Nat.lt_of_lt_of_le hlt (le_roundUpBlock _)), hposting]

end Restored

/-! ### The client's ledger -/

section Ledger

variable {earlier ledger later : Ledger config.toIndexConfig} {system : System}
  {rows : Rows config.toIndexConfig} {encoder : Encoder config.toIndexConfig Vector}

/-- An issued ID keeps its contents or loses them. -/
structure Ledger.Precedes (ledger later : Ledger config.toIndexConfig) : Prop where
  issued : ∀ id ∈ ledger.issued, id ∈ later.issued
  contents : ∀ id ∈ ledger.issued, ∀ entry, later.contents id = some entry →
    ledger.contents id = some entry

theorem Ledger.Precedes.refl (ledger : Ledger config.toIndexConfig) : ledger.Precedes ledger :=
  ⟨fun _ h => h, fun _ _ _ h => h⟩

theorem Ledger.Precedes.trans (h : earlier.Precedes ledger) (h' : ledger.Precedes later) :
    earlier.Precedes later where
  issued := fun id hid => h'.issued id (h.issued id hid)
  contents := fun id hid entry hentry =>
    h.contents id hid entry (h'.contents id (h.issued id hid) entry hentry)

/-- IDs are not used again. -/
theorem Agrees.precedes (hagrees : Agrees system rows ledger) {env : Environment}
    {operation : Operation config.toIndexConfig Vector} (hok : Succeeds encoder system env operation) :
    ledger.Precedes (ledger.record encoder operation (operation.run encoder env system).2) := by
  obtain ⟨ids, hok⟩ := hok
  cases operation with
  | insert input =>
      rcases insertBatch_spec env hagrees.stored encoder input with
        ⟨hreturned, hdone⟩ | ⟨error, -, herror, -⟩
      · rw [Operation.run, hreturned]
        refine ⟨fun id hid => List.mem_append_left _ hid, fun id hid entry hentry => ?_⟩
        rwa [Ledger.record_insert_of_notMem fun hnew => ?_] at hentry
        obtain ⟨row, hrow, rfl⟩ := List.mem_map.mp hnew
        have hle := (generateRows_new hdone.fits hrow).1
        exact Nat.not_lt.mpr hle (hagrees.tracks.issued_lt _ hid)
      · cases hok.symm.trans herror
  | erase erased =>
      rw [hok]
      refine ⟨fun id hid => hid, fun id _ entry hentry => ?_⟩
      simp only [Ledger.record] at hentry
      split at hentry
      · cases hentry
      · exact hentry

/-- An index does not depend on its `checkpoint_generation_`. -/
theorem Agrees.setGeneration (hagrees : Agrees system rows ledger) (generation : Nat) :
    Agrees ⟨{ system.index with checkpointGeneration := generation }, system.storage⟩ rows ledger where
  stored := ⟨hagrees.stored.postings, hagrees.stored.records, hagrees.stored.aligned,
    hagrees.stored.outside, hagrees.stored.active, hagrees.stored.nextId_le⟩
  located := ⟨hagrees.located.covered, hagrees.located.located, hagrees.located.vacant⟩
  tracks := ⟨hagrees.tracks.contents, hagrees.tracks.issued_nodup, hagrees.tracks.issued_lt,
    hagrees.tracks.active_iff, hagrees.tracks.erased_issued⟩

end Ledger

/-! ### Runs -/

section Runs

variable {s : SavedIndex config} {encoder : Encoder config.toIndexConfig Vector}

/-- The checkpoint files restore the index of the last checkpoint. -/
structure SavedIndex.Recoverable (s : SavedIndex config) : Prop where
  sound : s.disk.Sound
  lt : s.system.index.checkpointGeneration < 2 ^ 64
  agrees : ∃ rows, Agrees s.system rows s.ledger
  unsaved : s.saved = none → s.disk.read (.final .manifest) = none
  restored : ∀ system ledger, s.saved = some (system, ledger) → ledger.Precedes s.ledger ∧
    (∃ rows, Agrees system rows ledger) ∧ ∃ generation,
      reloadCheckpoint config s.disk system.storage.records =
        .ok (system.index.restored config generation)

theorem recoverable_fresh (config : CheckpointConfig) : (SavedIndex.fresh config).Recoverable where
  sound := (@consistent_fresh config).sound
  lt := Nat.two_pow_pos 64
  agrees := ⟨_, agrees_fresh config.toIndexConfig⟩
  unsaved := fun _ => rfl
  restored := fun _ _ h => by cases h

theorem SavedIndex.Recoverable.update (h : s.Recoverable) {env : Environment}
    {operation : Operation config.toIndexConfig Vector}
    (hok : Succeeds encoder s.system env operation) : (s.update encoder env operation).Recoverable := by
  obtain ⟨rows, hagrees⟩ := h.agrees
  obtain ⟨rows', hagrees', -⟩ := hagrees.step (Or.inl hok)
  refine ⟨h.sound, ?_, ⟨rows', hagrees'⟩, h.unsaved, fun system ledger hsaved => ?_⟩
  · rw [SavedIndex.update, run_checkpointGeneration]
    exact h.lt
  · obtain ⟨hprecedes, hrest⟩ := h.restored system ledger hsaved
    exact ⟨hprecedes.trans (hagrees.precedes hok), hrest⟩

theorem SavedIndex.Recoverable.publish (h : s.Recoverable) {number : Nat} {shared : CheckpointShared}
    (hcall : LoneCall config number ⟨s.disk, s.system.index⟩ shared .returned) :
    (s.publish shared).Recoverable := by
  obtain ⟨rows, hagrees⟩ := h.agrees
  obtain ⟨hsound, hlt, generation, hreload⟩ := hcall.published h.sound h.lt hagrees.loadable
  obtain ⟨stored, hindex⟩ := hcall.index_eq
  have hagrees' : Agrees ⟨shared.index, s.system.storage⟩ rows s.ledger :=
    hindex ▸ hagrees.setGeneration stored
  refine ⟨hsound, hlt, ⟨rows, hagrees'⟩, nofun, fun system ledger hsaved => ?_⟩
  cases hsaved
  refine ⟨Ledger.Precedes.refl _, ⟨rows, hagrees'⟩, generation, ?_⟩
  rw [hindex]
  exact hreload

theorem SavedReachable.recoverable (h : SavedReachable encoder s) : s.Recoverable := by
  induction h with
  | fresh => exact recoverable_fresh config
  | update env operation _ hok ih => exact ih.update hok
  | checkpoint number _ hcall ih => exact ih.publish hcall

/-- What an accepted reload has in common with the last checkpoint and with the
files at the stop. -/
structure Restores (s : SavedIndex config) (saved : System) (ledger : Ledger config.toIndexConfig)
    (index : Index) : Prop where
  nextId : index.nextId = saved.index.nextId
  active : index.activeCount = saved.index.activeCount
  size : ∀ l, (index.lists l).logicalSize = (saved.index.lists l).logicalSize
  /-- Each lane is the one of the row that held the slot at the checkpoint. -/
  lane : ∀ l o, o < (index.lists l).logicalSize → ∃ id entry, ledger.contents id = some entry ∧
    SlotHolds saved l o id entry ∧ (roundUpBlock (index.lists l).logicalSize < 2 ^ 32 →
      (index.lists l).posting config.codes o = entry.posting)
  /-- A slot in use at the stop holds the ID whose directory entry it is. -/
  occupied : ∀ l o, o < (s.system.index.lists l).logicalSize → ∃ id entry,
    s.ledger.contents id = some entry ∧ SlotHolds s.system l o id entry
  /-- Nothing is wrong with a slot that holds the same ID as at the checkpoint. -/
  kept : ∀ (l o id : Nat) (entry entry' : Entry config.toIndexConfig),
    SlotHolds saved l o id entry → SlotHolds s.system l o id entry' →
    roundUpBlock (index.lists l).logicalSize < 2 ^ 32 →
    s.ledger.contents id = some entry ∧ SlotHolds ⟨index, s.system.storage⟩ l o id entry

/-- Every slot holds the row of some ID: the directory, the record and the lanes
name it. -/
def SlotsAgree {config : IndexConfig} (system : System) (ledger : Ledger config) : Prop :=
  ∀ l o, o < (system.index.lists l).logicalSize → ∃ id entry,
    ledger.contents id = some entry ∧ SlotHolds system l o id entry

theorem Agrees.slotsAgree {config : IndexConfig} {system : System} {rows : Rows config}
    {ledger : Ledger config} (hagrees : Agrees system rows ledger) : SlotsAgree system ledger := by
  intro l o ho
  obtain ⟨id, ⟨entry, hentry, hslot⟩, -⟩ := hagrees.implements.occupied l o ho
  exact ⟨id, entry, hentry, hslot⟩

theorem SavedIndex.Recoverable.restores (h : s.Recoverable) {saved : System}
    {ledger : Ledger config.toIndexConfig} (hsaved : s.saved = some (saved, ledger)) {index : Index}
    (hreload : s.reload = .ok index) : Restores s saved ledger index := by
  obtain ⟨hprecedes, ⟨rows, hagrees⟩, generation, hrestored⟩ := h.restored saved ledger hsaved
  obtain ⟨rows', hagrees'⟩ := h.agrees
  obtain rfl := reloadCheckpoint_unique hreload hrestored
  have hsize := fun l => @Stored.restored_size config saved rows generation hagrees.stored l
  refine ⟨rfl, rfl, fun l => (hsize l).trans (hagrees.stored.size_eq l).symm, fun l o ho => ?_,
    hagrees'.slotsAgree, fun l o id entry entry' hslot hslot' hfits => ?_⟩
  · rw [hsize] at ho
    have hrow := List.getElem?_eq_getElem ho
    refine ⟨_, _, (hagrees.tracks.contents _ _).mpr ⟨l, _, List.mem_of_getElem? hrow, rfl, rfl⟩,
      hagrees.slotHolds hrow, fun hfits => ?_⟩
    rw [hsize] at hfits
    exact hagrees.stored.restored_posting hrow hfits
  · obtain ⟨row, hrow, rfl, rfl⟩ := hagrees.row_of_slot hslot
    obtain ⟨row', hrow', hid, rfl⟩ := hagrees'.row_of_slot hslot'
    rw [hsize] at hfits
    -- the ID was issued before the checkpoint, so its contents are the same
    have hcontents := (hagrees.tracks.contents row.id row.entry).mpr
      ⟨l, row, List.mem_of_getElem? hrow, rfl, rfl⟩
    have hcontents' := (hagrees'.tracks.contents row.id row'.entry).mpr
      ⟨l, row', List.mem_of_getElem? hrow', hid, rfl⟩
    have hissued := ((hagrees.tracks.active_iff row.id).mp (by rw [hcontents]; rfl)).1
    have hentry := Option.some.inj
      (hcontents.symm.trans (hprecedes.contents _ hissued _ hcontents'))
    have hposting := @Stored.restored_posting config _ _ generation hagrees.stored _ _ _ hrow hfits
    rw [← hentry] at hslot' hcontents'
    exact ⟨hcontents', hslot'.list_lt, by rw [hsize]; exact (List.getElem?_eq_some_iff.mp hrow).1,
      hslot'.list_eq, hslot'.offset_eq, hslot'.record, congrArg Posting.code hposting,
      congrArg Posting.metadata hposting⟩

/-- If the process stops after any call, a reload throws or restores the last
checkpoint over the files of the stop; before any checkpoint it throws. If no
update came after the checkpoint it restores the index, slot by slot. -/
theorem reload_restores_last_checkpoint (hreachable : SavedReachable encoder s) :
    (s.saved = none → ∃ error, s.reload = .error error) ∧
      ∀ saved ledger, s.saved = some (saved, ledger) →
        (∀ index, s.reload = .ok index → Restores s saved ledger index) ∧
        (s.system = saved → ∃ index, s.reload = .ok index ∧
          ((∀ l, roundUpBlock (index.lists l).logicalSize < 2 ^ 32) →
            SlotsAgree ⟨index, s.system.storage⟩ s.ledger)) := by
  have h := hreachable.recoverable
  refine ⟨fun hnone => ?_, fun saved ledger hsaved =>
    ⟨fun index hreload => h.restores hsaved hreload, ?_⟩⟩
  · rw [SavedIndex.reload, reloadCheckpoint, h.unsaved hnone]
    exact ⟨_, rfl⟩
  · rintro rfl
    obtain ⟨-, -, generation, hreload⟩ := h.restored _ _ hsaved
    refine ⟨_, hreload, fun hfits l o ho => ?_⟩
    have hrestores := h.restores hsaved hreload
    obtain ⟨id, entry, -, hslot, -⟩ := hrestores.lane l o ho
    obtain ⟨hcontents, hholds⟩ := hrestores.kept l o id entry entry hslot hslot (hfits l)
    exact ⟨id, entry, hcontents, hholds⟩

end Runs

/-! ### A slot that is used again -/

theorem LoneCall.runAlone {number : Nat} {first shared : CheckpointShared} {phase : CheckpointPhase}
    (chunk steps : Nat) (h : LoneCall config number first shared phase) :
    LoneCall config number first (runAlone config number chunk steps (shared, phase)).1
      (runAlone config number chunk steps (shared, phase)).2 := by
  induction steps generalizing shared phase with
  | zero => exact h
  | succ steps ih => exact ih (h.advance chunk)

/-- A vector of one bit, which is its own code. -/
def bitEncoder : Encoder smallestConfig.toIndexConfig Bool where
  assign := fun _ => 0
  encode := fun bit => ⟨⟨[if bit then 1 else 0], rfl⟩, Metadata.empty⟩

def bitRow (bit : Bool) : InputRow smallestConfig.toIndexConfig Bool :=
  ⟨bit, ⟨List.replicate smallestConfig.records.payloadBytes 0, List.length_replicate⟩⟩

/-- One row. -/
def oneBit : SavedIndex smallestConfig :=
  (SavedIndex.fresh smallestConfig).update bitEncoder .quiet (.insert [bitRow true])

/-- A checkpoint of it. -/
def oneBitCheckpoint : CheckpointShared × CheckpointPhase :=
  runAlone smallestConfig 1 1000 20 (⟨oneBit.disk, oneBit.system.index⟩, .create .quantizer)

/-- Afterwards its slot is given to another row. -/
def reusedSlot : SavedIndex smallestConfig :=
  ((oneBit.publish oneBitCheckpoint.1).update bitEncoder .quiet (.erase [0])).update bitEncoder .quiet
    (.insert [bitRow false])

theorem reachable_reusedSlot : SavedReachable bitEncoder reusedSlot := by
  have hreturned : oneBitCheckpoint.2 = .returned := by decide +kernel
  have hcall := LoneCall.runAlone 1000 20
    (@LoneCall.called smallestConfig 1 ⟨oneBit.disk, oneBit.system.index⟩)
  rw [← oneBitCheckpoint, hreturned] at hcall
  have hinserted : SavedReachable bitEncoder oneBit :=
    SavedReachable.fresh.update .quiet (.insert [bitRow true]) ⟨[0], by decide +kernel⟩
  have herased := (hinserted.checkpoint 1 hcall).update .quiet (.erase [0]) ⟨[], by decide +kernel⟩
  exact herased.update .quiet (.insert [bitRow false]) ⟨[1], by decide +kernel⟩

theorem reload_restores_last_checkpoint_reused :
    (reusedSlot.saved = none → ∃ error, reusedSlot.reload = .error error) ∧
      ∀ saved ledger, reusedSlot.saved = some (saved, ledger) →
        (∀ index, reusedSlot.reload = .ok index → Restores reusedSlot saved ledger index) ∧
        (reusedSlot.system = saved → ∃ index, reusedSlot.reload = .ok index ∧
          ((∀ l, roundUpBlock (index.lists l).logicalSize < 2 ^ 32) →
            SlotsAgree ⟨index, reusedSlot.system.storage⟩ reusedSlot.ledger)) :=
  reload_restores_last_checkpoint reachable_reusedSlot

/-- The reload is accepted; the slot holds the new row and the lane of the old
one. -/
theorem reload_mixes_rows : ∃ (s : SavedIndex smallestConfig) (index : Index) (file : Bytes)
    (entry : Entry smallestConfig.toIndexConfig), SavedReachable bitEncoder s ∧
      s.reload = .ok index ∧ 0 < (index.lists 0).logicalSize ∧
      s.system.storage.records 0 = some file ∧
      Record.idOf (smallestConfig.records.paging.slotAt file 0) = 1 ∧
      DirectoryLayout.entryAt s.system.storage.directory 1 = DiskLocation.ofSlot 0 0 ∧
      s.ledger.contents 1 = some entry ∧
      smallestConfig.codes.unpackRow (index.lists 0).packedCodes 0 ≠ entry.posting.code ∧
      ¬SlotsAgree ⟨index, s.system.storage⟩ s.ledger := by
  have hreload : (reusedSlot.reload.toOption.map fun index => ((index.lists 0).logicalSize,
      (smallestConfig.codes.unpackRow (index.lists 0).packedCodes 0).bytes)) = some (1, [1]) := by
    decide +kernel
  have hrecord : ((reusedSlot.system.storage.records 0).map fun file =>
      Record.idOf (smallestConfig.records.paging.slotAt file 0)) = some 1 := by
    decide +kernel
  have hledger : reusedSlot.ledger.contents 1 = some (bitEncoder.entry (bitRow false)) := by
    decide +kernel
  obtain ⟨file, hfile, hid⟩ := Option.map_eq_some_iff.mp hrecord
  obtain ⟨index, hindex, hlane⟩ := Option.map_eq_some_iff.mp hreload
  rw [Prod.mk.injEq] at hlane
  have hne : smallestConfig.codes.unpackRow (index.lists 0).packedCodes 0 ≠
      (bitEncoder.entry (bitRow false)).posting.code := by
    intro heq
    rw [heq] at hlane
    exact absurd hlane.2 (by decide)
  have hpos : 0 < (index.lists 0).logicalSize := by
    rw [hlane.1]
    exact Nat.one_pos
  refine ⟨reusedSlot, index, file, _, reachable_reusedSlot, ?_, hpos, hfile, hid, by decide +kernel,
    hledger, hne, fun hagree => ?_⟩
  · cases hresult : reusedSlot.reload with
    | error error =>
        rw [hresult] at hindex
        cases hindex
    | ok index' =>
        rw [hresult] at hindex
        rw [Option.some.inj hindex]
  · obtain ⟨id, entry, hentry, hslot⟩ := hagree 0 0 hpos
    obtain ⟨file', hfile', hid', -⟩ := hslot.record
    dsimp only at hfile'
    rw [hfile, Option.some_inj] at hfile'
    rw [← hfile'] at hid'
    obtain rfl := hid.symm.trans hid'
    rw [hledger, Option.some_inj] at hentry
    rw [hentry] at hne
    exact hne hslot.code

end Recast
