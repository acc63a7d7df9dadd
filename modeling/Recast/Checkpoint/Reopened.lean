import Recast.Search.Congruence
import Recast.Index.Table

/-!
# Going on after a reload

A checkpoint and a reload give the index its rows back with smaller buffers. From then on
its calls and searches answer as those of the index that was saved.
-/

namespace Recast

open Foundation

variable {config : CheckpointConfig} {Vector : Type*}

/-- Without its spare capacity a list holds the same postings. -/
theorem MemoryList.Holds.trimmed {layout : CodeLayout} {list : MemoryList}
    {postings : List (Posting layout)} {blocks : Nat} (hholds : list.Holds layout postings blocks)
    (hfits : roundUpBlock postings.length < 2 ^ 32) :
    (list.trimmed layout).Holds layout postings (roundUpBlock postings.length / 32) := by
  have hcovers := hholds.covers
  have hround := roundUpBlock_blocks postings.length
  have hpadded : list.paddedSize = roundUpBlock postings.length := by
    rw [hholds.padded, paddedTo, Nat.mod_eq_of_lt hfits]
  have hcodes : list.paddedSize * layout.codeSize =
      roundUpBlock postings.length / 32 * layout.blockBytes := by
    rw [hpadded, layout.blockBytes_eq, ← Nat.mul_assoc, ← hround]
  have hroom : list.paddedSize ≤ blocks * 32 :=
    hpadded.trans_le (roundUpBlock_le_iff.mpr hholds.lanes.room)
  refine ⟨(List.length_take_of_le hcovers.codes).trans hcodes,
    (List.length_take_of_le hcovers.metadata).trans (by omega),
    ⟨hround ▸ le_roundUpBlock _, fun row hrow => ?_⟩, hholds.size, hholds.padded,
    hcodes ▸ hcovers.codes_le, hholds.size_le, by omega⟩
  rw [← hround, ← hpadded] at hrow
  rw [posting_trimmed (by rw [hholds.padded]; exact paddedTo_mod _) hrow]
  exact hholds.lanes.lane row (hrow.trans_le hroom)

section Restored

variable {system : System} {table : Table config.toIndexConfig}

/-- A restored index represents the table of the index that was saved. -/
theorem Represents.restored (h : Represents system table)
    (hfits : ∀ l, roundUpBlock (table.rows l).length < 2 ^ 32) (generation : Nat) :
    Represents ⟨system.index.restored config generation, system.storage⟩ table := by
  obtain ⟨hstored, hlocated, hnextId⟩ := h
  refine ⟨⟨fun l => ?_, hstored.records, hstored.aligned, hstored.outside, hstored.active,
    hstored.nextId_le⟩, ⟨hlocated.covered, hlocated.located, hlocated.vacant⟩, hnextId⟩
  obtain ⟨blocks, hholds⟩ := hstored.postings l
  rw [Index.restored]
  dsimp only
  split
  next => exact ⟨_, hholds.trimmed (by rw [List.length_map]; exact hfits l)⟩
  next hl =>
    have hnone : table.rows l = [] := by
      by_contra hrows
      exact hl (hstored.outside l hrows).1
    rw [hnone]
    exact ⟨0, MemoryList.holds_empty _⟩

theorem Represents.setGeneration (h : Represents system table) (generation : Nat) :
    Represents ⟨{ system.index with checkpointGeneration := generation }, system.storage⟩ table :=
  ⟨⟨h.stored.postings, h.stored.records, h.stored.aligned, h.stored.outside, h.stored.active,
    h.stored.nextId_le⟩, ⟨h.located.covered, h.located.located, h.located.vacant⟩, h.nextId_eq⟩

theorem Represents.loadable (h : Represents system table) :
    Loadable config system.index system.storage.records := by
  have hactive := h.located.active_le h.stored
  have hnext := h.stored.nextId_le
  exact h.stored.loadable (hactive.trans (hnext.trans (by decide)))

end Restored

/-- The states of the runs of calls that meet no I/O error, of checkpoints, and of restarts
right after a checkpoint, each with its table. -/
inductive Reopened (encoder : Encoder config.toIndexConfig Vector) :
    CheckpointDisk → System → Table config.toIndexConfig → Prop where
  | fresh : Reopened encoder CheckpointSystem.fresh.disk System.fresh Table.empty
  | call {disk : CheckpointDisk} {system : System} {table : Table config.toIndexConfig}
      (env : Environment) (operation : Operation config.toIndexConfig Vector) :
      Reopened encoder disk system table → NoIoError encoder system env operation →
      Reopened encoder disk (operation.run encoder env system).1 (table.run encoder operation).1
  | checkpoint {disk : CheckpointDisk} {system : System} {table : Table config.toIndexConfig}
      {shared : CheckpointShared} (number : Nat) : Reopened encoder disk system table →
      LoneCall config number ⟨disk, system.index⟩ shared .returned →
      Reopened encoder shared.disk ⟨shared.index, system.storage⟩ table
  | reopen {disk : CheckpointDisk} {system : System} {table : Table config.toIndexConfig}
      {shared : CheckpointShared} {index : Index} (number : Nat) :
      Reopened encoder disk system table →
      LoneCall config number ⟨disk, system.index⟩ shared .returned →
      (∀ l, roundUpBlock (system.index.lists l).logicalSize < 2 ^ 32) →
      reloadCheckpoint config shared.disk system.storage.records = .ok index →
      Reopened encoder shared.disk ⟨index, system.storage⟩ table

section Runs

variable {encoder : Encoder config.toIndexConfig Vector} {disk : CheckpointDisk} {system : System}
  {table : Table config.toIndexConfig} {shared : CheckpointShared} {number : Nat}

/-- What holds of the disk and the index between the calls. -/
structure Standing (disk : CheckpointDisk) (system : System) (table : Table config.toIndexConfig) :
    Prop where
  sound : disk.Sound
  intact : Published config disk system.index.checkpointGeneration
  lt : system.index.checkpointGeneration < 2 ^ 64
  represents : Represents system table

/-- The steps of a call that runs alone. -/
theorem LoneCall.stepResult {first : CheckpointShared} {phase : CheckpointPhase}
    (h : LoneCall config number first shared phase) (hsound : first.disk.Sound)
    (hintact : Published config first.disk first.index.checkpointGeneration) :
    StepResult config number (shared, phase) := by
  induction h with
  | called => exact ⟨hsound, _, hintact, rfl, trivial⟩
  | advance chunk _ ih =>
      obtain ⟨hsound, published, hintact, hholds⟩ := ih
      exact advance_result hsound hintact hholds

/-- A reload takes over the published generation. -/
theorem Published.generation_eq {generation : Nat} (h : Published config disk generation)
    {records : Nat → Option Bytes} {index : Index}
    (hreload : reloadCheckpoint config disk records = .ok index) :
    index.checkpointGeneration = generation := by
  obtain ⟨file, manifest, hfile, hparse, -, hgeneration⟩ := loadCheckpoint_generation hreload
  rcases h with ⟨-, hnone⟩ | ⟨-, hlt, number, snapshot, ⟨bytes, hbytes, hdisk⟩, -, -⟩
  · rw [Disk.read, hnone] at hfile
    cases hfile
  · change disk.file (.final .manifest) = _ at hdisk
    rw [← Except.ok.inj hbytes] at hdisk
    rw [Disk.read, hdisk, Option.map_some, Option.some_inj] at hfile
    rw [← hfile, parseManifest_encode rfl, Except.ok.injEq] at hparse
    rw [hgeneration, ← hparse]
    exact UInt64.toNat_ofNat_of_lt' hlt

/-- A checkpoint that returned can be reloaded, and changes nothing else. -/
theorem Standing.checkpoint (h : Standing disk system table)
    (hcall : LoneCall config number ⟨disk, system.index⟩ shared .returned) :
    Standing shared.disk ⟨shared.index, system.storage⟩ table ∧
      reloadCheckpoint config shared.disk system.storage.records =
        .ok (system.index.restored config shared.index.checkpointGeneration) := by
  obtain ⟨hsound, hlt, generation, hreload⟩ := hcall.published h.sound h.lt h.represents.loadable
  obtain ⟨-, _, hintact, rfl⟩ := hcall.stepResult h.sound h.intact
  obtain ⟨stored, hindex⟩ := hcall.index_eq
  refine ⟨⟨hsound, hintact, hlt, hindex ▸ h.represents.setGeneration stored⟩, ?_⟩
  have hsame : generation = shared.index.checkpointGeneration := hintact.generation_eq hreload
  rw [hreload, hsame]

theorem Represents.fits (h : Represents system table)
    (hfits : ∀ l, roundUpBlock (system.index.lists l).logicalSize < 2 ^ 32) (l : Nat) :
    roundUpBlock (table.rows l).length < 2 ^ 32 :=
  h.stored.size_eq l ▸ hfits l

theorem Reopened.standing (h : Reopened encoder disk system table) : Standing disk system table := by
  induction h with
  | fresh =>
      exact ⟨(@consistent_fresh config).sound, .inl ⟨rfl, rfl⟩, Nat.two_pow_pos 64, represents_fresh _⟩
  | @call disk system table env operation _ hclean ih =>
      have hgeneration := run_checkpointGeneration encoder env system operation
      exact ⟨ih.sound, hgeneration ▸ ih.intact, hgeneration ▸ ih.lt, (ih.represents.step hclean).2⟩
  | checkpoint number _ hcall ih => exact (ih.checkpoint hcall).1
  | reopen number _ hcall hfits hindex ih =>
      obtain ⟨hstanding, hreload⟩ := ih.checkpoint hcall
      obtain rfl := Except.ok.inj (hreload.symm.trans hindex)
      exact ⟨hstanding.sound, hstanding.intact, hstanding.lt,
        ih.represents.restored (ih.represents.fits hfits) _⟩

/-- A checkpoint followed by a restart goes unnoticed. The reload succeeds and restores the
sizes, the posting rows up to the padded size, `next_id_`, the number of rows and the
generation; and whatever calls and searches come then return what they return without it. -/
theorem restart_unnoticed (encoder : Encoder config.toIndexConfig Vector)
    (hreachable : Reopened encoder disk system table)
    (hcall : LoneCall config number ⟨disk, system.index⟩ shared .returned)
    (hfits : ∀ l, roundUpBlock (system.index.lists l).logicalSize < 2 ^ 32) :
    ∃ index, reloadCheckpoint config shared.disk system.storage.records = .ok index ∧
      index.nextId = shared.index.nextId ∧ index.activeCount = shared.index.activeCount ∧
      index.checkpointGeneration = shared.index.checkpointGeneration ∧
      (∀ l, (index.lists l).sizes = (shared.index.lists l).sizes ∧
        ∀ row < (shared.index.lists l).paddedSize, (index.lists l).posting config.codes row =
          (shared.index.lists l).posting config.codes row) ∧
      ∀ calls, CleanCalls encoder ⟨shared.index, system.storage⟩ calls →
        CleanCalls encoder ⟨index, system.storage⟩ calls →
        (runCalls encoder ⟨index, system.storage⟩ calls).2 =
          (runCalls encoder ⟨shared.index, system.storage⟩ calls).2 ∧
        ∀ (searcher : Searcher config.toIndexConfig) (faiss : Faiss Float32) (scan : FaissScan)
          (mode : LutMode) (query : List Float32) (topk nprobe : Nat) (zScore : Float32)
          (maxCandidates : Nat) (distanceFunction : ExactDistanceFunction), scan.ReadsPadded →
          searcher.search faiss scan mode (runCalls encoder ⟨index, system.storage⟩ calls).1 query
              topk nprobe zScore maxCandidates distanceFunction =
            searcher.search faiss scan mode
              (runCalls encoder ⟨shared.index, system.storage⟩ calls).1 query topk nprobe zScore
              maxCandidates distanceFunction := by
  have h := hreachable.standing
  obtain ⟨hstanding, hreload⟩ := h.checkpoint hcall
  obtain ⟨generation, hindex⟩ := hcall.index_eq
  have hsaved := hstanding.represents
  have hrestored := h.represents.restored (h.represents.fits hfits)
    shared.index.checkpointGeneration
  refine ⟨_, hreload, by rw [hindex]; rfl, by rw [hindex]; rfl, rfl, fun l => ?_,
    fun calls hclean hclean' => ?_⟩
  · obtain ⟨blocks, hholds⟩ := hsaved.stored.postings l
    obtain ⟨blocks', hholds'⟩ := hrestored.stored.postings l
    have hlanes : (shared.index.lists l).paddedSize ≤ roundUpBlock ((table.rows l).map Row.posting).length :=
      hholds.padded.trans_le (Nat.mod_le _ _)
    exact ⟨Prod.ext (hholds'.size.trans hholds.size.symm) (hholds'.padded.trans hholds.padded.symm),
      fun row hrow => hholds.posting_eq hholds'
        (hrow.trans_le (hlanes.trans (roundUpBlock_le_iff.mpr hholds.lanes.room)))
        (hrow.trans_le (hlanes.trans (roundUpBlock_le_iff.mpr hholds'.lanes.room)))⟩
  · obtain ⟨hanswers, hafter⟩ := hsaved.runCalls hclean
    obtain ⟨hanswers', hafter'⟩ := hrestored.runCalls hclean'
    exact ⟨hanswers'.trans hanswers.symm, fun _ _ _ _ _ _ _ _ _ _ hreads =>
      Searcher.search_congr hafter.stored hafter'.stored hreads⟩

end Runs

/-- What a reload of the checkpoint of one row restores. -/
def reloadedBit : Index :=
  (reloadCheckpoint smallestConfig oneBitCheckpoint.1.disk oneBit.system.storage.records).toOption.getD
    oneBitCheckpoint.1.index

/-- Its row is erased and another one inserted. -/
def replaceBit : List (Environment × Operation smallestConfig.toIndexConfig Bool) :=
  [(.quiet, .erase [0]), (.quiet, .insert [bitRow false])]

theorem restart_unnoticed_bit :
    (runCalls bitEncoder ⟨reloadedBit, oneBit.system.storage⟩ replaceBit).2 =
      (runCalls bitEncoder ⟨oneBitCheckpoint.1.index, oneBit.system.storage⟩ replaceBit).2 := by
  have hreturned : oneBitCheckpoint.2 = .returned := by decide +kernel
  have hcall := LoneCall.runAlone 1000 20
    (@LoneCall.called smallestConfig 1 ⟨oneBit.disk, oneBit.system.index⟩)
  rw [← oneBitCheckpoint, hreturned] at hcall
  have hopen : Reopened bitEncoder oneBit.disk oneBit.system
      (Table.empty.run bitEncoder (.insert [bitRow true])).1 :=
    Reopened.fresh.call .quiet (.insert [bitRow true]) (noIoError_of_answer rfl (by decide +kernel))
  have hsize : ∀ l, (oneBit.system.index.lists l).logicalSize ≤ 1 := by
    intro l
    have hstored := hopen.standing.represents.stored
    have hactive : 1 = _ := (by decide +kernel : 1 = oneBit.system.index.activeCount).trans hstored.active
    rw [hstored.size_eq]
    by_cases hrows : (Table.empty.run bitEncoder (.insert [bitRow true])).1.rows l = []
    · rw [hrows]
      exact Nat.zero_le 1
    · obtain rfl := Nat.lt_one_iff.mp (hstored.outside l hrows).1
      exact (hactive.trans (Finset.sum_range_one _)).ge
  obtain ⟨index, hreload, -, -, -, -, hsame⟩ := restart_unnoticed bitEncoder hopen hcall fun l =>
    (by decide : ∀ size ≤ 1, roundUpBlock size < 2 ^ 32) _ (hsize l)
  have hindex : reloadedBit = index := by
    rw [reloadedBit, hreload]
    rfl
  rw [← hindex] at hsame
  exact (hsame replaceBit
    ⟨noIoError_of_answer rfl (by decide +kernel), noIoError_of_answer rfl (by decide +kernel), trivial⟩
    ⟨noIoError_of_answer rfl (by decide +kernel), noIoError_of_answer rfl (by decide +kernel),
      trivial⟩).1

end Recast
