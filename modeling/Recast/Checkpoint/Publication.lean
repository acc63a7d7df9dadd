import Recast.Checkpoint.Call
import Recast.Index.Agreement

/-!
# Manifest-last publication

An index in its storage root, one checkpoint call at a time: calls may throw
and be retried, updates and reloads come between them, and the process may stop
between any two file-system steps. The published generation is always complete
and is the one the index carries, so the next call writes to other names.
-/

namespace Recast

open Foundation

variable {config : CheckpointConfig} {Vector : Type*}

/-- A storage root, and the process that uses it. -/
structure CheckpointSystem where
  disk : CheckpointDisk
  storage : Storage
  /-- The open index, if any. -/
  index : Option Index
  /-- The running call, which has the number `calls`. -/
  call : Option CheckpointPhase
  calls : Nat

/-- An index created in an empty storage root. -/
def CheckpointSystem.fresh : CheckpointSystem where
  disk := ⟨fun _ => none, fun _ => [], fun _ => 0, 0⟩
  storage := System.fresh.storage
  index := some System.fresh.index
  call := none
  calls := 0

/-- The disk after a stream of the call is given up: the file it was writing
holds anything. -/
inductive Torn (phase : CheckpointPhase) (disk : CheckpointDisk) : CheckpointDisk → Prop where
  | closed : Torn phase disk disk
  | open (file : Nat) (bytes : Bytes) : phase.open? = some file →
      Torn phase disk (disk.setBytes file bytes)

/-- One step of the process or of its environment. -/
inductive CheckpointStep (config : CheckpointConfig) (encoder : Encoder config.toIndexConfig Vector) :
    CheckpointSystem → CheckpointSystem → Prop where
  /-- `insert_batch` or `erase_batch`, whatever becomes of it. -/
  | update {s : CheckpointSystem} {index : Index} (env : Environment)
      (operation : Operation config.toIndexConfig Vector) : s.index = some index → s.call = none →
      CheckpointStep config encoder s { s with
        storage := (operation.run encoder env ⟨index, s.storage⟩).1.storage
        index := some (operation.run encoder env ⟨index, s.storage⟩).1.index }
  | begin {s : CheckpointSystem} {index : Index} : s.index = some index → s.call = none →
      CheckpointStep config encoder s
        { s with call := some (.create .quantizer), calls := s.calls + 1 }
  | advance {s : CheckpointSystem} {index : Index} {phase : CheckpointPhase} (chunk : Nat) :
      s.index = some index → s.call = some phase →
      CheckpointStep config encoder s { s with
        disk := (phase.advance config s.calls chunk ⟨s.disk, index⟩).1.disk
        index := some (phase.advance config s.calls chunk ⟨s.disk, index⟩).1.index
        call := some (phase.advance config s.calls chunk ⟨s.disk, index⟩).2 }
  /-- The call returns, or its exception reaches the caller. -/
  | finish {s : CheckpointSystem} {phase : CheckpointPhase} : s.call = some phase →
      phase = .returned ∨ phase = .threw → CheckpointStep config encoder s { s with call := none }
  /-- A file-system step fails and the call throws. -/
  | fail {s : CheckpointSystem} {phase : CheckpointPhase} {disk : CheckpointDisk} :
      s.call = some phase → phase.CanThrow → Torn phase s.disk disk →
      CheckpointStep config encoder s { s with disk, call := some .threw }
  /-- A removal fails, which the call ignores. -/
  | keep {s : CheckpointSystem} (oldGeneration : Nat) :
      s.call = some (.removeSizes oldGeneration) →
      CheckpointStep config encoder s { s with call := some (.removePostings oldGeneration) }
  | keepLast {s : CheckpointSystem} (oldGeneration : Nat) :
      s.call = some (.removePostings oldGeneration) →
      CheckpointStep config encoder s { s with call := some .returned }
  /-- The process stops, in a call or in an update of the record files. -/
  | crash {s : CheckpointSystem} {disk : CheckpointDisk} (storage : Storage) :
      Torn (s.call.getD .returned) s.disk disk →
      CheckpointStep config encoder s { s with disk, storage, index := none, call := none }
  | close {s : CheckpointSystem} : s.call = none →
      CheckpointStep config encoder s { s with index := none }
  | reload {s : CheckpointSystem} {index : Index} : s.index = none →
      reloadCheckpoint config s.disk s.storage.records = .ok index →
      CheckpointStep config encoder s { s with index := some index }

/-- The states of all runs from an empty storage root. -/
inductive CheckpointReachable (config : CheckpointConfig)
    (encoder : Encoder config.toIndexConfig Vector) : CheckpointSystem → Prop where
  | fresh : CheckpointReachable config encoder CheckpointSystem.fresh
  | step {s s' : CheckpointSystem} : CheckpointReachable config encoder s →
      CheckpointStep config encoder s s' → CheckpointReachable config encoder s'

/-! ### The invariant -/

/-- The file of a target is in place, as the call `number` writes it for the
index. -/
def Complete (config : CheckpointConfig) (disk : CheckpointDisk) (number : Nat) (index : Index)
    (target : CheckpointTarget) : Prop :=
  ∃ bytes, target.contents config index = .ok bytes ∧
    disk.file (.final target.name) = some (bytes, number)

/-- The manifest names the generation and the files of that generation are in
place, all by one call; generation 0 stands for no manifest. -/
def Published (config : CheckpointConfig) (disk : CheckpointDisk) (generation : Nat) : Prop :=
  generation = 0 ∧ disk.file (.final .manifest) = none ∨
    generation ≠ 0 ∧ generation < 2 ^ 64 ∧ ∃ number index,
      Complete config disk number index (.manifest generation) ∧
      Complete config disk number index (.listSizes generation) ∧
      Complete config disk number index (.postings generation)

/-- A generation that a call can write while `published` is the published one. -/
def Writable (published generation : Nat) : Prop :=
  generation ≠ published ∧ generation ≠ 0 ∧ generation < 2 ^ 64

/-- What the call has installed when it comes to a target. -/
def Prepared (config : CheckpointConfig) (disk : CheckpointDisk) (number : Nat) (index : Index)
    (published : Nat) : CheckpointTarget → Prop
  | .quantizer => True
  | .listSizes generation => Writable published generation
  | .postings generation => Writable published generation ∧
      Complete config disk number index (.listSizes generation)
  | .manifest generation => Writable published generation ∧
      Complete config disk number index (.listSizes generation) ∧
      Complete config disk number index (.postings generation)

/-- What holds while the call is in a phase. -/
def CheckpointPhase.Holds (config : CheckpointConfig) (shared : CheckpointShared)
    (number published : Nat) : CheckpointPhase → Prop
  | .create target => shared.index.checkpointGeneration = published ∧
      Prepared config shared.disk number shared.index published target
  | .writing target file written => shared.index.checkpointGeneration = published ∧
      Prepared config shared.disk number shared.index published target ∧
      shared.disk.entry (.temporary target.name) = some file ∧ shared.disk.stamp file = number ∧
      ∀ bytes, target.contents config shared.index = .ok bytes →
        written ≤ bytes.length ∧ shared.disk.bytes file = bytes.take written
  | .install target => shared.index.checkpointGeneration = published ∧
      Prepared config shared.disk number shared.index published target ∧
      ∃ bytes, target.contents config shared.index = .ok bytes ∧
        shared.disk.file (.temporary target.name) = some (bytes, number)
  | .retire generation => generation = published ∧ shared.index.checkpointGeneration ≠ published
  | .store generation oldGeneration => generation = published ∧ oldGeneration ≠ published
  | .removeSizes oldGeneration | .removePostings oldGeneration =>
      shared.index.checkpointGeneration = published ∧ oldGeneration ≠ published
  | .choose | .returned | .threw => shared.index.checkpointGeneration = published

/-- The generation the index carries is the published one, up to the phase of
the running call. -/
structure CheckpointSystem.Consistent (config : CheckpointConfig) (s : CheckpointSystem)
    (published : Nat) : Prop where
  sound : s.disk.Sound
  intact : Published config s.disk published
  idle : ∀ index, s.index = some index → s.call = none → index.checkpointGeneration = published
  running : ∀ index phase, s.index = some index → s.call = some phase →
    phase.Holds config ⟨s.disk, index⟩ s.calls published
  opened : ∀ phase, s.call = some phase → s.index ≠ none

section Disk

variable {disk disk' : CheckpointDisk} {number published : Nat} {index : Index}
  {target : CheckpointTarget}

theorem Complete.congr (h : Complete config disk number index target)
    (hfile : disk'.file (.final target.name) = disk.file (.final target.name)) :
    Complete config disk' number index target := by
  obtain ⟨bytes, hbytes, hdisk⟩ := h
  exact ⟨bytes, hbytes, hfile.trans hdisk⟩

/-- Publication depends on the final names only. -/
theorem Published.congr (h : Published config disk published)
    (hmanifest : disk'.file (.final .manifest) = disk.file (.final .manifest))
    (hsizes : disk'.file (.final (.listSizes published)) = disk.file (.final (.listSizes published)))
    (hpostings : disk'.file (.final (.postings published)) =
      disk.file (.final (.postings published))) : Published config disk' published := by
  rcases h with ⟨hzero, hnone⟩ | ⟨hzero, hlt, number, index, hm, hs, hp⟩
  · exact Or.inl ⟨hzero, hmanifest.trans hnone⟩
  · exact Or.inr ⟨hzero, hlt, number, index, hm.congr hmanifest, hs.congr hsizes,
      hp.congr hpostings⟩

theorem Prepared.congr (h : Prepared config disk number index published target)
    (hfile : ∀ name, disk'.file (.final name) = disk.file (.final name)) :
    Prepared config disk' number index published target := by
  cases target with
  | quantizer => trivial
  | listSizes generation => exact h
  | postings generation => exact ⟨h.1, h.2.congr (hfile _)⟩
  | manifest generation => exact ⟨h.1, h.2.1.congr (hfile _), h.2.2.congr (hfile _)⟩

/-- A write to a temporary file leaves the final names alone. -/
theorem file_final_setBytes (hsound : disk.Sound) {name : CheckpointName} {file : Nat}
    (hentry : disk.entry (.temporary name) = some file) (bytes : Bytes) (other : CheckpointName) :
    (disk.setBytes file bytes).file (.final other) = disk.file (.final other) := by
  apply Disk.file_setBytes_of_ne
  intro hother
  cases hsound.injective _ _ _ hentry hother

end Disk

section Phase

variable {shared : CheckpointShared} {number published chunk : Nat} {phase : CheckpointPhase}

/-- What a step leaves behind. -/
def StepResult (config : CheckpointConfig) (number : Nat)
    (result : CheckpointShared × CheckpointPhase) : Prop :=
  result.1.disk.Sound ∧ ∃ published, Published config result.1.disk published ∧
    result.2.Holds config result.1 number published

theorem advance_create {target : CheckpointTarget} (hsound : shared.disk.Sound)
    (hpublished : Published config shared.disk published)
    (h : (CheckpointPhase.create target).Holds config shared number published) :
    StepResult config number ((CheckpointPhase.create target).advance config number chunk shared) := by
  obtain ⟨hgeneration, hprepared⟩ := h
  have hfinal : ∀ name, (shared.disk.openTruncated (.temporary target.name) number).1.file
      (.final name) = shared.disk.file (.final name) := fun name =>
    hsound.file_openTruncated_of_ne (fun h => by cases h)
  refine ⟨hsound.openTruncated, published,
    hpublished.congr (hfinal _) (hfinal _) (hfinal _), hgeneration, hprepared.congr hfinal,
    Disk.entry_openTruncated, Disk.stamp_openTruncated, fun bytes _ => ⟨Nat.zero_le _, ?_⟩⟩
  rw [List.take_zero]
  exact Disk.bytes_openTruncated

/-- A stream that is alone on its file appends what it writes. -/
theorem bytes_write_take {disk : CheckpointDisk} {file written : Nat} {bytes : Bytes}
    (hwritten : written ≤ bytes.length) (hfile : disk.bytes file = bytes.take written) :
    (disk.write file written (slice bytes written chunk)).bytes file =
      bytes.take (written + (slice bytes written chunk).length) := by
  have hlength : (bytes.take written).length = written := List.length_take_of_le hwritten
  have hdata : (bytes.drop written).take (slice bytes written chunk).length =
      slice bytes written chunk := by
    rw [slice, List.take_eq_take_iff, List.length_take]
    omega
  rw [Disk.bytes_write, hfile, overwrite_of_le 0 (by rw [hlength]), splice,
    List.take_of_length_le (by rw [hlength]), List.drop_of_length_le (by rw [hlength]; omega),
    List.append_nil, List.take_add, hdata]

theorem advance_writing {target : CheckpointTarget} {file written : Nat}
    (hsound : shared.disk.Sound) (hpublished : Published config shared.disk published)
    (h : (CheckpointPhase.writing target file written).Holds config shared number published) :
    StepResult config number
      ((CheckpointPhase.writing target file written).advance config number chunk shared) := by
  obtain ⟨hgeneration, hprepared, hentry, hstamp, hbytes⟩ := h
  rw [CheckpointPhase.advance]
  cases hcontents : target.contents config shared.index with
  | error error => exact ⟨hsound, published, hpublished, hgeneration⟩
  | ok bytes =>
      obtain ⟨hwritten, hfile⟩ := hbytes bytes hcontents
      dsimp only
      split
      next hdone =>
        refine ⟨hsound, published, hpublished, hgeneration, hprepared, bytes, hcontents, ?_⟩
        rw [Disk.file, hentry, Option.map_some, hfile, hstamp, List.take_of_length_le hdone]
      next hmore =>
        have hfinal := file_final_setBytes hsound hentry
          (overwrite 0 (shared.disk.bytes file) written (slice bytes written chunk))
        refine ⟨hsound.write _ _ _, published, hpublished.congr (hfinal _) (hfinal _) (hfinal _),
          hgeneration, hprepared.congr hfinal, hentry, hstamp, fun bytes' hcontents' => ?_⟩
        rw [hcontents, Except.ok.injEq] at hcontents'
        subst hcontents'
        refine ⟨?_, bytes_write_take hwritten hfile⟩
        rw [length_slice]
        omega

theorem advance_install {target : CheckpointTarget} (hsound : shared.disk.Sound)
    (hpublished : Published config shared.disk published)
    (h : (CheckpointPhase.install target).Holds config shared number published) :
    StepResult config number
      ((CheckpointPhase.install target).advance config number chunk shared) := by
  obtain ⟨hgeneration, hprepared, bytes, hcontents, hfile⟩ := h
  rw [CheckpointPhase.advance]
  cases hrename : shared.disk.rename (.temporary target.name) (.final target.name) with
  | none => exact ⟨hsound, published, hpublished, hgeneration⟩
  | some disk =>
      dsimp only
      have hinstalled : Complete config disk number shared.index target :=
        ⟨bytes, hcontents, (Disk.file_rename_target hrename).trans hfile⟩
      have hother : ∀ name, name ≠ target.name →
          disk.file (.final name) = shared.disk.file (.final name) := fun name hname =>
        Disk.file_rename_of_ne hrename (fun h => by cases h) (fun h => hname (by cases h; rfl))
      refine ⟨hsound.rename hrename (fun h => by cases h), ?_⟩
      cases target with
      | quantizer =>
          exact ⟨published, hpublished.congr (hother _ (fun h => by cases h))
            (hother _ (fun h => by cases h)) (hother _ (fun h => by cases h)), hgeneration⟩
      | listSizes generation =>
          refine ⟨published, hpublished.congr (hother _ (fun h => by cases h)) (hother _ ?_)
            (hother _ (fun h => by cases h)), hgeneration, hprepared, hinstalled⟩
          rintro ⟨⟩
          exact hprepared.1 rfl
      | postings generation =>
          refine ⟨published, hpublished.congr (hother _ (fun h => by cases h))
            (hother _ (fun h => by cases h)) (hother _ ?_), hgeneration, hprepared.1,
            hprepared.2.congr (hother _ (fun h => by cases h)), hinstalled⟩
          rintro ⟨⟩
          exact hprepared.1.1 rfl
      | manifest generation =>
          obtain ⟨⟨hne, hzero, hlt⟩, hsizes, hpostings⟩ := hprepared
          exact ⟨generation, Or.inr ⟨hzero, hlt, number, shared.index, hinstalled,
            hsizes.congr (hother _ (fun h => by cases h)),
            hpostings.congr (hother _ (fun h => by cases h))⟩, rfl, fun h => hne (h ▸ hgeneration)⟩

/-- The published generation is a 64-bit number. -/
theorem Published.lt {disk : CheckpointDisk} (h : Published config disk published) :
    published < 2 ^ 64 := by
  rcases h with ⟨rfl, -⟩ | ⟨-, hlt, -⟩
  · norm_num
  · exact hlt

theorem advance_choose (hsound : shared.disk.Sound)
    (hpublished : Published config shared.disk published)
    (h : CheckpointPhase.choose.Holds config shared number published) :
    StepResult config number (CheckpointPhase.choose.advance config number chunk shared) := by
  have hgeneration : shared.index.checkpointGeneration = published := h
  have hlt := hpublished.lt
  rw [CheckpointPhase.advance]
  split
  next => exact ⟨hsound, published, hpublished, hgeneration⟩
  next hzero =>
    refine ⟨hsound, published, hpublished, hgeneration, ?_, hzero, Nat.mod_lt _ (by norm_num)⟩
    rw [hgeneration] at hzero ⊢
    omega

/-- One step of a call keeps the published files complete. -/
theorem advance_result (hsound : shared.disk.Sound)
    (hpublished : Published config shared.disk published)
    (h : phase.Holds config shared number published) :
    StepResult config number (phase.advance config number chunk shared) := by
  cases phase with
  | create target => exact advance_create hsound hpublished h
  | writing target file written => exact advance_writing hsound hpublished h
  | install target => exact advance_install hsound hpublished h
  | choose => exact advance_choose hsound hpublished h
  | retire generation => exact ⟨hsound, published, hpublished, h⟩
  | store generation oldGeneration =>
      obtain ⟨rfl, hold⟩ := h
      refine ⟨hsound, generation, hpublished, ?_⟩
      change CheckpointPhase.Holds _ _ _ _ (if oldGeneration = 0 then _ else _)
      split
      · rfl
      · exact ⟨rfl, hold⟩
  | removeSizes oldGeneration =>
      have hother : ∀ name, name ≠ .listSizes oldGeneration →
          (shared.disk.unlink (.final (.listSizes oldGeneration))).file (.final name) =
            shared.disk.file (.final name) := fun name hname =>
        Disk.file_unlink_of_ne (fun h => hname (by cases h; rfl))
      refine ⟨hsound.unlink _, published, hpublished.congr (hother _ (fun h => by cases h))
        (hother _ ?_) (hother _ (fun h => by cases h)), h⟩
      rintro ⟨⟩
      exact h.2 rfl
  | removePostings oldGeneration =>
      have hother : ∀ name, name ≠ .postings oldGeneration →
          (shared.disk.unlink (.final (.postings oldGeneration))).file (.final name) =
            shared.disk.file (.final name) := fun name hname =>
        Disk.file_unlink_of_ne (fun h => hname (by cases h; rfl))
      refine ⟨hsound.unlink _, published, hpublished.congr (hother _ (fun h => by cases h))
        (hother _ (fun h => by cases h)) (hother _ ?_), h.1⟩
      rintro ⟨⟩
      exact h.2 rfl
  | returned => exact ⟨hsound, published, hpublished, h⟩
  | threw => exact ⟨hsound, published, hpublished, h⟩

/-- A stream given up leaves the final names alone. -/
theorem Torn.result {disk : CheckpointDisk} (htorn : Torn phase shared.disk disk)
    (hsound : shared.disk.Sound) (hpublished : Published config shared.disk published)
    (h : phase.Holds config shared number published) :
    disk.Sound ∧ Published config disk published := by
  cases htorn with
  | closed => exact ⟨hsound, hpublished⟩
  | «open» file bytes hfile =>
      cases phase with
      | writing target number' written =>
          obtain ⟨-, -, hentry, -⟩ := h
          cases hfile
          have hfinal := file_final_setBytes hsound hentry bytes
          exact ⟨hsound.setBytes _ _, hpublished.congr (hfinal _) (hfinal _) (hfinal _)⟩
      | _ => cases hfile

/-- A call that can throw has not changed `checkpoint_generation_`. -/
theorem CheckpointPhase.CanThrow.generation_eq (hthrow : phase.CanThrow)
    (h : phase.Holds config shared number published) :
    shared.index.checkpointGeneration = published := by
  cases phase with
  | create target => exact h.1
  | writing target file written => exact h.1
  | install target => exact h.1
  | choose => exact h
  | _ => cases hthrow

end Phase

/-- Updates leave `checkpoint_generation_` alone. -/
theorem run_checkpointGeneration {config : IndexConfig} (encoder : Encoder config Vector)
    (env : Environment) (system : System) (operation : Operation config Vector) :
    (operation.run encoder env system).1.index.checkpointGeneration =
      system.index.checkpointGeneration := by
  cases operation with
  | insert input =>
      simp only [Operation.run, insertBatch]
      repeat' split
      all_goals rfl
  | erase ids =>
      simp only [Operation.run, eraseBatch]
      repeat' split
      all_goals rfl

section Run

variable {encoder : Encoder config.toIndexConfig Vector} {s s' : CheckpointSystem}

theorem consistent_fresh : CheckpointSystem.fresh.Consistent config 0 where
  sound := ⟨fun _ _ _ h _ => (by cases h), fun _ _ h => (by cases h)⟩
  intact := Or.inl ⟨rfl, rfl⟩
  idle := fun index hindex _ => by
    cases hindex
    rfl
  running := fun _ _ _ hcall => by cases hcall
  opened := fun _ hcall => by cases hcall

/-- One step keeps the store consistent. -/
theorem CheckpointStep.consistent {published : Nat} (hstep : CheckpointStep config encoder s s')
    (h : s.Consistent config published) : ∃ published', s'.Consistent config published' := by
  cases hstep with
  | @update index env operation hindex hcall =>
      refine ⟨published, h.sound, h.intact, fun index' hindex' _ => ?_,
        fun _ _ _ hcall' => (by rw [hcall] at hcall'; cases hcall'), fun _ _ => nofun⟩
      cases hindex'
      exact (run_checkpointGeneration encoder env ⟨index, s.storage⟩ operation).trans
        (h.idle index hindex hcall)
  | @begin index hindex hcall =>
      refine ⟨published, h.sound, h.intact, fun _ _ hcall' => (by cases hcall'),
        fun index' phase hindex' hphase => ?_, fun _ _ => (by rw [hindex]; nofun)⟩
      cases hphase
      exact ⟨h.idle index' hindex' hcall, trivial⟩
  | @advance index phase chunk hindex hcall =>
      obtain ⟨hsound, published', hintact, hholds⟩ :=
        @advance_result _ _ _ _ chunk _ h.sound h.intact (h.running index phase hindex hcall)
      refine ⟨published', hsound, hintact, fun _ _ hcall' => (by cases hcall'),
        fun index' phase' hindex' hphase' => ?_, fun _ _ => nofun⟩
      cases hindex'
      cases hphase'
      exact hholds
  | @finish phase hcall hdone =>
      refine ⟨published, h.sound, h.intact, fun index hindex _ => ?_,
        fun _ _ _ hcall' => (by cases hcall'), fun _ hcall' => (by cases hcall')⟩
      have hholds := h.running index phase hindex hcall
      rcases hdone with rfl | rfl
      · exact hholds
      · exact hholds
  | @fail phase disk hcall hthrow htorn =>
      obtain ⟨index, hindex⟩ := Option.ne_none_iff_exists'.mp (h.opened phase hcall)
      have hholds := h.running index phase hindex hcall
      obtain ⟨hsound, hintact⟩ := htorn.result h.sound h.intact hholds
      refine ⟨published, hsound, hintact, fun _ _ hcall' => (by cases hcall'),
        fun index' phase' hindex' hphase' => ?_, fun _ _ => h.opened phase hcall⟩
      cases hphase'
      rw [hindex, Option.some_inj] at hindex'
      subst hindex'
      -- a call that may still throw has not stored its generation
      have hgeneration := hthrow.generation_eq hholds
      exact hgeneration
  | @keep oldGeneration hcall =>
      refine ⟨published, h.sound, h.intact, fun _ _ hcall' => (by cases hcall'),
        fun index phase hindex hphase => ?_, fun _ _ => h.opened _ hcall⟩
      have hholds := h.running index _ hindex hcall
      cases hphase
      exact hholds
  | @keepLast oldGeneration hcall =>
      refine ⟨published, h.sound, h.intact, fun _ _ hcall' => (by cases hcall'),
        fun index phase hindex hphase => ?_, fun _ _ => h.opened _ hcall⟩
      cases hphase
      exact (h.running index _ hindex hcall).1
  | @crash disk storage htorn =>
      have hdisk : disk.Sound ∧ Published config disk published := by
        cases hcall : s.call with
        | none =>
            rw [hcall] at htorn
            cases htorn with
            | closed => exact ⟨h.sound, h.intact⟩
            | «open» file bytes hfile => cases hfile
        | some phase =>
            rw [hcall] at htorn
            obtain ⟨index, hindex⟩ := Option.ne_none_iff_exists'.mp (h.opened phase hcall)
            exact htorn.result h.sound h.intact (h.running index phase hindex hcall)
      exact ⟨published, hdisk.1, hdisk.2, fun _ hindex => (by cases hindex),
        fun _ _ hindex => (by cases hindex), fun _ hcall => (by cases hcall)⟩
  | close hcall =>
      exact ⟨published, h.sound, h.intact, fun _ hindex => (by cases hindex),
        fun _ _ hindex => (by cases hindex), fun _ hcall' => (by rw [hcall] at hcall'; cases hcall')⟩
  | @reload index hindex hload =>
      have hidle : s.call = none := by
        cases hcall : s.call with
        | none => rfl
        | some phase => exact absurd hindex (h.opened phase hcall)
      refine ⟨published, h.sound, h.intact, fun index' hindex' _ => ?_,
        fun _ _ _ hcall => (by rw [hidle] at hcall; cases hcall), fun _ _ => nofun⟩
      cases hindex'
      obtain ⟨file, manifest, hfile, hparse, -, hgeneration⟩ := loadCheckpoint_generation hload
      -- a manifest was read, so something is published and the index takes its generation
      rcases h.intact with ⟨-, hnone⟩ | ⟨-, hlt, number, snapshot, hmanifest, -, -⟩
      · rw [Disk.read, hnone] at hfile
        cases hfile
      · obtain ⟨bytes, hbytes, hdisk⟩ := hmanifest
        cases hbytes
        change s.disk.file (.final .manifest) = _ at hdisk
        rw [Disk.read, hdisk, Option.map_some, Option.some_inj] at hfile
        rw [← hfile, parseManifest_encode rfl, Except.ok.injEq] at hparse
        rw [hgeneration, ← hparse]
        exact UInt64.toNat_ofNat_of_lt' hlt

theorem CheckpointReachable.consistent (h : CheckpointReachable config encoder s) :
    ∃ published, s.Consistent config published := by
  induction h with
  | fresh => exact ⟨0, consistent_fresh⟩
  | step _ hstep ih =>
      obtain ⟨published, hconsistent⟩ := ih
      exact hstep.consistent hconsistent

/-- Whenever a manifest is in place, in particular after a stop at any point,
the two files of the generation it names are complete and come from the call
that wrote the manifest. -/
theorem manifest_names_one_checkpoint (h : CheckpointReachable config encoder s) {file : Bytes}
    {number : Nat} (hmanifest : s.disk.file (.final .manifest) = some (file, number)) :
    ∃ manifest snapshot postings, parseManifest file = .ok manifest ∧
      manifest = checkpointManifest config snapshot manifest.generation.toNat ∧
      s.disk.file (.final (.listSizes manifest.generation.toNat)) =
        some (listSizesFile config snapshot, number) ∧
      postingsFile config snapshot = .ok postings ∧
      s.disk.file (.final (.postings manifest.generation.toNat)) = some (postings, number) := by
  obtain ⟨published, hconsistent⟩ := h.consistent
  rcases hconsistent.intact with ⟨-, hnone⟩ | ⟨-, hlt, number', snapshot, hm, hs, hp⟩
  · rw [hnone] at hmanifest
    cases hmanifest
  · obtain ⟨_, hbytes, hdisk⟩ := hm
    cases hbytes
    obtain ⟨_, hbytes, hsizes⟩ := hs
    cases hbytes
    obtain ⟨postings, hpostings, hpostingsFile⟩ := hp
    change s.disk.file (.final .manifest) = _ at hdisk
    rw [hdisk, Option.some_inj, Prod.mk.injEq] at hmanifest
    obtain ⟨rfl, rfl⟩ := hmanifest
    have hgeneration : (checkpointManifest config snapshot published).generation.toNat = published :=
      UInt64.toNat_ofNat_of_lt' hlt
    refine ⟨checkpointManifest config snapshot published, snapshot, postings,
      parseManifest_encode rfl, ?_, ?_, hpostings, ?_⟩
    · rw [hgeneration]
    · rw [hgeneration]
      exact hsizes
    · rw [hgeneration]
      exact hpostingsFile

end Run

/-- A call run alone for some steps. -/
def runAlone (config : CheckpointConfig) (number chunk : Nat) :
    Nat → CheckpointShared × CheckpointPhase → CheckpointShared × CheckpointPhase
  | 0, state => state
  | steps + 1, state =>
      runAlone config number chunk steps
        (state.2.advance config number chunk state.1)

/-- The system after some steps of its running call. -/
def CheckpointSystem.afterSteps (config : CheckpointConfig) (s : CheckpointSystem) (index : Index)
    (phase : CheckpointPhase) (chunk steps : Nat) : CheckpointSystem :=
  let state := runAlone config s.calls chunk steps (⟨s.disk, index⟩, phase)
  { s with disk := state.1.disk, index := some state.1.index, call := some state.2 }

theorem CheckpointReachable.afterSteps {encoder : Encoder config.toIndexConfig Vector}
    {s : CheckpointSystem} {index : Index} {phase : CheckpointPhase} (chunk steps : Nat)
    (h : CheckpointReachable config encoder s) (hindex : s.index = some index)
    (hcall : s.call = some phase) :
    CheckpointReachable config encoder (s.afterSteps config index phase chunk steps) := by
  induction steps generalizing s index phase with
  | zero =>
      obtain ⟨disk, storage, _, _, calls⟩ := s
      cases hindex
      cases hcall
      exact h
  | succ steps ih => exact ih (h.step (.advance chunk hindex hcall)) rfl rfl

/-- One list, and a quantizer of which nothing is stored. -/
def smallestConfig : CheckpointConfig := ⟨onePerPage 1 (by decide), 4, 0, []⟩

/-- The index with two lists, and a quantizer of which nothing is stored. -/
def twoListsCheckpoint : CheckpointConfig := ⟨twoLists, 4, 0, []⟩

/-- An update of the open index. -/
def CheckpointSystem.update (s : CheckpointSystem)
    (operation : Operation twoListsCheckpoint.toIndexConfig UInt8) : CheckpointSystem :=
  let system : System := ⟨s.index.getD System.fresh.index, s.storage⟩
  { s with
    storage := (operation.run byteEncoder .quiet system).1.storage
    index := some (operation.run byteEncoder .quiet system).1.index }

/-- A call of `checkpoint` that begins and runs alone for some steps. -/
def CheckpointSystem.startCall (s : CheckpointSystem) (steps : Nat) : CheckpointSystem :=
  { s with call := some (.create .quantizer), calls := s.calls + 1 }.afterSteps twoListsCheckpoint
    (s.index.getD System.fresh.index) (.create .quantizer) 1000 steps

/-- The call is over. -/
def CheckpointSystem.endCall (s : CheckpointSystem) : CheckpointSystem := { s with call := none }

/-- What the states of this run have in common. -/
def AtRest (s : CheckpointSystem) : Prop :=
  CheckpointReachable twoListsCheckpoint byteEncoder s ∧ s.index.isSome ∧ s.call = none

theorem AtRest.update {s : CheckpointSystem} (h : AtRest s)
    (operation : Operation twoListsCheckpoint.toIndexConfig UInt8) : AtRest (s.update operation) := by
  obtain ⟨hreachable, hindex, hcall⟩ := h
  obtain ⟨disk, storage, index | index, call, calls⟩ := s
  · cases hindex
  · exact ⟨hreachable.step (.update .quiet operation rfl hcall), rfl, hcall⟩

theorem AtRest.startCall {s : CheckpointSystem} (h : AtRest s) (steps : Nat) :
    CheckpointReachable twoListsCheckpoint byteEncoder (s.startCall steps) := by
  obtain ⟨hreachable, hindex, hcall⟩ := h
  obtain ⟨disk, storage, index | index, call, calls⟩ := s
  · cases hindex
  · exact .afterSteps 1000 steps (hreachable.step (.begin rfl hcall)) rfl rfl

/-- A call that throws where it may leaves the process at rest. -/
theorem AtRest.failCall {s : CheckpointSystem} (h : AtRest s) {steps : Nat} {phase : CheckpointPhase}
    (hphase : (s.startCall steps).call = some phase) (hthrows : phase.CanThrow) :
    AtRest (s.startCall steps).endCall :=
  ⟨((h.startCall steps).step (.fail hphase hthrows .closed)).step (.finish rfl (.inr rfl)), rfl, rfl⟩

theorem AtRest.finishCall {s : CheckpointSystem} (h : AtRest s) {steps : Nat}
    (hphase : (s.startCall steps).call = some .returned) : AtRest (s.startCall steps).endCall :=
  ⟨(h.startCall steps).step (.finish hphase (.inl rfl)), rfl, rfl⟩

/-- An index with five rows, checkpointed. -/
def firstCheckpoint : CheckpointSystem :=
  ((CheckpointSystem.fresh.update (.insert fiveBytes)).startCall 18).endCall

/-- A row is erased; the second call has installed the sizes of generation 2 and
fails as it writes the postings. -/
def secondCheckpoint : CheckpointSystem :=
  ((firstCheckpoint.update (.erase [0])).startCall 10).endCall

/-- A third call after another insertion, up to the new manifest. -/
def thirdCheckpoint : CheckpointSystem :=
  (secondCheckpoint.update (.insert [byteRow 0x65])).startCall 16

theorem reachable_thirdCheckpoint :
    CheckpointReachable twoListsCheckpoint byteEncoder thirdCheckpoint := by
  have hfresh : AtRest CheckpointSystem.fresh := ⟨.fresh, rfl, rfl⟩
  have hfirst : AtRest firstCheckpoint := (hfresh.update _).finishCall (by decide +kernel)
  have hwriting : ((firstCheckpoint.update (.erase [0])).startCall 10).call =
      some (.writing (.postings 2) 6 256) := by decide +kernel
  have hsecond : AtRest secondCheckpoint := (hfirst.update _).failCall hwriting trivial
  exact (hsecond.update _).startCall 16

/-- The manifest of the third call. -/
def thirdManifest : Bytes := ((thirdCheckpoint.disk.read (.final .manifest)).getD [])

/-- The failed call has left list sizes of generation 2; the manifest names files of
the third call only. -/
theorem manifest_names_one_checkpoint_third :
    secondCheckpoint.disk.file (.final (.listSizes 2)) = some ([2, 0, 0, 0, 2, 0, 0, 0], 2) ∧
      thirdCheckpoint.disk.file (.final .manifest) = some (thirdManifest, 3) ∧
      ∃ snapshot postings,
        parseManifest thirdManifest = .ok (checkpointManifest twoListsCheckpoint snapshot 2) ∧
        thirdCheckpoint.disk.file (.final (.listSizes 2)) =
          some (listSizesFile twoListsCheckpoint snapshot, 3) ∧
        postingsFile twoListsCheckpoint snapshot = .ok postings ∧
        thirdCheckpoint.disk.file (.final (.postings 2)) = some (postings, 3) := by
  have hmanifest : thirdCheckpoint.disk.file (.final .manifest) = some (thirdManifest, 3) := by
    decide +kernel
  have hgeneration : (parseManifest thirdManifest).toOption.map (fun m => m.generation.toNat) =
      some 2 := by
    decide +kernel
  refine ⟨by decide +kernel, hmanifest, ?_⟩
  obtain ⟨manifest, snapshot, postings, hparse, hnames, hsizes, hpostings, hfile⟩ :=
    manifest_names_one_checkpoint reachable_thirdCheckpoint hmanifest
  rw [hparse] at hgeneration
  have hgeneration : manifest.generation.toNat = 2 := Option.some.inj hgeneration
  rw [hgeneration] at hnames hsizes hfile
  exact ⟨snapshot, postings, hparse.trans (congrArg Except.ok hnames), hsizes, hpostings, hfile⟩

end Recast
