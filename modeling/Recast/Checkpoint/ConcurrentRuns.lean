import Recast.Checkpoint.ConcurrentSteps

/-!
# Runs of two checkpoint calls

In a run in which no step meets the other call the published files are whole in
every state; a schedule in which both calls compute one generation loses them.
-/

namespace Recast

open Foundation

variable {config : CheckpointConfig}

section Runs

open ConcurrentCheckpoints

variable {disk : CheckpointDisk} {index : Index} {numbers : Bool → Nat}
  {content : CheckpointTarget → Bytes} {s : ConcurrentCheckpoints}

theorem coherent_start (hsound : disk.Sound)
    (hcontents : ∀ target : CheckpointTarget, target.contents config index = .ok (content target))
    (hlt : index.checkpointGeneration < 2 ^ 64) :
    Coherent config disk content index.checkpointGeneration (start disk index)
      index.checkpointGeneration where
  sound := hsound
  contents := hcontents
  lt := hlt
  first_le := Nat.le_refl _
  le := Nat.le_succ _
  intact := Or.inl ⟨rfl, fun _ _ => rfl⟩
  calls := fun _ _ => nofun
  drafts := fun _ _ _ _ ⟨_, hhand⟩ => 
    False.elim (CheckpointPhase.Idle.not_inHand (by trivial) _ hhand)

theorem UndisturbedRun.coherent {first : ConcurrentCheckpoints} {generation published : Nat}
    (hrun : UndisturbedRun config numbers first s)
    (hfirst : Coherent config disk content generation first published) :
    ∃ published', Coherent config disk content generation s published' := by
  induction hrun with
  | refl => exact ⟨published, hfirst⟩
  | step caller chunk _ halone ih =>
      obtain ⟨published', hcoherent⟩ := ih
      exact hcoherent.step halone numbers chunk

/-- A file that can be reloaded has contents for every target. -/
theorem Loadable.exists_content {records : Nat → Option Bytes}
    (h : Loadable config index records) : ∃ content : CheckpointTarget → Bytes,
      ∀ target : CheckpointTarget, target.contents config index = .ok (content target) := by
  have hall : ∀ target : CheckpointTarget, ∃ bytes, target.contents config index = .ok bytes := by
    intro target
    cases target with
    | postings generation => exact ⟨_, h.postingsFile_eq⟩
    | _ => exact ⟨_, rfl⟩
  choose content hcontent using hall
  exact ⟨content, hcontent⟩

/-- The manifest on the disk names files that hold one whole snapshot. -/
def Restorable (config : CheckpointConfig) (disk : CheckpointDisk) : Prop :=
  ∀ file, disk.read (.final .manifest) = some file → ∃ manifest snapshot postings,
    parseManifest file = .ok manifest ∧
    manifest = checkpointManifest config snapshot manifest.generation.toNat ∧
    disk.read (.final (.listSizes manifest.generation.toNat)) =
      some (listSizesFile config snapshot) ∧
    postingsFile config snapshot = .ok postings ∧
    disk.read (.final (.postings manifest.generation.toNat)) = some postings

theorem restorable_of_reads {snapshot : Index} {generation : Nat} {postings : Bytes}
    (hlt : generation < 2 ^ 64)
    (hmanifest : disk.read (.final .manifest) =
      some (checkpointManifest config snapshot generation).encode)
    (hsizes : disk.read (.final (.listSizes generation)) = some (listSizesFile config snapshot))
    (hbytes : postingsFile config snapshot = .ok postings)
    (hpostings : disk.read (.final (.postings generation)) = some postings) :
    Restorable config disk := by
  intro file hfile
  have hgeneration : (checkpointManifest config snapshot generation).generation.toNat = generation :=
    UInt64.toNat_ofNat_of_lt' hlt
  rw [hmanifest, Option.some_inj] at hfile
  refine ⟨checkpointManifest config snapshot generation, snapshot, postings, ?_, ?_, ?_, hbytes, ?_⟩
  · rw [← hfile]
    exact parseManifest_encode rfl
  · rw [hgeneration]
  · rw [hgeneration]
    exact hsizes
  · rw [hgeneration]
    exact hpostings

theorem Complete.read {number : Nat} {target : CheckpointTarget} {bytes : Bytes}
    (h : Complete config disk number index target) (hbytes : target.contents config index = .ok bytes) :
    disk.read (.final target.name) = some bytes := by
  obtain ⟨bytes', hcontents, hfile⟩ := h
  rw [hbytes, Except.ok.injEq] at hcontents
  rw [Disk.read, hfile, Option.map_some, hcontents]

/-- Published files are restorable, and stay so while they are left alone. -/
theorem Published.restorable {disk' : CheckpointDisk} {published : Nat}
    (h : Published config disk published)
    (hkept : ∀ name ∈ [CheckpointName.manifest, .listSizes published, .postings published],
      disk'.read (.final name) = disk.read (.final name)) : Restorable config disk' := by
  have hmanifestKept := hkept .manifest List.mem_cons_self
  rcases h with ⟨-, hnone⟩ | ⟨-, hlt, number, snapshot, hmanifest, hsizes, hpostings⟩
  · intro file hfile
    rw [hmanifestKept, Disk.read, hnone] at hfile
    cases hfile
  · obtain ⟨postings, hbytes, -⟩ := id hpostings
    exact restorable_of_reads hlt (hmanifestKept.trans (hmanifest.read rfl))
      ((hkept (.listSizes published) (by simp)).trans (hsizes.read rfl)) hbytes
      ((hkept (.postings published) (by simp)).trans (hpostings.read hbytes))

/-- The manifest a call has installed restores the index of the calls. -/
theorem Loadable.reload_eq {records : Nat → Option Bytes} (h : Loadable config index records)
    (hcontent : ∀ target : CheckpointTarget, target.contents config index = .ok (content target))
    {published : Nat} (hzero : published ≠ 0) (hlt : published < 2 ^ 64)
    (hfiles : ∀ target ∈ [CheckpointTarget.manifest published, .listSizes published,
      .postings published], disk.read (.final target.name) = some (content target)) :
    Restorable config disk ∧
      reloadCheckpoint config disk records = .ok (index.restored config published) := by
  have hmanifest := hfiles (.manifest published) List.mem_cons_self
  have hsizes := hfiles (.listSizes published) (by simp)
  have hpostings := hfiles (.postings published) (by simp)
  rw [← Except.ok.inj (hcontent (.manifest published))] at hmanifest
  rw [← Except.ok.inj (hcontent (.listSizes published))] at hsizes
  have hbytes : postingsFile config index = .ok (content (.postings published)) :=
    hcontent (.postings published)
  refine ⟨restorable_of_reads hlt hmanifest hsizes hbytes hpostings, ?_⟩
  rw [reloadCheckpoint]
  change disk.read (.final .manifest) = _ at hmanifest
  rw [hmanifest]
  exact h.loadCheckpoint_eq hzero hlt hsizes hpostings hbytes

/-- Two calls from a reachable state. In every run in which no step meets the
other call, the manifest names complete files in every state, and once a call
has returned a reload restores the index. -/
theorem undisturbed_checkpoints_restorable {Vector : Type*}
    {encoder : Encoder config.toIndexConfig Vector} {system : CheckpointSystem}
    (hreachable : CheckpointReachable config encoder system) (hindex : system.index = some index)
    (hidle : system.call = none) (hloadable : Loadable config index system.storage.records)
    (hrun : UndisturbedRun config numbers (start system.disk index) s) :
    Restorable config s.shared.disk ∧
      ((∃ caller, s.calls caller = .returned) → ∃ generation,
        reloadCheckpoint config s.shared.disk system.storage.records =
          .ok (index.restored config generation)) := by
  obtain ⟨published, hconsistent⟩ := hreachable.consistent
  obtain ⟨content, hcontent⟩ := hloadable.exists_content
  have hfirst := hconsistent.idle index hindex hidle
  have hlt : index.checkpointGeneration < 2 ^ 64 := hfirst ▸ hconsistent.intact.lt
  obtain ⟨published', hcoherent⟩ :=
    UndisturbedRun.coherent hrun (coherent_start hconsistent.sound hcontent hlt)
  rcases hcoherent.intact with ⟨hsame, hkept⟩ | ⟨hafter, hlt', hfiles⟩
  · rw [hfirst] at hkept
    refine ⟨hconsistent.intact.restorable hkept, fun ⟨caller, hreturned⟩ => ?_⟩
    have hcall := hcoherent.calls caller
    rw [hreturned] at hcall
    exact absurd (hsame ▸ hcall) (Nat.lt_irrefl _)
  · obtain ⟨hrestorable, hreload⟩ := hloadable.reload_eq hcontent
      (Nat.pos_iff_ne_zero.mp (Nat.lt_of_le_of_lt (Nat.zero_le _) hafter)) hlt' hfiles
    exact ⟨hrestorable, fun _ => ⟨published', hreload⟩⟩


/-! ### Schedules -/

namespace ConcurrentCheckpoints

instance (s : ConcurrentCheckpoints) (caller : Bool) : Decidable (s.Undisturbed caller) :=
  match hcaller : s.calls caller with
  | .install target =>
      match hother : s.calls (!caller) with
      | .writing other _ _ => decidable_of_iff (target ≠ .quantizer → other.name ≠ target.name) (by
          rw [Undisturbed, hcaller]
          refine ⟨fun h htarget _ _ _ heq => ?_, fun h htarget => h htarget other _ _ hother⟩
          rw [hother] at heq
          cases heq
          exact h htarget)
      | .create _ | .install _ | .choose | .retire _ | .store _ _ | .removeSizes _
      | .removePostings _ | .returned | .threw => isTrue (by
          rw [Undisturbed, hcaller]
          intro _ _ _ _ heq
          rw [hother] at heq
          cases heq)
  | .retire generation => decidable_of_iff (s.generation ≠ generation) (by
      rw [Undisturbed, hcaller])
  | .create _ | .writing _ _ _ | .choose | .store _ _ | .removeSizes _ | .removePostings _
  | .returned | .threw => isTrue (by rw [Undisturbed, hcaller]; trivial)

/-- The state after the calls have taken their steps in this order. -/
def after (config : CheckpointConfig) (numbers : Bool → Nat) (chunk : Nat) :
    List Bool → ConcurrentCheckpoints → ConcurrentCheckpoints
  | [], s => s
  | caller :: rest, s => after config numbers chunk rest (s.step config numbers caller chunk)

/-- No step of the schedule meets the other call. -/
def UndisturbedAlong (config : CheckpointConfig) (numbers : Bool → Nat) (chunk : Nat) :
    List Bool → ConcurrentCheckpoints → Prop
  | [], _ => True
  | caller :: rest, s => s.Undisturbed caller ∧
      UndisturbedAlong config numbers chunk rest (s.step config numbers caller chunk)

instance decidableAlong (config : CheckpointConfig) (numbers : Bool → Nat) (chunk : Nat) :
    (schedule : List Bool) → (s : ConcurrentCheckpoints) →
      Decidable (UndisturbedAlong config numbers chunk schedule s)
  | [], _ => isTrue trivial
  | _ :: rest, _ =>
      have := decidableAlong config numbers chunk rest
      inferInstanceAs (Decidable (_ ∧ _))

theorem Run.after {numbers : Bool → Nat} {first s : ConcurrentCheckpoints} (chunk : Nat)
    (schedule : List Bool) (h : Run config numbers first s) :
    Run config numbers first (after config numbers chunk schedule s) := by
  induction schedule generalizing s with
  | nil => exact h
  | cons caller rest ih => exact ih (h.step caller chunk)

theorem UndisturbedRun.after {numbers : Bool → Nat} {first s : ConcurrentCheckpoints} {chunk : Nat}
    {schedule : List Bool} (h : UndisturbedRun config numbers first s)
    (halong : UndisturbedAlong config numbers chunk schedule s) :
    UndisturbedRun config numbers first (after config numbers chunk schedule s) := by
  induction schedule generalizing s with
  | nil => exact h
  | cons caller rest ih => exact ih (h.step caller chunk halong.1) halong.2

/-- Two calls on a fresh index, in this order of steps. -/
def fromFresh (schedule : List Bool) : ConcurrentCheckpoints :=
  after smallestConfig (fun caller => if caller then 2 else 1) 1000 schedule
    (start CheckpointSystem.fresh.disk System.fresh.index)

end ConcurrentCheckpoints

/-- One call after the other. -/
theorem undisturbed_checkpoints_restorable_in_turn :
    Restorable smallestConfig
        (fromFresh (List.replicate 20 false ++ List.replicate 20 true)).shared.disk ∧
      ((∃ caller, (fromFresh (List.replicate 20 false ++ List.replicate 20 true)).calls caller =
        .returned) → ∃ generation, reloadCheckpoint smallestConfig
          (fromFresh (List.replicate 20 false ++ List.replicate 20 true)).shared.disk
          CheckpointSystem.fresh.storage.records =
            .ok (System.fresh.index.restored smallestConfig generation)) :=
  undisturbed_checkpoints_restorable
    (@CheckpointReachable.fresh _ _ (constantEncoder smallestConfig.toIndexConfig 0)) rfl rfl
    (Agrees.loadable (agrees_fresh smallestConfig.toIndexConfig))
    (UndisturbedRun.after .refl (by decide +kernel))

/-- Both calls compute generation 1. The second to finish finds it stored and
removes the files its manifest names. -/
theorem concurrent_checkpoints_lose_files : ∃ s,
    Run smallestConfig (fun caller => if caller then 2 else 1)
      (start CheckpointSystem.fresh.disk System.fresh.index) s ∧
    (∀ caller, s.calls caller = .returned) ∧ ¬Restorable smallestConfig s.shared.disk ∧
    ∀ index, reloadCheckpoint smallestConfig s.shared.disk
      CheckpointSystem.fresh.storage.records ≠ .ok index := by
  have hrun : ∀ schedule, Run smallestConfig (fun caller => if caller then 2 else 1)
      (start CheckpointSystem.fresh.disk System.fresh.index) (fromFresh schedule) :=
    fun schedule => Run.refl.after 1000 schedule
  have hmanifest : (fromFresh (List.replicate 4 false ++ List.replicate 4 true ++
      List.replicate 20 false ++ List.replicate 20 true)).shared.disk.read (.final .manifest) =
        some (checkpointManifest smallestConfig System.fresh.index 1).encode := by
    decide +kernel
  have hsizes : (fromFresh (List.replicate 4 false ++ List.replicate 4 true ++
      List.replicate 20 false ++ List.replicate 20 true)).shared.disk.read
        (.final (.listSizes 1)) = none := by
    decide +kernel
  have hreload : (reloadCheckpoint smallestConfig (fromFresh (List.replicate 4 false ++
      List.replicate 4 true ++ List.replicate 20 false ++ List.replicate 20 true)).shared.disk
        CheckpointSystem.fresh.storage.records).isOk = false := by
    decide +kernel
  refine ⟨_, hrun (List.replicate 4 false ++ List.replicate 4 true ++ List.replicate 20 false ++
    List.replicate 20 true), by decide +kernel, fun hrestorable => ?_, fun index hindex => ?_⟩
  · obtain ⟨manifest, snapshot, postings, hparse, -, hread, -⟩ := hrestorable _ hmanifest
    rw [parseManifest_encode rfl, Except.ok.injEq] at hparse
    subst hparse
    have hgeneration : (checkpointManifest smallestConfig System.fresh.index 1).generation.toNat = 1 :=
      rfl
    rw [hgeneration, hsizes] at hread
    cases hread
  · rw [hindex] at hreload
    cases hreload

end Runs

end Recast
