import Recast.Checkpoint.Concurrent

/-!
# The steps of two checkpoint calls

The invariant of two calls is kept by every step that does not meet the other
call, phase by phase.
-/

namespace Recast

open Foundation

namespace ConcurrentCheckpoints

variable {config : CheckpointConfig}

section Step

variable {disk₀ : CheckpointDisk} {content : CheckpointTarget → Bytes} {first published : Nat}
  {s : ConcurrentCheckpoints} {caller : Bool} {shared' : CheckpointShared}
  {phase' : CheckpointPhase}

/-- The state after a step of the caller. -/
def moved (s : ConcurrentCheckpoints) (caller : Bool) (shared' : CheckpointShared)
    (phase' : CheckpointPhase) : ConcurrentCheckpoints :=
  ⟨shared', Function.update s.calls caller phase'⟩

@[simp] theorem moved_calls_self : (s.moved caller shared' phase').calls caller = phase' :=
  Function.update_self _ _ _

@[simp] theorem moved_calls_other :
    (s.moved caller shared' phase').calls (!caller) = s.calls (!caller) :=
  Function.update_of_ne (by cases caller <;> decide) _ _

theorem eq_or_eq_not (other caller : Bool) : other = caller ∨ other = !caller := by
  cases other <;> cases caller <;> decide

theorem Coherent.moved {published' : Nat} (hsound : shared'.disk.Sound)
    (hcontents : ∀ target : CheckpointTarget,
      target.contents config shared'.index = .ok (content target))
    (hlt : shared'.index.checkpointGeneration < 2 ^ 64)
    (hfirst : first ≤ shared'.index.checkpointGeneration)
    (hle : published' ≤ shared'.index.checkpointGeneration + 1)
    (hintact : Intact disk₀ shared'.disk content first published')
    (hown : CallHolds content first (s.moved caller shared' phase') published' caller phase')
    (hother : CallHolds content first (s.moved caller shared' phase') published' (!caller)
      (s.calls !caller))
    (hdrafts : Drafts content (s.moved caller shared' phase')) :
    ∃ published', Coherent config disk₀ content first (s.moved caller shared' phase') published' := by
  refine ⟨published', hsound, hcontents, hlt, hfirst, hle, hintact, fun other => ?_, hdrafts⟩
  rcases eq_or_eq_not other caller with rfl | rfl
  · rw [moved_calls_self]
    exact hown
  · rw [moved_calls_other]
    exact hother

/-- A draft stays one while the caller, who has not written it, leaves its file
alone. -/
theorem Coherent.drafted_moved (h : Coherent config disk₀ content first s published)
    {target : CheckpointTarget} {file : Nat} (htarget : target ≠ .quantizer)
    (hentry : s.shared.disk.entry (.temporary target.name) = some file)
    (hbytes : shared'.disk.bytes file = s.shared.disk.bytes file)
    (hidle : ¬(s.calls caller).InHand target) (hhand : (s.calls !caller).InHand target) :
    Drafted content (s.moved caller shared' phase') target file := by
  obtain ⟨writer, written, hphase, hagree⟩ := h.drafts target file htarget hentry ⟨_, hhand⟩
  have hwriter : writer = !caller := by
    rcases eq_or_eq_not writer caller with rfl | rfl
    · rcases hphase with hphase | ⟨hphase, -⟩
      · exact absurd (Or.inr ⟨file, written, hphase⟩) hidle
      · exact absurd (Or.inl hphase) hidle
    · rfl
  subst hwriter
  refine ⟨!caller, written, by rwa [moved_calls_other], ?_⟩
  change Agreeing (shared'.disk.bytes file) _ _
  rwa [hbytes]

/-- A caller with no file in hand afterwards leaves the drafts of the other. -/
theorem Coherent.drafts_moved (h : Coherent config disk₀ content first s published)
    (hnot : ∀ target, ¬phase'.InHand target)
    (hkept : ∀ target file, target ≠ .quantizer →
      shared'.disk.entry (.temporary target.name) = some file →
      s.shared.disk.entry (.temporary target.name) = some file ∧
        shared'.disk.bytes file = s.shared.disk.bytes file ∧ ¬(s.calls caller).InHand target) :
    Drafts content (s.moved caller shared' phase') := by
  rintro target file htarget hentry ⟨other, hhand⟩
  obtain ⟨hold, hbytes, hidle⟩ := hkept target file htarget hentry
  rcases eq_or_eq_not other caller with rfl | rfl
  · rw [moved_calls_self] at hhand
    exact absurd hhand (hnot target)
  · rw [moved_calls_other] at hhand
    exact h.drafted_moved htarget hold hbytes hidle hhand

/-- A step that changes nothing but the phase of the caller. -/
theorem Coherent.pass (h : Coherent config disk₀ content first s published)
    (hidle : ∀ target, ¬(s.calls caller).InHand target ∨
      s.shared.disk.entry (.temporary target.name) = none)
    (hnot : ∀ target, ¬phase'.InHand target) (hpast : (s.calls caller).Past → phase'.Past)
    (hown : CallHolds content first (s.moved caller s.shared phase') published caller phase') :
    ∃ published', Coherent config disk₀ content first (s.moved caller s.shared phase') published' := by
  refine Coherent.moved h.sound h.contents h.lt h.first_le h.le h.intact hown ?_ ?_
  · refine (h.calls !caller).frame rfl ?_ (Nat.le_refl _) (fun _ _ h => h)
      (fun _ _ _ _ _ h => h) (fun _ _ _ _ h => h)
    rw [Bool.not_not, moved_calls_self]
    exact hpast
  · refine h.drafts_moved hnot fun target file _ hentry => ⟨hentry, rfl, ?_⟩
    exact (hidle target).resolve_right fun hnone => by
      change s.shared.disk.entry _ = _ at hentry
      rw [hnone] at hentry
      cases hentry

theorem CallHolds.waiting {target : CheckpointTarget} {phase : CheckpointPhase}
    (h : CallHolds content first s published caller phase) (hhand : phase.InHand target) :
    Waiting content first s published caller target := by
  rcases hhand with rfl | ⟨file, written, rfl⟩
  · exact h
  · exact h.1

theorem not_past_of_inHand {target : CheckpointTarget} {phase : CheckpointPhase}
    (h : phase.InHand target) : ¬phase.Past := by
  rcases h with rfl | ⟨file, written, rfl⟩
  · exact id
  · exact id

/-- Two calls at work on one temporary name work on one target. -/
theorem Coherent.same_target (h : Coherent config disk₀ content first s published)
    {target other : CheckpointTarget} (htarget : target ≠ .quantizer)
    (hname : other.name = target.name)
    (hwait : Waiting content first s published caller target) (hnot : ¬(s.calls caller).Past)
    (hhand : (s.calls !caller).InHand other) : other = target := by
  have hother : other ≠ .quantizer := fun heq =>
    CheckpointTarget.name_ne_quantizer htarget (hname ▸ congrArg CheckpointTarget.name heq)
  obtain ⟨generation, hgeneration⟩ := CheckpointTarget.exists_generation htarget
  obtain ⟨generation', hgeneration'⟩ := CheckpointTarget.exists_generation hother
  have hchosen := (hwait generation hgeneration).1
  have hchosen' := ((h.calls !caller).waiting hhand generation' hgeneration').1
  have heq := hchosen.unique hchosen' hnot (not_past_of_inHand hhand)
  exact CheckpointTarget.eq_of_name hname (by rw [hgeneration, hgeneration', heq])

/-- The final name of a target of a generation is not the quantizer's. -/
theorem name_ne_of_generation {target : CheckpointTarget} {generation : Nat}
    (h : target.generation? = some generation) : target.name ≠ .quantizer := by
  cases target with
  | quantizer => cases h
  | _ => nofun

theorem coherent_create (h : Coherent config disk₀ content first s published)
    {target : CheckpointTarget} (hphase : s.calls caller = .create target) (number : Nat) :
    ∃ published', Coherent config disk₀ content first (s.moved caller
      { s.shared with
        disk := (s.shared.disk.openTruncated (.temporary target.name) number).1 }
      (.writing target (s.shared.disk.openTruncated (.temporary target.name) number).2 0))
      published' := by
  have hcall := h.calls caller
  rw [hphase] at hcall
  have hsound : (s.shared.disk.openTruncated (.temporary target.name) number).1.Sound :=
    h.sound.openTruncated
  have hread : ∀ name, (s.shared.disk.openTruncated (.temporary target.name) number).1.read
      (.final name) = s.shared.disk.read (.final name) := fun name => by
    rw [Disk.read, Disk.read,
      h.sound.file_openTruncated_of_ne (CheckpointPath.final_ne_temporary name target.name)]
  refine Coherent.moved hsound h.contents h.lt h.first_le h.le (h.intact.frame fun name _ => hread name)
    ⟨?_, ?_⟩ ?_ ?_
  · refine Waiting.frame hcall rfl ?_ (fun _ _ h => h) ?_
    · rw [moved_calls_other]
      exact id
    · exact fun other _ _ _ _ hother => (hread other.name).trans hother
  · refine ⟨hsound.used _ _ Disk.entry_openTruncated, fun path hpath => Or.inl ?_,
      fun _ => Disk.entry_openTruncated, Nat.zero_le _⟩
    exact hsound.injective _ _ _ hpath Disk.entry_openTruncated
  · refine (h.calls !caller).frame rfl ?_ (Nat.le_refl _) (fun _ _ h => h) ?_ ?_
    · rw [Bool.not_not, hphase]
      exact False.elim
    · exact fun other _ _ _ _ hother => (hread other.name).trans hother
    · exact fun _ _ _ _ hstream => hstream.openTruncated number
  · rintro other file hother hentry ⟨writer, hhand⟩
    -- another draft is untouched, unless it has the temporary name that was truncated
    by_cases hname : other.name = target.name
    · -- the opened file: it is empty
      have htarget : target ≠ .quantizer := fun heq =>
        CheckpointTarget.name_ne_quantizer hother (hname.trans (congrArg CheckpointTarget.name heq))
      have hsame : other = target := by
        rcases eq_or_eq_not writer caller with rfl | rfl
        · rw [moved_calls_self] at hhand
          rcases hhand with hhand | ⟨_, _, hhand⟩
          · cases hhand
          · cases hhand
            rfl
        · rw [moved_calls_other] at hhand
          exact h.same_target htarget hname hcall (by rw [hphase]; exact id) hhand
      subst hsame
      have hfile : (s.shared.disk.openTruncated (.temporary other.name) number).2 = file := by
        have hopened : (s.shared.disk.openTruncated (.temporary other.name) number).1.entry
          (.temporary other.name) = some file := hentry
        rw [Disk.entry_openTruncated] at hopened
        exact Option.some.inj hopened
      refine ⟨caller, 0, Or.inl (by rw [moved_calls_self, hfile]), ?_⟩
      have hbytes : (s.shared.disk.openTruncated (.temporary other.name) number).1.bytes file = [] :=
        hfile ▸ Disk.bytes_openTruncated
      change Agreeing ((s.shared.disk.openTruncated (.temporary other.name) number).1.bytes file) _ _
      rw [hbytes]
      exact ⟨Nat.le_refl _, fun _ hi => absurd hi (Nat.not_lt_zero _), Nat.zero_le _⟩
    · have hne := CheckpointPath.temporary_ne hname
      change (s.shared.disk.openTruncated (.temporary target.name) number).1.entry _ = _ at hentry
      rw [Disk.entry_openTruncated_of_ne hne] at hentry
      have hfile : file ≠ (s.shared.disk.openTruncated (.temporary target.name) number).2 :=
        h.sound.openTruncated_ne hne hentry
      rcases eq_or_eq_not writer caller with rfl | rfl
      · rw [moved_calls_self] at hhand
        rcases hhand with hhand | ⟨_, _, hhand⟩
        · cases hhand
        · cases hhand
          exact absurd rfl hname
      · rw [moved_calls_other] at hhand
        refine h.drafted_moved hother hentry (Disk.bytes_openTruncated_of_ne hfile).1 ?_ hhand
        rw [hphase]
        rintro (hhand | ⟨_, _, hhand⟩)
        · cases hhand
        · cases hhand

theorem coherent_write (h : Coherent config disk₀ content first s published)
    {target : CheckpointTarget} {file written : Nat}
    (hphase : s.calls caller = .writing target file written) (chunk : Nat) :
    ∃ published', Coherent config disk₀ content first (s.moved caller
      { s.shared with
        disk := s.shared.disk.write file written (slice (content target) written chunk) }
      (.writing target file (written + (slice (content target) written chunk).length)))
      published' := by
  have hcall := h.calls caller
  rw [hphase] at hcall
  obtain ⟨hwait, hstream⟩ := hcall
  have hread : ∀ name, name ≠ .quantizer →
      (s.shared.disk.write file written (slice (content target) written chunk)).read (.final name) =
        s.shared.disk.read (.final name) := fun name hname => hstream.read_write _ _ hname
  refine Coherent.moved (h.sound.write _ _ _) h.contents h.lt h.first_le h.le
    (h.intact.frame fun name hname => hread name ?_) ⟨?_, ?_⟩ ?_ ?_
  · simp only [List.mem_cons, List.not_mem_nil, or_false] at hname
    rcases hname with rfl | rfl | rfl
    all_goals nofun
  · refine Waiting.frame hwait rfl ?_ (fun _ _ h => h) ?_
    · rw [moved_calls_other]
      exact id
    · exact fun other _ hgeneration _ _ hother =>
        (hread _ (name_ne_of_generation hgeneration)).trans hother
  · refine ⟨hstream.used, hstream.linked, hstream.bound, ?_⟩
    have := hstream.written_le
    rw [length_slice]
    omega
  · refine (h.calls !caller).frame rfl ?_ (Nat.le_refl _) (fun _ _ h => h) ?_ ?_
    · rw [Bool.not_not, hphase]
      exact False.elim
    · exact fun other _ hgeneration _ _ hother =>
        (hread _ (name_ne_of_generation hgeneration)).trans hother
    · exact fun _ _ _ _ hother => ⟨hother.used, hother.linked, hother.bound, hother.written_le⟩
  · rintro other number hother hentry ⟨writer, hhand⟩
    change s.shared.disk.entry _ = _ at hentry
    -- the written file is the draft of this target, also for the other call that opened it
    by_cases hnumber : number = file
    · subst hnumber
      -- the file carries the name of its target, or none after a rename
      have hname : other.name = target.name := by
        rcases hstream.linked _ hentry with heq | ⟨-, heq⟩
        · exact (CheckpointPath.temporary.inj heq)
        · cases heq
      have htarget : target ≠ .quantizer := fun heq =>
        CheckpointTarget.name_ne_quantizer hother (hname.trans (congrArg CheckpointTarget.name heq))
      have hsame : other = target := by
        rcases eq_or_eq_not writer caller with rfl | rfl
        · rw [moved_calls_self] at hhand
          rcases hhand with hhand | ⟨_, _, hhand⟩
          · cases hhand
          · cases hhand
            rfl
        · rw [moved_calls_other] at hhand
          exact h.same_target htarget hname hwait (by rw [hphase]; exact id) hhand
      subst hsame
      obtain ⟨last, position, hlast, hagree⟩ := h.drafts other number hother hentry
        ⟨caller, Or.inr ⟨_, _, hphase⟩⟩
      obtain ⟨hkept, hextended⟩ := @Agreeing.write _ _ _ _ chunk hagree hstream.written_le
      have hbytes : (s.shared.disk.write number written (slice (content other) written chunk)).bytes
          number = overwrite 0 (s.shared.disk.bytes number) written
            (slice (content other) written chunk) := Disk.bytes_write _ _ _
      rw [← hbytes] at hkept hextended
      rcases eq_or_eq_not last caller with rfl | rfl
      · rw [hphase] at hlast
        rcases hlast with hlast | ⟨hlast, -⟩
        · cases hlast
          exact ⟨last, _, Or.inl moved_calls_self, hextended rfl⟩
        · cases hlast
      · exact ⟨!caller, position, by rwa [moved_calls_other], hkept⟩
    · have hidle : ¬(s.calls caller).InHand other := by
        rw [hphase]
        rintro (hhand | ⟨_, _, hhand⟩)
        · cases hhand
        · cases hhand
          exact hnumber (Option.some.inj (hentry.symm.trans (hstream.bound hother)))
      have hwriter : writer = !caller := by
        refine (eq_or_eq_not writer caller).resolve_left ?_
        rintro rfl
        rw [moved_calls_self] at hhand
        rcases hhand with hhand | ⟨_, _, hhand⟩
        · cases hhand
        · cases hhand
          exact hnumber (Option.some.inj (hentry.symm.trans (hstream.bound hother)))
      subst hwriter
      rw [moved_calls_other] at hhand
      exact h.drafted_moved hother hentry (Disk.bytes_write_of_ne hnumber) hidle hhand

/-- The stream has written everything and is closed. -/
theorem coherent_close (h : Coherent config disk₀ content first s published)
    {target : CheckpointTarget} {file written : Nat}
    (hphase : s.calls caller = .writing target file written)
    (hdone : (content target).length ≤ written) :
    ∃ published', Coherent config disk₀ content first (s.moved caller s.shared (.install target))
      published' := by
  have hcall := h.calls caller
  rw [hphase] at hcall
  obtain ⟨hwait, hstream⟩ := hcall
  refine Coherent.moved h.sound h.contents h.lt h.first_le h.le h.intact ?_ ?_ ?_
  · refine Waiting.frame hwait rfl ?_ (fun _ _ h => h) (fun _ _ _ _ _ h => h)
    rw [moved_calls_other]
    exact id
  · refine (h.calls !caller).frame rfl ?_ (Nat.le_refl _) (fun _ _ h => h)
      (fun _ _ _ _ _ h => h) (fun _ _ _ _ h => h)
    rw [Bool.not_not, hphase]
    exact False.elim
  · rintro other number hother hentry ⟨writer, hhand⟩
    have hold : ∃ caller, (s.calls caller).InHand other := by
      rcases eq_or_eq_not writer caller with rfl | rfl
      · rw [moved_calls_self] at hhand
        rcases hhand with hhand | ⟨_, _, hhand⟩
        · cases hhand
          exact ⟨writer, Or.inr ⟨_, _, hphase⟩⟩
        · cases hhand
      · rw [moved_calls_other] at hhand
        exact ⟨_, hhand⟩
    obtain ⟨last, position, hlast, hagree⟩ := h.drafts other number hother hentry hold
    rcases eq_or_eq_not last caller with rfl | rfl
    · rw [hphase] at hlast
      rcases hlast with hlast | ⟨hlast, -⟩
      · cases hlast
        exact ⟨last, _, Or.inr ⟨moved_calls_self,
          Nat.le_antisymm hstream.written_le hdone⟩, hagree⟩
      · cases hlast
    · exact ⟨!caller, position, by rwa [moved_calls_other], hagree⟩

/-- The temporary file is missing: another call has renamed it. -/
theorem coherent_missing (h : Coherent config disk₀ content first s published)
    {target : CheckpointTarget} (hphase : s.calls caller = .install target)
    (hrename : s.shared.disk.rename (.temporary target.name) (.final target.name) = none) :
    ∃ published', Coherent config disk₀ content first (s.moved caller s.shared .threw)
      published' := by
  refine h.pass (fun other => ?_) ?_ (by rw [hphase]; exact id) trivial
  · by_cases hother : other = target
    · exact Or.inr (by rw [hother]; exact Option.map_eq_none_iff.mp hrename)
    · refine Or.inl ?_
      rw [hphase]
      rintro (hhand | ⟨_, _, hhand⟩)
      · cases hhand
        exact hother rfl
      · cases hhand
  · exact CheckpointPhase.Idle.not_inHand trivial

/-- Undisturbed, the file a call renames is complete. -/
theorem Coherent.installed (h : Coherent config disk₀ content first s published)
    {target : CheckpointTarget} {disk' : CheckpointDisk} (hphase : s.calls caller = .install target)
    (htarget : target ≠ .quantizer) (halone : s.Undisturbed caller)
    (hrename : s.shared.disk.rename (.temporary target.name) (.final target.name) = some disk') :
    disk'.read (.final target.name) = some (content target) := by
  obtain ⟨file, hentry, -⟩ := Disk.rename_eq_some.mp hrename
  obtain ⟨writer, written, hwriter, hagree⟩ := h.drafts target file htarget hentry
    ⟨caller, Or.inl hphase⟩
  rw [Undisturbed, hphase] at halone
  have hdone : written = (content target).length := by
    rcases hwriter with hwriting | ⟨-, hdone⟩
    · rcases eq_or_eq_not writer caller with rfl | rfl
      · rw [hphase] at hwriting
        cases hwriting
      · exact absurd rfl (halone htarget target file written hwriting)
    · exact hdone
  rw [hdone] at hagree
  rw [Disk.read, Disk.file_rename_target hrename, Disk.file, hentry, Option.map_some,
    Option.map_some, hagree.eq]

theorem read_rename {disk disk' : CheckpointDisk} {target name : CheckpointName}
    (hrename : disk.rename (.temporary target) (.final target) = some disk') (hname : name ≠ target) :
    disk'.read (.final name) = disk.read (.final name) := by
  rw [Disk.read, Disk.read, Disk.file_rename_of_ne hrename (CheckpointPath.final_ne_temporary _ _)
    fun heq => hname (CheckpointPath.final.inj heq)]

section Install

variable {target : CheckpointTarget} {disk' : CheckpointDisk}
  (h : Coherent config disk₀ content first s published) (hphase : s.calls caller = .install target)
  (hrename : s.shared.disk.rename (.temporary target.name) (.final target.name) = some disk')
include h hphase hrename

/-- The drafts of the other call stay. -/
theorem Coherent.drafts_rename (hnot : ∀ other, ¬phase'.InHand other) :
    Drafts content (s.moved caller { s.shared with disk := disk' } phase') := by
  refine h.drafts_moved hnot fun other file hother hentry => ?_
  have hname : other.name ≠ target.name := by
    intro heq
    change disk'.entry _ = _ at hentry
    rw [heq, Disk.entry_rename_source hrename (CheckpointPath.final_ne_temporary _ _).symm] at hentry
    cases hentry
  refine ⟨?_, congrFun (Disk.bytes_rename hrename).1 file, ?_⟩
  · rwa [← Disk.entry_rename_of_ne hrename (CheckpointPath.temporary_ne hname)
      (CheckpointPath.final_ne_temporary _ _).symm]
  · rw [hphase]
    rintro (hhand | ⟨_, _, hhand⟩)
    · cases hhand
      exact hname rfl
    · cases hhand

/-- What the other call knows stays true. -/
theorem Coherent.other_rename {published' : Nat} (halone : s.Undisturbed caller)
    (hle : published ≤ published') (hbound : published' ≤ published ∨ published' ≤ s.generation + 1) :
    CallHolds content first (s.moved caller { s.shared with disk := disk' } phase') published'
      (!caller) (s.calls !caller) := by
  refine (h.calls !caller).frame rfl ?_ hle ?_ ?_ ?_
  · rw [Bool.not_not, hphase]
    exact False.elim
  · intro generation hchosen hpublished
    have hne : generation ≠ s.generation := fun heq => by
      have hpast := hchosen.past heq
      rw [Bool.not_not, hphase] at hpast
      exact hpast
    have := hchosen.ge
    omega
  · intro other generation hgeneration _ hmanifest hother
    by_cases heq : other.name = target.name
    · have htarget : target ≠ .quantizer := fun hquantizer =>
        name_ne_of_generation hgeneration (heq.trans (congrArg CheckpointTarget.name hquantizer))
      have hsame : other = target := by
        cases other <;> cases target <;> simp_all [CheckpointTarget.name]
      rw [hsame]
      exact h.installed hphase htarget halone hrename
    · exact (read_rename hrename heq).trans hother
  · intro other file written hwriting hstream
    refine hstream.rename hrename fun hquantizer => ?_
    rw [Undisturbed, hphase] at halone
    exact halone (fun heq => hquantizer (congrArg CheckpointTarget.name heq)) other file written
      hwriting

end Install

theorem coherent_install (h : Coherent config disk₀ content first s published)
    {target : CheckpointTarget} {disk' : CheckpointDisk} (hphase : s.calls caller = .install target)
    (halone : s.Undisturbed caller)
    (hrename : s.shared.disk.rename (.temporary target.name) (.final target.name) = some disk') :
    ∃ published', Coherent config disk₀ content first
      (s.moved caller { s.shared with disk := disk' } target.next) published' := by
  have hcall := h.calls caller
  rw [hphase] at hcall
  have hkept : ∀ name, name ≠ target.name →
      disk'.read (.final name) = s.shared.disk.read (.final name) :=
    fun _ hname => read_rename hrename hname
  have hdrafts : Drafts content (s.moved caller { s.shared with disk := disk' } target.next) := by
    refine h.drafts_rename hphase hrename ?_
    cases target with
    | _ =>
        exact CheckpointPhase.Idle.not_inHand trivial
  have hother := fun published' => @Coherent.other_rename _ _ _ _ _ _ _ target.next _ _ h hphase
    hrename published' halone
  have hpast : (s.calls !caller).Past →
      ((s.moved caller { s.shared with disk := disk' } target.next).calls !caller).Past := by
    rw [moved_calls_other]
    exact id
  have hsound : disk'.Sound := h.sound.rename hrename (CheckpointPath.final_ne_temporary _ _).symm
  cases target with
  -- the quantizer file belongs to no generation
  | quantizer =>
      refine Coherent.moved hsound h.contents h.lt h.first_le h.le
        (h.intact.frame fun name hname => hkept name ?_) trivial
        (hother published (Nat.le_refl _) (Or.inl (Nat.le_refl _))) hdrafts
      simp only [List.mem_cons, List.not_mem_nil, or_false] at hname
      rcases hname with rfl | rfl | rfl
      all_goals nofun
  | listSizes generation =>
      have hname : (CheckpointTarget.listSizes generation).name ≠ .manifest := nofun
      obtain ⟨hchosen, hpublished, -⟩ := hcall generation rfl
      have hread := h.installed hphase nofun halone hrename
      refine Coherent.moved hsound h.contents h.lt h.first_le h.le
        (h.intact.install rfl hname hchosen.after hread hkept) ?_
        (hother published (Nat.le_refl _) (Or.inl (Nat.le_refl _))) hdrafts
      rintro _ ⟨⟩
      refine ⟨hchosen.frame rfl hpast, hpublished, fun other hmem => ?_⟩
      rw [List.mem_singleton.mp hmem]
      exact hread
  | postings generation =>
      have hname : (CheckpointTarget.postings generation).name ≠ .manifest := nofun
      obtain ⟨hchosen, hpublished, hearlier⟩ := hcall generation rfl
      have hread := h.installed hphase nofun halone hrename
      refine Coherent.moved hsound h.contents h.lt h.first_le h.le
        (h.intact.install rfl hname hchosen.after hread hkept) ?_
        (hother published (Nat.le_refl _) (Or.inl (Nat.le_refl _))) hdrafts
      rintro _ ⟨⟩
      refine ⟨hchosen.frame rfl hpast, hpublished, fun other hmem => ?_⟩
      rcases List.mem_cons.mp hmem with rfl | hmem
      · exact (hkept (.listSizes generation) nofun).trans
          (hearlier (.listSizes generation) List.mem_cons_self)
      · rw [List.mem_singleton.mp hmem]
        exact hread
  | manifest generation =>
      -- the manifest publishes: all earlier files of its generation are in place
      obtain ⟨hchosen, hpublished, hearlier⟩ := hcall generation rfl
      have hread := h.installed hphase nofun halone hrename
      refine Coherent.moved hsound h.contents h.lt h.first_le hchosen.le
        (Or.inr ⟨hchosen.after, hchosen.lt, fun other hmem => ?_⟩)
        ⟨hchosen.frame rfl hpast, Nat.le_refl _⟩
        (hother generation hpublished (Or.inr hchosen.le)) hdrafts
      rcases List.mem_cons.mp hmem with rfl | hmem
      · exact hread
      · have hearly : other ∈ (CheckpointTarget.manifest generation).earlier := hmem
        have hname := earlier_name hearly
        exact (hkept _ hname).trans (hearlier other hmem)

theorem coherent_choose (h : Coherent config disk₀ content first s published)
    (hphase : s.calls caller = .choose) :
    ∃ published', Coherent config disk₀ content first (s.moved caller s.shared
      (if (s.generation + 1) % 2 ^ 64 = 0 then .threw
        else .create (.listSizes ((s.generation + 1) % 2 ^ 64)))) published' := by
  have hlt := h.lt
  have hidle : ∀ target, ¬(s.calls caller).InHand target := by
    rw [hphase]
    exact CheckpointPhase.Idle.not_inHand trivial
  refine h.pass (fun target => Or.inl (hidle target)) ?_ (by rw [hphase]; exact False.elim) ?_
  · split
    all_goals
      exact CheckpointPhase.Idle.not_inHand trivial
  · split
    next => trivial
    next hzero =>
      have hmod : (s.generation + 1) % 2 ^ 64 = s.generation + 1 := by omega
      have hfirst := h.first_le
      rw [hmod]
      rintro _ ⟨⟩
      refine ⟨⟨Nat.lt_succ_of_le hfirst, by omega, Nat.le_succ _, Nat.le_refl _, fun heq => ?_⟩,
        h.le, nofun⟩
      exact absurd heq (Nat.succ_ne_self _)

theorem coherent_retire (h : Coherent config disk₀ content first s published) {generation : Nat}
    (hphase : s.calls caller = .retire generation) (halone : s.Undisturbed caller) :
    ∃ published', Coherent config disk₀ content first
      (s.moved caller s.shared (.store generation s.generation)) published' := by
  have hcall := h.calls caller
  rw [hphase] at hcall
  obtain ⟨hchosen, hpublished⟩ := hcall
  rw [Undisturbed, hphase] at halone
  have hge := hchosen.ge
  have hle := hchosen.le
  refine h.pass (fun target => Or.inl ?_) ?_ (by rw [hphase]; exact False.elim)
    ⟨hchosen.after, hchosen.lt, ?_, hpublished, Or.inl rfl⟩
  · rw [hphase]
    exact CheckpointPhase.Idle.not_inHand (by trivial) _
  · exact CheckpointPhase.Idle.not_inHand trivial
  · have hne : s.generation ≠ generation := halone
    omega

/-- What the other call knows when `checkpoint_generation_` is stored. -/
theorem Coherent.other_store (h : Coherent config disk₀ content first s published)
    {generation oldGeneration : Nat} (hphase : s.calls caller = .store generation oldGeneration)
    (hpast : phase'.Past) :
    CallHolds content first (s.moved caller (s.shared.setGeneration generation) phase') published
      (!caller) (s.calls !caller) := by
  have hcall := h.calls caller
  rw [hphase] at hcall
  obtain ⟨hafter, hlt, heq, hpublished, hold⟩ := hcall
  have hother := h.calls !caller
  have hnotPast : ¬(s.calls !!caller).Past := by
    rw [Bool.not_not, hphase]
    exact id
  have hpast' : ((s.moved caller (s.shared.setGeneration generation) phase').calls !!caller).Past := by
    rwa [Bool.not_not, moved_calls_self]
  have hmono : s.generation ≤ generation := by omega
  -- a generation the other call has not stored is the one stored now
  have hchosen : ∀ generation', ¬(s.calls !caller).Past → Chosen first s (!caller) generation' →
      Chosen first (s.moved caller (s.shared.setGeneration generation) phase') (!caller)
        generation' := by
    intro generation' hnot hchosen
    have hne : generation' ≠ s.generation := fun heq => hnotPast (hchosen.past heq)
    have hstored := hold.resolve_right fun hstored => hnot hstored.2
    have hge := hchosen.ge
    have hle := hchosen.le
    have hsame : generation' = generation := by omega
    exact ⟨hchosen.after, hchosen.lt, Nat.le_of_eq hsame.symm,
      Nat.le_of_lt (hsame ▸ Nat.lt_succ_self _), fun _ => hpast'⟩
  have hwaiting : ∀ target, ¬(s.calls !caller).Past →
      Waiting content first s published (!caller) target →
      Waiting content first (s.moved caller (s.shared.setGeneration generation) phase') published
        (!caller) target := fun target hnot hwait generation' hgeneration' =>
    have ⟨hc, hp, he⟩ := hwait generation' hgeneration'
    ⟨hchosen generation' hnot hc, hp, he⟩
  generalize hphase' : s.calls (!caller) = phase at hother hchosen hwaiting hold
  cases phase with
  | create target => exact hwaiting target id hother
  | install target => exact hwaiting target id hother
  | writing target file written => exact ⟨hwaiting target id hother.1, hother.2⟩
  | retire generation' => exact ⟨hchosen _ id hother.1, hother.2⟩
  | store generation' oldGeneration' =>
      obtain ⟨hafter', hlt', heq', hpublished', hold'⟩ := hother
      have hstored := hold.resolve_right fun hstored => hstored.2
      have hstored' := hold'.resolve_right fun hstored' => hnotPast hstored'.2
      exact ⟨hafter', hlt', heq', hpublished', Or.inr ⟨show generation = generation' by omega, hpast'⟩⟩
  | removeSizes oldGeneration' =>
      exact ⟨Nat.lt_of_lt_of_le hother.1 hmono, hother.2⟩
  | removePostings oldGeneration' =>
      exact ⟨Nat.lt_of_lt_of_le hother.1 hmono, hother.2⟩
  | returned => exact hother
  | choose => trivial
  | threw => trivial

theorem coherent_store (h : Coherent config disk₀ content first s published)
    {generation oldGeneration : Nat} (hphase : s.calls caller = .store generation oldGeneration) :
    ∃ published', Coherent config disk₀ content first (s.moved caller
      (s.shared.setGeneration generation)
      (if oldGeneration = 0 then .returned else .removeSizes oldGeneration)) published' := by
  have hcall := h.calls caller
  rw [hphase] at hcall
  obtain ⟨hafter, hlt, heq, hpublished, hold⟩ := hcall
  have hle := h.le
  refine Coherent.moved h.sound
    (fun target => (contents_setGeneration s.shared generation target).trans (h.contents target))
    hlt (Nat.le_of_lt hafter) ?_ h.intact ?_ (h.other_store hphase ?_) ?_
  · change published ≤ generation + 1
    omega
  · split
    · exact Nat.lt_of_lt_of_le hafter hpublished
    · refine ⟨?_, by omega, Nat.lt_of_lt_of_le hafter hpublished⟩
      change oldGeneration < generation
      omega
  · split
    all_goals trivial
  · refine h.drafts_moved ?_ fun target file _ hentry => ⟨hentry, rfl, ?_⟩
    · split
      all_goals
        exact CheckpointPhase.Idle.not_inHand trivial
    · rw [hphase]
      exact CheckpointPhase.Idle.not_inHand (by trivial) _

/-- A removal of files of a generation that is neither published nor to be. -/
theorem coherent_unlink (h : Coherent config disk₀ content first s published) {name : CheckpointName}
    {oldGeneration : Nat} (hname : name = .listSizes oldGeneration ∨ name = .postings oldGeneration)
    (hold : oldGeneration < s.generation) (hpublished : oldGeneration < published)
    (hidle : ∀ target, ¬(s.calls caller).InHand target) (hnot : ∀ target, ¬phase'.InHand target)
    (hpast : phase'.Past)
    (hown : CallHolds content first
      (s.moved caller { s.shared with disk := s.shared.disk.unlink (.final name) } phase') published
      caller phase') :
    ∃ published', Coherent config disk₀ content first (s.moved caller
      { s.shared with disk := s.shared.disk.unlink (.final name) } phase') published' := by
  have hread : ∀ other, other ≠ name →
      (s.shared.disk.unlink (.final name)).read (.final other) = s.shared.disk.read (.final other) :=
    fun other hother => by
      rw [Disk.read, Disk.read,
        Disk.file_unlink_of_ne fun heq => hother (CheckpointPath.final.inj heq)]
  refine Coherent.moved (h.sound.unlink _) h.contents h.lt h.first_le h.le
    (h.intact.frame fun other hother => hread other ?_) hown ?_ ?_
  · rintro rfl
    simp only [List.mem_cons, List.not_mem_nil, or_false] at hother
    rcases hname with rfl | rfl
    · simp only [reduceCtorEq, CheckpointName.listSizes.injEq, false_or, or_false] at hother
      omega
    · simp only [reduceCtorEq, CheckpointName.postings.injEq, false_or] at hother
      omega
  · refine (h.calls !caller).frame rfl ?_ (Nat.le_refl _) (fun _ _ h => h) ?_
      (fun _ _ _ _ hstream => hstream.unlink name)
    · rw [Bool.not_not, moved_calls_self]
      exact fun _ => hpast
    · intro target generation hgeneration hge _ htarget
      refine (hread _ ?_).trans htarget
      rintro rfl
      cases target with
      | quantizer => cases hgeneration
      | _ =>
          cases hgeneration
          simp only [CheckpointTarget.name, reduceCtorEq, CheckpointName.listSizes.injEq,
            CheckpointName.postings.injEq, false_or, or_false] at hname
          try omega
  · refine h.drafts_moved hnot fun target file _ hentry => ⟨?_, rfl, hidle target⟩
    exact Disk.entry_unlink_eq_some hentry

/-- One undisturbed step keeps the invariant. -/
theorem Coherent.step (h : Coherent config disk₀ content first s published)
    (halone : s.Undisturbed caller) (numbers : Bool → Nat) (chunk : Nat) :
    ∃ published', Coherent config disk₀ content first (s.step config numbers caller chunk)
      published' := by
  have hcall := h.calls caller
  change ∃ published', Coherent config disk₀ content first
    (s.moved caller ((s.calls caller).advance config (numbers caller) chunk s.shared).1
      ((s.calls caller).advance config (numbers caller) chunk s.shared).2) published'
  cases hphase : s.calls caller with
  | create target => exact coherent_create h hphase (numbers caller)
  | writing target file written =>
      rw [CheckpointPhase.advance, h.contents target]
      dsimp only
      split
      next hdone => exact coherent_close h hphase hdone
      next => exact coherent_write h hphase chunk
  | install target =>
      rw [CheckpointPhase.advance]
      cases hrename : s.shared.disk.rename (.temporary target.name) (.final target.name) with
      | none => exact coherent_missing h hphase hrename
      | some disk' => exact coherent_install h hphase halone hrename
  | choose =>
      have hchosen := coherent_choose h hphase
      rw [CheckpointPhase.advance]
      -- the counter wraps to zero, which the call skips
      unfold generation at hchosen
      split at hchosen
      next hzero => rw [if_pos hzero]; exact hchosen
      next hzero => rw [if_neg hzero]; exact hchosen
  | retire generation => exact coherent_retire h hphase halone
  | store generation oldGeneration => exact coherent_store h hphase
  | removeSizes oldGeneration =>
      rw [hphase] at hcall
      refine coherent_unlink h (Or.inl rfl) hcall.1 hcall.2.1 ?_ ?_ trivial hcall
      · rw [hphase]
        exact CheckpointPhase.Idle.not_inHand trivial
      · exact CheckpointPhase.Idle.not_inHand trivial
  | removePostings oldGeneration =>
      rw [hphase] at hcall
      refine coherent_unlink h (Or.inr rfl) hcall.1 hcall.2.1 ?_ ?_ trivial hcall.2.2
      · rw [hphase]
        exact CheckpointPhase.Idle.not_inHand trivial
      · exact CheckpointPhase.Idle.not_inHand trivial
  | returned =>
      rw [hphase] at hcall
      refine h.pass (fun other => Or.inl ?_) ?_ (fun _ => trivial) hcall
      · rw [hphase]
        exact CheckpointPhase.Idle.not_inHand (by trivial) _
      · exact CheckpointPhase.Idle.not_inHand trivial
  | threw =>
      refine h.pass (fun other => Or.inl ?_) ?_ (by rw [hphase]; exact id) trivial
      · rw [hphase]
        exact CheckpointPhase.Idle.not_inHand (by trivial) _
      · exact CheckpointPhase.Idle.not_inHand trivial

end Step

end ConcurrentCheckpoints

end Recast
