import Recast.Checkpoint.Publication
import Recast.Checkpoint.Reload

/-!
# Two checkpoint calls at once

`checkpoint` takes a shared lock, so two calls can run on one index. Both can
compute the same generation; then they share temporary names, and the later one
finds its own generation in `checkpoint_generation_` and removes the files its
manifest names. Runs in which neither happens keep the published files complete.
-/

namespace Recast

open Foundation

variable {config : CheckpointConfig}

/-- Two calls and what they share. -/
structure ConcurrentCheckpoints where
  shared : CheckpointShared
  calls : Bool → CheckpointPhase

namespace ConcurrentCheckpoints

/-- Both calls are about to write the quantizer. -/
def start (disk : CheckpointDisk) (index : Index) : ConcurrentCheckpoints :=
  ⟨⟨disk, index⟩, fun _ => .create .quantizer⟩

/-- One step of one of the calls. -/
def step (config : CheckpointConfig) (numbers : Bool → Nat) (caller : Bool) (chunk : Nat)
    (s : ConcurrentCheckpoints) : ConcurrentCheckpoints :=
  ⟨((s.calls caller).advance config (numbers caller) chunk s.shared).1,
    Function.update s.calls caller
      ((s.calls caller).advance config (numbers caller) chunk s.shared).2⟩

/-- `checkpoint_generation_`. -/
def generation (s : ConcurrentCheckpoints) : Nat := s.shared.index.checkpointGeneration

/-- The next step of the caller does not meet the other call: it renames no file
that the other has open, and it does not read its own generation as the old one. -/
def Undisturbed (s : ConcurrentCheckpoints) (caller : Bool) : Prop :=
  match s.calls caller with
  | .install target => target ≠ .quantizer → ∀ other file written,
      s.calls (!caller) = .writing other file written → other.name ≠ target.name
  | .retire generation => s.generation ≠ generation
  | _ => True

/-- The states of the runs from `first`. -/
inductive Run (config : CheckpointConfig) (numbers : Bool → Nat) (first : ConcurrentCheckpoints) :
    ConcurrentCheckpoints → Prop where
  | refl : Run config numbers first first
  | step {s : ConcurrentCheckpoints} (caller : Bool) (chunk : Nat) : Run config numbers first s →
      Run config numbers first (s.step config numbers caller chunk)

/-- The states of the runs from `first` in which no step meets the other call. -/
inductive UndisturbedRun (config : CheckpointConfig) (numbers : Bool → Nat)
    (first : ConcurrentCheckpoints) : ConcurrentCheckpoints → Prop where
  | refl : UndisturbedRun config numbers first first
  | step {s : ConcurrentCheckpoints} (caller : Bool) (chunk : Nat) :
      UndisturbedRun config numbers first s → s.Undisturbed caller →
      UndisturbedRun config numbers first (s.step config numbers caller chunk)

end ConcurrentCheckpoints

/-- The generation a target belongs to. -/
def CheckpointTarget.generation? : CheckpointTarget → Option Nat
  | .quantizer => none
  | .listSizes generation | .postings generation | .manifest generation => some generation

/-- The targets of the generation that a call installs before this one. -/
def CheckpointTarget.earlier : CheckpointTarget → List CheckpointTarget
  | .quantizer | .listSizes _ => []
  | .postings generation => [.listSizes generation]
  | .manifest generation => [.listSizes generation, .postings generation]

/-- The call has stored its generation. -/
def CheckpointPhase.Past : CheckpointPhase → Prop
  | .removeSizes _ | .removePostings _ | .returned => True
  | _ => False

/-- The call writes the target or is about to install it. -/
def CheckpointPhase.InHand (phase : CheckpointPhase) (target : CheckpointTarget) : Prop :=
  phase = .install target ∨ ∃ file written, phase = .writing target file written

/-- Only an open stream or a pending rename is in hand. -/
def CheckpointPhase.Idle : CheckpointPhase → Prop
  | .writing .. | .install _ => False
  | _ => True

theorem CheckpointPhase.Idle.not_inHand {phase : CheckpointPhase} (h : phase.Idle)
    (target : CheckpointTarget) : ¬phase.InHand target := by
  rintro (rfl | ⟨file, written, rfl⟩)
  · exact h
  · exact h

theorem CheckpointPath.final_ne_temporary (name other : CheckpointName) :
    CheckpointPath.final name ≠ .temporary other := nofun

theorem CheckpointPath.temporary_ne {name other : CheckpointName} (h : name ≠ other) :
    CheckpointPath.temporary name ≠ .temporary other := fun heq =>
  h (CheckpointPath.temporary.inj heq)

theorem CheckpointTarget.eq_of_name {target other : CheckpointTarget}
    (hname : other.name = target.name) (hgeneration : other.generation? = target.generation?) :
    other = target := by
  cases target <;> cases other <;> simp_all [CheckpointTarget.name, CheckpointTarget.generation?]

theorem CheckpointTarget.name_ne_quantizer {target : CheckpointTarget}
    (h : target ≠ .quantizer) : target.name ≠ .quantizer := by
  cases target with
  | quantizer => exact absurd rfl h
  | _ => nofun

theorem CheckpointTarget.exists_generation {target : CheckpointTarget}
    (h : target ≠ .quantizer) : ∃ generation, target.generation? = some generation := by
  cases target with
  | quantizer => exact absurd rfl h
  | _ => exact ⟨_, rfl⟩

/-- What a call writes does not depend on `checkpoint_generation_`. -/
theorem contents_setGeneration (shared : CheckpointShared) (generation : Nat)
    (target : CheckpointTarget) : target.contents config (shared.setGeneration generation).index =
      target.contents config shared.index := by
  cases target <;> rfl

/-! ### Drafts -/

/-- The first `written` bytes of the file are right, and nothing follows the
end. -/
structure Agreeing (file bytes : Bytes) (written : Nat) : Prop where
  written_le : written ≤ file.length
  same : ∀ i < written, file[i]? = bytes[i]?
  length_le : file.length ≤ bytes.length

theorem Agreeing.eq {file bytes : Bytes} (h : Agreeing file bytes bytes.length) : file = bytes := by
  apply List.ext_getElem?
  intro i
  by_cases hi : i < bytes.length
  · exact h.same i hi
  · have hlength := h.length_le
    rw [List.getElem?_eq_none (by omega), List.getElem?_eq_none (by omega)]

/-- Right bytes at another position do not disturb a draft, and those at its end
extend it. -/
theorem Agreeing.write {file bytes : Bytes} {written offset chunk : Nat}
    (h : Agreeing file bytes written) (hoffset : offset ≤ bytes.length) :
    Agreeing (overwrite 0 file offset (slice bytes offset chunk)) bytes written ∧
      (offset = written → Agreeing (overwrite 0 file offset (slice bytes offset chunk)) bytes
        (offset + (slice bytes offset chunk).length)) := by
  have hwritten := h.written_le
  have hle := h.length_le
  have hdata : (slice bytes offset chunk).length ≤ bytes.length - offset := by
    rw [length_slice]
    exact Nat.min_le_right _ _
  have hsame : ∀ i, i < written ∨ offset ≤ i ∧ i < offset + (slice bytes offset chunk).length →
      (overwrite 0 file offset (slice bytes offset chunk))[i]? = bytes[i]? := by
    intro i hi
    have hnew : offset ≤ i → i < offset + (slice bytes offset chunk).length →
        (slice bytes offset chunk)[i - offset]? = bytes[i]? := fun hge hlt => by
      rw [length_slice] at hlt
      rw [getElem?_slice, if_pos (by omega), Nat.add_sub_cancel' hge]
    have hold : i < written →
        (file ++ List.replicate (offset - file.length) 0)[i]? = bytes[i]? := fun hlt => by
      rw [List.getElem?_append_left (by omega), h.same i hlt]
    rw [overwrite, getElem?_splice (by rw [List.length_append, List.length_replicate]; omega)]
    split
    next hlt => exact hold (by omega)
    next hge =>
      split
      next hlt => exact hnew (by omega) hlt
      next hge' => exact hold (by omega)
  have hlength := length_overwrite 0 file offset (slice bytes offset chunk)
  exact ⟨⟨by omega, fun i hi => hsame i (Or.inl hi), by omega⟩,
    fun heq => ⟨by omega, fun i hi => hsame i (by omega), by omega⟩⟩

/-! ### The invariant of two calls -/

/-- What a stream knows about its file. Only a quantizer file can be renamed
while it is open. -/
structure Streaming (disk : CheckpointDisk) (content : CheckpointTarget → Bytes)
    (target : CheckpointTarget) (file written : Nat) : Prop where
  used : file < disk.fresh
  linked : ∀ path, disk.entry path = some file → path = .temporary target.name ∨
    target = .quantizer ∧ path = .final .quantizer
  bound : target ≠ .quantizer → disk.entry (.temporary target.name) = some file
  written_le : written ≤ (content target).length

/-- The manifest is the one of the beginning, or both its files are the
snapshot. -/
def Intact (disk₀ disk : CheckpointDisk) (content : CheckpointTarget → Bytes)
    (first published : Nat) : Prop :=
  published = first ∧ (∀ name ∈ [CheckpointName.manifest, .listSizes first, .postings first],
      disk.read (.final name) = disk₀.read (.final name)) ∨
    first < published ∧ published < 2 ^ 64 ∧
      ∀ target ∈ [CheckpointTarget.manifest published, .listSizes published, .postings published],
        disk.read (.final target.name) = some (content target)

/-- Reads of the final names decide whether the published files are intact. -/
theorem Intact.frame {disk₀ disk disk' : CheckpointDisk}
    {content : CheckpointTarget → Bytes} {first published : Nat}
    (h : Intact disk₀ disk content first published)
    (hread : ∀ name ∈ [CheckpointName.manifest, .listSizes published, .postings published],
      disk'.read (.final name) = disk.read (.final name)) :
    Intact disk₀ disk' content first published := by
  rcases h with ⟨rfl, hkept⟩ | ⟨hfirst, hlt, hfiles⟩
  · exact Or.inl ⟨rfl, fun name hname => (hread name hname).trans (hkept name hname)⟩
  · refine Or.inr ⟨hfirst, hlt, fun target htarget => (hread _ ?_).trans (hfiles target htarget)⟩
    simp only [List.mem_cons, List.not_mem_nil, or_false] at htarget ⊢
    rcases htarget with rfl | rfl | rfl
    · exact Or.inl rfl
    · exact Or.inr (Or.inl rfl)
    · exact Or.inr (Or.inr rfl)

/-- A name of the published generation is not one that a call installs before
its manifest. -/
theorem Intact.install {disk₀ disk disk' : CheckpointDisk} {content : CheckpointTarget → Bytes}
    {first published : Nat} {target : CheckpointTarget} {generation : Nat}
    (h : Intact disk₀ disk content first published) (hgeneration : target.generation? = some generation)
    (hname : target.name ≠ .manifest) (hafter : first < generation)
    (hread : disk'.read (.final target.name) = some (content target))
    (hkept : ∀ name, name ≠ target.name → disk'.read (.final name) = disk.read (.final name)) :
    Intact disk₀ disk' content first published := by
  rcases h with ⟨rfl, hold⟩ | ⟨hfirst, hlt, hfiles⟩
  · refine Or.inl ⟨rfl, fun name hmem => (hkept name ?_).trans (hold name hmem)⟩
    rintro rfl
    cases target with
    | quantizer => cases hgeneration
    | manifest _ => exact hname rfl
    | listSizes _ =>
        cases hgeneration
        simp only [CheckpointTarget.name, List.mem_cons, reduceCtorEq, CheckpointName.listSizes.injEq,
          List.not_mem_nil, or_false, false_or] at hmem
        exact absurd hmem (Nat.ne_of_gt hafter)
    | postings _ =>
        cases hgeneration
        simp only [CheckpointTarget.name, List.mem_cons, reduceCtorEq, CheckpointName.postings.injEq,
          List.not_mem_nil, or_false, false_or] at hmem
        exact absurd hmem (Nat.ne_of_gt hafter)
  · refine Or.inr ⟨hfirst, hlt, fun other hother => ?_⟩
    by_cases heq : other.name = target.name
    · have hsame : other = target := by
        cases target with
        | quantizer => cases hgeneration
        | manifest _ => exact absurd rfl hname
        | listSizes _ => cases other <;> simp_all [CheckpointTarget.name]
        | postings _ => cases other <;> simp_all [CheckpointTarget.name]
      rw [hsame, hread]
    · exact (hkept _ heq).trans (hfiles other hother)

/-! ### Streams under the steps of the other call -/

section Streams

variable {disk disk' : CheckpointDisk} {content : CheckpointTarget → Bytes}
  {target : CheckpointTarget} {file written : Nat} {name : CheckpointName}

theorem Streaming.openTruncated (h : Streaming disk content target file written) (number : Nat) :
    Streaming (disk.openTruncated (.temporary name) number).1 content target file written := by
  have hopened : disk.entry (.temporary name) =
      some (disk.openTruncated (.temporary name) number).2 ∨ disk.entry (.temporary name) = none ∧
        (disk.openTruncated (.temporary name) number).2 = disk.fresh := Disk.openTruncated_file
  refine ⟨Nat.lt_of_lt_of_le h.used Disk.fresh_le_openTruncated, fun path hpath => ?_,
    fun htarget => ?_, h.written_le⟩
  · by_cases heq : path = .temporary name
    · rw [heq, Disk.entry_openTruncated, Option.some_inj] at hpath
      rcases hopened with hopened | ⟨-, hfresh⟩
      · exact h.linked path (by rw [heq, hopened, hpath])
      · exact absurd h.used (Nat.not_lt.mpr (Nat.le_of_eq (hfresh.symm.trans hpath)))
    · exact h.linked path (Disk.entry_openTruncated_of_ne heq ▸ hpath)
  · have hbound := h.bound htarget
    by_cases heq : CheckpointPath.temporary target.name = .temporary name
    · rw [heq] at hbound ⊢
      rw [Disk.entry_openTruncated]
      rcases hopened with hopened | ⟨hnone, -⟩
      · exact hopened.symm.trans hbound
      · rw [hnone] at hbound
        cases hbound
    · rwa [Disk.entry_openTruncated_of_ne heq]

theorem Streaming.rename (h : Streaming disk content target file written)
    (hrename : disk.rename (.temporary name) (.final name) = some disk')
    (hapart : name ≠ .quantizer → target.name ≠ name) :
    Streaming disk' content target file written := by
  refine ⟨by rw [Disk.fresh_rename hrename]; exact h.used, fun path hpath => ?_, fun htarget => ?_,
    h.written_le⟩
  · by_cases hfinal : path = .final name
    · rw [hfinal, Disk.entry_rename_target hrename] at hpath
      rcases h.linked _ hpath with heq | ⟨-, heq⟩
      · cases heq
        have hquantizer : target.name = .quantizer := by
          by_contra hne
          exact hapart hne rfl
        refine Or.inr ⟨?_, by rw [hfinal, hquantizer]⟩
        by_contra hne
        exact CheckpointTarget.name_ne_quantizer hne hquantizer
      · cases heq
    · by_cases htemporary : path = .temporary name
      · rw [htemporary, Disk.entry_rename_source hrename (CheckpointPath.final_ne_temporary _ _).symm] at hpath
        cases hpath
      · exact h.linked path (Disk.entry_rename_of_ne hrename htemporary hfinal ▸ hpath)
  · have hne : CheckpointPath.temporary target.name ≠ .temporary name := by
      rintro ⟨⟩
      exact hapart (CheckpointTarget.name_ne_quantizer htarget) rfl
    rw [Disk.entry_rename_of_ne hrename hne nofun]
    exact h.bound htarget

theorem Streaming.unlink (h : Streaming disk content target file written) (name : CheckpointName) :
    Streaming (disk.unlink (.final name)) content target file written :=
  ⟨h.used, fun path hpath => h.linked path (Disk.entry_unlink_eq_some hpath),
    fun htarget => (Disk.entry_unlink_of_ne (CheckpointPath.final_ne_temporary _ _).symm).trans
      (h.bound htarget), h.written_le⟩

/-- A write to an open file leaves the final names alone, but for the
quantizer's. -/
theorem Streaming.read_write (h : Streaming disk content target file written) (offset : Nat)
    (data : Bytes) (hname : name ≠ .quantizer) :
    (disk.write file offset data).read (.final name) = disk.read (.final name) := by
  have hentry : disk.entry (.final name) ≠ some file := by
    intro hentry
    rcases h.linked _ hentry with heq | ⟨-, heq⟩
    · cases heq
    · cases heq
      exact hname rfl
  rw [Disk.read, Disk.read]
  exact congrArg _ (Disk.file_setBytes_of_ne hentry)

end Streams

namespace ConcurrentCheckpoints

/-- A generation the caller has computed and not stored. It is the stored one
only if the other call has stored it. -/
structure Chosen (first : Nat) (s : ConcurrentCheckpoints) (caller : Bool) (generation : Nat) :
    Prop where
  after : first < generation
  lt : generation < 2 ^ 64
  ge : s.generation ≤ generation
  le : generation ≤ s.generation + 1
  past : generation = s.generation → (s.calls !caller).Past

/-- The caller has installed what comes before the target. -/
def Waiting (content : CheckpointTarget → Bytes) (first : Nat) (s : ConcurrentCheckpoints)
    (published : Nat) (caller : Bool) (target : CheckpointTarget) : Prop :=
  ∀ generation, target.generation? = some generation → Chosen first s caller generation ∧
    published ≤ generation ∧
    ∀ other ∈ target.earlier, s.shared.disk.read (.final other.name) = some (content other)

/-- What holds while the caller is in a phase. -/
def CallHolds (content : CheckpointTarget → Bytes) (first : Nat) (s : ConcurrentCheckpoints)
    (published : Nat) (caller : Bool) : CheckpointPhase → Prop
  | .create target | .install target => Waiting content first s published caller target
  | .writing target file written => Waiting content first s published caller target ∧
      Streaming s.shared.disk content target file written
  | .retire generation => Chosen first s caller generation ∧ generation ≤ published
  | .store generation oldGeneration => first < generation ∧ generation < 2 ^ 64 ∧
      generation = oldGeneration + 1 ∧ generation ≤ published ∧
      (s.generation = oldGeneration ∨ s.generation = generation ∧ (s.calls !caller).Past)
  | .removeSizes oldGeneration | .removePostings oldGeneration =>
      oldGeneration < s.generation ∧ oldGeneration < published ∧ first < published
  | .returned => first < published
  | .choose | .threw => True

/-- Some call has written the temporary file since it was last truncated. -/
def Drafted (content : CheckpointTarget → Bytes) (s : ConcurrentCheckpoints)
    (target : CheckpointTarget) (file : Nat) : Prop :=
  ∃ caller written, (s.calls caller = .writing target file written ∨
      s.calls caller = .install target ∧ written = (content target).length) ∧
    Agreeing (s.shared.disk.bytes file) (content target) written

/-- Whatever a temporary name holds that a call will install is a draft. -/
def Drafts (content : CheckpointTarget → Bytes) (s : ConcurrentCheckpoints) : Prop :=
  ∀ target file, target ≠ .quantizer → s.shared.disk.entry (.temporary target.name) = some file →
    (∃ caller, (s.calls caller).InHand target) → Drafted content s target file

/-- The invariant of two calls on the index that `content` is a snapshot of. -/
structure Coherent (config : CheckpointConfig) (disk₀ : CheckpointDisk)
    (content : CheckpointTarget → Bytes) (first : Nat) (s : ConcurrentCheckpoints)
    (published : Nat) : Prop where
  sound : s.shared.disk.Sound
  contents : ∀ target : CheckpointTarget,
    target.contents config s.shared.index = .ok (content target)
  lt : s.generation < 2 ^ 64
  first_le : first ≤ s.generation
  le : published ≤ s.generation + 1
  intact : Intact disk₀ s.shared.disk content first published
  calls : ∀ caller, CallHolds content first s published caller (s.calls caller)
  drafts : Drafts content s

section Frame

variable {content : CheckpointTarget → Bytes} {first published published' : Nat}
  {s s' : ConcurrentCheckpoints} {caller : Bool} {phase : CheckpointPhase}

theorem earlier_generation {target other : CheckpointTarget} (h : other ∈ target.earlier) :
    other.generation? = target.generation? := by
  cases target with
  | quantizer => cases h
  | listSizes generation => cases h
  | postings generation =>
      rw [List.mem_singleton.mp h]
      rfl
  | manifest generation =>
      rcases List.mem_cons.mp h with rfl | h
      · rfl
      · rw [List.mem_singleton.mp h]
        rfl

theorem earlier_name {target other : CheckpointTarget} (h : other ∈ target.earlier) :
    other.name ≠ .manifest := by
  cases target with
  | quantizer => cases h
  | listSizes generation => cases h
  | postings generation =>
      rw [List.mem_singleton.mp h]
      nofun
  | manifest generation =>
      rcases List.mem_cons.mp h with rfl | h
      · nofun
      · rw [List.mem_singleton.mp h]
        nofun

theorem Chosen.frame {generation : Nat} (h : Chosen first s caller generation)
    (hgeneration : s'.generation = s.generation)
    (hpast : (s.calls !caller).Past → (s'.calls !caller).Past) :
    Chosen first s' caller generation :=
  ⟨h.after, h.lt, hgeneration ▸ h.ge, hgeneration ▸ h.le,
    fun heq => hpast (h.past (heq.trans hgeneration))⟩

/-- Two calls that have not stored their generations chose the same one. -/
theorem Chosen.unique {generation generation' : Nat} (h : Chosen first s caller generation)
    (h' : Chosen first s (!caller) generation') (hnot : ¬(s.calls caller).Past)
    (hnot' : ¬(s.calls !caller).Past) : generation = generation' := by
  have hne : generation ≠ s.generation := fun heq => hnot' (h.past heq)
  have hne' : generation' ≠ s.generation := fun heq => hnot (by
    have := h'.past heq
    rwa [Bool.not_not] at this)
  have := h.ge
  have := h.le
  have := h'.ge
  have := h'.le
  omega

theorem Waiting.frame {target : CheckpointTarget}
    (h : Waiting content first s published caller target)
    (hgeneration : s'.generation = s.generation)
    (hpast : (s.calls !caller).Past → (s'.calls !caller).Past)
    (hwait : ∀ generation, Chosen first s caller generation → published ≤ generation →
      published' ≤ generation)
    (hread : ∀ target generation, target.generation? = some generation →
      s.generation ≤ generation → target.name ≠ .manifest →
      s.shared.disk.read (.final target.name) = some (content target) →
      s'.shared.disk.read (.final target.name) = some (content target)) :
    Waiting content first s' published' caller target := by
  intro generation hgen
  obtain ⟨hchosen, hpublished, hearlier⟩ := h generation hgen
  exact ⟨hchosen.frame hgeneration hpast, hwait _ hchosen hpublished, fun other hother =>
    hread other generation ((earlier_generation hother).trans hgen) hchosen.ge
      (earlier_name hother) (hearlier other hother)⟩

/-- A step of the other call that keeps `checkpoint_generation_`. -/
theorem CallHolds.frame (h : CallHolds content first s published caller phase)
    (hgeneration : s'.generation = s.generation)
    (hpast : (s.calls !caller).Past → (s'.calls !caller).Past) (hle : published ≤ published')
    (hwait : ∀ generation, Chosen first s caller generation → published ≤ generation →
      published' ≤ generation)
    (hread : ∀ target generation, target.generation? = some generation →
      s.generation ≤ generation → target.name ≠ .manifest →
      s.shared.disk.read (.final target.name) = some (content target) →
      s'.shared.disk.read (.final target.name) = some (content target))
    (hstream : ∀ target file written, phase = .writing target file written →
      Streaming s.shared.disk content target file written →
      Streaming s'.shared.disk content target file written) :
    CallHolds content first s' published' caller phase := by
  cases phase with
  | create target => exact Waiting.frame h hgeneration hpast hwait hread
  | install target => exact Waiting.frame h hgeneration hpast hwait hread
  | writing target file written =>
      exact ⟨h.1.frame hgeneration hpast hwait hread, hstream _ _ _ rfl h.2⟩
  | retire generation => exact ⟨h.1.frame hgeneration hpast, Nat.le_trans h.2 hle⟩
  | store generation oldGeneration =>
      obtain ⟨hafter, hlt, heq, hpublished, hold⟩ := h
      refine ⟨hafter, hlt, heq, Nat.le_trans hpublished hle, ?_⟩
      rw [hgeneration]
      exact hold.imp_right fun hold => ⟨hold.1, hpast hold.2⟩
  | removeSizes oldGeneration =>
      exact ⟨hgeneration ▸ h.1, Nat.lt_of_lt_of_le h.2.1 hle, Nat.lt_of_lt_of_le h.2.2 hle⟩
  | removePostings oldGeneration =>
      exact ⟨hgeneration ▸ h.1, Nat.lt_of_lt_of_le h.2.1 hle, Nat.lt_of_lt_of_le h.2.2 hle⟩
  | returned => exact Nat.lt_of_lt_of_le h hle
  | choose => trivial
  | threw => trivial

end Frame

end ConcurrentCheckpoints

end Recast
