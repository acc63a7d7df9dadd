import Recast.Foundation.Slice

/-!
# A directory of files

Names bound to files of bytes. Opening truncates the file a name is bound to, a
rename moves a binding in one step, and a file keeps its bytes while nothing
names it. The stamp of a file says who truncated it last.
-/

namespace Foundation

universe u v

/-- A directory. Files are numbered, and those from `fresh` on are unused. -/
structure Disk (Name : Type u) (Stamp : Type v) where
  entry : Name → Option Nat
  bytes : Nat → List UInt8
  stamp : Nat → Stamp
  fresh : Nat

namespace Disk

variable {Name : Type u} {Stamp : Type v}

/-- Set the contents of an open file. -/
def setBytes (disk : Disk Name Stamp) (file : Nat) (bytes : List UInt8) : Disk Name Stamp :=
  { disk with bytes := Function.update disk.bytes file bytes }

/-- Write at an offset of an open file, whatever name it has by now. -/
def write (disk : Disk Name Stamp) (file offset : Nat) (data : List UInt8) : Disk Name Stamp :=
  disk.setBytes file (overwrite 0 (disk.bytes file) offset data)

/-- The contents and the stamp of the named file. -/
def file (disk : Disk Name Stamp) (name : Name) : Option (List UInt8 × Stamp) :=
  (disk.entry name).map fun file => (disk.bytes file, disk.stamp file)

/-- The contents of the named file. -/
def read (disk : Disk Name Stamp) (name : Name) : Option (List UInt8) :=
  (disk.file name).map Prod.fst

/-- A file has at most one name, and no name is bound to an unused file. -/
structure Sound (disk : Disk Name Stamp) : Prop where
  injective : ∀ name name' file, disk.entry name = some file → disk.entry name' = some file →
    name = name'
  used : ∀ name file, disk.entry name = some file → file < disk.fresh

variable {disk : Disk Name Stamp} {name other : Name} {stamp : Stamp}

/-! ### Writing -/

@[simp] theorem entry_setBytes (number : Nat) (bytes : List UInt8) :
    (disk.setBytes number bytes).entry = disk.entry := rfl

@[simp] theorem entry_write (number offset : Nat) (data : List UInt8) :
    (disk.write number offset data).entry = disk.entry := rfl

@[simp] theorem stamp_write (number offset : Nat) (data : List UInt8) :
    (disk.write number offset data).stamp = disk.stamp := rfl

theorem bytes_write (number offset : Nat) (data : List UInt8) :
    (disk.write number offset data).bytes number =
      overwrite 0 (disk.bytes number) offset data :=
  Function.update_self _ _ _

theorem bytes_write_of_ne {number number' offset : Nat} {data : List UInt8}
    (h : number' ≠ number) : (disk.write number offset data).bytes number' = disk.bytes number' :=
  Function.update_of_ne h _ _

theorem Sound.setBytes (hsound : disk.Sound) (number : Nat) (bytes : List UInt8) :
    (disk.setBytes number bytes).Sound :=
  ⟨hsound.injective, hsound.used⟩

theorem Sound.write (hsound : disk.Sound) (number offset : Nat) (data : List UInt8) :
    (disk.write number offset data).Sound :=
  hsound.setBytes number _

theorem file_setBytes_of_ne {number : Nat} {bytes : List UInt8}
    (h : disk.entry name ≠ some number) : (disk.setBytes number bytes).file name = disk.file name := by
  rw [file, file, entry_setBytes]
  cases hentry : disk.entry name with
  | none => rfl
  | some number' =>
      have hne : number' ≠ number := fun heq => h (heq ▸ hentry)
      rw [Option.map_some, Option.map_some]
      exact congrArg some (Prod.ext (Function.update_of_ne hne _ _) rfl)

variable [DecidableEq Name]

/-- Create the named file, or truncate it. -/
def openTruncated (disk : Disk Name Stamp) (name : Name) (stamp : Stamp) :
    Disk Name Stamp × Nat :=
  match disk.entry name with
  | some file => ({ disk with
      bytes := Function.update disk.bytes file []
      stamp := Function.update disk.stamp file stamp }, file)
  | none => ({
      entry := Function.update disk.entry name (some disk.fresh)
      bytes := Function.update disk.bytes disk.fresh []
      stamp := Function.update disk.stamp disk.fresh stamp
      fresh := disk.fresh + 1 }, disk.fresh)

/-- Bind `target` to the file of `source`, atomically. -/
def rename (disk : Disk Name Stamp) (source target : Name) : Option (Disk Name Stamp) :=
  (disk.entry source).map fun file => { disk with
    entry := Function.update (Function.update disk.entry source none) target (some file) }

def unlink (disk : Disk Name Stamp) (name : Name) : Disk Name Stamp :=
  { disk with entry := Function.update disk.entry name none }

/-! ### Opening -/

theorem entry_openTruncated : (disk.openTruncated name stamp).1.entry name =
    some (disk.openTruncated name stamp).2 := by
  unfold openTruncated
  split
  next file h => exact h
  next => exact Function.update_self _ _ _

theorem entry_openTruncated_of_ne (h : other ≠ name) :
    (disk.openTruncated name stamp).1.entry other = disk.entry other := by
  unfold openTruncated
  split
  next => rfl
  next => exact Function.update_of_ne h _ _

theorem bytes_openTruncated :
    (disk.openTruncated name stamp).1.bytes (disk.openTruncated name stamp).2 = [] := by
  unfold openTruncated
  split
  all_goals exact Function.update_self _ _ _

theorem stamp_openTruncated :
    (disk.openTruncated name stamp).1.stamp (disk.openTruncated name stamp).2 = stamp := by
  unfold openTruncated
  split
  all_goals exact Function.update_self _ _ _

theorem bytes_openTruncated_of_ne {number : Nat}
    (h : number ≠ (disk.openTruncated name stamp).2) :
    (disk.openTruncated name stamp).1.bytes number = disk.bytes number ∧
      (disk.openTruncated name stamp).1.stamp number = disk.stamp number := by
  unfold openTruncated at h ⊢
  split
  next file hentry =>
    rw [hentry] at h
    exact ⟨Function.update_of_ne h _ _, Function.update_of_ne h _ _⟩
  next hentry =>
    rw [hentry] at h
    exact ⟨Function.update_of_ne h _ _, Function.update_of_ne h _ _⟩

/-- The opened file is the one the name had, or an unused one. -/
theorem openTruncated_file : disk.entry name = some (disk.openTruncated name stamp).2 ∨
    disk.entry name = none ∧ (disk.openTruncated name stamp).2 = disk.fresh := by
  unfold openTruncated
  split
  next file h => exact Or.inl h
  next h => exact Or.inr ⟨h, rfl⟩

/-- Another name is not bound to the opened file. -/
theorem Sound.openTruncated_ne (hsound : disk.Sound) (h : other ≠ name) {number : Nat}
    (hentry : disk.entry other = some number) :
    number ≠ (disk.openTruncated name stamp).2 := by
  rintro rfl
  have hfile : disk.entry name = some (disk.openTruncated name stamp).2 ∨ disk.entry name = none ∧
      (disk.openTruncated name stamp).2 = disk.fresh := openTruncated_file
  rcases hfile with hopened | ⟨-, hfresh⟩
  · exact h (hsound.injective _ _ _ hentry hopened)
  · exact Nat.lt_irrefl _ (hfresh ▸ hsound.used _ _ hentry)

theorem fresh_le_openTruncated : disk.fresh ≤ (disk.openTruncated name stamp).1.fresh := by
  unfold openTruncated
  split
  next => exact Nat.le_refl _
  next => exact Nat.le_succ _

theorem Sound.openTruncated (hsound : disk.Sound) : (disk.openTruncated name stamp).1.Sound := by
  have hopened : (disk.openTruncated name stamp).2 < (disk.openTruncated name stamp).1.fresh := by
    unfold Disk.openTruncated
    split
    next file h => exact hsound.used _ _ h
    next => exact Nat.lt_succ_self _
  constructor
  case injective =>
    intro first second number hfirst hsecond
    by_cases h₁ : first = name
    · by_cases h₂ : second = name
      · rw [h₁, h₂]
      · rw [entry_openTruncated_of_ne h₂] at hsecond
        rw [h₁, entry_openTruncated, Option.some_inj] at hfirst
        exact absurd hfirst.symm (hsound.openTruncated_ne h₂ hsecond)
    · rw [entry_openTruncated_of_ne h₁] at hfirst
      by_cases h₂ : second = name
      · rw [h₂, entry_openTruncated, Option.some_inj] at hsecond
        exact absurd hsecond.symm (hsound.openTruncated_ne h₁ hfirst)
      · rw [entry_openTruncated_of_ne h₂] at hsecond
        exact hsound.injective _ _ _ hfirst hsecond
  case used =>
    intro first number hfirst
    by_cases h : first = name
    · rw [h, entry_openTruncated, Option.some_inj] at hfirst
      exact hfirst ▸ hopened
    · rw [entry_openTruncated_of_ne h] at hfirst
      exact Nat.lt_of_lt_of_le (hsound.used _ _ hfirst) fresh_le_openTruncated

theorem Sound.file_openTruncated_of_ne (hsound : disk.Sound) (h : other ≠ name) :
    (disk.openTruncated name stamp).1.file other = disk.file other := by
  rw [file, file, entry_openTruncated_of_ne h]
  cases hentry : disk.entry other with
  | none => rfl
  | some number =>
      have hne : number ≠ (disk.openTruncated name stamp).2 := hsound.openTruncated_ne h hentry
      have hsame := bytes_openTruncated_of_ne hne
      rw [Option.map_some, Option.map_some, hsame.1, hsame.2]

/-! ### Renaming -/

theorem rename_eq_some {source target : Name} {disk' : Disk Name Stamp} :
    disk.rename source target = some disk' ↔ ∃ number, disk.entry source = some number ∧
      disk' = { disk with
        entry := Function.update (Function.update disk.entry source none) target (some number) } := by
  rw [rename, Option.map_eq_some_iff]
  simp only [eq_comm]

section Rename

variable {source target : Name} {disk' : Disk Name Stamp} (hrename : disk.rename source target = some disk')
include hrename

theorem bytes_rename : disk'.bytes = disk.bytes ∧ disk'.stamp = disk.stamp := by
  obtain ⟨number, -, rfl⟩ := rename_eq_some.mp hrename
  exact ⟨rfl, rfl⟩

theorem entry_rename_target : disk'.entry target = disk.entry source := by
  obtain ⟨number, hsource, rfl⟩ := rename_eq_some.mp hrename
  rw [hsource]
  exact Function.update_self _ _ _

theorem entry_rename_of_ne (hsource : name ≠ source) (htarget : name ≠ target) :
    disk'.entry name = disk.entry name := by
  obtain ⟨number, -, rfl⟩ := rename_eq_some.mp hrename
  exact (Function.update_of_ne htarget _ _).trans (Function.update_of_ne hsource _ _)

theorem entry_rename_source (hne : source ≠ target) : disk'.entry source = none := by
  obtain ⟨number, -, rfl⟩ := rename_eq_some.mp hrename
  exact (Function.update_of_ne hne _ _).trans (Function.update_self _ _ _)

theorem file_rename_target : disk'.file target = disk.file source := by
  rw [file, file, entry_rename_target hrename, (bytes_rename hrename).1, (bytes_rename hrename).2]

theorem file_rename_of_ne (hsource : name ≠ source) (htarget : name ≠ target) :
    disk'.file name = disk.file name := by
  rw [file, file, entry_rename_of_ne hrename hsource htarget, (bytes_rename hrename).1,
    (bytes_rename hrename).2]

theorem fresh_rename : disk'.fresh = disk.fresh := by
  obtain ⟨number, -, rfl⟩ := rename_eq_some.mp hrename
  rfl

theorem Sound.rename (hsound : disk.Sound) (hne : source ≠ target) : disk'.Sound := by
  have hold : ∀ name number, name ≠ target → disk'.entry name = some number →
      disk.entry name = some number ∧ name ≠ source := by
    intro name number htarget hentry
    by_cases hsource : name = source
    · rw [hsource, entry_rename_source hrename hne] at hentry
      cases hentry
    · exact ⟨entry_rename_of_ne hrename hsource htarget ▸ hentry, hsource⟩
  constructor
  case injective =>
    intro first second number hfirst hsecond
    by_cases h₁ : first = target
    · by_cases h₂ : second = target
      · rw [h₁, h₂]
      · obtain ⟨hsecond, hother⟩ := hold _ _ h₂ hsecond
        rw [h₁, entry_rename_target hrename] at hfirst
        exact absurd (hsound.injective _ _ _ hsecond hfirst) hother
    · obtain ⟨hfirst, hother⟩ := hold _ _ h₁ hfirst
      by_cases h₂ : second = target
      · rw [h₂, entry_rename_target hrename] at hsecond
        exact absurd (hsound.injective _ _ _ hfirst hsecond) hother
      · exact hsound.injective _ _ _ hfirst (hold _ _ h₂ hsecond).1
  case used =>
    intro first number hfirst
    rw [fresh_rename hrename]
    by_cases h : first = target
    · rw [h, entry_rename_target hrename] at hfirst
      exact hsound.used _ _ hfirst
    · exact hsound.used _ _ (hold _ _ h hfirst).1

end Rename

/-! ### Unlinking -/

theorem entry_unlink : (disk.unlink name).entry name = none := Function.update_self _ _ _

theorem entry_unlink_of_ne (h : other ≠ name) : (disk.unlink name).entry other = disk.entry other :=
  Function.update_of_ne h _ _

theorem file_unlink_of_ne (h : other ≠ name) : (disk.unlink name).file other = disk.file other := by
  rw [file, file, entry_unlink_of_ne h]
  rfl

theorem entry_unlink_eq_some {number : Nat} (h : (disk.unlink name).entry other = some number) :
    disk.entry other = some number := by
  by_cases hname : other = name
  · rw [hname, entry_unlink] at h
    cases h
  · rwa [entry_unlink_of_ne hname] at h

theorem Sound.unlink (hsound : disk.Sound) (name : Name) : (disk.unlink name).Sound :=
  ⟨fun _ _ _ hfirst hsecond => hsound.injective _ _ _ (entry_unlink_eq_some hfirst)
      (entry_unlink_eq_some hsecond),
    fun _ _ hentry => hsound.used _ _ (entry_unlink_eq_some hentry)⟩

end Disk

end Foundation
