import Recast.Foundation.Slice
import Recast.Foundation.LittleEndian
import Recast.Foundation.Except

/-!
# Files and errors

The part of POSIX the adapters rely on, for a file that is a list of bytes,
and the exceptions they throw. Which system call fails is left to an oracle.
-/

namespace Recast

open Foundation

abbrev Bytes := List UInt8

/-- The largest `uint32_t`. -/
def uint32Max : Nat := 2 ^ 32 - 1

/-- The largest `size_t`. -/
def sizeMax : Nat := 2 ^ 64 - 1

/-- The largest `off_t`: no byte of a file lies at or beyond it. -/
def offMax : Nat := 2 ^ 63 - 1

/-- The exceptions of the adapters, each with its text. `system` is what
`system_error` throws when a system call reports an error. -/
inductive Error where
  | invalidArgument (message : String)
  | outOfRange (message : String)
  | overflow (message : String)
  | logic (message : String)
  | runtime (message : String)
  | system (operation : String)
  deriving DecidableEq, Repr

/-- Whether the environment, not the code's own checks, caused the exception. -/
def Error.isSystem : Error → Bool
  | .system _ => true
  | _ => false

/-- The system calls that can fail in an update, named by the file they work
on. `finish` covers the closing `ftruncate` and the optional `fdatasync`. -/
inductive IoCall where
  | openRecords (listNo : Nat)
  | truncateRecords (listNo : Nat)
  | readRecords (listNo page : Nat)
  | writeRecords (listNo page : Nat)
  | finishRecords (listNo : Nat)
  | openDirectory
  | readDirectory (page : Nat)
  | writeDirectory (page : Nat)
  | finishDirectory
  deriving DecidableEq, Repr

/-- An environment: the calls that fail during one operation. -/
abbrev IoFaults := IoCall → Bool

/-- The environment in which every system call succeeds. -/
def IoFaults.none : IoFaults := fun _ => false

@[simp] theorem IoFaults.none_apply (call : IoCall) : IoFaults.none call = false := rfl

/-- Raise the error of `operation` when the environment fails `call`. -/
def attempt (faults : IoFaults) (call : IoCall) (operation : String) : Except Error Unit :=
  if faults call then .error (.system operation) else .ok ()

theorem attempt_eq_ok {faults : IoFaults} {call : IoCall} {operation : String} {u : Unit} :
    attempt faults call operation = .ok u ↔ faults call = false := by
  cases h : faults call with
  | false => simp [attempt, h]
  | true => simp [attempt, h]

@[simp] theorem attempt_none (call : IoCall) (operation : String) :
    attempt IoFaults.none call operation = .ok () := rfl

/-- `pread_exact`: exactly `count` bytes at `offset`, or the end of the file. -/
def preadExact (file : Bytes) (count offset : Nat) : Except Error Bytes :=
  if offset + count ≤ file.length then .ok (slice file offset count)
  else .error (.runtime "unexpected end of external file")

/-- `pwrite_exact`. The bytes between the old end and `offset` read as zero,
and no write reaches past the largest offset. -/
def pwriteExact (file buffer : Bytes) (offset : Nat) : Except Error Bytes :=
  if offMax < offset + buffer.length then .error (.system "pwrite")
  else .ok (overwrite 0 file offset buffer)

/-- `ftruncate`: cut the file, or extend it with zeros. -/
def ftruncate (file : Bytes) (size : Nat) : Bytes :=
  file.take size ++ List.replicate (size - file.length) 0

theorem preadExact_eq_ok {file bytes : Bytes} {count offset : Nat} :
    preadExact file count offset = .ok bytes ↔
      offset + count ≤ file.length ∧ bytes = slice file offset count := by
  rw [preadExact]
  split
  next h => simp [h, eq_comm]
  next h => simp [h]

theorem pwriteExact_eq_ok {file file' buffer : Bytes} {offset : Nat} :
    pwriteExact file buffer offset = .ok file' ↔
      offset + buffer.length ≤ offMax ∧ file' = overwrite 0 file offset buffer := by
  rw [pwriteExact]
  split
  next h => simp [Nat.not_le.mpr h]
  next h => simp [Nat.not_lt.mp h, eq_comm]

theorem preadExact_of_le {file : Bytes} {count offset : Nat}
    (h : offset + count ≤ file.length) :
    preadExact file count offset = .ok (slice file offset count) := if_pos h

theorem ftruncate_of_le {file : Bytes} {size : Nat} (h : size ≤ file.length) :
    ftruncate file size = file.take size := by
  have hzero : size - file.length = 0 := by omega
  rw [ftruncate, hzero, List.replicate_zero, List.append_nil]

theorem ftruncate_length (file : Bytes) : ftruncate file file.length = file := by
  rw [ftruncate_of_le (Nat.le_refl _), List.take_length]

/-- `page_count`: the pages that hold `rows` rows. -/
def pageCount (rows rowsPerPage : Nat) : Nat :=
  if rows = 0 then 0 else 1 + (rows - 1) / rowsPerPage

@[simp] theorem pageCount_zero (rowsPerPage : Nat) : pageCount 0 rowsPerPage = 0 := rfl

/-- The page count is the least number of pages with room for the rows. -/
theorem pageCount_le_iff {rows rowsPerPage pages : Nat} (hpos : 0 < rowsPerPage) :
    pageCount rows rowsPerPage ≤ pages ↔ rows ≤ pages * rowsPerPage := by
  unfold pageCount
  split
  next h => simp [h]
  next h =>
    have hdiv : (rows - 1) / rowsPerPage < pages ↔ rows - 1 < pages * rowsPerPage :=
      Nat.div_lt_iff_lt_mul hpos
    omega

theorem lt_pageCount_iff {rows rowsPerPage page : Nat} (hpos : 0 < rowsPerPage) :
    page < pageCount rows rowsPerPage ↔ page * rowsPerPage < rows := by
  have := @pageCount_le_iff rows rowsPerPage page hpos
  omega

theorem pageCount_mono {rows rows' rowsPerPage : Nat} (hpos : 0 < rowsPerPage)
    (h : rows ≤ rows') : pageCount rows rowsPerPage ≤ pageCount rows' rowsPerPage := by
  rw [pageCount_le_iff hpos]
  exact Nat.le_trans h ((pageCount_le_iff hpos).mp (Nat.le_refl _))

theorem div_lt_pageCount {row rows rowsPerPage : Nat} (hpos : 0 < rowsPerPage)
    (h : row < rows) : row / rowsPerPage < pageCount rows rowsPerPage := by
  rw [lt_pageCount_iff hpos]
  exact Nat.lt_of_le_of_lt (Nat.div_mul_le_self row rowsPerPage) h

theorem div_le_pageCount {rows rowsPerPage : Nat} (hpos : 0 < rowsPerPage) :
    rows / rowsPerPage ≤ pageCount rows rowsPerPage := by
  rw [Nat.div_le_iff_le_mul_add_pred hpos]
  have := (@pageCount_le_iff rows rowsPerPage _ hpos).mp (Nat.le_refl _)
  rw [Nat.mul_comm] at this
  omega

end Recast
