import Recast.Storage.RecordLaws
import Recast.Foundation.Logged
import Recast.Foundation.SortedGroups

/-!
# The calls of the record store

The update counters, and the record store with the system calls it issues. An
append and a deletion issue as many page reads and writes as their callers
predict from the sizes.
-/

namespace Recast

open Foundation

/-- The I/O counters of `ExternalListUpdateStats`. -/
@[ext] structure UpdateStats where
  recordPagesRead : Nat
  recordPagesWritten : Nat
  directoryPagesRead : Nat
  directoryPagesWritten : Nat
  openedRecordFiles : Nat
  deriving DecidableEq, Repr

namespace UpdateStats

instance : AddCommMonoid UpdateStats where
  zero := ⟨0, 0, 0, 0, 0⟩
  add s t := ⟨s.recordPagesRead + t.recordPagesRead, s.recordPagesWritten + t.recordPagesWritten,
    s.directoryPagesRead + t.directoryPagesRead, s.directoryPagesWritten + t.directoryPagesWritten,
    s.openedRecordFiles + t.openedRecordFiles⟩
  nsmul n s := ⟨n * s.recordPagesRead, n * s.recordPagesWritten, n * s.directoryPagesRead,
    n * s.directoryPagesWritten, n * s.openedRecordFiles⟩
  add_assoc _ _ _ := UpdateStats.ext (Nat.add_assoc ..) (Nat.add_assoc ..) (Nat.add_assoc ..)
    (Nat.add_assoc ..) (Nat.add_assoc ..)
  zero_add _ := UpdateStats.ext (Nat.zero_add _) (Nat.zero_add _) (Nat.zero_add _)
    (Nat.zero_add _) (Nat.zero_add _)
  add_zero _ := rfl
  add_comm _ _ := UpdateStats.ext (Nat.add_comm ..) (Nat.add_comm ..) (Nat.add_comm ..)
    (Nat.add_comm ..) (Nat.add_comm ..)
  nsmul_zero _ := UpdateStats.ext (Nat.zero_mul _) (Nat.zero_mul _) (Nat.zero_mul _)
    (Nat.zero_mul _) (Nat.zero_mul _)
  nsmul_succ _ _ := UpdateStats.ext (Nat.succ_mul ..) (Nat.succ_mul ..) (Nat.succ_mul ..)
    (Nat.succ_mul ..) (Nat.succ_mul ..)

@[simp] theorem mk_add_mk (a b c d e a' b' c' d' e' : Nat) :
    UpdateStats.mk a b c d e + ⟨a', b', c', d', e'⟩ = ⟨a + a', b + b', c + c', d + d', e + e'⟩ := rfl

@[simp] theorem nsmul_mk (n a b c d e : Nat) :
    n • UpdateStats.mk a b c d e = ⟨n * a, n * b, n * c, n * d, n * e⟩ := rfl

theorem zero_def : (0 : UpdateStats) = ⟨0, 0, 0, 0, 0⟩ := rfl

end UpdateStats

namespace IoCall

def isRecordRead : IoCall → Bool
  | readRecords _ _ => true
  | _ => false

def isRecordWrite : IoCall → Bool
  | writeRecords _ _ => true
  | _ => false

def isDirectoryRead : IoCall → Bool
  | readDirectory _ => true
  | _ => false

def isDirectoryWrite : IoCall → Bool
  | writeDirectory _ => true
  | _ => false

def isRecordOpen : IoCall → Bool
  | openRecords _ => true
  | _ => false

/-- What one call should add to the counters. -/
def counts : IoCall → UpdateStats
  | readRecords _ _ => ⟨1, 0, 0, 0, 0⟩
  | writeRecords _ _ => ⟨0, 1, 0, 0, 0⟩
  | readDirectory _ => ⟨0, 0, 1, 0, 0⟩
  | writeDirectory _ => ⟨0, 0, 0, 1, 0⟩
  | openRecords _ => ⟨0, 0, 0, 0, 1⟩
  | truncateRecords _ | finishRecords _ | openDirectory | finishDirectory => 0

end IoCall

/-- The page reads, page writes and list-file opens among some calls. -/
def UpdateStats.ofCalls (calls : List IoCall) : UpdateStats where
  recordPagesRead := calls.countP IoCall.isRecordRead
  recordPagesWritten := calls.countP IoCall.isRecordWrite
  directoryPagesRead := calls.countP IoCall.isDirectoryRead
  directoryPagesWritten := calls.countP IoCall.isDirectoryWrite
  openedRecordFiles := calls.countP IoCall.isRecordOpen

theorem sum_counts (calls : List IoCall) :
    (calls.map IoCall.counts).sum = UpdateStats.ofCalls calls := by
  induction calls with
  | nil => rfl
  | cons call calls ih =>
      rw [List.map_cons, List.sum_cons, ih]
      simp only [UpdateStats.ofCalls, List.countP_cons]
      cases call <;>
        simp [IoCall.counts, IoCall.isRecordRead, IoCall.isRecordWrite, IoCall.isDirectoryRead,
          IoCall.isDirectoryWrite, IoCall.isRecordOpen, Nat.add_comm]

theorem traces_attempt (call : IoCall) (operation : String) :
    Logged.Traces id (fun faults => .issue call (attempt faults call operation))
      fun faults => attempt faults call operation :=
  Logged.traces_issue (.system operation) (.ok ()) fun _ => rfl

/-- A check of the offset and a closing call that raise the same error. -/
theorem returned_finish {faults : IoFaults} {call : IoCall} {operation : String} {c : Prop}
    [Decidable c] {α : Type} (left finished : α) :
    Logged.returned (if c ∨ faults call then (left, .error (.system operation))
      else (finished, .ok ())) =
    if c then .error (.system operation)
    else attempt faults call operation >>= fun _ => .ok finished := by
  by_cases hc : c
  · rw [if_pos hc, if_pos (Or.inl hc)]
    rfl
  · rw [if_neg hc, attempt]
    cases faults call with
    | false => rw [if_neg (by simpa using hc)]; rfl
    | true => rw [if_pos (Or.inr rfl)]; rfl

/-- A call made under a condition. -/
theorem returned_when {faults : IoFaults} {call : IoCall} {operation : String} {c : Prop}
    [Decidable c] {α : Type} (left : α) (rest : α × Except Error Unit) :
    Logged.returned (if c ∧ faults call then (left, .error (.system operation)) else rest) =
      ((if c then attempt faults call operation else .ok ()) >>= fun _ => Logged.returned rest) := by
  by_cases hc : c
  · rw [if_pos hc, attempt]
    cases faults call with
    | false => rw [if_neg (by simp)]; rfl
    | true => rw [if_pos ⟨hc, rfl⟩]; rfl
  · rw [if_neg hc, if_neg fun h => hc h.1]
    rfl

namespace RecordLayout

variable (layout : RecordLayout)

/-! ### Appending -/

/-- The buffer of a page, read when the page exists. -/
def fetchPageLogged (faults : IoFaults) (listNo oldSize : Nat) (bytes : Bytes) (page : Nat) :
    Logged Error IoCall Bytes :=
  if page < pageCount oldSize layout.recordsPerPage then
    .issue (.readRecords listNo page) (layout.readPage faults listNo bytes page)
  else pure (List.replicate layout.pageSize 0)

/-- One page of an append, with its calls. -/
def appendPageLogged (faults : IoFaults) (listNo oldSize : Nat) (rows : List (Record layout))
    (bytes : Bytes) (page : Nat) : Logged Error IoCall Bytes := do
  let buffer ← layout.fetchPageLogged faults listNo oldSize bytes page
  .issue (.writeRecords listNo page) (layout.writePage faults listNo bytes page
    (layout.paging.writeLanes buffer (layout.appendLanes oldSize rows page)))

def appendPagesLogged (faults : IoFaults) (listNo oldSize : Nat) (rows : List (Record layout)) :
    List Nat → Bytes → Logged Error IoCall Bytes
  | [], bytes => pure bytes
  | page :: rest, bytes => do
      let bytes ← layout.appendPageLogged faults listNo oldSize rows bytes page
      appendPagesLogged faults listNo oldSize rows rest bytes

/-- Cut off the tail that an earlier failed append left. -/
def truncateTailLogged (faults : IoFaults) (listNo : Nat) (longer : Prop) [Decidable longer] :
    Logged Error IoCall Unit :=
  if longer then
    .issue (.truncateRecords listNo)
      (attempt faults (.truncateRecords listNo) "truncate unpublished list tail")
  else pure ()

/-- `append_records` with the calls it issues. -/
def appendRecordsLogged (faults : IoFaults) (listNo oldSize : Nat) (rows : List (Record layout))
    (file : Option Bytes) : Logged Error IoCall (Option Bytes) :=
  if rows = [] then pure file else
  if uint32Max - oldSize < rows.length then
    .fail (.invalidArgument "invalid list record append") else do
  .issue (.openRecords listNo) (attempt faults (.openRecords listNo) "open")
  let bytes := file.getD []
  let expectedBytes := pageCount oldSize layout.recordsPerPage * layout.pageSize
  if bytes.length < expectedBytes ∨ bytes.length % layout.pageSize ≠ 0 then
    .fail (.runtime "list file size disagrees with logical_size") else do
  truncateTailLogged faults listNo (expectedBytes < bytes.length)
  let newSize := oldSize + rows.length
  let bytes ← layout.appendPagesLogged faults listNo oldSize rows
    (layout.appendedPages oldSize newSize) (ftruncate bytes expectedBytes)
  let finalBytes := pageCount newSize layout.recordsPerPage * layout.pageSize
  if offMax < finalBytes then .fail (.system "ftruncate") else do
  .issue (.finishRecords listNo) (attempt faults (.finishRecords listNo) "ftruncate")
  pure (some (ftruncate bytes finalBytes))

/-- The counters `insert_batch` computes for one list: it reopens the last page
unless that page is full, and it writes the new pages and the reopened one. -/
def appendStats (oldSize count : Nat) : UpdateStats :=
  let oldPages := pageCount oldSize layout.recordsPerPage
  let newPages := pageCount (oldSize + count) layout.recordsPerPage
  let rewritesPartial := if oldSize ≠ 0 ∧ oldSize % layout.recordsPerPage ≠ 0 then 1 else 0
  ⟨rewritesPartial, newPages - oldPages + rewritesPartial, 0, 0, 0⟩

variable {layout}

theorem costs_appendPage {faults : IoFaults} {listNo oldSize page : Nat}
    {rows : List (Record layout)} {bytes bytes' : Bytes}
    (h : layout.appendPage faults listNo oldSize rows bytes page = .ok bytes') :
    Logged.Costs IoCall.counts (layout.appendPageLogged faults listNo oldSize rows bytes page)
      bytes' ((if page < pageCount oldSize layout.recordsPerPage then ⟨1, 0, 0, 0, 0⟩ else 0) +
        ⟨0, 1, 0, 0, 0⟩) := by
  obtain ⟨buffer, hfetch, hwrite⟩ := bind_eq_ok.mp h
  refine Logged.Costs.bind (Logged.costs_when (fun hpage => ?_) fun hpage => ?_)
    (Logged.costs_issue _ hwrite)
  · rw [fetchPage, if_pos hpage] at hfetch
    exact Logged.costs_issue _ hfetch
  · rw [fetchPage, if_neg hpage] at hfetch
    obtain rfl := Except.ok.inj hfetch
    exact Logged.costs_pure _

theorem costs_appendPages {faults : IoFaults} {listNo oldSize : Nat} {rows : List (Record layout)}
    {pages : List Nat} {bytes bytes' : Bytes}
    (h : layout.appendPages faults listNo oldSize rows pages bytes = (bytes', .ok ())) :
    Logged.Costs IoCall.counts (layout.appendPagesLogged faults listNo oldSize rows pages bytes)
      bytes' (pages.map fun page =>
        (if page < pageCount oldSize layout.recordsPerPage then ⟨1, 0, 0, 0, 0⟩ else 0) +
          ⟨0, 1, 0, 0, 0⟩).sum := by
  induction pages generalizing bytes with
  | nil =>
      cases h
      exact Logged.costs_pure _
  | cons page rest ih =>
      rw [appendPages] at h
      cases hpage : layout.appendPage faults listNo oldSize rows bytes page with
      | error error => rw [hpage] at h; cases h
      | ok next =>
          rw [hpage] at h
          rw [List.map_cons, List.sum_cons]
          exact (costs_appendPage hpage).bind (ih h)

/-- The page after the full ones exists exactly when it holds some rows and is
not full. -/
theorem pageCount_sub_div {rows rowsPerPage : Nat} (hpos : 0 < rowsPerPage) :
    pageCount rows rowsPerPage - rows / rowsPerPage =
      if rows ≠ 0 ∧ rows % rowsPerPage ≠ 0 then 1 else 0 := by
  have hdiv := Nat.div_add_mod rows rowsPerPage
  have hmod := Nat.mod_lt rows hpos
  have hexists := @lt_pageCount_iff rows rowsPerPage (rows / rowsPerPage) hpos
  have hnext := @pageCount_le_iff rows rowsPerPage (rows / rowsPerPage + 1) hpos
  rw [Nat.mul_comm] at hexists
  rw [Nat.add_mul, one_mul, Nat.mul_comm] at hnext
  split
  next h => omega
  next h => omega

/-- The page loop of an append reads and writes what the formulas say. -/
theorem sum_appendedPages (oldSize count : Nat) :
    ((layout.appendedPages oldSize (oldSize + count)).map fun page =>
      (if page < pageCount oldSize layout.recordsPerPage then ⟨1, 0, 0, 0, 0⟩ else 0) +
        (⟨0, 1, 0, 0, 0⟩ : UpdateStats)).sum = layout.appendStats oldSize count := by
  have hpos := layout.recordsPerPage_pos
  have hmono : pageCount oldSize layout.recordsPerPage ≤
      pageCount (oldSize + count) layout.recordsPerPage :=
    pageCount_mono hpos (Nat.le_add_right _ _)
  have hfirst : oldSize / layout.recordsPerPage ≤ pageCount oldSize layout.recordsPerPage :=
    div_le_pageCount hpos
  have hpartial := @pageCount_sub_div oldSize _ hpos
  rw [sum_map_ite_add, appendedPages, countP_range'_lt, List.length_range']
  simp only [appendStats, UpdateStats.nsmul_mk, UpdateStats.mk_add_mk, UpdateStats.mk.injEq]
  omega

theorem costs_truncateTail {faults : IoFaults} {listNo : Nat} {longer : Prop} [Decidable longer]
    (h : ¬(longer ∧ faults (.truncateRecords listNo))) :
    Logged.Costs IoCall.counts (truncateTailLogged faults listNo longer) () 0 := by
  unfold truncateTailLogged
  split
  next hlonger =>
    exact Logged.costs_issue (a := ()) _
      (attempt_eq_ok.mpr (Bool.eq_false_iff.mpr fun hfault => h ⟨hlonger, hfault⟩))
  next => exact Logged.costs_pure ()

/-- `append_records` opens the list once and issues the predicted page calls. -/
theorem costs_appendRecords {faults : IoFaults} {listNo oldSize : Nat}
    {rows : List (Record layout)} (hrows : rows ≠ []) {file file' : Option Bytes}
    (h : layout.appendRecords faults listNo oldSize rows file = (file', .ok ())) :
    Logged.Costs IoCall.counts (layout.appendRecordsLogged faults listNo oldSize rows file) file'
      (⟨0, 0, 0, 0, 1⟩ + layout.appendStats oldSize rows.length) := by
  rw [appendRecords, if_neg hrows] at h
  split at h
  next => cases h
  next hfits =>
  split at h
  next => cases h
  next hopen =>
  dsimp only at h
  split at h
  next => cases h
  next hlength =>
  split at h
  next => cases h
  next htail =>
  split at h
  next => cases h
  next bytes hpages =>
  split at h
  next => cases h
  next hfinish =>
  cases h
  rw [not_or] at hfinish
  have hloop := (costs_appendPages hpages).congr (sum_appendedPages oldSize rows.length)
  rw [appendRecordsLogged, if_neg hrows]
  refine Logged.Costs.guard hfits (Logged.Costs.bind (a := ())
    (Logged.costs_issue _ (attempt_eq_ok.mpr (Bool.eq_false_iff.mpr hopen))) ?_)
  refine Logged.Costs.guard hlength (Logged.Costs.skip (a := ()) (costs_truncateTail htail)
    (hloop.finish ?_))
  exact Logged.Costs.guard hfinish.1 (Logged.Costs.skip (a := ()) (Logged.costs_issue _
    (attempt_eq_ok.mpr (Bool.eq_false_iff.mpr hfinish.2))) (Logged.costs_pure _))

/-! ### Moving and truncating -/

variable (layout)

def loadPagesLogged (faults : IoFaults) (listNo : Nat) (bytes : Bytes) :
    List Nat → (Nat → Bytes) → Logged Error IoCall (Nat → Bytes)
  | [], pages => pure pages
  | page :: rest, pages => do
      let buffer ← .issue (.readRecords listNo page) (layout.readPage faults listNo bytes page)
      loadPagesLogged faults listNo bytes rest (Function.update pages page buffer)

/-- `prepare_moves_and_truncate` with the calls it issues. -/
def prepareMovesAndTruncateLogged (faults : IoFaults) (listNo oldSize newSize : Nat)
    (moves : List RecordMove) (observedOffsets : List Nat) (file : Option Bytes) :
    Logged Error IoCall PreparedRecordMutation :=
  if oldSize < newSize then
    .fail (.invalidArgument "record deletion cannot grow a list") else
  if moves.any fun move =>
      newSize ≤ move.destination || move.source < newSize || oldSize ≤ move.source then
    .fail (.invalidArgument "invalid list record move") else
  if observedOffsets.any (oldSize ≤ ·) then
    .fail (.invalidArgument "observed record offset exceeds old list size") else do
  .issue (.openRecords listNo) (attempt faults (.openRecords listNo) "open")
  match file with
  | none => .fail (.system "open")
  | some bytes =>
      let oldPages := pageCount oldSize layout.recordsPerPage
      if bytes.length ≠ oldPages * layout.pageSize then
        .fail (.runtime "list file size disagrees with deletion input") else do
      let pages ← layout.loadPagesLogged faults listNo bytes
        (layout.neededPages newSize moves observedOffsets) fun _ => []
      if sizeMax < moves.length * layout.recordStride then
        .fail (.overflow "record move snapshots overflow") else
      pure {
        oldPages
        newPages := pageCount newSize layout.recordsPerPage
        pages := layout.clearTail newSize (layout.moveRecords pages moves)
        writePages := layout.writtenPages newSize moves
        observedIds := observedOffsets.map fun offset =>
          Record.idOf (layout.bufferedRecord pages offset) }

def commitPagesLogged (faults : IoFaults) (listNo : Nat) (pages : Nat → Bytes) :
    List Nat → Bytes → Logged Error IoCall Bytes
  | [], bytes => pure bytes
  | page :: rest, bytes => do
      let bytes ← .issue (.writeRecords listNo page)
        (layout.writePage faults listNo bytes page (pages page))
      commitPagesLogged faults listNo pages rest bytes

/-- `commit_prepared_mutation` with the calls it issues. -/
def commitPreparedMutationLogged (faults : IoFaults) (listNo : Nat)
    (mutation : PreparedRecordMutation) (file : Option Bytes) :
    Logged Error IoCall (Option Bytes) := do
  .issue (.openRecords listNo) (attempt faults (.openRecords listNo) "open")
  match file with
  | none => .fail (.system "open")
  | some bytes =>
      if bytes.length ≠ mutation.oldPages * layout.pageSize then
        .fail (.runtime "list file changed after deletion preparation") else do
      let bytes ← layout.commitPagesLogged faults listNo mutation.pages mutation.writePages bytes
      let finalBytes := mutation.newPages * layout.pageSize
      if offMax < finalBytes then .fail (.system "ftruncate") else do
      .issue (.finishRecords listNo) (attempt faults (.finishRecords listNo) "ftruncate")
      pure (some (ftruncate bytes finalBytes))

variable {layout}

theorem costs_loadPages {faults : IoFaults} {listNo : Nat} {bytes : Bytes} {needed : List Nat}
    {pages pages' : Nat → Bytes}
    (h : layout.loadPages faults listNo bytes needed pages = .ok pages') :
    Logged.Costs IoCall.counts (layout.loadPagesLogged faults listNo bytes needed pages) pages'
      ⟨needed.length, 0, 0, 0, 0⟩ := by
  induction needed generalizing pages with
  | nil =>
      cases h
      exact Logged.costs_pure _
  | cons page rest ih =>
      rw [loadPages, bind_eq_ok] at h
      obtain ⟨buffer, hread, hrest⟩ := h
      refine Logged.Costs.congr ((Logged.costs_issue _ hread).bind (ih hrest)) ?_
      rw [IoCall.counts, UpdateStats.mk_add_mk, List.length_cons, Nat.add_comm 1]

/-- `prepare_moves_and_truncate` opens the list once and reads every page it
needs once. -/
theorem costs_prepare {faults : IoFaults} {listNo oldSize newSize : Nat} {moves : List RecordMove}
    {offsets : List Nat} {file : Option Bytes} {mutation : PreparedRecordMutation}
    (h : layout.prepareMovesAndTruncate faults listNo oldSize newSize moves offsets file =
      .ok mutation) :
    Logged.Costs IoCall.counts
      (layout.prepareMovesAndTruncateLogged faults listNo oldSize newSize moves offsets file)
      mutation ⟨(layout.neededPages newSize moves offsets).length, 0, 0, 0, 1⟩ := by
  unfold prepareMovesAndTruncate at h
  rw [guard_eq_ok, guard_eq_ok, guard_eq_ok] at h
  obtain ⟨hgrow, hmoves, hobserved, h⟩ := h
  obtain ⟨_, hopen, h⟩ := bind_eq_ok.mp h
  cases file with
  | none => cases h
  | some bytes =>
  rw [guard_eq_ok] at h
  obtain ⟨hlength, h⟩ := h
  obtain ⟨pages, hload, h⟩ := bind_eq_ok.mp h
  rw [guard_eq_ok] at h
  obtain ⟨hsnapshots, h⟩ := h
  obtain rfl := Except.ok.inj h
  refine Logged.Costs.guard hgrow (Logged.Costs.guard hmoves (Logged.Costs.guard hobserved ?_))
  refine Logged.Costs.congr ((Logged.costs_issue _ hopen).bind (Logged.Costs.guard hlength
    ((costs_loadPages hload).finish ?_))) ?_
  · exact Logged.Costs.guard hsnapshots (Logged.costs_pure _)
  · simp only [IoCall.counts, UpdateStats.mk_add_mk, Nat.zero_add, Nat.add_zero]

theorem costs_commitPages {faults : IoFaults} {listNo : Nat} {pages : Nat → Bytes}
    {written : List Nat} {bytes bytes' : Bytes}
    (h : layout.commitPages faults listNo pages written bytes = (bytes', .ok ())) :
    Logged.Costs IoCall.counts (layout.commitPagesLogged faults listNo pages written bytes) bytes'
      ⟨0, written.length, 0, 0, 0⟩ := by
  induction written generalizing bytes with
  | nil =>
      cases h
      exact Logged.costs_pure _
  | cons page rest ih =>
      rw [commitPages] at h
      cases hpage : layout.writePage faults listNo bytes page (pages page) with
      | error error => rw [hpage] at h; cases h
      | ok next =>
          rw [hpage] at h
          refine Logged.Costs.congr ((Logged.costs_issue _ hpage).bind (ih h)) ?_
          rw [IoCall.counts, UpdateStats.mk_add_mk, List.length_cons, Nat.add_comm 1]

/-- `commit_prepared_mutation` opens the list once and writes every page of the
mutation once. -/
theorem costs_commit {faults : IoFaults} {listNo : Nat} {mutation : PreparedRecordMutation}
    {file file' : Option Bytes}
    (h : layout.commitPreparedMutation faults listNo mutation file = (file', .ok ())) :
    Logged.Costs IoCall.counts
      (layout.commitPreparedMutationLogged faults listNo mutation file) file'
      ⟨0, mutation.writePages.length, 0, 0, 1⟩ := by
  unfold commitPreparedMutation at h
  split at h
  next => cases h
  next hopen =>
  cases file with
  | none => cases h
  | some bytes =>
  dsimp only at h
  split at h
  next => cases h
  next hlength =>
  split at h
  next => cases h
  next bytes' hpages =>
  split at h
  next => cases h
  next hfinish =>
  cases h
  rw [not_or] at hfinish
  refine Logged.Costs.congr (Logged.Costs.bind (a := ()) (Logged.costs_issue _
    (attempt_eq_ok.mpr (Bool.eq_false_iff.mpr hopen))) (Logged.Costs.guard hlength
      ((costs_commitPages hpages).finish ?_))) ?_
  · exact Logged.Costs.guard hfinish.1 (Logged.Costs.skip (a := ()) (Logged.costs_issue _
      (attempt_eq_ok.mpr (Bool.eq_false_iff.mpr hfinish.2))) (Logged.costs_pure _))
  · simp only [IoCall.counts, UpdateStats.mk_add_mk, Nat.zero_add, Nat.add_zero]

/-! ### The log against the oracle -/

theorem traces_readPage (listNo : Nat) (bytes : Bytes) (page : Nat) :
    Logged.Traces id
      (fun faults => .issue (.readRecords listNo page) (layout.readPage faults listNo bytes page))
      fun faults => layout.readPage faults listNo bytes page := by
  refine Logged.traces_issue (.system "pread")
    (layout.pageOffset page >>= preadExact bytes layout.pageSize) fun faults => ?_
  rw [readPage, attempt]
  split <;> rfl

theorem traces_writePage (listNo : Nat) (bytes : Bytes) (page : Nat) (buffer : Bytes) :
    Logged.Traces id (fun faults =>
        .issue (.writeRecords listNo page) (layout.writePage faults listNo bytes page buffer))
      fun faults => layout.writePage faults listNo bytes page buffer := by
  refine Logged.traces_issue (.system "pwrite")
    (layout.pageOffset page >>= pwriteExact bytes buffer) fun faults => ?_
  rw [writePage, attempt]
  split <;> rfl

theorem traces_appendPage (listNo oldSize : Nat) (rows : List (Record layout)) (bytes : Bytes)
    (page : Nat) :
    Logged.Traces id (fun faults => layout.appendPageLogged faults listNo oldSize rows bytes page)
      fun faults => layout.appendPage faults listNo oldSize rows bytes page :=
  Logged.Traces.bind (Logged.Traces.ite (traces_readPage listNo bytes page)
    (Logged.traces_pure _)) fun _ => traces_writePage listNo bytes page _

theorem traces_appendPages (listNo oldSize : Nat) (rows : List (Record layout)) (pages : List Nat)
    (bytes : Bytes) :
    Logged.Traces id (fun faults => layout.appendPagesLogged faults listNo oldSize rows pages bytes)
      fun faults =>
        Logged.returned (layout.appendPages faults listNo oldSize rows pages bytes) := by
  induction pages generalizing bytes with
  | nil => exact Logged.traces_pure bytes
  | cons page rest ih =>
      refine Logged.Traces.congr (Logged.Traces.bind
        (traces_appendPage listNo oldSize rows bytes page) fun bytes => ih bytes) fun faults => ?_
      rw [appendPages]
      cases layout.appendPage faults listNo oldSize rows bytes page with
      | error error => rfl
      | ok bytes => rfl

theorem traces_appendRecords (listNo oldSize : Nat) (rows : List (Record layout))
    (file : Option Bytes) :
    Logged.Traces id (fun faults => layout.appendRecordsLogged faults listNo oldSize rows file)
      fun faults => Logged.returned (layout.appendRecords faults listNo oldSize rows file) := by
  refine Logged.Traces.congr (.ite (Logged.traces_pure file) (.ite (Logged.traces_fail _)
    (.bind (traces_attempt _ _) fun _ => .ite (Logged.traces_fail _)
      (.bind (.ite (traces_attempt _ _) (Logged.traces_pure ())) fun _ =>
        .bind (traces_appendPages listNo oldSize rows _ _) fun _ => .ite (Logged.traces_fail _)
          (.bind (traces_attempt _ _) fun _ => Logged.traces_pure _))))) fun faults => ?_
  rw [appendRecords]
  split
  next => rfl
  split
  next => rfl
  rw [attempt]
  split
  next => rfl
  rw [ok_bind]
  dsimp only
  split
  next => rfl
  rw [returned_when]
  congr 1
  funext _
  cases layout.appendPages faults listNo oldSize rows
      (layout.appendedPages oldSize (oldSize + rows.length))
      (ftruncate (file.getD []) (pageCount oldSize layout.recordsPerPage * layout.pageSize)) with
  | mk bytes result =>
      cases result with
      | error error => rfl
      | ok _ => exact returned_finish _ _

theorem traces_loadPages (listNo : Nat) (bytes : Bytes) (needed : List Nat)
    (pages : Nat → Bytes) :
    Logged.Traces id (fun faults => layout.loadPagesLogged faults listNo bytes needed pages)
      fun faults => layout.loadPages faults listNo bytes needed pages := by
  induction needed generalizing pages with
  | nil => exact Logged.traces_pure pages
  | cons page rest ih => exact .bind (traces_readPage listNo bytes page) fun _ => ih _

theorem traces_prepare (listNo oldSize newSize : Nat) (moves : List RecordMove)
    (offsets : List Nat) (file : Option Bytes) :
    Logged.Traces id
      (fun faults =>
        layout.prepareMovesAndTruncateLogged faults listNo oldSize newSize moves offsets file)
      fun faults =>
        layout.prepareMovesAndTruncate faults listNo oldSize newSize moves offsets file := by
  refine .ite (Logged.traces_fail _) (.ite (Logged.traces_fail _) (.ite (Logged.traces_fail _)
    (.bind (traces_attempt _ _) fun _ => ?_)))
  cases file with
  | none => exact Logged.traces_fail _
  | some bytes =>
      exact .ite (Logged.traces_fail _) (.bind (traces_loadPages listNo bytes _ _) fun _ =>
        .ite (Logged.traces_fail _) (Logged.traces_pure _))

theorem traces_commitPages (listNo : Nat) (pages : Nat → Bytes) (written : List Nat)
    (bytes : Bytes) :
    Logged.Traces id (fun faults => layout.commitPagesLogged faults listNo pages written bytes)
      fun faults => Logged.returned (layout.commitPages faults listNo pages written bytes) := by
  induction written generalizing bytes with
  | nil => exact Logged.traces_pure bytes
  | cons page rest ih =>
      refine Logged.Traces.congr (.bind (traces_writePage listNo bytes page (pages page)) ih)
        fun faults => ?_
      rw [commitPages]
      cases layout.writePage faults listNo bytes page (pages page) with
      | error error => rfl
      | ok bytes => rfl

theorem traces_commit (listNo : Nat) (mutation : PreparedRecordMutation) (file : Option Bytes) :
    Logged.Traces id
      (fun faults => layout.commitPreparedMutationLogged faults listNo mutation file)
      fun faults => Logged.returned (layout.commitPreparedMutation faults listNo mutation file) := by
  cases file with
  | none =>
      refine Logged.Traces.congr (.bind (traces_attempt (.openRecords listNo) "open") fun _ =>
        Logged.traces_fail (Error.system "open")) fun faults => ?_
      rw [commitPreparedMutation, attempt]
      split <;> rfl
  | some bytes =>
      refine Logged.Traces.congr (.bind (traces_attempt _ _) fun _ => .ite (Logged.traces_fail _)
        (.bind (traces_commitPages listNo _ _ bytes) fun _ => .ite (Logged.traces_fail _)
          (.bind (traces_attempt _ _) fun _ => Logged.traces_pure _))) fun faults => ?_
      rw [commitPreparedMutation, attempt]
      split
      next => rfl
      rw [ok_bind]
      dsimp only
      split
      next => rfl
      cases layout.commitPages faults listNo mutation.pages mutation.writePages bytes with
      | mk bytes result =>
          cases result with
          | error error => rfl
          | ok _ => exact returned_finish _ _

end RecordLayout

end Recast
