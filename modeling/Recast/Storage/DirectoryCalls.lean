import Recast.Storage.DirectoryLaws
import Recast.Storage.RecordCalls

/-!
# The calls of the location directory

The directory with the system calls it issues. A batch reads and writes each of
its pages once; `unique_pages` counts these pages from the IDs alone.
-/

namespace Recast

open Foundation

/-- `unique_pages`: the pages the offsets fall on, each counted once. The page
size is cast to 32 bits. -/
def uniquePages (offsets : List Nat) (rowsPerPage : Nat) : Nat :=
  if offsets = [] then 0 else
  (uniqueAdjacent ((offsets.map (· / (rowsPerPage % 2 ^ 32))).insertionSort (· ≤ ·))).length

@[simp] theorem uniquePages_nil (rowsPerPage : Nat) : uniquePages [] rowsPerPage = 0 := if_pos rfl

theorem uniquePages_eq {offsets keys : List Nat} {rowsPerPage : Nat} (hcast : rowsPerPage < 2 ^ 32)
    (hkeys : keys.Pairwise (· < ·))
    (hmem : ∀ page, page ∈ keys ↔ ∃ offset ∈ offsets, offset / rowsPerPage = page) :
    uniquePages offsets rowsPerPage = keys.length := by
  rw [uniquePages, Nat.mod_eq_of_lt hcast]
  split
  next hnil =>
    have hnone : keys = [] := List.eq_nil_iff_forall_not_mem.mpr fun page hpage => by
      obtain ⟨offset, hoffset, -⟩ := (hmem page).mp hpage
      rw [hnil] at hoffset
      cases hoffset
    rw [hnone, List.length_nil]
  next =>
    rw [uniqueAdjacent_eq hkeys]
    intro page
    rw [hmem, List.mem_map]

namespace DirectoryLayout

variable (layout : DirectoryLayout)

/-! ### Reading -/

def readGroupLogged (faults : IoFaults) (file : Bytes) (group : List Request)
    (result : Nat → DiskLocation) : Logged Error IoCall (Nat → DiskLocation) :=
  match group with
  | [] => pure result
  | head :: _ => .issue (.readDirectory head.page) (layout.readGroup faults file group result)

def readGroupsLogged (faults : IoFaults) (file : Bytes) :
    List (List Request) → (Nat → DiskLocation) → Logged Error IoCall (Nat → DiskLocation)
  | [], result => pure result
  | group :: rest, result => do
      let result ← layout.readGroupLogged faults file group result
      readGroupsLogged faults file rest result

/-- `read_batch` with the calls it issues. -/
def readBatchLogged (faults : IoFaults) (file : Bytes) (ids : List Nat) :
    Logged Error IoCall (List DiskLocation) :=
  if ids = [] then pure [] else do
    .issue .openDirectory (attempt faults .openDirectory "open(locations.bin)")
    if file.length % layout.pageSize ≠ 0 then
      .fail (.runtime "external directory is not page aligned") else do
    let requests := ids.mapIdx fun i id => Request.mk (layout.pageOf id) id i
    let sorted := requests.insertionSort Request.before
    let groups := sorted.splitBy fun lhs rhs => lhs.page == rhs.page
    let result ← layout.readGroupsLogged faults file groups fun _ => DiskLocation.tombstone
    pure ((List.range ids.length).map result)

/-! ### Writing -/

def fetchPageLogged (faults : IoFaults) (file : Bytes) (currentBytes pageId offset : Nat) :
    Logged Error IoCall Bytes :=
  if offset < currentBytes then
    .issue (.readDirectory pageId) (layout.fetchPage faults file currentBytes pageId offset)
  else pure (List.replicate layout.pageSize 0xff)

def writeGroupLogged (faults : IoFaults) (file : Bytes) (currentBytes : Nat)
    (group : List Update) : Logged Error IoCall (Bytes × Nat) :=
  match group with
  | [] => pure (file, currentBytes)
  | head :: _ => do
      let pageId := layout.pageOf head.1
      let offset ← .quiet (layout.checkedOffset pageId)
      let page ← layout.fetchPageLogged faults file currentBytes pageId offset
      .issue (.writeDirectory pageId) (attempt faults (.writeDirectory pageId) "pwrite")
      let file ← .quiet (pwriteExact file (layout.writeEntries page group) offset)
      pure (file, max currentBytes (offset + layout.pageSize))

def writeGroupsLogged (faults : IoFaults) :
    List (List Update) → Bytes → Nat → Logged Error IoCall (Bytes × Nat)
  | [], file, currentBytes => pure (file, currentBytes)
  | group :: rest, file, currentBytes => do
      let (file, currentBytes) ← layout.writeGroupLogged faults file currentBytes group
      writeGroupsLogged faults rest file currentBytes

/-- `write_batch` with the calls it issues. -/
def writeBatchLogged (faults : IoFaults) (file : Bytes) (updates : List Update) :
    Logged Error IoCall Bytes :=
  if updates = [] then pure file else
  if hasAdjacentEqual ((updates.insertionSort Update.before).map Prod.fst) then
    .fail (.invalidArgument "duplicate Logical ID directory update") else do
  .issue .openDirectory (attempt faults .openDirectory "open(locations.bin)")
  if file.length % layout.pageSize ≠ 0 then
    .fail (.runtime "external directory is not page aligned") else do
  let (file, currentBytes) ← layout.writeGroupsLogged faults (layout.pageGroups updates) file
    file.length
  .issue .finishDirectory (attempt faults .finishDirectory "ftruncate(locations.bin)")
  pure (ftruncate file currentBytes)

variable {layout}

instance : Std.Total Request.before := ⟨fun lhs rhs => by unfold Request.before; grind⟩

instance : IsTrans Request Request.before := ⟨fun _ _ _ => by unfold Request.before; grind⟩

theorem costs_readGroups {faults : IoFaults} {file : Bytes} {groups : List (List Request)}
    (hgroups : ∀ group ∈ groups, group ≠ []) {result result' : Nat → DiskLocation}
    (h : layout.readGroups faults file groups result = .ok result') :
    Logged.Costs IoCall.counts (layout.readGroupsLogged faults file groups result) result'
      ⟨0, 0, groups.length, 0, 0⟩ := by
  induction groups generalizing result with
  | nil =>
      cases h
      exact Logged.costs_pure _
  | cons group rest ih =>
      rw [readGroups, bind_eq_ok] at h
      obtain ⟨next, hgroup, hrest⟩ := h
      have hothers := ih (fun group hmem => hgroups group (List.mem_cons_of_mem _ hmem)) hrest
      cases group with
      | nil => exact absurd rfl (hgroups [] List.mem_cons_self)
      | cons head tail =>
          refine Logged.Costs.congr (Logged.Costs.bind
            (Logged.costs_issue _ hgroup) hothers) ?_
          simp only [IoCall.counts, UpdateStats.mk_add_mk, List.length_cons, Nat.add_comm 1]

/-- The pages of a batch of requests. -/
theorem exists_request_keys (ids : List Nat) : ∃ keys : List Nat, keys.Pairwise (· < ·) ∧
    (∀ page, page ∈ keys ↔ ∃ id ∈ ids, layout.pageOf id = page) ∧
    List.Forall₂ (fun group page => group ≠ [] ∧ ∀ request ∈ group, request.page = page)
      (((layout.requests ids).insertionSort Request.before).splitBy
        fun lhs rhs => lhs.page == rhs.page) keys := by
  have hsorted := (List.pairwise_insertionSort Request.before (layout.requests ids)).imp
    fun {lhs rhs} h => show lhs.page ≤ rhs.page by unfold Request.before at h; grind
  obtain ⟨keys, hkeys, hmem, hgroups⟩ := exists_splitBy_keys hsorted
  refine ⟨keys, hkeys, fun page => ?_, hgroups⟩
  simp only [hmem, List.mem_insertionSort, requests, List.mem_mapIdx]
  constructor
  · rintro ⟨request, ⟨i, hi, rfl⟩, rfl⟩
    exact ⟨ids[i], List.getElem_mem hi, rfl⟩
  · rintro ⟨id, hid, rfl⟩
    obtain ⟨i, hi, rfl⟩ := List.getElem_of_mem hid
    exact ⟨_, ⟨i, hi, rfl⟩, rfl⟩

/-- `read_batch` reads each page of its IDs once. -/
theorem costs_readBatch (hcast : layout.entriesPerPage < 2 ^ 32) {faults : IoFaults} {file : Bytes}
    {ids : List Nat} {locations : List DiskLocation}
    (h : layout.readBatch faults file ids = .ok locations) :
    Logged.Costs IoCall.counts (layout.readBatchLogged faults file ids) locations
      ⟨0, 0, uniquePages ids layout.entriesPerPage, 0, 0⟩ := by
  obtain ⟨keys, hkeys, hmem, hgroups⟩ := @exists_request_keys layout ids
  rw [uniquePages_eq hcast hkeys hmem]
  unfold readBatch at h
  unfold readBatchLogged
  by_cases hnil : ids = []
  · subst hnil
    cases h
    have hnone : keys = [] := List.eq_nil_iff_forall_not_mem.mpr fun page hpage => by
      obtain ⟨id, hid, -⟩ := (hmem page).mp hpage
      cases hid
    rw [hnone]
    exact Logged.costs_pure _
  · rw [if_neg hnil] at h ⊢
    obtain ⟨_, hopen, h⟩ := bind_eq_ok.mp h
    rw [guard_eq_ok] at h
    obtain ⟨haligned, h⟩ := h
    obtain ⟨result, hread, h⟩ := bind_eq_ok.mp h
    obtain rfl := Except.ok.inj h
    refine Logged.Costs.skip (Logged.costs_issue _ hopen) (Logged.Costs.guard haligned
      (Logged.Costs.finish ?_ (Logged.costs_pure _)))
    rw [← hgroups.length_eq]
    exact costs_readGroups (fun group hgroup => List.ne_nil_of_mem_splitBy hgroup) hread

theorem writeGroup_length {faults : IoFaults} {file file' : Bytes} {next page : Nat}
    (haligned : layout.Aligned file) {group : List Update}
    (hgroup : group ≠ [] ∧ ∀ update ∈ group, layout.pageOf update.1 = page)
    (h : layout.writeGroup faults file file.length group = .ok (file', next)) :
    file'.length = max file.length (page * layout.pageSize + layout.pageSize) := by
  cases group with
  | nil => exact absurd rfl hgroup.1
  | cons head tail =>
      obtain rfl : layout.pageOf head.1 = page := hgroup.2 head List.mem_cons_self
      exact (writeGroup_entry haligned hgroup.2 h).2.2.1

theorem costs_writeGroup {faults : IoFaults} {file file' : Bytes} {currentBytes next page : Nat}
    {group : List Update} (hgroup : group ≠ [] ∧ ∀ update ∈ group, layout.pageOf update.1 = page)
    (h : layout.writeGroup faults file currentBytes group = .ok (file', next)) :
    Logged.Costs IoCall.counts (layout.writeGroupLogged faults file currentBytes group)
      (file', next) ((if page * layout.pageSize < currentBytes then ⟨0, 0, 1, 0, 0⟩ else 0) +
        ⟨0, 0, 0, 1, 0⟩) := by
  cases group with
  | nil => exact absurd rfl hgroup.1
  | cons head tail =>
      obtain rfl : layout.pageOf head.1 = page := hgroup.2 head List.mem_cons_self
      obtain ⟨offset, hoffset, h⟩ := bind_eq_ok.mp h
      obtain ⟨buffer, hfetch, h⟩ := bind_eq_ok.mp h
      obtain ⟨_, hissue, h⟩ := bind_eq_ok.mp h
      obtain ⟨written, hwrite, h⟩ := bind_eq_ok.mp h
      obtain ⟨rfl, rfl⟩ := Prod.mk.inj (Except.ok.inj h)
      refine Logged.Costs.skip (Logged.costs_quiet hoffset) (Logged.Costs.bind ?_
        (Logged.Costs.finish (Logged.costs_issue _ hissue)
          (Logged.Costs.skip (Logged.costs_quiet hwrite) (Logged.costs_pure _))))
      obtain ⟨-, rfl⟩ := checkedOffset_eq_ok.mp hoffset
      refine Logged.costs_when (fun hin => Logged.costs_issue _ hfetch) fun hout => ?_
      rw [fetchPage, if_neg hout] at hfetch
      obtain rfl := Except.ok.inj hfetch
      exact Logged.costs_pure _

/-- The page loop writes every page once and reads those the file has. A page it
has appended lies before the pages that follow, so it makes none of them
readable. -/
theorem costs_writeGroups {faults : IoFaults} {file file' : Bytes} {currentBytes : Nat}
    (haligned : layout.Aligned file) {groups : List (List Update)} {pages : List Nat}
    (hpages : pages.Pairwise (· < ·))
    (hgroups : List.Forall₂ (fun group page => group ≠ [] ∧
      ∀ update ∈ group, layout.pageOf update.1 = page) groups pages)
    (h : layout.writeGroups faults groups file file.length = (file', .ok currentBytes)) :
    Logged.Costs IoCall.counts (layout.writeGroupsLogged faults groups file file.length)
      (file', currentBytes)
      ⟨0, 0, pages.countP (· * layout.pageSize < file.length), pages.length, 0⟩ := by
  induction hgroups generalizing file with
  | nil =>
      cases h
      exact Logged.costs_pure _
  | @cons group page groups pages hgroup _ ih =>
      rw [writeGroups] at h
      cases hwrite : layout.writeGroup faults file file.length group with
      | error error => rw [hwrite] at h; cases h
      | ok next =>
      obtain ⟨written, bytes⟩ := next
      rw [hwrite] at h
      dsimp only at h
      obtain ⟨rfl, hwritten⟩ := writeGroup_written haligned hgroup.2 hwrite
      obtain ⟨hlater, hpages⟩ := List.pairwise_cons.mp hpages
      have hrest := ih hwritten.aligned hpages h
      -- the pages that follow are past the one that was written
      have hsame : pages.countP (· * layout.pageSize < written.length) =
          pages.countP (· * layout.pageSize < file.length) := by
        apply List.countP_congr
        intro later hmem
        have hlength := writeGroup_length haligned hgroup hwrite
        have hpast : page * layout.pageSize + layout.pageSize ≤ later * layout.pageSize := by
          rw [← Nat.succ_mul]
          exact Nat.mul_le_mul_right _ (hlater later hmem)
        simp only [decide_eq_true_eq]
        omega
      refine Logged.Costs.congr ((costs_writeGroup hgroup hwrite).bind hrest) ?_
      rw [hsame, List.countP_cons, List.length_cons]
      split <;> simp_all [Nat.add_comm]

/-- The page loop grows the file to the last page it writes and no further. -/
theorem writeGroups_length_le {faults : IoFaults} {file file' : Bytes} {currentBytes bound : Nat}
    (haligned : layout.Aligned file) (hbound : file.length ≤ bound) {groups : List (List Update)}
    {pages : List Nat} (hpages : ∀ page ∈ pages, page * layout.pageSize + layout.pageSize ≤ bound)
    (hgroups : List.Forall₂ (fun group page => group ≠ [] ∧
      ∀ update ∈ group, layout.pageOf update.1 = page) groups pages)
    (h : layout.writeGroups faults groups file file.length = (file', .ok currentBytes)) :
    file'.length ≤ bound := by
  induction hgroups generalizing file with
  | nil =>
      cases h
      exact hbound
  | @cons group page groups pages hgroup _ ih =>
      rw [writeGroups] at h
      cases hwrite : layout.writeGroup faults file file.length group with
      | error error => rw [hwrite] at h; cases h
      | ok next =>
      obtain ⟨written, bytes⟩ := next
      rw [hwrite] at h
      obtain ⟨rfl, hwritten⟩ := writeGroup_written haligned hgroup.2 hwrite
      refine ih hwritten.aligned ?_ (fun page hmem => hpages page (List.mem_cons_of_mem _ hmem)) h
      rw [writeGroup_length haligned hgroup hwrite]
      exact max_le hbound (hpages page List.mem_cons_self)

/-- The pages of a batch of updates. -/
theorem exists_update_keys (updates : List Update) : ∃ keys : List Nat,
    keys.Pairwise (· < ·) ∧
    (∀ page, page ∈ keys ↔ ∃ update ∈ updates, layout.pageOf update.1 = page) ∧
    List.Forall₂ (fun group page => group ≠ [] ∧ ∀ update ∈ group, layout.pageOf update.1 = page)
      (layout.pageGroups updates) keys := by
  have : Std.Total Update.before := ⟨fun lhs rhs => Nat.le_total lhs.1 rhs.1⟩
  have : IsTrans Update Update.before := ⟨fun _ _ _ => Nat.le_trans⟩
  have hsorted := (List.pairwise_insertionSort Update.before updates).imp fun {lhs rhs} h =>
    show layout.pageOf lhs.1 ≤ layout.pageOf rhs.1 from Nat.div_le_div_right h
  obtain ⟨keys, hkeys, hmem, hgroups⟩ := exists_splitBy_keys hsorted
  refine ⟨keys, hkeys, fun page => ?_, hgroups⟩
  simp only [hmem, List.mem_insertionSort]

/-- `write_batch` writes each page of its updates once, reads those the file
has, and grows the file to the last of them. -/
theorem costs_writeBatch {faults : IoFaults} {file file' : Bytes} (haligned : layout.Aligned file)
    {updates : List Update} {keys : List Nat} (hkeys : keys.Pairwise (· < ·))
    (hmem : ∀ page, page ∈ keys ↔ ∃ update ∈ updates, layout.pageOf update.1 = page)
    (h : layout.writeBatch faults file updates = (file', .ok ())) :
    Logged.Costs IoCall.counts (layout.writeBatchLogged faults file updates) file'
        ⟨0, 0, keys.countP (· * layout.pageSize < file.length), keys.length, 0⟩ ∧
      ∀ bound, file.length ≤ bound →
        (∀ page ∈ keys, page * layout.pageSize + layout.pageSize ≤ bound) →
        file'.length ≤ bound := by
  obtain ⟨keys', hkeys', hmem', hgroups⟩ := @exists_update_keys layout updates
  obtain rfl := eq_of_sorted hkeys hkeys' fun page => (hmem page).trans (hmem' page).symm
  unfold writeBatch at h
  unfold writeBatchLogged
  by_cases hnil : updates = []
  · subst hnil
    cases h
    have hnone : keys = [] := List.eq_nil_iff_forall_not_mem.mpr fun page hpage => by
      obtain ⟨update, hupdate, -⟩ := (hmem page).mp hpage
      cases hupdate
    rw [hnone]
    exact ⟨Logged.costs_pure _, fun bound hbound _ => hbound⟩
  rw [if_neg hnil] at h ⊢
  split at h
  next => cases h
  next hdistinct =>
  split at h
  next => cases h
  next hopen =>
  split at h
  next => cases h
  next hmod =>
  split at h
  next => cases h
  next written currentBytes hloop =>
  split at h
  next => cases h
  next hfinish =>
  cases h
  obtain ⟨done, rest, -, -, hlast⟩ :=
    writeGroups_written faults haligned (layout.pageGroups_same updates)
  rw [hloop] at hlast
  obtain ⟨-, hbytes⟩ := hlast currentBytes rfl
  constructor
  · refine Logged.Costs.guard hdistinct (Logged.Costs.skip (a := ()) (Logged.costs_issue _
      (attempt_eq_ok.mpr (Bool.eq_false_iff.mpr hopen))) (Logged.Costs.guard hmod
        (Logged.Costs.finish (costs_writeGroups haligned hkeys hgroups hloop) ?_)))
    exact Logged.Costs.skip (a := ()) (Logged.costs_issue _
      (attempt_eq_ok.mpr (Bool.eq_false_iff.mpr hfinish))) (Logged.costs_pure _)
  · intro bound hbound hpages
    rw [ftruncate_self_of_eq hbytes]
    exact writeGroups_length_le haligned hbound hpages hgroups hloop

/-! ### The log against the oracle -/

theorem traces_readGroup (file : Bytes) (group : List Request) (result : Nat → DiskLocation) :
    Logged.Traces id (fun faults => layout.readGroupLogged faults file group result)
      fun faults => layout.readGroup faults file group result := by
  cases group with
  | nil => exact Logged.traces_pure result
  | cons head tail =>
      -- the checks before the call do not depend on the oracle
      cases hoffset : layout.checkedOffset head.page with
      | error error =>
          refine Logged.traces_issue error (.error error) fun faults => ?_
          rw [readGroup, hoffset, ite_self]
          rfl
      | ok offset =>
          by_cases hshort : file.length < offset + layout.pageSize
          · refine Logged.traces_issue (.outOfRange "Logical ID is outside locations.bin")
              (.error (.outOfRange "Logical ID is outside locations.bin")) fun faults => ?_
            rw [readGroup, hoffset, ite_self, ok_bind, if_pos hshort]
          · refine Logged.traces_issue (.system "pread") (do
              let page ← preadExact file layout.pageSize offset
              return (head :: tail).foldl (fun result request =>
                Function.update result request.inputIndex (DiskLocation.decode
                  (slice page (request.id % layout.entriesPerPage * 8) 8))) result)
              fun faults => ?_
            rw [readGroup, hoffset, ok_bind, if_neg hshort, attempt]
            split <;> rfl

theorem traces_readGroups (file : Bytes) (groups : List (List Request))
    (result : Nat → DiskLocation) :
    Logged.Traces id (fun faults => layout.readGroupsLogged faults file groups result)
      fun faults => layout.readGroups faults file groups result := by
  induction groups generalizing result with
  | nil => exact Logged.traces_pure result
  | cons group rest ih => exact .bind (traces_readGroup file group result) ih

theorem traces_readBatch (file : Bytes) (ids : List Nat) :
    Logged.Traces id (fun faults => layout.readBatchLogged faults file ids)
      fun faults => layout.readBatch faults file ids :=
  .ite (Logged.traces_pure _) (.bind (traces_attempt _ _) fun _ => .ite (Logged.traces_fail _)
    (.bind (traces_readGroups file _ _) fun _ => Logged.traces_pure _))

theorem traces_fetchPage (file : Bytes) (currentBytes pageId offset : Nat) :
    Logged.Traces id
      (fun faults => layout.fetchPageLogged faults file currentBytes pageId offset)
      fun faults => layout.fetchPage faults file currentBytes pageId offset := by
  by_cases hin : offset < currentBytes
  · have hissue : Logged.Traces id
        (fun faults => .issue (.readDirectory pageId)
          (layout.fetchPage faults file currentBytes pageId offset))
        fun faults => layout.fetchPage faults file currentBytes pageId offset :=
      Logged.traces_issue (.system "pread") (preadExact file layout.pageSize offset) fun faults => by
        rw [fetchPage, if_pos hin, attempt]
        split <;> rfl
    simpa only [fetchPageLogged, if_pos hin] using hissue
  · simpa only [fetchPageLogged, fetchPage, if_neg hin] using Logged.traces_pure _

theorem traces_writeGroup (file : Bytes) (currentBytes : Nat) (group : List Update) :
    Logged.Traces id (fun faults => layout.writeGroupLogged faults file currentBytes group)
      fun faults => layout.writeGroup faults file currentBytes group := by
  cases group with
  | nil => exact Logged.traces_pure _
  | cons head tail =>
      exact .bind (Logged.traces_quiet _) fun offset =>
        .bind (traces_fetchPage file currentBytes _ offset) fun page =>
          .bind (traces_attempt _ _) fun _ => .bind (Logged.traces_quiet _) fun _ =>
            Logged.traces_pure _

theorem traces_writeGroups (groups : List (List Update)) (file : Bytes) (currentBytes : Nat) :
    Logged.Traces id (fun faults => layout.writeGroupsLogged faults groups file currentBytes)
      fun faults => Logged.outcome (layout.writeGroups faults groups file currentBytes) := by
  induction groups generalizing file currentBytes with
  | nil => exact Logged.traces_pure _
  | cons group rest ih =>
      refine Logged.Traces.congr (.bind (traces_writeGroup file currentBytes group) fun next =>
        ih next.1 next.2) fun faults => ?_
      rw [writeGroups]
      cases layout.writeGroup faults file currentBytes group with
      | error error => rfl
      | ok next => rfl

theorem traces_writeBatch (file : Bytes) (updates : List Update) :
    Logged.Traces id (fun faults => layout.writeBatchLogged faults file updates)
      fun faults => Logged.returned (layout.writeBatch faults file updates) := by
  refine Logged.Traces.congr (.ite (Logged.traces_pure _) (.ite (Logged.traces_fail _)
    (.bind (traces_attempt _ _) fun _ => .ite (Logged.traces_fail _)
      (.bind (traces_writeGroups _ file _) fun _ => .bind (traces_attempt _ _) fun _ =>
        Logged.traces_pure _)))) fun faults => ?_
  rw [writeBatch]
  split
  next => rfl
  split
  next => rfl
  rw [attempt]
  split
  next => rfl
  rw [ok_bind]
  split
  next => rfl
  cases layout.writeGroups faults (layout.pageGroups updates) file file.length with
  | mk file result =>
      cases result with
      | error error => rfl
      | ok currentBytes =>
          rw [attempt]
          dsimp only [Logged.outcome]
          cases faults .finishDirectory <;> rfl

end DirectoryLayout

end Recast
