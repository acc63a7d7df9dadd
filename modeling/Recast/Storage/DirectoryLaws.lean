import Recast.Storage.LocationDirectory
import Recast.Foundation.Paged

/-!
# What the location directory reads and writes

A batch write changes the entries it names and no other entry the file
already had, whichever of its page writes fail; a batch read returns the
stored entries in input order.
-/

namespace Recast.DirectoryLayout

open Foundation

variable (layout : DirectoryLayout)

/-- A file of whole pages that the file system can address. -/
structure Aligned (file : Bytes) : Prop where
  mod_eq : file.length % layout.pageSize = 0
  le_off : file.length ≤ offMax

variable {layout}

theorem directory_pageSize_pos : 0 < layout.pageSize := by
  have := layout.pageSize_pos
  omega

theorem entry_offset (id : Nat) :
    layout.pageOf id * layout.pageSize + id % layout.entriesPerPage * 8 = id * 8 := by
  have h := Nat.div_add_mod id layout.entriesPerPage
  calc layout.pageOf id * layout.pageSize + id % layout.entriesPerPage * 8
      = (layout.entriesPerPage * (id / layout.entriesPerPage) +
          id % layout.entriesPerPage) * 8 := by rw [layout.pageSize_eq, pageOf]; ring
    _ = id * 8 := by rw [h]

theorem entry_in_page (id : Nat) : id % layout.entriesPerPage * 8 + 8 ≤ layout.pageSize := by
  have := Nat.mod_lt id layout.entriesPerPage_pos
  have := layout.pageSize_eq
  omega

/-- The page of an entry that starts inside an aligned file lies inside it. -/
theorem Aligned.page_le {file : Bytes} (haligned : layout.Aligned file) {page : Nat}
    (h : page * layout.pageSize < file.length) :
    page * layout.pageSize + layout.pageSize ≤ file.length := by
  obtain ⟨pages, hpages⟩ := Nat.dvd_of_mod_eq_zero haligned.mod_eq
  rw [hpages, Nat.mul_comm layout.pageSize] at h ⊢
  have hlt : page < pages := Nat.lt_of_mul_lt_mul_right h
  rw [← Nat.succ_mul]
  exact Nat.mul_le_mul_right _ hlt

theorem Aligned.page_le_of_entry {file : Bytes} (haligned : layout.Aligned file) {id : Nat}
    (h : id * 8 < file.length) :
    layout.pageOf id * layout.pageSize + layout.pageSize ≤ file.length := by
  apply haligned.page_le
  have := layout.entry_offset id
  omega

theorem Aligned.entry_le {file : Bytes} (haligned : layout.Aligned file) {id : Nat}
    (h : id * 8 < file.length) : id * 8 + 8 ≤ file.length := by
  have := haligned.page_le_of_entry h
  have := layout.entry_offset id
  have := layout.entry_in_page id
  omega

theorem checkedOffset_ok {page : Nat} (h : page * layout.pageSize ≤ offMax) :
    layout.checkedOffset page = .ok (page * layout.pageSize) := by
  have : page ≤ offMax / layout.pageSize := (Nat.le_div_iff_mul_le directory_pageSize_pos).mpr h
  rw [checkedOffset, if_neg (by omega)]

/-- An entry's bytes, found inside the page that holds it. -/
theorem slice_page_entry (file : Bytes) (id : Nat) :
    slice (slice file (layout.pageOf id * layout.pageSize) layout.pageSize)
        (id % layout.entriesPerPage * 8) 8 = slice file (id * 8) 8 := by
  rw [slice_slice _ (entry_in_page id), entry_offset]

/-! ### Reading -/

theorem readGroup_ok {file : Bytes} (haligned : layout.Aligned file) {group : List Request}
    {page : Nat} (hpage : ∀ request ∈ group, request.page = page)
    (hid : ∀ request ∈ group, request.page = layout.pageOf request.id)
    (hin : ∀ request ∈ group, request.id * 8 < file.length) (result : Nat → DiskLocation) :
    layout.readGroup IoFaults.none file group result =
      .ok (applyUpdates result
        (group.map fun request => (request.inputIndex, entryAt file request.id))) := by
  cases group with
  | nil => rfl
  | cons head tail =>
      have hhead := hpage head List.mem_cons_self
      have hentry := hid head List.mem_cons_self
      have hle := haligned.page_le_of_entry (hin head List.mem_cons_self)
      rw [← hentry] at hle
      have hoff := haligned.le_off
      simp only [readGroup, checkedOffset_ok (by omega : head.page * layout.pageSize ≤ offMax),
        attempt_none, preadExact_of_le hle, bind, Except.bind, pure, Except.pure]
      rw [if_neg (by omega)]
      simp only [applyUpdates, List.foldl_map]
      congr 1
      apply List.foldl_ext
      intro current request hrequest
      have hsame : head.page = layout.pageOf request.id := by
        rw [hhead, ← hpage request hrequest, hid request hrequest]
      rw [hsame, slice_page_entry, entryAt]

theorem readGroups_ok {file : Bytes} (haligned : layout.Aligned file)
    {groups : List (List Request)}
    (hpage : ∀ group ∈ groups, ∃ page, ∀ request ∈ group, request.page = page)
    (hid : ∀ request ∈ groups.flatten, request.page = layout.pageOf request.id)
    (hin : ∀ request ∈ groups.flatten, request.id * 8 < file.length)
    (result : Nat → DiskLocation) :
    layout.readGroups IoFaults.none file groups result =
      .ok (applyUpdates result
        (groups.flatten.map fun request =>
          (request.inputIndex, entryAt file request.id))) := by
  induction groups generalizing result with
  | nil => rfl
  | cons group rest ih =>
      obtain ⟨page, hsame⟩ := hpage group List.mem_cons_self
      have hgroup := layout.readGroup_ok haligned hsame
        (fun request h => hid request (by simp [h]))
        (fun request h => hin request (by simp [h])) result
      rw [readGroups, hgroup]
      simp only [bind, Except.bind]
      rw [ih (fun group h => hpage group (List.mem_cons_of_mem _ h))
        (fun request h => hid request (by simp only [List.flatten_cons, List.mem_append]; exact Or.inr h))
        (fun request h => hin request (by simp only [List.flatten_cons, List.mem_append]; exact Or.inr h))]
      rw [List.flatten_cons, List.map_append, applyUpdates_append]

/-- The requests `read_batch` makes for a batch. -/
def requests (layout : DirectoryLayout) (ids : List Nat) : List Request :=
  ids.mapIdx fun i id => Request.mk (layout.pageOf id) id i

theorem requests_inputIndex (ids : List Nat) :
    (layout.requests ids).map Request.inputIndex = List.range ids.length := by
  apply List.ext_getElem (by simp [requests])
  intro i _ _
  simp [requests]

/-- Reading a batch whose entries all exist returns them in input order. -/
theorem readBatch_ok {file : Bytes} (haligned : layout.Aligned file) {ids : List Nat}
    (hin : ∀ id ∈ ids, id * 8 < file.length) :
    layout.readBatch IoFaults.none file ids = .ok (ids.map (entryAt file)) := by
  unfold readBatch
  split
  next hnil => rw [hnil]; rfl
  next =>
    rw [← requests]
    have hperm : ((layout.requests ids).insertionSort Request.before).Perm
        (layout.requests ids) := List.perm_insertionSort _ _
    have hmem : ∀ request ∈ (layout.requests ids).insertionSort Request.before,
        request.page = layout.pageOf request.id ∧ request.id ∈ ids := by
      intro request hrequest
      obtain ⟨i, hi, rfl⟩ := List.mem_mapIdx.mp (hperm.mem_iff.mp hrequest)
      exact ⟨rfl, List.getElem_mem hi⟩
    have hread := @readGroups_ok layout file haligned
      (((layout.requests ids).insertionSort Request.before).splitBy
        fun lhs rhs => lhs.page == rhs.page)
      (fun group hgroup => by
        obtain ⟨head, hhead⟩ := List.exists_mem_of_ne_nil _ (List.ne_nil_of_mem_splitBy hgroup)
        exact ⟨head.page, fun request h => key_eq_of_mem_splitBy hgroup h hhead⟩)
      (fun request h => (hmem request (by rwa [List.flatten_splitBy] at h)).1)
      (fun request h => hin _ (hmem request (by rwa [List.flatten_splitBy] at h)).2)
      (fun _ => DiskLocation.tombstone)
    have hmod := haligned.mod_eq
    simp only [attempt_none, bind, Except.bind, pure, Except.pure, hmod, ne_eq,
      not_true_eq_false, if_false, hread, List.flatten_splitBy]
    congr 1
    have hkeys : ((layout.requests ids).map fun request =>
        (request.inputIndex, entryAt file request.id)).map Prod.fst = List.range ids.length := by
      rw [List.map_map, ← @requests_inputIndex layout]
      rfl
    rw [applyUpdates_perm _ (hperm.map _) (by
      rw [(hperm.map _).map Prod.fst |>.nodup_iff, hkeys]
      exact List.nodup_range)]
    apply List.ext_getElem (by simp)
    intro i hi _
    have hi : i < ids.length := by simpa using hi
    rw [List.getElem_map, List.getElem_range, List.getElem_map]
    apply applyUpdates_of_mem _ (by rw [hkeys]; exact List.nodup_range)
    rw [List.mem_map]
    exact ⟨⟨layout.pageOf ids[i], ids[i], i⟩, List.mem_mapIdx.mpr ⟨i, hi, rfl⟩, rfl⟩

/-- A group that is answered lies inside the file; the answer does not depend
on what could have failed. -/
theorem readGroup_eq_ok {faults : IoFaults} {file : Bytes} {group : List Request}
    {result answered : Nat → DiskLocation}
    (h : layout.readGroup faults file group result = .ok answered) :
    layout.readGroup IoFaults.none file group result = .ok answered ∧
      ∀ request ∈ group.head?, request.page * layout.pageSize + layout.pageSize ≤ file.length := by
  cases group with
  | nil => exact ⟨h, by simp⟩
  | cons head tail =>
      simp only [readGroup, bind_eq_ok, guard_eq_ok] at h ⊢
      obtain ⟨offset, hoffset, hend, -, -, hpage⟩ := h
      refine ⟨⟨offset, hoffset, hend, (), rfl, hpage⟩, fun request hrequest => ?_⟩
      obtain rfl : head = request := by simpa using hrequest
      rw [checkedOffset, guard_eq_ok] at hoffset
      rw [Except.ok.inj hoffset.2]
      exact Nat.not_lt.mp hend

theorem readGroups_eq_ok {faults : IoFaults} {file : Bytes} {groups : List (List Request)}
    {result answered : Nat → DiskLocation}
    (h : layout.readGroups faults file groups result = .ok answered) :
    layout.readGroups IoFaults.none file groups result = .ok answered ∧
      ∀ group ∈ groups, ∀ request ∈ group.head?,
        request.page * layout.pageSize + layout.pageSize ≤ file.length := by
  induction groups generalizing result with
  | nil => exact ⟨h, by simp⟩
  | cons first rest ih =>
      rw [readGroups, bind_eq_ok] at h ⊢
      obtain ⟨next, hfirst, hrest⟩ := h
      obtain ⟨hnone, hinside⟩ := readGroup_eq_ok hfirst
      obtain ⟨hnones, hinsides⟩ := ih hrest
      refine ⟨⟨next, hnone, hnones⟩, fun group hgroup => ?_⟩
      rcases List.mem_cons.mp hgroup with rfl | hgroup
      · exact hinside
      · exact hinsides group hgroup

/-- A batch that is answered names only entries inside an aligned file, and is
answered with what the file stores for them. -/
theorem readBatch_eq_ok {faults : IoFaults} {file : Bytes} (haligned : layout.Aligned file)
    {ids : List Nat} {locations : List DiskLocation}
    (h : layout.readBatch faults file ids = .ok locations) :
    locations = ids.map (entryAt file) ∧ ∀ id ∈ ids, id * 8 < file.length := by
  by_cases hnil : ids = []
  · subst hnil
    exact ⟨(Except.ok.inj h).symm, by simp⟩
  have hrun := h
  rw [readBatch, if_neg hnil, ← requests] at h
  simp only [bind_eq_ok, guard_eq_ok] at h
  obtain ⟨-, -, hmod, answered, hread, hanswered⟩ := h
  obtain ⟨hnone, hinsides⟩ := readGroups_eq_ok hread
  have hin : ∀ id ∈ ids, id * 8 < file.length := by
    intro id hid
    obtain ⟨i, hi, rfl⟩ := List.getElem_of_mem hid
    have hrequest : (⟨layout.pageOf ids[i], ids[i], i⟩ : Request) ∈
        (((layout.requests ids).insertionSort Request.before).splitBy
          fun lhs rhs => lhs.page == rhs.page).flatten := by
      rw [List.flatten_splitBy, List.mem_insertionSort]
      exact List.mem_mapIdx.mpr ⟨i, hi, rfl⟩
    obtain ⟨group, hgroup, hmem⟩ := List.mem_flatten.mp hrequest
    have hne := List.ne_nil_of_mem_splitBy hgroup
    have hinside := hinsides group hgroup (group.head hne) (List.head?_eq_some_head hne)
    have hpage := key_eq_of_mem_splitBy hgroup (List.head_mem hne) hmem
    rw [hpage] at hinside
    have := layout.entry_offset ids[i]
    have := layout.entry_in_page ids[i]
    dsimp only at hinside
    omega
  have hsame : layout.readBatch IoFaults.none file ids = .ok locations := by
    rw [readBatch, if_neg hnil, ← requests]
    simp only [bind_eq_ok, guard_eq_ok]
    exact ⟨(), rfl, hmod, answered, hnone, hanswered⟩
  exact ⟨Except.ok.inj (hsame.symm.trans (readBatch_ok haligned hin)), hin⟩

/-! ### Writing -/

/-- The directory as a paged file of eight-byte slots. -/
def paging (layout : DirectoryLayout) : Paging where
  pageBytes := layout.pageSize
  perPage := layout.entriesPerPage
  width := 8
  perPage_pos := layout.entriesPerPage_pos
  width_pos := by norm_num
  fits := Nat.le_of_eq layout.pageSize_eq.symm

theorem paging_slotOffset (id : Nat) : layout.paging.slotOffset id = id * 8 := entry_offset id

theorem entryAt_eq_slotAt (layout : DirectoryLayout) (file : Bytes) (id : Nat) :
    entryAt file id = DiskLocation.decode (layout.paging.slotAt file id) := by
  rw [entryAt, Paging.slotAt, paging_slotOffset]
  rfl

/-- `file'` is `file` with the updates stored: the entries the file had follow
the updates in order, and with distinct IDs every update can be read back. -/
structure Written (layout : DirectoryLayout) (file : Bytes) (updates : List Update)
    (file' : Bytes) : Prop where
  aligned : layout.Aligned file'
  grows : file.length ≤ file'.length
  kept : ∀ id, id * 8 < file.length → entryAt file' id = applyUpdates (entryAt file) updates id
  covers : ∀ update ∈ updates, update.1 * 8 < file'.length
  stored : (updates.map Prod.fst).Nodup → ∀ update ∈ updates, entryAt file' update.1 = update.2

theorem Written.refl {file : Bytes} (haligned : layout.Aligned file) :
    layout.Written file [] file where
  aligned := haligned
  grows := Nat.le_refl _
  kept := fun _ _ => rfl
  covers := by simp
  stored := by simp

theorem Written.trans {file file' file'' : Bytes} {first second : List Update}
    (hfirst : layout.Written file first file') (hsecond : layout.Written file' second file'') :
    layout.Written file (first ++ second) file'' where
  aligned := hsecond.aligned
  grows := Nat.le_trans hfirst.grows hsecond.grows
  kept := by
    intro id hid
    rw [hsecond.kept id (Nat.lt_of_lt_of_le hid hfirst.grows), applyUpdates_append]
    exact applyUpdates_congr _ (hfirst.kept id hid)
  covers := by
    intro update hupdate
    rcases List.mem_append.mp hupdate with h | h
    · exact Nat.lt_of_lt_of_le (hfirst.covers update h) hsecond.grows
    · exact hsecond.covers update h
  stored := by
    intro hnodup update hupdate
    rw [List.map_append, List.nodup_append] at hnodup
    obtain ⟨hnodup₁, hnodup₂, hdisjoint⟩ := hnodup
    rcases List.mem_append.mp hupdate with h | h
    · have hnot : update.1 ∉ second.map Prod.fst := fun hmem =>
        hdisjoint _ (List.mem_map_of_mem h) _ hmem rfl
      rw [hsecond.kept _ (hfirst.covers update h), applyUpdates_of_notMem _ hnot,
        hfirst.stored hnodup₁ update h]
    · exact hsecond.stored hnodup₂ update h

theorem lanes_ok (group : List Update) :
    ∀ update ∈ group.map fun update : Update =>
        (update.1 % layout.entriesPerPage, update.2.encode),
      update.1 < layout.paging.perPage ∧ update.2.length = layout.paging.width := by
  intro update hupdate
  obtain ⟨original, _, rfl⟩ := List.mem_map.mp hupdate
  exact ⟨layout.paging.lane_lt original.1, DiskLocation.length_encode _⟩

theorem writeEntries_eq (page : Bytes) (group : List Update) :
    layout.writeEntries page group = layout.paging.writeLanes page
      (group.map fun update => (update.1 % layout.entriesPerPage, update.2.encode)) := by
  rw [writeEntries, Paging.writeLanes, List.foldl_map]
  rfl

theorem length_writeEntries {page : Bytes} (hlength : page.length = layout.pageSize)
    (group : List Update) : (layout.writeEntries page group).length = layout.pageSize := by
  rw [writeEntries_eq]
  exact layout.paging.length_writeLanes hlength (lanes_ok group)

/-- Two entries of one page in the same lane are one entry. -/
theorem id_eq_of_lane_eq {id id' : Nat} (hpage : layout.pageOf id = layout.pageOf id')
    (hlane : id % layout.entriesPerPage = id' % layout.entriesPerPage) : id = id' := by
  have h := Nat.div_add_mod id layout.entriesPerPage
  rw [pageOf, pageOf] at hpage
  rw [hpage, hlane, Nat.div_add_mod] at h
  exact h.symm

/-- The entries of a page buffer after the updates of that page. -/
theorem decode_writeEntries {page : Bytes} (hlength : page.length = layout.pageSize)
    {group : List Update} {id : Nat}
    (hgroup : ∀ update ∈ group, layout.pageOf update.1 = layout.pageOf id) {old : Nat → DiskLocation}
    (hold : DiskLocation.decode (slice page (id % layout.entriesPerPage * 8) 8) = old id) :
    DiskLocation.decode
        (slice (layout.writeEntries page group) (id % layout.entriesPerPage * 8) 8) =
      applyUpdates old group id := by
  have hwritten := @Paging.lane_writeLanes _ layout.paging _ hlength _ (lanes_ok group)
    (id % layout.entriesPerPage)
  rw [writeEntries_eq]
  refine (congrArg DiskLocation.decode hwritten).trans ?_
  apply read_applyUpdates_map (· % layout.entriesPerPage) DiskLocation.decode_encode hold
  intro update hupdate hlane
  exact id_eq_of_lane_eq (hgroup update hupdate) hlane

/-- The entry of `id`, where a page the file lacks holds tombstones. -/
def entryOr (file : Bytes) (id : Nat) : DiskLocation :=
  if id * 8 < file.length then entryAt file id else DiskLocation.tombstone

theorem entryOr_of_lt {file : Bytes} {id : Nat} (h : id * 8 < file.length) :
    entryOr file id = entryAt file id := if_pos h

theorem decode_tombstones {offset : Nat} (h : offset + 8 ≤ layout.pageSize) :
    DiskLocation.decode (slice (List.replicate layout.pageSize 0xff) offset 8) =
      DiskLocation.tombstone := by
  rw [slice_replicate _ h]
  rfl

theorem checkedOffset_eq_ok {page offset : Nat} :
    layout.checkedOffset page = .ok offset ↔
      page * layout.pageSize ≤ offMax ∧ offset = page * layout.pageSize := by
  rw [checkedOffset, guard_eq_ok, Nat.not_lt, Nat.le_div_iff_mul_le directory_pageSize_pos, Except.ok.injEq,
    eq_comm (a := offset)]

/-- The page buffer holds the stored entries, or tombstones. -/
theorem fetchPage_entry {faults : IoFaults} {file page : Bytes} (haligned : layout.Aligned file)
    {pageId : Nat}
    (h : layout.fetchPage faults file file.length pageId (pageId * layout.pageSize) = .ok page) :
    page.length = layout.pageSize ∧ ∀ id, layout.pageOf id = pageId →
      DiskLocation.decode (slice page (id % layout.entriesPerPage * 8) 8) = entryOr file id := by
  rw [fetchPage] at h
  split at h
  next hlt =>
    have hle := haligned.page_le hlt
    obtain ⟨_, _, hread⟩ := bind_eq_ok.mp h
    obtain ⟨_, rfl⟩ := preadExact_eq_ok.mp hread
    refine ⟨length_slice_of_le hle, fun id hid => ?_⟩
    have hoffset := layout.entry_offset id
    have hin := layout.entry_in_page id
    rw [← hid, slice_page_entry, entryOr_of_lt (by rw [hid] at hoffset; omega)]
    rfl
  next hlt =>
    obtain rfl := Except.ok.inj h
    refine ⟨List.length_replicate, fun id hid => ?_⟩
    have hoffset := layout.entry_offset id
    rw [decode_tombstones (entry_in_page id), entryOr, if_neg (by rw [hid] at hoffset; omega)]

theorem add_pageSize_mod (page : Nat) :
    (page * layout.pageSize + layout.pageSize) % layout.pageSize = 0 := by
  rw [← Nat.succ_mul]
  exact Nat.mul_mod_left _ _

/-- One page write: the new length, and every entry that is not in a hole. -/
theorem writeGroup_entry {faults : IoFaults} {file file' : Bytes} (haligned : layout.Aligned file)
    {head : Update} {tail : List Update} {currentBytes : Nat}
    (hsame : ∀ update ∈ head :: tail, layout.pageOf update.1 = layout.pageOf head.1)
    (h : layout.writeGroup faults file file.length (head :: tail) = .ok (file', currentBytes)) :
    currentBytes = file'.length ∧ layout.Aligned file' ∧
      file'.length = max file.length (layout.pageOf head.1 * layout.pageSize + layout.pageSize) ∧
      ∀ id, id * 8 < file.length ∨ layout.pageOf id = layout.pageOf head.1 →
        entryAt file' id = if layout.pageOf id = layout.pageOf head.1
          then applyUpdates (entryOr file) (head :: tail) id else entryAt file id := by
  obtain ⟨offset, hoffset, h⟩ := bind_eq_ok.mp h
  obtain ⟨-, rfl⟩ := checkedOffset_eq_ok.mp hoffset
  obtain ⟨page, hpage, h⟩ := bind_eq_ok.mp h
  obtain ⟨-, -, h⟩ := bind_eq_ok.mp h
  obtain ⟨written, hwrite, h⟩ := bind_eq_ok.mp h
  obtain ⟨rfl, rfl⟩ := Prod.mk.inj (Except.ok.inj h)
  obtain ⟨hlength, hentries⟩ := fetchPage_entry haligned hpage
  have hbuffer := length_writeEntries hlength (head :: tail)
  obtain ⟨hoff, rfl⟩ := pwriteExact_eq_ok.mp hwrite
  rw [hbuffer] at hoff
  have hnew := length_overwrite 0 file (layout.pageOf head.1 * layout.pageSize)
    (layout.writeEntries page (head :: tail))
  rw [hbuffer] at hnew
  refine ⟨hnew.symm, ⟨?_, ?_⟩, hnew, fun id hid => ?_⟩
  · rw [hnew]
    rcases Nat.le_total file.length (layout.pageOf head.1 * layout.pageSize + layout.pageSize)
      with hle | hle
    · rw [Nat.max_eq_right hle, add_pageSize_mod]
    · rw [Nat.max_eq_left hle, haligned.mod_eq]
  · have := haligned.le_off
    omega
  · rw [entryAt_eq_slotAt layout]
    have hslot := layout.paging.slotAt_overwrite 0 file (layout.pageOf head.1) hbuffer (i := id)
      (fun hne => by
        rw [paging_slotOffset]
        exact haligned.entry_le (hid.resolve_right hne))
    by_cases heq : layout.pageOf id = layout.pageOf head.1
    · rw [if_pos heq]
      refine (congrArg DiskLocation.decode (hslot.trans (if_pos heq))).trans ?_
      exact decode_writeEntries hlength (fun update h => (hsame update h).trans heq.symm)
        (hentries id heq)
    · rw [if_neg heq, entryAt_eq_slotAt layout]
      exact congrArg DiskLocation.decode (hslot.trans (if_neg heq))

theorem writeGroup_written {faults : IoFaults} {file file' : Bytes} (haligned : layout.Aligned file)
    {group : List Update} {page currentBytes : Nat}
    (hpage : ∀ update ∈ group, layout.pageOf update.1 = page)
    (h : layout.writeGroup faults file file.length group = .ok (file', currentBytes)) :
    currentBytes = file'.length ∧ layout.Written file group file' := by
  cases group with
  | nil =>
      obtain ⟨rfl, rfl⟩ := Prod.mk.inj (Except.ok.inj h)
      exact ⟨rfl, .refl haligned⟩
  | cons head tail =>
      have hsame : ∀ update ∈ head :: tail, layout.pageOf update.1 = layout.pageOf head.1 :=
        fun update h => (hpage update h).trans (hpage head List.mem_cons_self).symm
      obtain ⟨hbytes, haligned', hlength, hentry⟩ := writeGroup_entry haligned hsame h
      refine ⟨hbytes, haligned', by omega, fun id hid => ?_, fun update hupdate => ?_,
        fun hnodup update hupdate => ?_⟩
      · rw [hentry id (Or.inl hid)]
        split
        next => exact applyUpdates_congr _ (entryOr_of_lt hid)
        next hne =>
          rw [applyUpdates_of_notMem]
          intro hmem
          obtain ⟨update, hupdate, rfl⟩ := List.mem_map.mp hmem
          exact hne (hsame update hupdate)
      · have := layout.entry_offset update.1
        have := layout.entry_in_page update.1
        have := hsame update hupdate
        rw [hlength, ← this]
        omega
      · rw [hentry _ (Or.inr (hsame update hupdate)), if_pos (hsame update hupdate)]
        exact applyUpdates_of_mem _ hnodup hupdate

/-- The page loop stores a prefix of the pages, and all of them if it returns. -/
theorem writeGroups_written (faults : IoFaults) {groups : List (List Update)} {file : Bytes}
    (haligned : layout.Aligned file)
    (hpage : ∀ group ∈ groups, ∃ page, ∀ update ∈ group, layout.pageOf update.1 = page) :
    ∃ done rest, groups = done ++ rest ∧
      layout.Written file done.flatten (layout.writeGroups faults groups file file.length).1 ∧
      ∀ currentBytes, (layout.writeGroups faults groups file file.length).2 = .ok currentBytes →
        rest = [] ∧ currentBytes = (layout.writeGroups faults groups file file.length).1.length := by
  induction groups generalizing file with
  | nil =>
      refine ⟨[], [], rfl, .refl haligned, fun currentBytes h => ⟨rfl, ?_⟩⟩
      exact (Except.ok.inj h).symm
  | cons group groups ih =>
      rw [writeGroups]
      cases hgroup : layout.writeGroup faults file file.length group with
      | error error => exact ⟨[], group :: groups, rfl, .refl haligned, by simp⟩
      | ok next =>
          obtain ⟨file', currentBytes⟩ := next
          obtain ⟨page, hsame⟩ := hpage group List.mem_cons_self
          obtain ⟨rfl, hwritten⟩ := writeGroup_written haligned hsame hgroup
          obtain ⟨done, rest, rfl, hrest, hall⟩ := ih hwritten.aligned
            (fun group h => hpage group (List.mem_cons_of_mem _ h))
          exact ⟨group :: done, rest, rfl, by simpa using hwritten.trans hrest, hall⟩

theorem pageGroups_same (updates : List Update) :
    ∀ group ∈ layout.pageGroups updates, ∃ page, ∀ update ∈ group, layout.pageOf update.1 = page := by
  intro group hgroup
  obtain ⟨head, hhead⟩ := List.exists_mem_of_ne_nil _ (List.ne_nil_of_mem_splitBy hgroup)
  exact ⟨layout.pageOf head.1, fun update h => key_eq_of_mem_splitBy hgroup h hhead⟩

theorem pageGroups_flatten (updates : List Update) :
    (layout.pageGroups updates).flatten.Perm updates := by
  rw [pageGroups, List.flatten_splitBy]
  exact List.perm_insertionSort _ _

theorem distinct_iff (updates : List Update) :
    hasAdjacentEqual ((updates.insertionSort Update.before).map Prod.fst) = false ↔
      (updates.map Prod.fst).Nodup := by
  have : Std.Total Update.before := ⟨fun lhs rhs => Nat.le_total lhs.1 rhs.1⟩
  have : IsTrans Update Update.before := ⟨fun _ _ _ => Nat.le_trans⟩
  exact hasAdjacentEqual_sorted_iff (fun _ _ h => h) updates

theorem ftruncate_self_of_eq {file : Bytes} {size : Nat} (h : size = file.length) :
    ftruncate file size = file := by
  rw [h, ftruncate_length]

/-- A batch write, whichever of its calls fail, stores some of the updates,
and all of them if it returns. -/
theorem writeBatch_written (faults : IoFaults) {file : Bytes} (haligned : layout.Aligned file)
    (updates : List Update) :
    ∃ done rest, (done ++ rest).Perm updates ∧
      layout.Written file done (layout.writeBatch faults file updates).1 ∧
      ((layout.writeBatch faults file updates).2 = .ok () → rest = []) := by
  obtain ⟨done, rest, hgroups, hwritten, hall⟩ :=
    writeGroups_written faults haligned (layout.pageGroups_same updates)
  have hperm := layout.pageGroups_flatten updates
  rw [hgroups, List.flatten_append] at hperm
  have hnone : ∀ error : Error, ∃ done rest, (done ++ rest).Perm updates ∧
      layout.Written file done file ∧
      ((.error error : Except Error Unit) = .ok () → rest = []) := fun _ =>
    ⟨[], updates, .refl _, .refl haligned, by simp⟩
  unfold writeBatch
  split
  next hempty => exact ⟨[], [], by rw [hempty]; rfl, .refl haligned, fun _ => rfl⟩
  next =>
  split
  next => exact hnone _
  next =>
  split
  next => exact hnone _
  next =>
  split
  next hmod => exact absurd haligned.mod_eq hmod
  next =>
  split
  next file' error heq =>
    rw [heq] at hwritten
    exact ⟨done.flatten, rest.flatten, hperm, hwritten, by simp⟩
  next file' currentBytes heq =>
    rw [heq] at hwritten hall
    obtain ⟨hrest, hbytes⟩ := hall currentBytes rfl
    rw [ftruncate_self_of_eq hbytes]
    refine ⟨done.flatten, rest.flatten, hperm, ?_, fun _ => by rw [hrest]; rfl⟩
    split <;> exact hwritten

/-! ### Writing when no system call fails -/

theorem fetchPage_none {file : Bytes} (haligned : layout.Aligned file) (pageId : Nat) :
    ∃ page, layout.fetchPage IoFaults.none file file.length pageId (pageId * layout.pageSize) =
      .ok page := by
  rw [fetchPage]
  split
  next hlt =>
    rw [attempt_none, ok_bind, preadExact_of_le (haligned.page_le hlt)]
    exact ⟨_, rfl⟩
  next => exact ⟨_, rfl⟩

/-- Only the file system's size limit stops the write of an addressable page. -/
theorem writeGroup_none {file : Bytes} (haligned : layout.Aligned file) {head : Update}
    {tail : List Update} (hoff : layout.pageOf head.1 * layout.pageSize ≤ offMax) :
    (layout.pageOf head.1 * layout.pageSize + layout.pageSize ≤ offMax ∧
      ∃ result, layout.writeGroup IoFaults.none file file.length (head :: tail) = .ok result) ∨
    (¬ layout.pageOf head.1 * layout.pageSize + layout.pageSize ≤ offMax ∧
      layout.writeGroup IoFaults.none file file.length (head :: tail) = .error (.system "pwrite")) := by
  obtain ⟨page, hpage⟩ := layout.fetchPage_none haligned (layout.pageOf head.1)
  have hbuffer := length_writeEntries (fetchPage_entry haligned hpage).1 (head :: tail)
  rw [writeGroup]
  simp only [checkedOffset_ok hoff, ok_bind, hpage, attempt_none, pwriteExact, hbuffer]
  split
  next h => exact Or.inr ⟨by omega, rfl⟩
  next h => exact Or.inl ⟨by omega, _, rfl⟩

/-- Without injected faults the page loop returns, unless a page lies beyond
what the file system can address. -/
theorem writeGroups_none {groups : List (List Update)} {file : Bytes}
    (haligned : layout.Aligned file)
    (hpage : ∀ group ∈ groups, ∃ page, ∀ update ∈ group, layout.pageOf update.1 = page)
    (hoff : ∀ update ∈ groups.flatten, layout.pageOf update.1 * layout.pageSize ≤ offMax) :
    (∃ currentBytes, (layout.writeGroups IoFaults.none groups file file.length).2 = .ok currentBytes) ∨
    ((∃ update ∈ groups.flatten, ¬ layout.pageOf update.1 * layout.pageSize + layout.pageSize ≤ offMax) ∧
      (layout.writeGroups IoFaults.none groups file file.length).2 = .error (.system "pwrite")) := by
  induction groups generalizing file with
  | nil => exact Or.inl ⟨_, rfl⟩
  | cons group groups ih =>
      have hmem : ∀ update ∈ group, update ∈ (group :: groups).flatten := fun update h => by
        rw [List.flatten_cons]
        exact List.mem_append_left _ h
      have hnext : ∀ {file' : Bytes} {currentBytes : Nat},
          layout.writeGroup IoFaults.none file file.length group = .ok (file', currentBytes) →
          (∃ currentBytes,
            (layout.writeGroups IoFaults.none (group :: groups) file file.length).2 =
              .ok currentBytes) ∨
          ((∃ update ∈ (group :: groups).flatten,
              ¬ layout.pageOf update.1 * layout.pageSize + layout.pageSize ≤ offMax) ∧
            (layout.writeGroups IoFaults.none (group :: groups) file file.length).2 =
              .error (.system "pwrite")) := by
        intro file' currentBytes hgroup
        obtain ⟨page, hsame⟩ := hpage group List.mem_cons_self
        obtain ⟨rfl, hwritten⟩ := writeGroup_written haligned hsame hgroup
        have hrest := ih hwritten.aligned (fun group h => hpage group (List.mem_cons_of_mem _ h))
          (fun update h => hoff update (by rw [List.flatten_cons]; exact List.mem_append_right _ h))
        rw [writeGroups, hgroup]
        rcases hrest with h | ⟨⟨update, hupdate, hbig⟩, h⟩
        · exact Or.inl h
        · refine Or.inr ⟨⟨update, ?_, hbig⟩, h⟩
          rw [List.flatten_cons]
          exact List.mem_append_right _ hupdate
      cases group with
      | nil => exact hnext rfl
      | cons head tail =>
          rcases writeGroup_none haligned (hoff head (hmem head List.mem_cons_self)) with
            ⟨_, ⟨file', currentBytes⟩, hgroup⟩ | ⟨hbig, herror⟩
          · exact hnext hgroup
          · refine Or.inr ⟨⟨head, hmem head List.mem_cons_self, hbig⟩, ?_⟩
            rw [writeGroups, herror]

/-- Without injected faults a batch of distinct IDs returns when its page loop
does. -/
theorem writeBatch_loop {file : Bytes} (haligned : layout.Aligned file) {updates : List Update}
    (hnodup : (updates.map Prod.fst).Nodup) (hne : updates ≠ []) :
    (layout.writeBatch IoFaults.none file updates).2 =
      (layout.writeGroups IoFaults.none (layout.pageGroups updates) file file.length).2.map
        fun _ => () := by
  unfold writeBatch
  simp only [if_neg hne, (distinct_iff updates).mpr hnodup, IoFaults.none_apply,
    haligned.mod_eq, ne_eq, not_true_eq_false, Bool.false_eq_true, if_false]
  rcases layout.writeGroups IoFaults.none (layout.pageGroups updates) file file.length with
    ⟨file', error | currentBytes⟩
  · rfl
  · rfl

/-- Without injected faults a batch of distinct addressable IDs is written,
unless a page lies beyond what the file system can address. -/
theorem writeBatch_none {file : Bytes} (haligned : layout.Aligned file) {updates : List Update}
    (hnodup : (updates.map Prod.fst).Nodup) (hoff : ∀ update ∈ updates, update.1 * 8 ≤ offMax) :
    (layout.writeBatch IoFaults.none file updates).2 = .ok () ∨
    ((∃ update ∈ updates, file.length ≤ update.1 * 8) ∧
      (layout.writeBatch IoFaults.none file updates).2 = .error (.system "pwrite")) := by
  by_cases hne : updates = []
  · rw [hne]
    exact Or.inl rfl
  have hmem : ∀ update ∈ (layout.pageGroups updates).flatten, update ∈ updates := fun update h =>
    layout.pageGroups_flatten updates |>.mem_iff.mp h
  have hloop := writeGroups_none haligned (layout.pageGroups_same updates) (fun update h => by
    have := layout.entry_offset update.1
    have := hoff update (hmem update h)
    omega)
  rw [writeBatch_loop haligned hnodup hne]
  rcases hloop with ⟨currentBytes, hok⟩ | ⟨⟨update, hupdate, hbig⟩, herror⟩
  · rw [hok]
    exact Or.inl rfl
  · rw [herror]
    refine Or.inr ⟨⟨update, hmem update hupdate, ?_⟩, rfl⟩
    by_contra hlt
    have := haligned.page_le_of_entry (Nat.not_le.mp hlt)
    have := haligned.le_off
    omega

/-- Without injected faults a batch of distinct IDs is written when the file
system can address its pages. -/
theorem writeBatch_addressable {file : Bytes} (haligned : layout.Aligned file)
    {updates : List Update} (hnodup : (updates.map Prod.fst).Nodup)
    (hoff : ∀ update ∈ updates, layout.pageOf update.1 * layout.pageSize + layout.pageSize ≤ offMax) :
    (layout.writeBatch IoFaults.none file updates).2 = .ok () := by
  by_cases hne : updates = []
  · rw [hne]
    rfl
  have hin : ∀ update ∈ (layout.pageGroups updates).flatten,
      layout.pageOf update.1 * layout.pageSize + layout.pageSize ≤ offMax := fun update h =>
    hoff update (layout.pageGroups_flatten updates |>.mem_iff.mp h)
  rw [writeBatch_loop haligned hnodup hne]
  rcases writeGroups_none haligned (layout.pageGroups_same updates)
    (fun update h => Nat.le_of_add_right_le (hin update h)) with
    ⟨currentBytes, hok⟩ | ⟨⟨update, hupdate, hbig⟩, -⟩
  · rw [hok]
    rfl
  · exact absurd (hin update hupdate) hbig

end Recast.DirectoryLayout
