import Recast.Storage.DirectoryLaws

/-!
# The location directory as a map

A run of batch writes from a new directory stores the last location of every ID
written. The other IDs of a written page read as tombstones, unless a batch
skipped the page before: then it was a hole of the file, and they read as zeros.
-/

namespace Recast.DirectoryLayout

open Foundation

variable {layout : DirectoryLayout}

/-- The files of a new directory after batch writes that returned. -/
inductive Wrote (layout : DirectoryLayout) : List (List Update) → Bytes → Prop where
  | create : Wrote layout [] []
  | write {batches : List (List Update)} {file : Bytes} (faults : IoFaults)
      (updates : List Update) : Wrote layout batches file →
      (layout.writeBatch faults file updates).2 = .ok () →
      Wrote layout (batches ++ [updates]) (layout.writeBatch faults file updates).1

/-- The map a sequence of updates leaves: an ID never written has no location. -/
def lastWritten (updates : List Update) : Nat → DiskLocation :=
  applyUpdates (fun _ => DiskLocation.tombstone) updates

/-- Some update falls on the page. -/
def Touches (layout : DirectoryLayout) (updates : List Update) (page : Nat) : Prop :=
  ∃ update ∈ updates, layout.pageOf update.1 = page

/-- The batches reach the page or a later one. -/
def Reaches (layout : DirectoryLayout) (updates : List Update) (page : Nat) : Prop :=
  ∃ update ∈ updates, page ≤ layout.pageOf update.1

/-- After some of the batches the page lies below a written one and was never
written itself. -/
def Skipped (layout : DirectoryLayout) (batches : List (List Update)) (page : Nat) : Prop :=
  ∃ first, first <+: batches ∧ layout.Reaches first.flatten page ∧
    ¬layout.Touches first.flatten page

/-- What a batch read must answer: the last location of every written ID, and
for other IDs a tombstone or an error. -/
structure ReadsAs (layout : DirectoryLayout) (file : Bytes) (batches : List (List Update)) :
    Prop where
  written : ∀ ids, (∀ id ∈ ids, id ∈ batches.flatten.map Prod.fst) →
    layout.readBatch IoFaults.none file ids = .ok (ids.map (lastWritten batches.flatten))
  answered : ∀ faults ids locations, layout.readBatch faults file ids = .ok locations →
    locations = ids.map (lastWritten batches.flatten)

/-- The entry a hole of the file shows. -/
def holeEntry : DiskLocation := ⟨0, 0⟩

theorem lastWritten_of_notMem {updates : List Update} {id : Nat}
    (h : id ∉ updates.map Prod.fst) : lastWritten updates id = DiskLocation.tombstone :=
  applyUpdates_of_notMem _ h

theorem touches_of_mem {updates : List Update} {id : Nat} (h : id ∈ updates.map Prod.fst) :
    layout.Touches updates (layout.pageOf id) := by
  obtain ⟨update, hupdate, rfl⟩ := List.mem_map.mp h
  exact ⟨update, hupdate, rfl⟩

theorem Touches.reaches {updates : List Update} {page : Nat} (h : layout.Touches updates page) :
    layout.Reaches updates page := by
  obtain ⟨update, hupdate, rfl⟩ := h
  exact ⟨update, hupdate, Nat.le_refl _⟩

theorem reaches_append {first second : List Update} {page : Nat} :
    layout.Reaches (first ++ second) page ↔
      layout.Reaches first page ∨ layout.Reaches second page := by
  simp only [Reaches, List.mem_append, or_and_right, exists_or]

theorem touches_append {first second : List Update} {page : Nat} :
    layout.Touches (first ++ second) page ↔
      layout.Touches first page ∨ layout.Touches second page := by
  simp only [Touches, List.mem_append, or_and_right, exists_or]

/-- An entry lies inside an aligned file when its page does. -/
theorem Aligned.lt_iff {file : Bytes} (haligned : layout.Aligned file) {id : Nat} :
    id * 8 < file.length ↔ layout.pageOf id * layout.pageSize < file.length := by
  have hoffset := layout.entry_offset id
  have hin := layout.entry_in_page id
  constructor
  · intro h
    omega
  · intro h
    have := haligned.page_le h
    omega

/-! ### One batch -/

/-- The file after the updates: its pages, and each of its entries. An entry past
the old end is in a hole when its page was not written. -/
structure Grown (layout : DirectoryLayout) (file : Bytes) (updates : List Update)
    (file' : Bytes) : Prop where
  aligned : layout.Aligned file'
  page_lt : ∀ page, page * layout.pageSize < file'.length ↔
    page * layout.pageSize < file.length ∨ layout.Reaches updates page
  entry : ∀ id, id * 8 < file.length ∨ layout.Touches updates (layout.pageOf id) →
    entryAt file' id = applyUpdates (entryOr file) updates id
  hole : ∀ id, id * 8 < file'.length → ¬id * 8 < file.length →
    ¬layout.Touches updates (layout.pageOf id) → entryAt file' id = holeEntry

theorem grown_nil {file : Bytes} (haligned : layout.Aligned file) : layout.Grown file [] file where
  aligned := haligned
  page_lt := by simp [Reaches]
  entry := by
    rintro id (h | ⟨update, hupdate, -⟩)
    · exact (entryOr_of_lt h).symm
    · cases hupdate
  hole := fun _ h hnot => absurd h hnot

theorem slice_overwrite_hole {file buffer : Bytes} {offset start count : Nat}
    (hpast : file.length ≤ start) (hle : start + count ≤ offset) :
    slice (overwrite 0 file offset buffer) start count = List.replicate count 0 := by
  have hhole : slice (file ++ List.replicate (offset - file.length) (0 : UInt8)) start count =
      List.replicate count 0 := by
    have := slice_append_right file (List.replicate (offset - file.length) (0 : UInt8))
      (start - file.length) count
    rw [Nat.add_sub_cancel' hpast] at this
    rw [this, slice_replicate _ (by omega)]
  rw [overwrite, slice_splice_disjoint (by simp; omega) (Or.inl hle), hhole]

/-- A written page past the end leaves a hole of zeros before it. -/
theorem writeGroup_hole {faults : IoFaults} {file file' : Bytes} {head : Update}
    {tail : List Update} {currentBytes : Nat}
    (h : layout.writeGroup faults file file.length (head :: tail) = .ok (file', currentBytes))
    {id : Nat} (hpast : file.length ≤ id * 8) (hpage : layout.pageOf id < layout.pageOf head.1) :
    entryAt file' id = holeEntry := by
  obtain ⟨offset, hoffset, h⟩ := bind_eq_ok.mp h
  obtain ⟨-, rfl⟩ := checkedOffset_eq_ok.mp hoffset
  obtain ⟨page, -, h⟩ := bind_eq_ok.mp h
  obtain ⟨-, -, h⟩ := bind_eq_ok.mp h
  obtain ⟨written, hwrite, h⟩ := bind_eq_ok.mp h
  obtain ⟨rfl, -⟩ := Prod.mk.inj (Except.ok.inj h)
  obtain ⟨-, rfl⟩ := pwriteExact_eq_ok.mp hwrite
  have hoffset := layout.entry_offset id
  have hin := layout.entry_in_page id
  have hnext : layout.pageOf id * layout.pageSize + layout.pageSize ≤
      layout.pageOf head.1 * layout.pageSize := by
    rw [← Nat.succ_mul]
    exact Nat.mul_le_mul_right _ hpage
  rw [entryAt, slice_overwrite_hole hpast (by omega)]
  rfl

theorem writeGroup_grown {faults : IoFaults} {file file' : Bytes} (haligned : layout.Aligned file)
    {group : List Update} {page currentBytes : Nat}
    (hpage : ∀ update ∈ group, layout.pageOf update.1 = page)
    (h : layout.writeGroup faults file file.length group = .ok (file', currentBytes)) :
    currentBytes = file'.length ∧ layout.Grown file group file' := by
  cases group with
  | nil =>
      obtain ⟨rfl, rfl⟩ := Prod.mk.inj (Except.ok.inj h)
      exact ⟨rfl, grown_nil haligned⟩
  | cons head tail =>
      have hsame : ∀ update ∈ head :: tail, layout.pageOf update.1 = layout.pageOf head.1 :=
        fun update h => (hpage update h).trans (hpage head List.mem_cons_self).symm
      have htouches : ∀ other, layout.Touches (head :: tail) other ↔ other = layout.pageOf head.1 := by
        intro other
        constructor
        · rintro ⟨update, hupdate, rfl⟩
          exact hsame update hupdate
        · rintro rfl
          exact ⟨head, List.mem_cons_self, rfl⟩
      obtain ⟨hbytes, haligned', hlength, hentry⟩ := writeGroup_entry haligned hsame h
      refine ⟨hbytes, haligned', fun other => ?_, fun id hid => ?_, fun id hin hpast hnot => ?_⟩
      · have hreaches : layout.Reaches (head :: tail) other ↔ other ≤ layout.pageOf head.1 := by
          constructor
          · rintro ⟨update, hupdate, hle⟩
            rwa [hsame update hupdate] at hle
          · exact fun hle => ⟨head, List.mem_cons_self, hle⟩
        have hle : other * layout.pageSize <
            layout.pageOf head.1 * layout.pageSize + layout.pageSize ↔
              other ≤ layout.pageOf head.1 := by
          rw [← Nat.succ_mul, Nat.mul_lt_mul_right layout.directory_pageSize_pos, Nat.lt_succ_iff]
        rw [hlength, hreaches, ← hle, lt_max_iff]
      · rw [htouches] at hid
        rw [hentry id hid]
        split
        next => rfl
        next hne =>
          have hlt := hid.resolve_right hne
          rw [applyUpdates_of_notMem, entryOr_of_lt hlt]
          intro hmem
          exact hne ((htouches _).mp (touches_of_mem hmem))
      · rw [htouches] at hnot
        refine writeGroup_hole h (Nat.not_lt.mp hpast) ?_
        have hinside := haligned'.lt_iff.mp hin
        have houtside := mt haligned.lt_iff.mpr hpast
        rw [hlength, lt_max_iff, ← Nat.succ_mul,
          Nat.mul_lt_mul_right layout.directory_pageSize_pos, Nat.lt_succ_iff] at hinside
        exact Nat.lt_of_le_of_ne (hinside.resolve_left houtside) hnot

/-- Pages written one after the other, none before an earlier one. -/
theorem Grown.trans {file file' file'' : Bytes} {first second : List Update}
    (hfirst : layout.Grown file first file') (hsecond : layout.Grown file' second file'')
    (haligned : layout.Aligned file)
    (hsorted : ∀ update ∈ first, ∀ later ∈ second, layout.pageOf update.1 ≤ layout.pageOf later.1) :
    layout.Grown file (first ++ second) file'' := by
  have hgrows : ∀ id, id * 8 < file.length → id * 8 < file'.length := fun id h =>
    hfirst.aligned.lt_iff.mpr ((hfirst.page_lt _).mpr (Or.inl (haligned.lt_iff.mp h)))
  have hreached : ∀ id, layout.Reaches first (layout.pageOf id) → id * 8 < file'.length :=
    fun id h => hfirst.aligned.lt_iff.mpr ((hfirst.page_lt _).mpr (Or.inr h))
  -- a page the first updates skip is not written by the later ones
  have hlost : ∀ id, id * 8 < file'.length → ¬id * 8 < file.length →
      ¬layout.Touches first (layout.pageOf id) → ¬layout.Touches second (layout.pageOf id) := by
    rintro id hin hpast hnot ⟨later, hlater, hpage⟩
    have hcases := (hfirst.page_lt _).mp (hfirst.aligned.lt_iff.mp hin)
    obtain ⟨update, hupdate, hle⟩ := hcases.resolve_left (mt haligned.lt_iff.mpr hpast)
    have hback := hsorted update hupdate later hlater
    rw [hpage] at hback
    exact hnot ⟨update, hupdate, Nat.le_antisymm hback hle⟩
  -- where the first updates leave an entry readable
  have hstep : ∀ id, id * 8 < file'.length →
      (id * 8 < file.length ∨ layout.Touches first (layout.pageOf id)) →
      entryAt file'' id = applyUpdates (entryOr file) (first ++ second) id := by
    intro id hin hread
    rw [hsecond.entry id (Or.inl hin), applyUpdates_append]
    exact applyUpdates_congr _ ((entryOr_of_lt hin).trans (hfirst.entry id hread))
  refine ⟨hsecond.aligned, fun page => ?_, fun id hid => ?_, fun id hin hpast hnot => ?_⟩
  · rw [hsecond.page_lt, hfirst.page_lt, reaches_append, or_assoc]
  · by_cases hold : id * 8 < file.length
    · exact hstep id (hgrows id hold) (Or.inl hold)
    have htouched := touches_append.mp (hid.resolve_left hold)
    by_cases hfirstTouched : layout.Touches first (layout.pageOf id)
    · exact hstep id (hreached id hfirstTouched.reaches) (Or.inr hfirstTouched)
    have hsecondTouched := htouched.resolve_left hfirstTouched
    have hpast : ¬id * 8 < file'.length := fun hin =>
      hlost id hin hold hfirstTouched hsecondTouched
    rw [hsecond.entry id (Or.inr hsecondTouched), applyUpdates_append]
    refine applyUpdates_congr _ ?_
    rw [applyUpdates_of_notMem _ (mt touches_of_mem hfirstTouched), entryOr, entryOr,
      if_neg hpast, if_neg hold]
  · obtain ⟨hnotFirst, hnotSecond⟩ := not_or.mp (mt touches_append.mpr hnot)
    by_cases hmiddle : id * 8 < file'.length
    · rw [hsecond.entry id (Or.inl hmiddle), applyUpdates_of_notMem _ (mt touches_of_mem hnotSecond),
        entryOr_of_lt hmiddle, hfirst.hole id hmiddle hpast hnotFirst]
    · exact hsecond.hole id hin hmiddle hnotSecond

theorem writeGroups_grown {faults : IoFaults} {groups : List (List Update)} {file : Bytes}
    (haligned : layout.Aligned file)
    (hpage : ∀ group ∈ groups, ∃ page, ∀ update ∈ group, layout.pageOf update.1 = page)
    (hsorted : groups.flatten.Pairwise fun update later =>
      layout.pageOf update.1 ≤ layout.pageOf later.1) {currentBytes : Nat}
    (h : (layout.writeGroups faults groups file file.length).2 = .ok currentBytes) :
    currentBytes = (layout.writeGroups faults groups file file.length).1.length ∧
      layout.Grown file groups.flatten (layout.writeGroups faults groups file file.length).1 := by
  induction groups generalizing file with
  | nil => exact ⟨(Except.ok.inj h).symm, grown_nil haligned⟩
  | cons group groups ih =>
      rw [List.flatten_cons, List.pairwise_append] at hsorted
      obtain ⟨-, hrest, hbefore⟩ := hsorted
      rw [writeGroups] at h ⊢
      cases hgroup : layout.writeGroup faults file file.length group with
      | error error =>
          rw [hgroup] at h
          cases h
      | ok next =>
          obtain ⟨file', bytes⟩ := next
          obtain ⟨page, hsame⟩ := hpage group List.mem_cons_self
          obtain ⟨rfl, hgrown⟩ := writeGroup_grown haligned hsame hgroup
          rw [hgroup] at h
          obtain ⟨hbytes, hgrown'⟩ := ih hgrown.aligned
            (fun group h => hpage group (List.mem_cons_of_mem _ h)) hrest h
          exact ⟨hbytes, hgrown.trans hgrown' haligned hbefore⟩

theorem pageGroups_sorted (updates : List Update) :
    (layout.pageGroups updates).flatten.Pairwise fun update later =>
      layout.pageOf update.1 ≤ layout.pageOf later.1 := by
  have : Std.Total Update.before := ⟨fun lhs rhs => Nat.le_total lhs.1 rhs.1⟩
  have : IsTrans Update Update.before := ⟨fun _ _ _ => Nat.le_trans⟩
  rw [pageGroups, List.flatten_splitBy]
  exact (List.pairwise_insertionSort Update.before updates).imp fun h => Nat.div_le_div_right h

theorem touches_perm {first second : List Update} (h : first.Perm second) {page : Nat} :
    layout.Touches first page ↔ layout.Touches second page := by
  simp only [Touches, h.mem_iff]

/-- A file of whole entries is determined by them. -/
theorem eq_of_entries {file file' : Bytes} (haligned : layout.Aligned file)
    (hlength : file.length = file'.length)
    (h : ∀ id, id * 8 < file.length → entryAt file id = entryAt file' id) : file = file' := by
  apply List.ext_getElem?
  intro i
  by_cases hi : i < file.length
  · have hin : i / 8 * 8 < file.length := by omega
    have hle := haligned.entry_le hin
    have hentry := congrArg DiskLocation.encode (h _ hin)
    rw [entryAt, entryAt, DiskLocation.encode_decode (length_slice_of_le hle),
      DiskLocation.encode_decode (length_slice_of_le (hlength ▸ hle))] at hentry
    have hbyte := congrArg (fun bytes => bytes[i % 8]?) hentry
    simp only [getElem?_slice, if_pos (Nat.mod_lt i (by decide : 0 < 8))] at hbyte
    rwa [Nat.mul_comm, Nat.div_add_mod] at hbyte
  · rw [List.getElem?_eq_none (by omega), List.getElem?_eq_none (by omega)]

/-- The same updates, in any order, leave the same file. -/
theorem Grown.unique {file first second : Bytes} {updates updates' : List Update}
    (hfirst : layout.Grown file updates first) (hsecond : layout.Grown file updates' second)
    (hperm : updates.Perm updates') (hnodup : (updates.map Prod.fst).Nodup) : first = second := by
  have hreaches : ∀ page, layout.Reaches updates page ↔ layout.Reaches updates' page := fun page => by
    simp only [Reaches, hperm.mem_iff]
  have hpages : ∀ page, page * layout.pageSize < first.length ↔ page * layout.pageSize < second.length :=
    fun page => by rw [hfirst.page_lt, hsecond.page_lt, hreaches]
  have hlength : first.length = second.length := by
    have hone := hpages (first.length / layout.pageSize)
    have htwo := hpages (second.length / layout.pageSize)
    have hmod := hfirst.aligned.mod_eq
    have hmod' := hsecond.aligned.mod_eq
    rw [Nat.div_mul_cancel (Nat.dvd_of_mod_eq_zero hmod)] at hone
    rw [Nat.div_mul_cancel (Nat.dvd_of_mod_eq_zero hmod')] at htwo
    omega
  refine eq_of_entries hfirst.aligned hlength fun id hid => ?_
  have htouches := @touches_perm layout _ _ hperm (layout.pageOf id)
  by_cases hread : id * 8 < file.length ∨ layout.Touches updates (layout.pageOf id)
  · rw [hfirst.entry id hread, hsecond.entry id (hread.imp_right htouches.mp), applyUpdates_perm _ hperm hnodup]
  · obtain ⟨hpast, hnot⟩ := not_or.mp hread
    rw [hfirst.hole id hid hpast hnot, hsecond.hole id (hlength ▸ hid) hpast (mt htouches.mpr hnot)]

/-- A batch write that returned, seen from the updates of the batch. -/
theorem writeBatch_grown {faults : IoFaults} {file : Bytes} (haligned : layout.Aligned file)
    {updates : List Update} (h : (layout.writeBatch faults file updates).2 = .ok ()) :
    (updates.map Prod.fst).Nodup ∧
      layout.Grown file updates (layout.writeBatch faults file updates).1 := by
  unfold writeBatch at h ⊢
  split at h
  next hnil =>
    subst hnil
    exact ⟨List.nodup_nil, by simpa using grown_nil haligned⟩
  next hne =>
  rw [if_neg hne]
  split at h
  next => cases h
  next hdistinct =>
  have hnodup := (distinct_iff updates).mp (Bool.not_eq_true _ ▸ hdistinct)
  rw [if_neg hdistinct]
  split at h
  next => cases h
  next hopen =>
  rw [if_neg hopen]
  split at h
  next => cases h
  next hmod =>
  rw [if_neg hmod]
  split at h
  next => cases h
  next file' currentBytes heq =>
    split at h
    next => cases h
    next hfinish =>
      obtain ⟨hbytes, hgrown⟩ := writeGroups_grown haligned (layout.pageGroups_same updates)
        (layout.pageGroups_sorted updates) (congrArg Prod.snd heq)
      have hfile := congrArg Prod.fst heq
      dsimp only at hfile hbytes
      rw [hfile] at hbytes hgrown
      have hperm := layout.pageGroups_flatten updates
      simp only [if_neg hfinish, ftruncate_self_of_eq hbytes]
      refine ⟨hnodup, hgrown.aligned, fun page => ?_, fun id hid => ?_, fun id hin hpast hnot => ?_⟩
      · rw [hgrown.page_lt, Reaches, Reaches]
        simp only [hperm.mem_iff]
      · rw [touches_perm hperm.symm] at hid
        rw [hgrown.entry id hid, applyUpdates_perm _ hperm]
        rwa [(hperm.map Prod.fst).nodup_iff]
      · rw [touches_perm hperm.symm] at hnot
        exact hgrown.hole id hin hpast hnot

/-! ### A run of batches -/

/-- What an ID reads as before it is written itself. -/
noncomputable def background (layout : DirectoryLayout) (batches : List (List Update)) (id : Nat) :
    DiskLocation :=
  open Classical in
  if layout.Skipped batches (layout.pageOf id) then holeEntry else DiskLocation.tombstone

/-- The file after the batches. -/
structure Mirrors (layout : DirectoryLayout) (file : Bytes) (batches : List (List Update)) :
    Prop where
  aligned : layout.Aligned file
  page_lt : ∀ page, page * layout.pageSize < file.length ↔ layout.Reaches batches.flatten page
  entry : ∀ id, id * 8 < file.length →
    entryAt file id = applyUpdates (layout.background batches) batches.flatten id

theorem skipped_concat {batches : List (List Update)} {updates : List Update} {page : Nat} :
    layout.Skipped (batches ++ [updates]) page ↔ layout.Skipped batches page ∨
      layout.Reaches (batches.flatten ++ updates) page ∧
        ¬layout.Touches (batches.flatten ++ updates) page := by
  have hflat : (batches ++ [updates]).flatten = batches.flatten ++ updates := by simp
  constructor
  · rintro ⟨first, hprefix, hskipped⟩
    rcases List.prefix_concat_iff.mp hprefix with rfl | hprefix
    · exact Or.inr (by rwa [hflat] at hskipped)
    · exact Or.inl ⟨first, hprefix, hskipped⟩
  · rintro (⟨first, hprefix, hskipped⟩ | hskipped)
    · exact ⟨first, hprefix.trans (List.prefix_append _ _), hskipped⟩
    · exact ⟨_, List.prefix_rfl, by rwa [hflat]⟩

theorem Skipped.reaches {batches : List (List Update)} {page : Nat}
    (h : layout.Skipped batches page) : layout.Reaches batches.flatten page := by
  obtain ⟨first, ⟨rest, rfl⟩, hreaches, -⟩ := h
  rw [List.flatten_append, reaches_append]
  exact Or.inl hreaches

/-- One batch: the entries inside the file follow it, and a page past the end is
new, skipped, or still past the end. -/
theorem Mirrors.write {file : Bytes} {batches : List (List Update)}
    (hmirrors : layout.Mirrors file batches) {faults : IoFaults} {updates : List Update}
    (h : (layout.writeBatch faults file updates).2 = .ok ()) :
    layout.Mirrors (layout.writeBatch faults file updates).1 (batches ++ [updates]) := by
  obtain ⟨-, hgrown⟩ := writeBatch_grown hmirrors.aligned h
  have hflat : (batches ++ [updates]).flatten = batches.flatten ++ updates := by simp
  have hinside : ∀ id, id * 8 < file.length ↔ layout.Reaches batches.flatten (layout.pageOf id) :=
    fun id => hmirrors.aligned.lt_iff.trans (hmirrors.page_lt _)
  refine ⟨hgrown.aligned, fun page => ?_, fun id hin => ?_⟩
  · rw [hgrown.page_lt, hmirrors.page_lt, hflat, reaches_append]
  rw [hflat, applyUpdates_append]
  by_cases hold : id * 8 < file.length
  · -- the old file already has the page, so this batch does not skip it
    have hsame : layout.Skipped (batches ++ [updates]) (layout.pageOf id) ↔
        layout.Skipped batches (layout.pageOf id) := by
      refine skipped_concat.trans (or_iff_left_of_imp fun hskipped => ?_)
      exact ⟨batches, List.prefix_rfl, (hinside id).mp hold,
        fun htouched => hskipped.2 (touches_append.mpr (Or.inl htouched))⟩
    rw [hgrown.entry id (Or.inl hold)]
    refine applyUpdates_congr _ ?_
    rw [entryOr_of_lt hold, hmirrors.entry id hold]
    refine applyUpdates_congr _ ?_
    by_cases hskipped : layout.Skipped batches (layout.pageOf id)
    · rw [background, background, if_pos hskipped, if_pos (hsame.mpr hskipped)]
    · rw [background, background, if_neg hskipped, if_neg (mt hsame.mp hskipped)]
  have hunreached := mt (hinside id).mpr hold
  have hunwritten : id ∉ batches.flatten.map Prod.fst := fun hmem =>
    hunreached (touches_of_mem hmem).reaches
  have hnew : ¬layout.Skipped batches (layout.pageOf id) := mt Skipped.reaches hunreached
  by_cases htouched : layout.Touches updates (layout.pageOf id)
  · have hkept : ¬layout.Skipped (batches ++ [updates]) (layout.pageOf id) := by
      rw [skipped_concat]
      rintro (hskipped | ⟨-, hnot⟩)
      · exact hnew hskipped
      · exact hnot (touches_append.mpr (Or.inr htouched))
    rw [hgrown.entry id (Or.inr htouched)]
    refine applyUpdates_congr _ ?_
    rw [entryOr, if_neg hold, applyUpdates_of_notMem _ hunwritten, background, if_neg hkept]
  · have huntouched : ¬layout.Touches (batches.flatten ++ updates) (layout.pageOf id) := by
      rw [touches_append]
      exact fun h => h.elim (fun h => hunreached h.reaches) htouched
    have hskipped : layout.Skipped (batches ++ [updates]) (layout.pageOf id) := by
      refine skipped_concat.mpr (Or.inr ⟨?_, huntouched⟩)
      rw [reaches_append]
      exact Or.inr (((hgrown.page_lt _).mp (hgrown.aligned.lt_iff.mp hin)).resolve_left
        (mt hmirrors.aligned.lt_iff.mpr hold))
    rw [hgrown.hole id hin hold htouched, applyUpdates_of_notMem _ (mt touches_of_mem htouched),
      applyUpdates_of_notMem _ hunwritten, background, if_pos hskipped]

theorem Wrote.mirrors {batches : List (List Update)} {file : Bytes}
    (hwrote : layout.Wrote batches file) : layout.Mirrors file batches := by
  induction hwrote with
  | create =>
      exact ⟨⟨Nat.zero_mod _, Nat.zero_le _⟩, by simp [Reaches], by simp⟩
  | write faults updates _ hok ih => exact ih.write hok

/-- A run of batch writes reads as the map of its updates exactly when every ID
on a page that was ever skipped is written in the end. -/
theorem directory_reads_as_map {batches : List (List Update)} {file : Bytes}
    (hwrote : layout.Wrote batches file) :
    layout.ReadsAs file batches ↔ ∀ id, layout.Skipped batches (layout.pageOf id) →
      id ∈ batches.flatten.map Prod.fst := by
  have hmirrors := hwrote.mirrors
  have hinside : ∀ id, id * 8 < file.length ↔ layout.Reaches batches.flatten (layout.pageOf id) :=
    fun id => hmirrors.aligned.lt_iff.trans (hmirrors.page_lt _)
  constructor
  · intro hreads id hskipped
    by_contra hunwritten
    -- the ID is answered with the active entry of a hole
    have hin := (hinside id).mpr hskipped.reaches
    have hread := @readBatch_ok layout _ hmirrors.aligned [id] (by simpa using hin)
    have hanswer := hreads.answered _ _ _ hread
    rw [List.map_singleton, List.map_singleton, List.singleton_inj, hmirrors.entry id hin,
      applyUpdates_of_notMem _ hunwritten, lastWritten_of_notMem hunwritten, background,
      if_pos hskipped] at hanswer
    exact absurd hanswer (by decide)
  · intro hwritten
    have hentry : ∀ id, id * 8 < file.length → entryAt file id = lastWritten batches.flatten id := by
      intro id hin
      rw [hmirrors.entry id hin]
      by_cases hmem : id ∈ batches.flatten.map Prod.fst
      · exact applyUpdates_of_mem_keys _ _ hmem
      · rw [applyUpdates_of_notMem _ hmem, lastWritten_of_notMem hmem, background,
          if_neg (mt (hwritten id) hmem)]
    refine ⟨fun ids hids => ?_, fun faults ids locations hread => ?_⟩
    · have hin : ∀ id ∈ ids, id * 8 < file.length := fun id hid =>
        (hinside id).mpr (touches_of_mem (hids id hid)).reaches
      rw [readBatch_ok hmirrors.aligned hin]
      exact congrArg _ (List.map_congr_left fun id hid => hentry id (hin id hid))
    · obtain ⟨rfl, hin⟩ := readBatch_eq_ok hmirrors.aligned hread
      exact List.map_congr_left fun id hid => hentry id (hin id hid)

/-- The file after a batch for page 1 and one for page 0. -/
def twoPages : Bytes :=
  (oneEntry.writeBatch IoFaults.none (oneEntry.writeBatch IoFaults.none [] [(1, ⟨5, 7⟩)]).1
    [(0, ⟨3, 4⟩)]).1

/-- The page that the first batch skips is written by the second. -/
theorem directory_reads_as_map_filled :
    oneEntry.ReadsAs twoPages [[(1, ⟨5, 7⟩)], [(0, ⟨3, 4⟩)]] ∧
      oneEntry.readBatch IoFaults.none twoPages [1, 0] = .ok [⟨5, 7⟩, ⟨3, 4⟩] := by
  have hfirst := @Wrote.write oneEntry _ _ IoFaults.none [(1, ⟨5, 7⟩)] .create rfl
  have hwrote := @Wrote.write oneEntry _ _ IoFaults.none [(0, ⟨3, 4⟩)] hfirst rfl
  refine ⟨(directory_reads_as_map hwrote).mpr fun id hskipped => ?_, by decide +kernel⟩
  obtain ⟨update, hupdate, hle⟩ := hskipped.reaches
  have hpage : id ≤ update.1 := by simpa [pageOf, entriesPerPage, oneEntry] using hle
  have hid : id ≤ 1 := by
    rcases List.mem_pair.mp hupdate with rfl | rfl
    · exact hpage
    · exact hpage.trans (Nat.zero_le 1)
  obtain rfl | rfl : id = 0 ∨ id = 1 := by omega
  · exact List.mem_cons_of_mem _ List.mem_cons_self
  · exact List.mem_cons_self

/-- A first batch that skips a page makes its entries read as active. -/
theorem directory_hole_reads_active : ∃ file, oneEntry.Wrote [[(1, ⟨5, 7⟩)]] file ∧
    oneEntry.readBatch IoFaults.none file [0] = .ok [⟨0, 0⟩] ∧
    (⟨0, 0⟩ : DiskLocation).active = true ∧ ¬oneEntry.ReadsAs file [[(1, ⟨5, 7⟩)]] := by
  have hwrote := @Wrote.write oneEntry _ _ IoFaults.none [(1, ⟨5, 7⟩)] .create rfl
  have hread : oneEntry.readBatch IoFaults.none
      (oneEntry.writeBatch IoFaults.none [] [(1, ⟨5, 7⟩)]).1 [0] = .ok [⟨0, 0⟩] := by
    decide +kernel
  refine ⟨_, hwrote, hread, rfl, fun hreads => ?_⟩
  exact absurd (hreads.answered _ _ _ hread) (by decide)

end Recast.DirectoryLayout
