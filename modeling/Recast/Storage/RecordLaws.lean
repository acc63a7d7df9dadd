import Recast.Storage.RecordStore
import Recast.Foundation.SwapDelete

/-!
# What the record store reads and writes

A list file holds a list of records. An append extends that list, a committed
deletion applies its moves and cuts it, and a failing call leaves the published
records where they were.
-/

namespace Recast.RecordLayout

open Foundation

variable {layout : RecordLayout}

/-- `bytes` is a file of `pages` pages whose first slots are the records. -/
structure Holds (layout : RecordLayout) (bytes : Bytes) (records : List (Record layout))
    (pages : Nat) : Prop where
  length_eq : bytes.length = pages * layout.pageSize
  le_off : bytes.length ≤ offMax
  room : pageCount records.length layout.recordsPerPage ≤ pages
  slot : ∀ i, (h : i < records.length) → layout.paging.slotAt bytes i = records[i].encode

theorem Holds.page_lt {bytes : Bytes} {records : List (Record layout)} {pages : Nat}
    (hholds : layout.Holds bytes records pages) {i : Nat} (h : i < records.length) :
    i / layout.recordsPerPage < pages :=
  Nat.lt_of_lt_of_le (div_lt_pageCount layout.recordsPerPage_pos h) hholds.room

/-- Fewer records are held as well. -/
theorem Holds.take {bytes : Bytes} {records : List (Record layout)} {pages : Nat}
    (hholds : layout.Holds bytes records pages) (count : Nat) :
    layout.Holds bytes (records.take count) pages where
  length_eq := hholds.length_eq
  le_off := hholds.le_off
  room := Nat.le_trans
    (pageCount_mono layout.recordsPerPage_pos (by rw [List.length_take]; omega)) hholds.room
  slot := by
    intro i h
    rw [List.length_take] at h
    rw [hholds.slot i (by omega), List.getElem_take]

theorem holds_nil {bytes : Bytes} {pages : Nat} (hlength : bytes.length = pages * layout.pageSize)
    (hoff : bytes.length ≤ offMax) : layout.Holds bytes [] pages where
  length_eq := hlength
  le_off := hoff
  room := by simp
  slot := by simp

theorem pageOffset_eq_ok {page offset : Nat} :
    layout.pageOffset page = .ok offset ↔
      page * layout.pageSize ≤ offMax ∧ offset = page * layout.pageSize := by
  rw [pageOffset, guard_eq_ok, Nat.not_lt, Nat.le_div_iff_mul_le layout.pageSize_pos,
    Except.ok.injEq, eq_comm (a := offset)]

theorem readPage_eq_ok {faults : IoFaults} {listNo page : Nat} {bytes buffer : Bytes}
    (h : layout.readPage faults listNo bytes page = .ok buffer) :
    page * layout.pageSize + layout.pageSize ≤ bytes.length ∧
      buffer = slice bytes (page * layout.pageSize) layout.pageSize := by
  obtain ⟨_, _, h⟩ := bind_eq_ok.mp h
  obtain ⟨offset, hoffset, h⟩ := bind_eq_ok.mp h
  obtain ⟨-, rfl⟩ := pageOffset_eq_ok.mp hoffset
  exact preadExact_eq_ok.mp h

theorem writePage_eq_ok {faults : IoFaults} {listNo page : Nat} {bytes bytes' buffer : Bytes}
    (h : layout.writePage faults listNo bytes page buffer = .ok bytes') :
    page * layout.pageSize + buffer.length ≤ offMax ∧
      bytes' = overwrite 0 bytes (page * layout.pageSize) buffer := by
  obtain ⟨_, _, h⟩ := bind_eq_ok.mp h
  obtain ⟨offset, hoffset, h⟩ := bind_eq_ok.mp h
  obtain ⟨-, rfl⟩ := pageOffset_eq_ok.mp hoffset
  exact pwriteExact_eq_ok.mp h

theorem readPage_none {listNo page : Nat} {bytes : Bytes} (hoff : bytes.length ≤ offMax)
    (h : page * layout.pageSize + layout.pageSize ≤ bytes.length) :
    layout.readPage IoFaults.none listNo bytes page =
      .ok (slice bytes (page * layout.pageSize) layout.pageSize) := by
  have hoffset : layout.pageOffset page = .ok (page * layout.pageSize) :=
    pageOffset_eq_ok.mpr ⟨by omega, rfl⟩
  rw [readPage, attempt_none, ok_bind, hoffset, ok_bind, preadExact_of_le h]

/-- A page inside the file can be written; past its end only the file system's
size limit is in the way. -/
theorem writePage_none {listNo page : Nat} {bytes buffer : Bytes}
    (hoff : page * layout.pageSize ≤ offMax) :
    (page * layout.pageSize + buffer.length ≤ offMax ∧
      layout.writePage IoFaults.none listNo bytes page buffer =
        .ok (overwrite 0 bytes (page * layout.pageSize) buffer)) ∨
    (offMax < page * layout.pageSize + buffer.length ∧
      layout.writePage IoFaults.none listNo bytes page buffer = .error (.system "pwrite")) := by
  have hoffset : layout.pageOffset page = .ok (page * layout.pageSize) :=
    pageOffset_eq_ok.mpr ⟨hoff, rfl⟩
  rw [writePage, attempt_none, ok_bind, hoffset, ok_bind, pwriteExact]
  split
  next h => exact Or.inr ⟨h, rfl⟩
  next h => exact Or.inl ⟨by omega, rfl⟩

/-! ### Appending -/

section Append

variable {oldSize page : Nat} {rows : List (Record layout)}

theorem appendLanes_keys (oldSize page : Nat) (rows : List (Record layout)) :
    (layout.appendLanes oldSize rows page).map Prod.fst =
      List.range' (max oldSize (page * layout.recordsPerPage) - page * layout.recordsPerPage)
        (min (oldSize + rows.length) ((page + 1) * layout.recordsPerPage) -
          max oldSize (page * layout.recordsPerPage)) := by
  rw [Nat.succ_mul]
  apply List.ext_getElem
  · simp only [appendLanes, List.length_map, List.length_mapIdx, length_slice, List.length_range']
    omega
  · intro i _ _
    simp only [appendLanes, List.getElem_map, List.getElem_mapIdx, List.getElem_range']
    omega

theorem appendLanes_nodup : ((layout.appendLanes oldSize rows page).map Prod.fst).Nodup := by
  rw [appendLanes_keys]
  exact List.nodup_range'

theorem appendLanes_ok : ∀ lane ∈ layout.appendLanes oldSize rows page,
    lane.1 < layout.paging.perPage ∧ lane.2.length = layout.paging.width := by
  intro lane hlane
  have hkey : lane.1 ∈ (layout.appendLanes oldSize rows page).map Prod.fst :=
    List.mem_map_of_mem hlane
  rw [appendLanes_keys, List.mem_range'_1, Nat.succ_mul] at hkey
  obtain ⟨i, _, rfl⟩ := List.mem_mapIdx.mp hlane
  constructor
  · change _ < layout.recordsPerPage
    omega
  · exact Record.length_encode _

theorem div_eq_iff_page {i : Nat} : i / layout.recordsPerPage = page ↔
    page * layout.recordsPerPage ≤ i ∧ i < (page + 1) * layout.recordsPerPage := by
  rw [Nat.div_eq_iff layout.recordsPerPage_pos, Nat.succ_mul]
  have := layout.recordsPerPage_pos
  omega

theorem mod_eq_sub_page {i : Nat} (h : i / layout.recordsPerPage = page) :
    i % layout.recordsPerPage = i - page * layout.recordsPerPage := by
  have := Nat.div_add_mod i layout.recordsPerPage
  rw [h, Nat.mul_comm] at this
  omega

/-- A new row of the page is among its lanes. -/
theorem mem_appendLanes {i : Nat} (hnew : oldSize ≤ i) (hi : i - oldSize < rows.length)
    (hpage : i / layout.recordsPerPage = page) :
    (i % layout.recordsPerPage, rows[i - oldSize].encode) ∈ layout.appendLanes oldSize rows page := by
  obtain ⟨hlow, hhigh⟩ := div_eq_iff_page.mp hpage
  rw [mod_eq_sub_page hpage, appendLanes]
  rw [Nat.succ_mul] at hhigh
  refine List.mem_mapIdx.mpr ⟨i - max oldSize (page * layout.recordsPerPage), ?_, ?_⟩
  · rw [length_slice]
    omega
  · have hget : (slice rows (max oldSize (page * layout.recordsPerPage) - oldSize)
        (min (oldSize + rows.length) (page * layout.recordsPerPage + layout.recordsPerPage) -
          max oldSize (page * layout.recordsPerPage)))[i - max oldSize (page * layout.recordsPerPage)]? =
        some rows[i - oldSize] := by
      rw [getElem?_slice, if_pos (by omega), List.getElem?_eq_getElem (by omega)]
      congr 2
      omega
    obtain ⟨hlt, hget⟩ := List.getElem?_eq_some_iff.mp hget
    rw [hget]
    congr 1
    omega

/-- A published row is not among the lanes. -/
theorem notMem_appendLanes {i : Nat} (hold : i < oldSize) (hpage : i / layout.recordsPerPage = page) :
    i % layout.recordsPerPage ∉ (layout.appendLanes oldSize rows page).map Prod.fst := by
  obtain ⟨hlow, hhigh⟩ := div_eq_iff_page.mp hpage
  rw [appendLanes_keys, List.mem_range'_1, mod_eq_sub_page hpage]
  omega

end Append

/-- The buffer of a page that is being filled, before the new rows. -/
theorem fetchPage_eq_ok {faults : IoFaults} {listNo page oldSize : Nat} {bytes buffer : Bytes}
    (h : layout.fetchPage faults listNo oldSize bytes page = .ok buffer) :
    buffer.length = layout.pageSize ∧ ∀ i < oldSize, i / layout.recordsPerPage = page →
      slice buffer (i % layout.recordsPerPage * layout.recordStride) layout.recordStride =
        layout.paging.slotAt bytes i := by
  rw [fetchPage] at h
  split at h
  next hold =>
    obtain ⟨hle, rfl⟩ := readPage_eq_ok h
    refine ⟨length_slice_of_le hle, fun i _ hpage => ?_⟩
    rw [← hpage]
    exact layout.paging.slice_page bytes i
  next hnew =>
    obtain rfl := Except.ok.inj h
    refine ⟨List.length_replicate, fun i hi hpage => absurd ?_ hnew⟩
    rw [← hpage]
    exact div_lt_pageCount layout.recordsPerPage_pos hi

/-- The step of the page loop: from the rows below page `page` to those below
the next page. -/
theorem appendPage_holds {faults : IoFaults} {listNo page : Nat} {bytes bytes' : Bytes}
    {records rows : List (Record layout)}
    (hfirst : records.length / layout.recordsPerPage ≤ page)
    (hholds : layout.Holds bytes
      ((records ++ rows).take (max records.length (page * layout.recordsPerPage)))
      (max (pageCount records.length layout.recordsPerPage) page))
    (h : layout.appendPage faults listNo records.length rows bytes page = .ok bytes') :
    layout.Holds bytes'
      ((records ++ rows).take (max records.length ((page + 1) * layout.recordsPerPage)))
      (max (pageCount records.length layout.recordsPerPage) (page + 1)) := by
  obtain ⟨buffer, hbuffer, h⟩ := bind_eq_ok.mp h
  obtain ⟨hoff, rfl⟩ := writePage_eq_ok h
  obtain ⟨hlength, hkept⟩ := fetchPage_eq_ok hbuffer
  have hlanes : (layout.paging.writeLanes buffer
      (layout.appendLanes records.length rows page)).length = layout.pageSize :=
    layout.paging.length_writeLanes hlength appendLanes_ok
  rw [hlanes] at hoff
  have hnew := length_overwrite 0 bytes (page * layout.pageSize)
    (layout.paging.writeLanes buffer (layout.appendLanes records.length rows page))
  have hadd : page * layout.pageSize + layout.pageSize = (page + 1) * layout.pageSize :=
    (Nat.succ_mul page _).symm
  rw [hlanes] at hnew
  have hbytes := hholds.length_eq
  have hsize : (records ++ rows).length = records.length + rows.length := List.length_append
  have hstart : records.length < (page + 1) * layout.recordsPerPage := by
    have := Nat.lt_div_mul_add layout.recordsPerPage_pos (a := records.length)
    have := Nat.mul_le_mul_right layout.recordsPerPage hfirst
    rw [Nat.succ_mul]
    omega
  constructor
  · rw [hnew, hbytes, hadd, Nat.mul_max_mul_right]
    congr 1
    omega
  · have := hholds.le_off
    omega
  · rw [pageCount_le_iff layout.recordsPerPage_pos, List.length_take]
    have hroom := (pageCount_le_iff layout.recordsPerPage_pos).mp hholds.room
    rw [List.length_take] at hroom
    have hone := Nat.mul_le_mul_right layout.recordsPerPage
      (Nat.le_max_right (pageCount records.length layout.recordsPerPage) (page + 1))
    omega
  · intro i hi
    -- other pages keep their slots; the page itself has its old lanes and the new rows
    have hslot := layout.paging.slotAt_overwrite 0 bytes page hlanes (i := i) (fun hne => by
      have hlt : i / layout.recordsPerPage <
          max (pageCount records.length layout.recordsPerPage) page := by
        rw [List.length_take] at hi
        have hdiv : i / layout.recordsPerPage < page + 1 ∨ i < records.length := by
          rcases Nat.lt_or_ge i records.length with h | h
          · exact Or.inr h
          · exact Or.inl (Nat.div_lt_of_lt_mul (by rw [Nat.mul_comm]; omega))
        rcases hdiv with h | h
        · have : i / layout.recordsPerPage ≠ page := hne
          omega
        · have := div_lt_pageCount layout.recordsPerPage_pos h
          omega
      rw [hbytes]
      exact layout.paging.slot_end_le_of_pages hlt)
    rw [List.length_take] at hi
    rw [List.getElem_take]
    refine hslot.trans ?_
    by_cases hpage : i / layout.recordsPerPage = page
    · refine (if_pos hpage).trans ?_
      have hlane := @Paging.lane_writeLanes _ layout.paging _ hlength _
        (@appendLanes_ok layout records.length page rows) (i % layout.recordsPerPage)
      refine hlane.trans ?_
      by_cases hold : i < records.length
      · -- the first page of the rows may hold old ones
        rw [applyUpdates_of_notMem _ (notMem_appendLanes hold hpage)]
        refine (hkept i hold hpage).trans ?_
        rw [hholds.slot i (by rw [List.length_take]; omega), List.getElem_take]
      · rw [List.getElem_append_right (by omega)]
        exact applyUpdates_of_mem _ appendLanes_nodup
          (mem_appendLanes (by omega) (by omega) hpage)
    · refine (if_neg hpage).trans ?_
      have hlt : i < max records.length (page * layout.recordsPerPage) := by
        rcases Nat.lt_or_ge i records.length with h | h
        · omega
        · have hne := mt div_eq_iff_page.mpr hpage
          omega
      rw [hholds.slot i (by rw [List.length_take]; omega), List.getElem_take]

/-- The page loop stops at some page; the rows below it are stored. -/
theorem appendPages_holds (faults : IoFaults) (listNo : Nat) {records rows : List (Record layout)}
    (count : Nat) {page : Nat} {bytes : Bytes}
    (hfirst : records.length / layout.recordsPerPage ≤ page)
    (hholds : layout.Holds bytes
      ((records ++ rows).take (max records.length (page * layout.recordsPerPage)))
      (max (pageCount records.length layout.recordsPerPage) page)) :
    ∃ reached, page ≤ reached ∧ reached ≤ page + count ∧
      layout.Holds
        (layout.appendPages faults listNo records.length rows (List.range' page count) bytes).1
        ((records ++ rows).take (max records.length (reached * layout.recordsPerPage)))
        (max (pageCount records.length layout.recordsPerPage) reached) ∧
      ((layout.appendPages faults listNo records.length rows (List.range' page count) bytes).2 =
        .ok () → reached = page + count) := by
  induction count generalizing page bytes with
  | zero => exact ⟨page, Nat.le_refl _, Nat.le_refl _, hholds, fun _ => rfl⟩
  | succ count ih =>
      rw [List.range'_succ, appendPages]
      cases hpage : layout.appendPage faults listNo records.length rows bytes page with
      | error error => exact ⟨page, Nat.le_refl _, by omega, hholds, by simp⟩
      | ok bytes' =>
          obtain ⟨reached, hlow, hhigh, hreached, hall⟩ :=
            ih (by omega) (appendPage_holds hfirst hholds hpage)
          exact ⟨reached, by omega, by omega, hreached, fun h => by rw [hall h]; omega⟩

theorem appendPage_none {listNo page : Nat} {bytes : Bytes} {records rows : List (Record layout)}
    (hlength : bytes.length = max (pageCount records.length layout.recordsPerPage) page *
      layout.pageSize) (hoff : bytes.length ≤ offMax) :
    (∃ bytes', layout.appendPage IoFaults.none listNo records.length rows bytes page = .ok bytes') ∨
      layout.appendPage IoFaults.none listNo records.length rows bytes page =
        .error (.system "pwrite") := by
  have hpage : page * layout.pageSize ≤ bytes.length := by
    rw [hlength]
    exact Nat.mul_le_mul_right _ (Nat.le_max_right _ _)
  obtain ⟨buffer, hbuffer⟩ : ∃ buffer,
      layout.fetchPage IoFaults.none listNo records.length bytes page = .ok buffer := by
    rw [fetchPage]
    split
    next hold =>
      refine ⟨_, readPage_none hoff ?_⟩
      rw [hlength, ← Nat.succ_mul]
      exact Nat.mul_le_mul_right _ (Nat.le_trans hold (Nat.le_max_left _ _))
    next => exact ⟨_, rfl⟩
  rw [appendPage, hbuffer, ok_bind]
  rcases @writePage_none layout listNo page bytes (layout.paging.writeLanes buffer
    (layout.appendLanes records.length rows page)) (by omega) with ⟨_, h⟩ | ⟨_, h⟩
  · exact Or.inl ⟨_, h⟩
  · exact Or.inr h

theorem appendPages_none (listNo : Nat) {records rows : List (Record layout)} (count : Nat)
    {page : Nat} {bytes : Bytes} (hfirst : records.length / layout.recordsPerPage ≤ page)
    (hholds : layout.Holds bytes
      ((records ++ rows).take (max records.length (page * layout.recordsPerPage)))
      (max (pageCount records.length layout.recordsPerPage) page)) :
    (layout.appendPages IoFaults.none listNo records.length rows (List.range' page count)
        bytes).2 = .ok () ∨
      (layout.appendPages IoFaults.none listNo records.length rows (List.range' page count)
        bytes).2 = .error (.system "pwrite") := by
  induction count generalizing page bytes with
  | zero => exact Or.inl rfl
  | succ count ih =>
      rw [List.range'_succ, appendPages]
      rcases @appendPage_none layout listNo page bytes records rows hholds.length_eq hholds.le_off
        with ⟨bytes', h⟩ | h
      · rw [h]
        exact ih (by omega) (appendPage_holds hfirst hholds h)
      · rw [h]
        exact Or.inr rfl

/-- Cutting an unpublished tail keeps the published records. -/
theorem Holds.truncate {bytes : Bytes} {records : List (Record layout)} {pages pages' : Nat}
    (hholds : layout.Holds bytes records pages)
    (hroom : pageCount records.length layout.recordsPerPage ≤ pages') (hle : pages' ≤ pages) :
    layout.Holds (ftruncate bytes (pages' * layout.pageSize)) records pages' := by
  have hcut : pages' * layout.pageSize ≤ bytes.length := by
    rw [hholds.length_eq]
    exact Nat.mul_le_mul_right _ hle
  rw [ftruncate_of_le hcut]
  refine ⟨?_, ?_, hroom, fun i hi => ?_⟩
  · rw [List.length_take]
    omega
  · have := hholds.le_off
    rw [List.length_take]
    omega
  · rw [← hholds.slot i hi]
    apply layout.paging.slotAt_take
    exact layout.paging.slot_end_le_of_pages
      (Nat.lt_of_lt_of_le (div_lt_pageCount layout.recordsPerPage_pos hi) hroom)

theorem Holds.pages_le_iff {bytes : Bytes} {records : List (Record layout)} {pages : Nat}
    (hholds : layout.Holds bytes records pages) (count : Nat) :
    count * layout.pageSize ≤ bytes.length ↔ count ≤ pages := by
  rw [hholds.length_eq]
  exact Nat.mul_le_mul_right_iff layout.pageSize_pos

/-- The records of a file fit below the largest offset. -/
theorem Holds.stride_le {bytes : Bytes} {records : List (Record layout)} {pages : Nat}
    (hholds : layout.Holds bytes records pages) :
    records.length * layout.recordStride ≤ offMax := by
  have hroom := (pageCount_le_iff layout.recordsPerPage_pos).mp hholds.room
  calc records.length * layout.recordStride
      ≤ pages * layout.recordsPerPage * layout.recordStride := Nat.mul_le_mul_right _ hroom
    _ = pages * (layout.recordsPerPage * layout.recordStride) := Nat.mul_assoc _ _ _
    _ ≤ pages * layout.pageSize := Nat.mul_le_mul_left _ layout.paging.fits
    _ ≤ offMax := hholds.length_eq ▸ hholds.le_off

/-- The rows before the first page of an append are the published ones. -/
theorem Holds.start {bytes : Bytes} {records : List (Record layout)}
    (hholds : layout.Holds bytes records (pageCount records.length layout.recordsPerPage))
    (rows : List (Record layout)) :
    layout.Holds bytes
      ((records ++ rows).take (max records.length
        (records.length / layout.recordsPerPage * layout.recordsPerPage)))
      (max (pageCount records.length layout.recordsPerPage)
        (records.length / layout.recordsPerPage)) := by
  rw [Nat.max_eq_left (Nat.div_mul_le_self _ _), List.take_left,
    Nat.max_eq_left (div_le_pageCount layout.recordsPerPage_pos)]
  exact hholds

/-- An append, whichever of its calls fail, keeps the published records; if it
returns, the file holds the new ones too and nothing else. -/
theorem appendRecords_holds (faults : IoFaults) (listNo : Nat) {file : Option Bytes}
    {records : List (Record layout)} {pages : Nat}
    (hholds : layout.Holds (file.getD []) records pages) (rows : List (Record layout)) :
    (∃ pages', layout.Holds ((layout.appendRecords faults listNo records.length rows file).1.getD [])
        records pages') ∧
      (rows ≠ [] → (layout.appendRecords faults listNo records.length rows file).2 = .ok () →
        layout.Holds ((layout.appendRecords faults listNo records.length rows file).1.getD [])
          (records ++ rows) (pageCount (records ++ rows).length layout.recordsPerPage)) := by
  have hcut := hholds.truncate (Nat.le_refl _) hholds.room
  have hfirst := @div_le_pageCount records.length layout.recordsPerPage layout.recordsPerPage_pos
  have hmono := @pageCount_mono records.length (records ++ rows).length layout.recordsPerPage
    layout.recordsPerPage_pos (by rw [List.length_append]; omega)
  obtain ⟨reached, hlow, hhigh, hreached, hall⟩ := appendPages_holds faults listNo
    (pageCount (records ++ rows).length layout.recordsPerPage -
      records.length / layout.recordsPerPage) (Nat.le_refl _) (hcut.start rows)
  have hpublished := hreached.take records.length
  rw [List.take_take, Nat.min_eq_left (Nat.le_max_left _ _), List.take_left] at hpublished
  unfold appendRecords appendedPages
  split
  next hempty => exact ⟨⟨pages, hholds⟩, fun hne => absurd hempty hne⟩
  next =>
  split
  next => exact ⟨⟨pages, hholds⟩, by simp⟩
  next =>
  split
  next => exact ⟨⟨pages, hholds⟩, by simp⟩
  next =>
  dsimp only
  split
  next => exact ⟨⟨pages, hholds⟩, by simp⟩
  next =>
  split
  next => exact ⟨⟨pages, hholds⟩, by simp⟩
  next =>
  rw [← List.length_append]
  split
  next bytes error heq =>
    rw [heq] at hpublished
    exact ⟨⟨_, hpublished⟩, by simp⟩
  next bytes heq =>
    rw [heq] at hpublished hreached hall
    have hend : reached = pageCount (records ++ rows).length layout.recordsPerPage := by
      rw [hall rfl]
      omega
    split
    next => exact ⟨⟨_, hpublished⟩, by simp⟩
    next =>
      subst hend
      have hcover := (pageCount_le_iff layout.recordsPerPage_pos).mp (Nat.le_refl
        (pageCount (records ++ rows).length layout.recordsPerPage))
      rw [List.take_of_length_le (by omega), Nat.max_eq_right hmono] at hreached
      have hlength := hreached.length_eq
      dsimp only at hlength hreached
      rw [← hlength, ftruncate_length]
      refine ⟨⟨_, hpublished⟩, fun _ _ => hreached⟩

/-- Without injected faults only the file system stops an append that fits in
32-bit offsets. -/
theorem appendRecords_none (listNo : Nat) {file : Option Bytes} {records : List (Record layout)}
    {pages : Nat} (hholds : layout.Holds (file.getD []) records pages) {rows : List (Record layout)}
    (hfits : records.length + rows.length ≤ uint32Max) :
    (layout.appendRecords IoFaults.none listNo records.length rows file).2 = .ok () ∨
      ∃ operation, (layout.appendRecords IoFaults.none listNo records.length rows file).2 =
        .error (.system operation) := by
  have hcut := hholds.truncate (Nat.le_refl _) hholds.room
  have hloop := appendPages_none listNo
    (pageCount (records ++ rows).length layout.recordsPerPage -
      records.length / layout.recordsPerPage) (Nat.le_refl _) (hcut.start rows)
  unfold appendRecords appendedPages
  split
  next => exact Or.inl rfl
  next =>
  rw [if_neg (by omega), if_neg (by simp)]
  dsimp only
  have hsize := hholds.length_eq
  have hlarge := (hholds.pages_le_iff _).mpr hholds.room
  have hmod : (file.getD []).length % layout.pageSize = 0 := by
    rw [hsize]
    exact Nat.mul_mod_left _ _
  rw [if_neg (by simp only [hmod]; omega), if_neg (by simp), ← List.length_append]
  split
  next heq =>
    rw [heq] at hloop
    exact Or.inr ⟨_, hloop.resolve_left (by simp)⟩
  next =>
    split
    next => exact Or.inr ⟨_, rfl⟩
    next => exact Or.inl rfl

/-! ### Deleting -/

/-- The buffers hold the stored bytes of the pages. -/
def Buffered (layout : RecordLayout) (bytes : Bytes) (pages : Nat → Bytes) (loaded : List Nat) :
    Prop :=
  ∀ page ∈ loaded, page * layout.pageSize + layout.pageSize ≤ bytes.length ∧
    pages page = slice bytes (page * layout.pageSize) layout.pageSize

theorem loadPages_none (listNo : Nat) {bytes : Bytes} (hoff : bytes.length ≤ offMax)
    {needed loaded : List Nat} {pages : Nat → Bytes} (hloaded : layout.Buffered bytes pages loaded)
    (hin : ∀ page ∈ needed, page * layout.pageSize + layout.pageSize ≤ bytes.length) :
    ∃ pages', layout.loadPages IoFaults.none listNo bytes needed pages = .ok pages' ∧
      layout.Buffered bytes pages' (loaded ++ needed) := by
  induction needed generalizing loaded pages with
  | nil => exact ⟨pages, rfl, by rwa [List.append_nil]⟩
  | cons page rest ih =>
      have hpage := hin page List.mem_cons_self
      obtain ⟨pages', hload, hbuffered⟩ := @ih (loaded ++ [page])
        (Function.update pages page (slice bytes (page * layout.pageSize) layout.pageSize))
        (fun other hother => by
          by_cases heq : other = page
          · rw [heq, Function.update_self]
            exact ⟨hpage, rfl⟩
          · rw [Function.update_of_ne heq]
            have : other ∈ loaded := by simpa [heq] using hother
            exact hloaded other this)
        (fun page h => hin page (List.mem_cons_of_mem _ h))
      refine ⟨pages', ?_, by simpa using hbuffered⟩
      rw [loadPages, readPage_none hoff hpage, ok_bind, hload]

theorem bufferedRecord_eq {bytes : Bytes} {pages : Nat → Bytes} {loaded : List Nat}
    (hbuffered : layout.Buffered bytes pages loaded) {offset : Nat}
    (h : offset / layout.recordsPerPage ∈ loaded) :
    layout.bufferedRecord pages offset = layout.paging.slotAt bytes offset := by
  rw [bufferedRecord, (hbuffered _ h).2]
  exact layout.paging.slice_page bytes offset

/-- Two offsets of one page in the same lane are one offset. -/
theorem offset_eq_of_lane_eq {offset offset' : Nat}
    (hpage : offset / layout.recordsPerPage = offset' / layout.recordsPerPage)
    (hlane : offset % layout.recordsPerPage = offset' % layout.recordsPerPage) :
    offset = offset' := by
  have h := Nat.div_add_mod offset layout.recordsPerPage
  rw [hpage, hlane, Nat.div_add_mod] at h
  exact h.symm

/-- Every loaded buffer is one page long. -/
def PageSized (layout : RecordLayout) (pages : Nat → Bytes) (loaded : List Nat) : Prop :=
  ∀ page ∈ loaded, (pages page).length = layout.pageSize

theorem Buffered.pageSized {bytes : Bytes} {pages : Nat → Bytes} {loaded : List Nat}
    (hbuffered : layout.Buffered bytes pages loaded) : layout.PageSized pages loaded := by
  intro page hpage
  obtain ⟨hle, heq⟩ := hbuffered page hpage
  rw [heq, length_slice_of_le hle]

section Put

variable {pages : Nat → Bytes} {loaded : List Nat} {record : Bytes} {offset : Nat}

theorem putRecord_pageSized (hsized : layout.PageSized pages loaded)
    (hrecord : record.length = layout.recordStride) :
    layout.PageSized (layout.putRecord pages offset record) loaded := by
  intro page hpage
  rw [putRecord]
  by_cases heq : page = offset / layout.recordsPerPage
  · have hlane := layout.paging.lane_end_le (layout.paging.lane_lt offset)
    have hlength := hsized page hpage
    rw [heq] at hlength
    rw [heq, Function.update_self, length_splice_of_le (by rw [hrecord, hlength]; exact hlane),
      hlength]
  · rw [Function.update_of_ne heq, hsized page hpage]

theorem bufferedRecord_putRecord (hsized : layout.PageSized pages loaded)
    (hrecord : record.length = layout.recordStride)
    (hoffset : offset / layout.recordsPerPage ∈ loaded) (other : Nat) :
    layout.bufferedRecord (layout.putRecord pages offset record) other =
      Function.update (layout.bufferedRecord pages) offset record other := by
  have hlane := layout.paging.lane_end_le (layout.paging.lane_lt offset)
  have hin : offset % layout.recordsPerPage * layout.recordStride ≤
      (pages (offset / layout.recordsPerPage)).length := by
    rw [hsized _ hoffset]
    exact Nat.le_of_add_right_le hlane
  by_cases heq : other = offset
  · rw [heq, Function.update_self, bufferedRecord, putRecord, Function.update_self]
    have hself := slice_splice_self hin record
    rwa [hrecord] at hself
  · rw [Function.update_of_ne heq, bufferedRecord, putRecord]
    by_cases hpage : other / layout.recordsPerPage = offset / layout.recordsPerPage
    · rw [hpage, Function.update_self, slice_splice_disjoint hin, bufferedRecord, hpage]
      rw [hrecord]
      exact layout.paging.lanes_disjoint fun hlane => heq (offset_eq_of_lane_eq hpage hlane)
    · rw [Function.update_of_ne hpage, bufferedRecord]

end Put

/-- Storing a batch of records in the buffers updates their slots in order. -/
theorem bufferedRecord_putRecords {loaded : List Nat} {snapshots : List (Nat × Bytes)}
    {pages : Nat → Bytes} (hsized : layout.PageSized pages loaded)
    (hsnapshots : ∀ snapshot ∈ snapshots, snapshot.1 / layout.recordsPerPage ∈ loaded ∧
      snapshot.2.length = layout.recordStride) :
    let pages' := snapshots.foldl
      (fun pages snapshot => layout.putRecord pages snapshot.1 snapshot.2) pages
    layout.PageSized pages' loaded ∧ ∀ offset, layout.bufferedRecord pages' offset =
      applyUpdates (layout.bufferedRecord pages) snapshots offset :=
  @read_foldl_write Nat Bytes _ (Nat → Bytes) layout.bufferedRecord layout.putRecord
    (layout.PageSized · loaded)
    (fun offset record => offset / layout.recordsPerPage ∈ loaded ∧
      record.length = layout.recordStride)
    (fun _ _ _ hsized h => ⟨putRecord_pageSized hsized h.2, bufferedRecord_putRecord hsized h.2 h.1⟩)
    snapshots hsnapshots pages hsized

/-- The moves as updates of positions. -/
def moveUpdates (moves : List RecordMove) : List (Nat × Nat) :=
  moves.map fun move => (move.destination, move.source)

/-- The moves read every source before they store the first record. -/
theorem bufferedRecord_moveRecords {pages : Nat → Bytes} {loaded : List Nat}
    (hsized : layout.PageSized pages loaded) {moves : List RecordMove}
    (hmoves : ∀ move ∈ moves, move.destination / layout.recordsPerPage ∈ loaded ∧
      move.source / layout.recordsPerPage ∈ loaded) :
    layout.PageSized (layout.moveRecords pages moves) loaded ∧
      ∀ offset, layout.bufferedRecord (layout.moveRecords pages moves) offset =
        layout.bufferedRecord pages (applyUpdates id (moveUpdates moves) offset) := by
  obtain ⟨hsized', hrecord⟩ := @bufferedRecord_putRecords layout loaded
    (moves.map fun move => (move.destination, layout.bufferedRecord pages move.source)) pages hsized
    (fun snapshot h => by
      obtain ⟨move, hmove, rfl⟩ := List.mem_map.mp h
      refine ⟨(hmoves move hmove).1, ?_⟩
      rw [bufferedRecord, length_slice_of_le]
      rw [hsized _ (hmoves move hmove).2]
      exact layout.paging.lane_end_le (layout.paging.lane_lt move.source))
  refine ⟨hsized', fun offset => (hrecord offset).trans ?_⟩
  have hcomp := applyUpdates_comp (layout.bufferedRecord pages) id (moveUpdates moves) offset
  rw [moveUpdates, List.map_map] at hcomp
  exact hcomp

/-- Clearing the tail page touches no row below the new size. -/
theorem clearTail_spec {newSize : Nat} {pages : Nat → Bytes} {loaded : List Nat}
    (hsized : layout.PageSized pages loaded)
    (htail : newSize ≠ 0 → newSize % layout.recordsPerPage ≠ 0 →
      newSize / layout.recordsPerPage ∈ loaded) :
    layout.PageSized (layout.clearTail newSize pages) loaded ∧
      ∀ offset < newSize, layout.bufferedRecord (layout.clearTail newSize pages) offset =
        layout.bufferedRecord pages offset := by
  rw [clearTail]
  split
  next hcut =>
    have hlength := hsized _ (htail hcut.1 hcut.2)
    have hlane := Nat.mod_lt newSize layout.recordsPerPage_pos
    have hend : newSize % layout.recordsPerPage * layout.recordStride +
        (layout.recordsPerPage - newSize % layout.recordsPerPage) * layout.recordStride ≤
          layout.pageSize := by
      rw [← Nat.add_mul, Nat.add_sub_cancel' (Nat.le_of_lt hlane)]
      exact layout.paging.fits
    constructor
    · intro page hpage
      dsimp only
      by_cases heq : page = newSize / layout.recordsPerPage
      · rw [heq, Function.update_self, length_splice_of_le (by rw [List.length_replicate]; omega),
          hlength]
      · rw [Function.update_of_ne heq, hsized page hpage]
    · intro offset hoffset
      rw [bufferedRecord]
      by_cases heq : offset / layout.recordsPerPage = newSize / layout.recordsPerPage
      · have hless : offset % layout.recordsPerPage + 1 ≤ newSize % layout.recordsPerPage := by
          have := Nat.div_add_mod offset layout.recordsPerPage
          have := Nat.div_add_mod newSize layout.recordsPerPage
          rw [heq] at *
          omega
        have hbefore := Nat.mul_le_mul_right layout.recordStride hless
        rw [Nat.succ_mul] at hbefore
        rw [heq, Function.update_self, slice_splice_disjoint (by omega) (Or.inl hbefore),
          bufferedRecord, heq]
      · rw [Function.update_of_ne heq, bufferedRecord]
  next => exact ⟨hsized, fun _ _ => rfl⟩

/-- Writing buffered pages that lie inside the file. -/
theorem commitPages_spec (faults : IoFaults) (listNo : Nat) {pages : Nat → Bytes}
    {written : List Nat} {bytes : Bytes}
    (hsized : layout.PageSized pages written)
    (hin : ∀ page ∈ written, page * layout.pageSize + layout.pageSize ≤ bytes.length) :
    (layout.commitPages faults listNo pages written bytes).1.length = bytes.length ∧
      ((layout.commitPages faults listNo pages written bytes).2 = .ok () →
        ∀ offset, layout.paging.slotOffset offset + layout.recordStride ≤ bytes.length →
          layout.paging.slotAt (layout.commitPages faults listNo pages written bytes).1 offset =
            if offset / layout.recordsPerPage ∈ written then layout.bufferedRecord pages offset
            else layout.paging.slotAt bytes offset) := by
  induction written generalizing bytes with
  | nil => exact ⟨rfl, fun _ offset _ => by rw [if_neg (by simp)]; rfl⟩
  | cons page rest ih =>
      rw [commitPages]
      cases hwrite : layout.writePage faults listNo bytes page (pages page) with
      | error error => exact ⟨rfl, by simp⟩
      | ok bytes' =>
          obtain ⟨-, rfl⟩ := writePage_eq_ok hwrite
          have hbuffer := hsized page List.mem_cons_self
          have hpage := hin page List.mem_cons_self
          have hlength : (overwrite 0 bytes (page * layout.pageSize) (pages page)).length =
              bytes.length := by
            rw [length_overwrite, hbuffer]
            omega
          obtain ⟨hsame, hslots⟩ := @ih (overwrite 0 bytes (page * layout.pageSize) (pages page))
            (fun page h => hsized page (List.mem_cons_of_mem _ h))
            (fun page h => by rw [hlength]; exact hin page (List.mem_cons_of_mem _ h))
          refine ⟨hsame.trans hlength, fun hok offset hoffset => ?_⟩
          refine (hslots hok offset (by rwa [hlength])).trans ?_
          have hslot : layout.paging.slotAt (overwrite 0 bytes (page * layout.pageSize) (pages page))
              offset = if offset / layout.recordsPerPage = page then
                slice (pages page) (offset % layout.recordsPerPage * layout.recordStride)
                  layout.recordStride else layout.paging.slotAt bytes offset :=
            layout.paging.slotAt_overwrite 0 bytes page hbuffer fun _ => hoffset
          by_cases hrest : offset / layout.recordsPerPage ∈ rest
          · rw [if_pos hrest, if_pos (List.mem_cons_of_mem _ hrest)]
          · rw [if_neg hrest]
            by_cases heq : offset / layout.recordsPerPage = page
            · rw [if_pos heq] at hslot
              rw [hslot, if_pos (by simp [heq]), bufferedRecord, heq]
            · rw [if_neg heq] at hslot
              rw [hslot, if_neg (by simp [heq, hrest])]

theorem commitPages_none (listNo : Nat) {pages : Nat → Bytes} {written : List Nat} {bytes : Bytes}
    (hoff : bytes.length ≤ offMax) (hsized : layout.PageSized pages written)
    (hin : ∀ page ∈ written, page * layout.pageSize + layout.pageSize ≤ bytes.length) :
    (layout.commitPages IoFaults.none listNo pages written bytes).2 = .ok () := by
  induction written generalizing bytes with
  | nil => rfl
  | cons page rest ih =>
      have hbuffer := hsized page List.mem_cons_self
      have hpage := hin page List.mem_cons_self
      have hlength : (overwrite 0 bytes (page * layout.pageSize) (pages page)).length =
          bytes.length := by
        rw [length_overwrite, hbuffer]
        omega
      rcases @writePage_none layout listNo page bytes (pages page) (by omega) with ⟨_, h⟩ | ⟨h, _⟩
      · rw [commitPages, h]
        exact ih (by rwa [hlength]) (fun page h => hsized page (List.mem_cons_of_mem _ h))
          (fun page h => by rw [hlength]; exact hin page (List.mem_cons_of_mem _ h))
      · omega

theorem mem_neededPages {newSize : Nat} {moves : List RecordMove} {offsets : List Nat} {page : Nat} :
    page ∈ layout.neededPages newSize moves offsets ↔
      (∃ offset ∈ offsets, offset / layout.recordsPerPage = page) ∨
      (∃ move ∈ moves, page = move.destination / layout.recordsPerPage ∨
        page = move.source / layout.recordsPerPage) ∨
      (newSize ≠ 0 ∧ newSize % layout.recordsPerPage ≠ 0) ∧
        page = newSize / layout.recordsPerPage := by
  simp only [neededPages, List.mem_insertionSort, List.mem_dedup, List.mem_append, List.mem_map,
    List.mem_flatMap, List.mem_cons, List.not_mem_nil, or_false, List.mem_ite_nil_right, or_assoc]

theorem mem_writtenPages {newSize : Nat} {moves : List RecordMove} {page : Nat} :
    page ∈ layout.writtenPages newSize moves ↔
      ((∃ move ∈ moves, move.destination / layout.recordsPerPage = page) ∨
        (newSize ≠ 0 ∧ newSize % layout.recordsPerPage ≠ 0) ∧
          page = newSize / layout.recordsPerPage) ∧
      page < pageCount newSize layout.recordsPerPage := by
  simp only [writtenPages, List.mem_filter, List.mem_insertionSort, List.mem_dedup, List.mem_append,
    List.mem_map, List.mem_cons, List.not_mem_nil, or_false, List.mem_ite_nil_right,
    decide_eq_true_eq]

/-- Moves that `prepare_moves_and_truncate` accepts. -/
def MovesOk (oldSize newSize : Nat) (moves : List RecordMove) : Prop :=
  ∀ move ∈ moves, move.destination < newSize ∧ newSize ≤ move.source ∧ move.source < oldSize

/-- The records after the moves and the cut. -/
structure Moved (records : List (Record layout)) (newSize : Nat) (moves : List RecordMove)
    (records' : List (Record layout)) : Prop where
  length_eq : records'.length = newSize
  getElem?_eq : ∀ i < newSize, records'[i]? = records[applyUpdates id (moveUpdates moves) i]?

/-- The mutation prepared from page buffers. -/
def mutationOf (layout : RecordLayout) (oldSize newSize : Nat) (moves : List RecordMove)
    (offsets : List Nat) (pages : Nat → Bytes) : PreparedRecordMutation where
  oldPages := pageCount oldSize layout.recordsPerPage
  newPages := pageCount newSize layout.recordsPerPage
  pages := layout.clearTail newSize (layout.moveRecords pages moves)
  writePages := layout.writtenPages newSize moves
  observedIds := offsets.map fun offset => Record.idOf (layout.bufferedRecord pages offset)

section Delete

variable {bytes : Bytes} {records records' : List (Record layout)} {newSize : Nat}
  {moves : List RecordMove} {offsets : List Nat} {pages : Nat → Bytes}

theorem neededPages_lt (hmoves : MovesOk records.length newSize moves)
    (hle : newSize ≤ records.length) (hoffsets : ∀ offset ∈ offsets, offset < records.length) :
    ∀ page ∈ layout.neededPages newSize moves offsets,
      page < pageCount records.length layout.recordsPerPage := by
  intro page hpage
  rcases mem_neededPages.mp hpage with ⟨offset, hoffset, rfl⟩ | ⟨move, hmove, rfl | rfl⟩ |
    ⟨⟨_, hrem⟩, rfl⟩
  · exact div_lt_pageCount layout.recordsPerPage_pos (hoffsets offset hoffset)
  · have := hmoves move hmove
    exact div_lt_pageCount layout.recordsPerPage_pos (by omega)
  · have := hmoves move hmove
    exact div_lt_pageCount layout.recordsPerPage_pos (by omega)
  · rw [lt_pageCount_iff layout.recordsPerPage_pos]
    have := Nat.div_add_mod' newSize layout.recordsPerPage
    omega

/-- Preparing a deletion from a file that holds the list. -/
theorem prepare_eq (listNo : Nat)
    (hholds : layout.Holds bytes records (pageCount records.length layout.recordsPerPage))
    (hmoves : MovesOk records.length newSize moves) (hle : newSize ≤ records.length)
    (hoffsets : ∀ offset ∈ offsets, offset < records.length)
    (hcount : moves.length * layout.recordStride ≤ sizeMax) :
    ∃ pages, layout.Buffered bytes pages (layout.neededPages newSize moves offsets) ∧
      layout.prepareMovesAndTruncate IoFaults.none listNo records.length newSize moves offsets
        (some bytes) = .ok (layout.mutationOf records.length newSize moves offsets pages) := by
  have hin : ∀ page ∈ layout.neededPages newSize moves offsets,
      page * layout.pageSize + layout.pageSize ≤ bytes.length := fun page hpage => by
    rw [← Nat.succ_mul, hholds.pages_le_iff]
    exact neededPages_lt hmoves hle hoffsets page hpage
  obtain ⟨pages, hload, hbuffered⟩ := @loadPages_none layout listNo bytes hholds.le_off
    (layout.neededPages newSize moves offsets) [] (fun _ => []) (by simp [Buffered]) hin
  refine ⟨pages, by simpa using hbuffered, ?_⟩
  have hany : (moves.any fun move => newSize ≤ move.destination || move.source < newSize ||
      records.length ≤ move.source) = false := by
    rw [List.any_eq_false]
    intro move hmove
    have := hmoves move hmove
    simp only [Bool.or_eq_true, decide_eq_true_eq]
    omega
  have hseen : (offsets.any (records.length ≤ ·)) = false := by
    rw [List.any_eq_false]
    intro offset hoffset
    have := hoffsets offset hoffset
    simp only [decide_eq_true_eq]
    omega
  rw [prepareMovesAndTruncate, if_neg (by omega), hany, hseen]
  simp only [Bool.false_eq_true, if_false, attempt_none, ok_bind, hholds.length_eq, ne_eq,
    not_true_eq_false, hload]
  rw [if_neg (by omega)]
  rfl

theorem loadPages_none_of_ok {faults : IoFaults} {listNo : Nat} {bytes : Bytes} {needed : List Nat}
    {pages loaded : Nat → Bytes}
    (h : layout.loadPages faults listNo bytes needed pages = .ok loaded) :
    layout.loadPages IoFaults.none listNo bytes needed pages = .ok loaded := by
  induction needed generalizing pages with
  | nil => exact h
  | cons page rest ih =>
      rw [loadPages, bind_eq_ok] at h ⊢
      obtain ⟨buffer, hread, hrest⟩ := h
      refine ⟨buffer, ?_, ih hrest⟩
      simp only [readPage, bind_eq_ok] at hread ⊢
      obtain ⟨-, -, hread⟩ := hread
      exact ⟨(), rfl, hread⟩

/-- A preparation that returned would have returned the same without faults,
and only from a file of exactly the list's pages. -/
theorem prepare_none_of_ok {faults : IoFaults} {listNo oldSize newSize : Nat}
    {moves : List RecordMove} {offsets : List Nat} {file : Option Bytes}
    {mutation : PreparedRecordMutation}
    (h : layout.prepareMovesAndTruncate faults listNo oldSize newSize moves offsets file =
      .ok mutation) :
    layout.prepareMovesAndTruncate IoFaults.none listNo oldSize newSize moves offsets file =
        .ok mutation ∧
      moves.length * layout.recordStride ≤ sizeMax ∧
      ∃ bytes, file = some bytes ∧
        bytes.length = pageCount oldSize layout.recordsPerPage * layout.pageSize := by
  simp only [prepareMovesAndTruncate, guard_eq_ok, bind_eq_ok] at h ⊢
  obtain ⟨hgrow, hmoves, hoffsets, -, -, h⟩ := h
  cases file with
  | none => simp at h
  | some bytes =>
      simp only [guard_eq_ok, bind_eq_ok] at h ⊢
      obtain ⟨hlength, pages, hload, hcount, hmutation⟩ := h
      exact ⟨⟨hgrow, hmoves, hoffsets, (), rfl, hlength, pages, loadPages_none_of_ok hload, hcount,
        hmutation⟩, Nat.not_lt.mp hcount, bytes, rfl, not_not.mp hlength⟩
theorem moves_loaded (newSize : Nat) (moves : List RecordMove) (offsets : List Nat) :
    ∀ move ∈ moves,
      move.destination / layout.recordsPerPage ∈ layout.neededPages newSize moves offsets ∧
      move.source / layout.recordsPerPage ∈ layout.neededPages newSize moves offsets :=
  fun move hmove => ⟨mem_neededPages.mpr (Or.inr (Or.inl ⟨move, hmove, Or.inl rfl⟩)),
    mem_neededPages.mpr (Or.inr (Or.inl ⟨move, hmove, Or.inr rfl⟩))⟩

theorem tail_loaded (newSize : Nat) (moves : List RecordMove) (offsets : List Nat) :
    newSize ≠ 0 → newSize % layout.recordsPerPage ≠ 0 →
      newSize / layout.recordsPerPage ∈ layout.neededPages newSize moves offsets :=
  fun h h' => mem_neededPages.mpr (Or.inr (Or.inr ⟨⟨h, h'⟩, rfl⟩))

/-- A row's new record, read from the prepared buffers. -/
theorem prepared_record (hmoved : Moved records newSize moves records')
    (hholds : layout.Holds bytes records (pageCount records.length layout.recordsPerPage))
    (hmoves : MovesOk records.length newSize moves) (hle : newSize ≤ records.length)
    (hbuffered : layout.Buffered bytes pages (layout.neededPages newSize moves offsets))
    {offset : Nat} (hoffset : offset < newSize) (hin : offset < records'.length)
    (hpage : offset / layout.recordsPerPage ∈ layout.neededPages newSize moves offsets) :
    layout.bufferedRecord (layout.clearTail newSize (layout.moveRecords pages moves)) offset =
      records'[offset].encode := by
  have hloaded := @moves_loaded layout newSize moves offsets
  obtain ⟨hsized, hrecord⟩ := bufferedRecord_moveRecords hbuffered.pageSized hloaded
  rw [(clearTail_spec hsized (tail_loaded newSize moves offsets)).2 offset hoffset, hrecord]
  -- the old position of the row is in a loaded page and below the old size
  have hsource : applyUpdates id (moveUpdates moves) offset / layout.recordsPerPage ∈
      layout.neededPages newSize moves offsets ∧
      applyUpdates id (moveUpdates moves) offset < records.length := by
    rcases applyUpdates_cases id (moveUpdates moves) offset with ⟨-, h⟩ | ⟨source, hmem, h⟩
    · rw [h]
      exact ⟨hpage, Nat.lt_of_lt_of_le hoffset hle⟩
    · obtain ⟨move, hmove, heq⟩ := List.mem_map.mp hmem
      obtain ⟨-, rfl⟩ := Prod.mk.inj heq
      rw [h]
      exact ⟨(hloaded move hmove).2, (hmoves move hmove).2.2⟩
  have hget := hmoved.getElem?_eq offset hoffset
  rw [List.getElem?_eq_getElem hsource.2, List.getElem?_eq_getElem hin] at hget
  rw [bufferedRecord_eq hbuffered hsource.1, hholds.slot _ hsource.2, Option.some.inj hget]

theorem writtenPages_subset {page : Nat} (h : page ∈ layout.writtenPages newSize moves) :
    page ∈ layout.neededPages newSize moves offsets := by
  rcases (mem_writtenPages.mp h).1 with ⟨move, hmove, rfl⟩ | htail
  · exact mem_neededPages.mpr (Or.inr (Or.inl ⟨move, hmove, Or.inl rfl⟩))
  · exact mem_neededPages.mpr (Or.inr (Or.inr htail))

theorem commitBuffers_sized
    (hbuffered : layout.Buffered bytes pages (layout.neededPages newSize moves offsets)) :
    layout.PageSized (layout.clearTail newSize (layout.moveRecords pages moves))
      (layout.writtenPages newSize moves) := by
  have hmoved := bufferedRecord_moveRecords hbuffered.pageSized (moves_loaded newSize moves offsets)
  have hcleared := clearTail_spec hmoved.1 (tail_loaded newSize moves offsets)
  exact fun page hpage => hcleared.1 page (writtenPages_subset hpage)

theorem writtenPages_inside
    (hholds : layout.Holds bytes records (pageCount records.length layout.recordsPerPage))
    (hle : newSize ≤ records.length) :
    ∀ page ∈ layout.writtenPages newSize moves,
      page * layout.pageSize + layout.pageSize ≤ bytes.length := by
  intro page hpage
  rw [← Nat.succ_mul, hholds.pages_le_iff]
  exact Nat.lt_of_lt_of_le (mem_writtenPages.mp hpage).2
    (pageCount_mono layout.recordsPerPage_pos hle)

/-- What a commit that returned has done. -/
theorem commit_eq_ok {faults : IoFaults} {listNo : Nat} {mutation : PreparedRecordMutation}
    (h : (layout.commitPreparedMutation faults listNo mutation (some bytes)).2 = .ok ()) :
    (layout.commitPages faults listNo mutation.pages mutation.writePages bytes).2 = .ok () ∧
      (layout.commitPreparedMutation faults listNo mutation (some bytes)).1 = some (ftruncate
        (layout.commitPages faults listNo mutation.pages mutation.writePages bytes).1
        (mutation.newPages * layout.pageSize)) := by
  unfold commitPreparedMutation at h ⊢
  split at h
  next => simp at h
  next hopen =>
    rw [if_neg hopen]
    dsimp only at h ⊢
    split at h
    next => simp at h
    next hlength =>
      rw [if_neg hlength]
      rcases hpages : layout.commitPages faults listNo mutation.pages mutation.writePages bytes with
        ⟨bytes', error | _⟩
      · simp [hpages] at h
      · rw [hpages] at h
        dsimp only at h ⊢
        split at h
        next => simp at h
        next hfinish => exact ⟨rfl, by rw [if_neg hfinish]⟩

/-- Committing a prepared deletion leaves the moved records. -/
theorem commit_holds (faults : IoFaults) (listNo : Nat)
    (hmoved : Moved records newSize moves records')
    (hholds : layout.Holds bytes records (pageCount records.length layout.recordsPerPage))
    (hmoves : MovesOk records.length newSize moves) (hle : newSize ≤ records.length)
    (hbuffered : layout.Buffered bytes pages (layout.neededPages newSize moves offsets))
    (hok : (layout.commitPreparedMutation faults listNo
      (layout.mutationOf records.length newSize moves offsets pages) (some bytes)).2 = .ok ()) :
    ∃ bytes', (layout.commitPreparedMutation faults listNo
        (layout.mutationOf records.length newSize moves offsets pages) (some bytes)).1 =
          some bytes' ∧
      layout.Holds bytes' records' (pageCount records'.length layout.recordsPerPage) := by
  obtain ⟨hlength, hslots⟩ := commitPages_spec faults listNo (commitBuffers_sized hbuffered)
    (writtenPages_inside hholds hle)
  obtain ⟨hwritten, hfile⟩ := commit_eq_ok hok
  have hcut : pageCount newSize layout.recordsPerPage * layout.pageSize ≤ bytes.length :=
    (hholds.pages_le_iff _).mpr (pageCount_mono layout.recordsPerPage_pos hle)
  have hoff := hholds.le_off
  refine ⟨_, hfile, ?_⟩
  dsimp only [mutationOf] at hwritten ⊢
  rw [hmoved.length_eq, ftruncate_of_le (by rw [hlength]; exact hcut)]
  refine ⟨?_, ?_, by rw [hmoved.length_eq], fun i hi => ?_⟩
  · rw [List.length_take]
    omega
  · rw [List.length_take]
    omega
  · rw [hmoved.length_eq] at hi
    have hpage := div_lt_pageCount layout.recordsPerPage_pos hi
    have hin : layout.paging.slotOffset i + layout.recordStride ≤
        pageCount newSize layout.recordsPerPage * layout.pageSize :=
      layout.paging.slot_end_le_of_pages hpage
    have hslot := hslots hwritten i (Nat.le_trans hin hcut)
    rw [layout.paging.slotAt_take hin, hslot]
    split
    next hchanged =>
      exact prepared_record hmoved hholds hmoves hle hbuffered hi _ (writtenPages_subset hchanged)
    next hkept =>
      -- a page no move writes to holds no destination
      have hstay : applyUpdates id (moveUpdates moves) i = i := by
        apply applyUpdates_of_notMem
        intro hmem
        obtain ⟨update, hupdate, rfl⟩ := List.mem_map.mp hmem
        obtain ⟨move, hmove, rfl⟩ := List.mem_map.mp hupdate
        exact hkept (mem_writtenPages.mpr ⟨Or.inl ⟨move, hmove, rfl⟩, hpage⟩)
      have hget := hmoved.getElem?_eq i hi
      rw [hstay, List.getElem?_eq_getElem (l := records) (by omega),
        List.getElem?_eq_getElem (l := records') (by rw [hmoved.length_eq]; exact hi)] at hget
      rw [hholds.slot i (by omega), Option.some.inj hget]

/-- Without injected faults a prepared deletion is committed. -/
theorem commit_none (listNo : Nat)
    (hholds : layout.Holds bytes records (pageCount records.length layout.recordsPerPage))
    (hle : newSize ≤ records.length)
    (hbuffered : layout.Buffered bytes pages (layout.neededPages newSize moves offsets)) :
    (layout.commitPreparedMutation IoFaults.none listNo
      (layout.mutationOf records.length newSize moves offsets pages) (some bytes)).2 = .ok () := by
  have hpages := commitPages_none listNo hholds.le_off (commitBuffers_sized hbuffered)
    (writtenPages_inside hholds hle)
  have hcut : pageCount newSize layout.recordsPerPage * layout.pageSize ≤ bytes.length :=
    (hholds.pages_le_iff _).mpr (pageCount_mono layout.recordsPerPage_pos hle)
  have hfinal : (layout.mutationOf records.length newSize moves offsets pages).newPages *
      layout.pageSize ≤ offMax := Nat.le_trans hcut hholds.le_off
  have hlength : bytes.length = (layout.mutationOf records.length newSize moves offsets
    pages).oldPages * layout.pageSize := hholds.length_eq
  unfold commitPreparedMutation
  rw [if_neg (by simp)]
  dsimp only
  rw [if_neg (by simp [hlength])]
  split
  next heq =>
    have hfailed := congrArg Prod.snd heq
    exact hfailed.symm.trans hpages
  next => rw [if_neg (by simp only [IoFaults.none_apply, Bool.false_eq_true, or_false]; omega)]

/-- The prepared deletion has seen the IDs of the old records. -/
theorem observedIds_eq
    (hholds : layout.Holds bytes records (pageCount records.length layout.recordsPerPage))
    (hoffsets : ∀ offset ∈ offsets, offset < records.length)
    (hbuffered : layout.Buffered bytes pages (layout.neededPages newSize moves offsets)) :
    (layout.mutationOf records.length newSize moves offsets pages).observedIds =
      (select records offsets).map (·.logicalId) := by
  apply List.map_injective_iff.mpr (Option.some_injective _)
  have hselect := congrArg (List.map (Option.map (·.logicalId))) (select_eq_map hoffsets)
  simp only [List.map_map] at hselect ⊢
  refine Eq.trans ?_ hselect.symm
  rw [mutationOf, List.map_map]
  apply List.map_congr_left
  intro offset hoffset
  have hloaded : offset / layout.recordsPerPage ∈ layout.neededPages newSize moves offsets :=
    mem_neededPages.mpr (Or.inl ⟨offset, hoffset, rfl⟩)
  have hlt := hoffsets offset hoffset
  simp only [Function.comp_apply]
  rw [bufferedRecord_eq hbuffered hloaded, hholds.slot offset hlt, Record.idOf_encode,
    List.getElem?_eq_getElem hlt, Option.map_some]

end Delete

end Recast.RecordLayout
