import Recast.Storage.RecordLaws

/-!
# The pages an append leaves

An append determines every page of the list file from the old page and the new
rows. Two appends in a row are therefore one append of both batches, whatever
the file holds.
-/

namespace Recast.RecordLayout

open Foundation

variable {layout : RecordLayout}

/-- A page of a list file. -/
def pageAt (layout : RecordLayout) (bytes : Bytes) (page : Nat) : Bytes :=
  slice bytes (page * layout.pageSize) layout.pageSize

/-- A page before the new rows: the old page, or an empty one. -/
def pageBase (layout : RecordLayout) (oldSize : Nat) (bytes : Bytes) (page : Nat) : Bytes :=
  if page < pageCount oldSize layout.recordsPerPage then layout.pageAt bytes page
  else List.replicate layout.pageSize 0

/-- A page with the new rows. -/
def appendedPage (layout : RecordLayout) (oldSize : Nat) (rows : List (Record layout))
    (bytes : Bytes) (page : Nat) : Bytes :=
  layout.paging.writeLanes (layout.pageBase oldSize bytes page)
    (layout.appendLanes oldSize rows page)

/-- The file an append leaves, page by page. -/
structure Appended (layout : RecordLayout) (oldSize : Nat) (rows : List (Record layout))
    (bytes bytes' : Bytes) : Prop where
  length_eq : bytes'.length =
    pageCount (oldSize + rows.length) layout.recordsPerPage * layout.pageSize
  page : ∀ page < pageCount (oldSize + rows.length) layout.recordsPerPage,
    layout.pageAt bytes' page = layout.appendedPage oldSize rows bytes page

/-! ### Two appends -/

/-- The `i`-th new row of a page, when it is not of the first batch. -/
theorem second_lane {size first second begin capacity i : Nat}
    (hi : i < min (size + (first + second)) (begin + capacity) - max size begin)
    (hnew : ¬i < min (size + first) (begin + capacity) - max size begin) :
    max size begin - size + i - first = max (size + first) begin - (size + first) +
        (i - (min (size + first) (begin + capacity) - max size begin)) ∧
      max size begin + i - begin = max (size + first) begin +
        (i - (min (size + first) (begin + capacity) - max size begin)) - begin ∧
      first ≤ max size begin - size + i ∧
      i - (min (size + first) (begin + capacity) - max size begin) <
        min (size + first + second) (begin + capacity) - max (size + first) begin := by
  omega

/-- The lanes of two batches are those of the first and then those of the second. -/
theorem appendLanes_append (oldSize page : Nat) (first second : List (Record layout)) :
    layout.appendLanes oldSize (first ++ second) page =
      layout.appendLanes oldSize first page ++
        layout.appendLanes (oldSize + first.length) second page := by
  have hlength (oldSize : Nat) (rows : List (Record layout)) :
      (layout.appendLanes oldSize rows page).length =
        min (oldSize + rows.length) (page * layout.recordsPerPage + layout.recordsPerPage) -
          max oldSize (page * layout.recordsPerPage) := by
    simp only [appendLanes, List.length_mapIdx, length_slice]
    omega
  have hentry (oldSize : Nat) (rows : List (Record layout)) (i : Nat)
      (hi : i < min (oldSize + rows.length)
        (page * layout.recordsPerPage + layout.recordsPerPage) -
          max oldSize (page * layout.recordsPerPage)) :
      (layout.appendLanes oldSize rows page)[i]? =
        rows[max oldSize (page * layout.recordsPerPage) - oldSize + i]?.map fun row =>
          (max oldSize (page * layout.recordsPerPage) + i - page * layout.recordsPerPage,
            row.encode) := by
    rw [appendLanes, List.getElem?_mapIdx, getElem?_slice, if_pos hi]
  apply List.ext_getElem?
  intro i
  by_cases hi : i < (layout.appendLanes oldSize (first ++ second) page).length
  · have hwhole := hi
    rw [hlength, List.length_append] at hwhole
    rw [hentry oldSize (first ++ second) i (by rw [List.length_append]; exact hwhole)]
    by_cases hfirst : i < (layout.appendLanes oldSize first page).length
    · rw [List.getElem?_append_left hfirst]
      rw [hlength] at hfirst
      rw [hentry oldSize first i hfirst, List.getElem?_append_left (by omega)]
    · rw [List.getElem?_append_right (Nat.not_lt.mp hfirst)]
      rw [hlength] at hfirst
      obtain ⟨hindex, hkey, hpast, hin⟩ := second_lane hwhole hfirst
      rw [hlength, hentry (oldSize + first.length) second _ hin,
        List.getElem?_append_right hpast, hindex, hkey]
  · rw [List.getElem?_eq_none (Nat.not_lt.mp hi), List.getElem?_eq_none]
    rw [hlength, List.length_append] at hi
    rw [List.length_append, hlength, hlength]
    omega

/-- A page past the rows gets no lanes. -/
theorem appendLanes_eq_nil {oldSize page : Nat} {rows : List (Record layout)}
    (h : (page + 1) * layout.recordsPerPage ≤ oldSize ∨
      oldSize + rows.length ≤ page * layout.recordsPerPage) :
    layout.appendLanes oldSize rows page = [] := by
  have hkeys := @appendLanes_keys layout oldSize page rows
  rw [Nat.succ_mul] at hkeys h
  have hzero : min (oldSize + rows.length)
      (page * layout.recordsPerPage + layout.recordsPerPage) -
        max oldSize (page * layout.recordsPerPage) = 0 := by omega
  rw [hzero, List.range'_zero] at hkeys
  exact List.map_eq_nil_iff.mp hkeys

/-- A file of whole pages is determined by its pages. -/
theorem eq_of_pages {bytes bytes' : Bytes} {pages : Nat}
    (hlength : bytes.length = pages * layout.pageSize)
    (hlength' : bytes'.length = pages * layout.pageSize)
    (h : ∀ page < pages, layout.pageAt bytes page = layout.pageAt bytes' page) :
    bytes = bytes' := by
  apply List.ext_getElem?
  intro i
  have hpos := layout.pageSize_pos
  by_cases hi : i < pages * layout.pageSize
  · have hpage := congrArg (fun page => page[i % layout.pageSize]?)
      (h (i / layout.pageSize) (Nat.div_lt_of_lt_mul (by rwa [Nat.mul_comm])))
    simp only [pageAt, getElem?_slice, if_pos (Nat.mod_lt i hpos)] at hpage
    rwa [Nat.mul_comm, Nat.div_add_mod] at hpage
  · rw [List.getElem?_eq_none (by omega), List.getElem?_eq_none (by omega)]

theorem Appended.unique {oldSize : Nat} {rows : List (Record layout)} {bytes first second : Bytes}
    (hfirst : layout.Appended oldSize rows bytes first)
    (hsecond : layout.Appended oldSize rows bytes second) : first = second :=
  eq_of_pages hfirst.length_eq hsecond.length_eq fun page h =>
    (hfirst.page page h).trans (hsecond.page page h).symm

/-- One append after another is one append of both batches. -/
theorem Appended.append {oldSize : Nat} {first second : List (Record layout)}
    {bytes bytes' bytes'' : Bytes} (hfirst : layout.Appended oldSize first bytes bytes')
    (hsecond : layout.Appended (oldSize + first.length) second bytes' bytes'') :
    layout.Appended oldSize (first ++ second) bytes bytes'' := by
  have hlength := hsecond.length_eq
  rw [Nat.add_assoc, ← List.length_append] at hlength
  refine ⟨hlength, fun page hpage => ?_⟩
  rw [List.length_append, ← Nat.add_assoc] at hpage
  have hbase : layout.pageBase (oldSize + first.length) bytes' page =
      layout.appendedPage oldSize first bytes page := by
    rw [pageBase]
    split
    next hold => exact hfirst.page page hold
    next hnew =>
      have hpast := mt (lt_pageCount_iff layout.recordsPerPage_pos).mpr hnew
      have hold : ¬page < pageCount oldSize layout.recordsPerPage := fun h =>
        hnew (Nat.lt_of_lt_of_le h (pageCount_mono layout.recordsPerPage_pos (Nat.le_add_right _ _)))
      rw [appendedPage, appendLanes_eq_nil (Or.inr (Nat.not_lt.mp hpast)), pageBase, if_neg hold]
      rfl
  rw [hsecond.page page hpage, appendedPage, hbase, appendedPage, appendedPage,
    appendLanes_append, Paging.writeLanes, Paging.writeLanes, Paging.writeLanes,
    List.foldl_append]

/-! ### The page loop -/

section Loop

variable {oldSize : Nat} {rows : List (Record layout)} {bytes : Bytes}

theorem length_pageBase (hbytes : pageCount oldSize layout.recordsPerPage * layout.pageSize ≤
    bytes.length) (page : Nat) : (layout.pageBase oldSize bytes page).length = layout.pageSize := by
  rw [pageBase]
  split
  next hold =>
    have hpage := Nat.mul_le_mul_right layout.pageSize hold
    rw [Nat.succ_mul] at hpage
    exact length_slice_of_le (hpage.trans hbytes)
  next => exact List.length_replicate

theorem length_appendedPage (hbytes : pageCount oldSize layout.recordsPerPage * layout.pageSize ≤
    bytes.length) (page : Nat) :
    (layout.appendedPage oldSize rows bytes page).length = layout.pageSize :=
  layout.paging.length_writeLanes (length_pageBase hbytes page) appendLanes_ok

/-- The file when the loop reaches page `page`: the pages before it are done,
the old ones from it on are as they were. -/
structure Filled (layout : RecordLayout) (oldSize : Nat) (rows : List (Record layout))
    (bytes : Bytes) (page : Nat) (current : Bytes) : Prop where
  length_eq : current.length =
    max (pageCount oldSize layout.recordsPerPage) page * layout.pageSize
  done : ∀ other < page, layout.pageAt current other = layout.appendedPage oldSize rows bytes other
  kept : ∀ other, page ≤ other → other < pageCount oldSize layout.recordsPerPage →
    layout.pageAt current other = layout.pageAt bytes other

/-- Rows start in the last old page or in the first new one. -/
theorem filled_start (hbytes : pageCount oldSize layout.recordsPerPage * layout.pageSize ≤
    bytes.length) :
    layout.Filled oldSize rows bytes (oldSize / layout.recordsPerPage)
      (ftruncate bytes (pageCount oldSize layout.recordsPerPage * layout.pageSize)) := by
  have hfirst := @div_le_pageCount oldSize layout.recordsPerPage layout.recordsPerPage_pos
  have hpage (page : Nat) (h : page < pageCount oldSize layout.recordsPerPage) :
      layout.pageAt (ftruncate bytes (pageCount oldSize layout.recordsPerPage * layout.pageSize))
        page = layout.pageAt bytes page := by
    rw [ftruncate_of_le hbytes]
    refine slice_take bytes ?_
    rw [← Nat.succ_mul]
    exact Nat.mul_le_mul_right _ h
  refine ⟨?_, fun page h => ?_, fun page _ h => hpage page h⟩
  · rw [ftruncate_of_le hbytes, List.length_take, Nat.min_eq_left hbytes, Nat.max_eq_left hfirst]
  · have hold : page < pageCount oldSize layout.recordsPerPage := Nat.lt_of_lt_of_le h hfirst
    have hbefore : (page + 1) * layout.recordsPerPage ≤ oldSize :=
      (Nat.le_div_iff_mul_le layout.recordsPerPage_pos).mp h
    rw [hpage page hold, appendedPage, appendLanes_eq_nil (Or.inl hbefore), pageBase, if_pos hold]
    rfl

theorem Filled.step {page : Nat} {current : Bytes}
    (hfilled : layout.Filled oldSize rows bytes page current)
    (hbytes : pageCount oldSize layout.recordsPerPage * layout.pageSize ≤ bytes.length) :
    layout.Filled oldSize rows bytes (page + 1) (overwrite 0 current (page * layout.pageSize)
      (layout.appendedPage oldSize rows bytes page)) := by
  have hlength := @length_appendedPage layout oldSize rows bytes hbytes page
  have hother (other : Nat) (hne : other ≠ page)
      (hin : other < max (pageCount oldSize layout.recordsPerPage) page) :
      layout.pageAt (overwrite 0 current (page * layout.pageSize)
        (layout.appendedPage oldSize rows bytes page)) other = layout.pageAt current other := by
    have hdisjoint := layout.paging.pages_disjoint hne
    rw [Nat.succ_mul, Nat.succ_mul] at hdisjoint
    have hend := Nat.mul_le_mul_right layout.pageSize hin
    rw [Nat.succ_mul, ← hfilled.length_eq] at hend
    exact slice_overwrite_disjoint 0 hend (by rwa [hlength])
  refine ⟨?_, fun other h => ?_, fun other hle hold => ?_⟩
  · rw [length_overwrite, hfilled.length_eq, hlength, ← Nat.succ_mul, Nat.mul_max_mul_right]
    congr 1
    omega
  · by_cases heq : other = page
    · subst heq
      have hself := @slice_overwrite_inside _ 0 current (other * layout.pageSize)
        (layout.appendedPage oldSize rows bytes other) 0 layout.pageSize (by omega)
      have hall := slice_zero_length (layout.appendedPage oldSize rows bytes other)
      rw [hlength] at hall
      rw [Nat.add_zero, hall] at hself
      exact hself
    · rw [hother other heq (by omega)]
      exact hfilled.done other (by omega)
  · rw [hother other (by omega) (by omega)]
    exact hfilled.kept other (by omega) hold

/-- A page of the loop that returned was written as the append determines. -/
theorem appendPage_eq_ok {faults : IoFaults} {listNo page : Nat} {current current' : Bytes}
    (hfilled : layout.Filled oldSize rows bytes page current)
    (hbytes : pageCount oldSize layout.recordsPerPage * layout.pageSize ≤ bytes.length)
    (h : layout.appendPage faults listNo oldSize rows current page = .ok current') :
    layout.Filled oldSize rows bytes (page + 1) current' := by
  obtain ⟨buffer, hbuffer, h⟩ := bind_eq_ok.mp h
  obtain ⟨-, rfl⟩ := writePage_eq_ok h
  have hbase : buffer = layout.pageBase oldSize bytes page := by
    rw [fetchPage] at hbuffer
    rw [pageBase]
    split at hbuffer
    next hold =>
      rw [if_pos hold, ← hfilled.kept page le_rfl hold]
      exact (readPage_eq_ok hbuffer).2
    next hnew =>
      rw [if_neg hnew]
      exact (Except.ok.inj hbuffer).symm
  rw [hbase]
  exact hfilled.step hbytes

theorem appendPages_filled (faults : IoFaults) (listNo count : Nat) {page : Nat} {current : Bytes}
    (hfilled : layout.Filled oldSize rows bytes page current)
    (hbytes : pageCount oldSize layout.recordsPerPage * layout.pageSize ≤ bytes.length)
    (h : (layout.appendPages faults listNo oldSize rows (List.range' page count) current).2 =
      .ok ()) :
    layout.Filled oldSize rows bytes (page + count)
      (layout.appendPages faults listNo oldSize rows (List.range' page count) current).1 := by
  induction count generalizing page current with
  | zero => exact hfilled
  | succ count ih =>
      rw [List.range'_succ, appendPages] at h ⊢
      cases hpage : layout.appendPage faults listNo oldSize rows current page with
      | error error =>
          rw [hpage] at h
          cases h
      | ok current' =>
          rw [hpage] at h
          have hrest := ih (appendPage_eq_ok hfilled hbytes hpage) h
          rwa [Nat.add_right_comm] at hrest

/-- Without injected faults the loop writes every page the file system can address. -/
theorem appendPages_addressable (listNo count : Nat) {page : Nat} {current : Bytes}
    (hfilled : layout.Filled oldSize rows bytes page current)
    (hbytes : pageCount oldSize layout.recordsPerPage * layout.pageSize ≤ bytes.length)
    (hoff : max (pageCount oldSize layout.recordsPerPage) (page + count) * layout.pageSize ≤
      offMax) :
    (layout.appendPages IoFaults.none listNo oldSize rows (List.range' page count) current).2 =
      .ok () := by
  induction count generalizing page current with
  | zero => rfl
  | succ count ih =>
      rw [List.range'_succ, appendPages]
      have hcurrent : current.length ≤ offMax := by
        rw [hfilled.length_eq]
        exact (Nat.mul_le_mul_right _ (by omega)).trans hoff
      have hend : page * layout.pageSize + layout.pageSize ≤ offMax := by
        rw [← Nat.succ_mul]
        exact (Nat.mul_le_mul_right _ (by omega)).trans hoff
      obtain ⟨buffer, hbuffer, hlength⟩ : ∃ buffer,
          layout.fetchPage IoFaults.none listNo oldSize current page = .ok buffer ∧
            buffer.length = layout.pageSize := by
        rw [fetchPage]
        split
        next hold =>
          have hin : page * layout.pageSize + layout.pageSize ≤ current.length := by
            rw [hfilled.length_eq, ← Nat.succ_mul]
            exact Nat.mul_le_mul_right _ (by omega)
          exact ⟨_, readPage_none hcurrent hin, length_slice_of_le hin⟩
        next => exact ⟨_, rfl, List.length_replicate⟩
      have hlanes := layout.paging.length_writeLanes hlength
        (@appendLanes_ok layout oldSize page rows)
      have hwrite := @writePage_none layout listNo page current
        (layout.paging.writeLanes buffer (layout.appendLanes oldSize rows page)) (by omega)
      change (layout.paging.writeLanes buffer _).length = layout.pageSize at hlanes
      rw [hlanes] at hwrite
      obtain ⟨-, hwritten⟩ := hwrite.resolve_right (by omega)
      have hpage : layout.appendPage IoFaults.none listNo oldSize rows current page =
          .ok (overwrite 0 current (page * layout.pageSize)
            (layout.paging.writeLanes buffer (layout.appendLanes oldSize rows page))) := by
        rw [appendPage, hbuffer, ok_bind, hwritten]
      rw [hpage]
      exact ih (appendPage_eq_ok hfilled hbytes hpage) (by rwa [Nat.succ_add_eq_add_succ])

end Loop

/-! ### The call -/

/-- What an append that returned says of its input, and the file it left. -/
theorem appendRecords_eq_ok {faults : IoFaults} {listNo oldSize : Nat} {rows : List (Record layout)}
    {file : Option Bytes} (hne : rows ≠ [])
    (h : (layout.appendRecords faults listNo oldSize rows file).2 = .ok ()) :
    rows.length ≤ uint32Max - oldSize ∧
      pageCount oldSize layout.recordsPerPage * layout.pageSize ≤ (file.getD []).length ∧
      (file.getD []).length % layout.pageSize = 0 ∧
      pageCount (oldSize + rows.length) layout.recordsPerPage * layout.pageSize ≤ offMax ∧
      ∃ bytes, (layout.appendRecords faults listNo oldSize rows file).1 = some bytes ∧
        layout.Appended oldSize rows (file.getD []) bytes := by
  have hfirst := @div_le_pageCount oldSize layout.recordsPerPage layout.recordsPerPage_pos
  have hmono := @pageCount_mono oldSize (oldSize + rows.length) layout.recordsPerPage
    layout.recordsPerPage_pos (Nat.le_add_right _ _)
  unfold appendRecords at h ⊢
  rw [if_neg hne] at h ⊢
  split at h
  next => cases h
  next hfits =>
  rw [if_neg hfits]
  split at h
  next => cases h
  next hopen =>
  rw [if_neg hopen]
  dsimp only at h ⊢
  split at h
  next => cases h
  next hsize =>
  rw [if_neg hsize]
  split at h
  next => cases h
  next htruncate =>
  rw [if_neg htruncate]
  obtain ⟨hlength, hmod⟩ := not_or.mp hsize
  have hbytes := Nat.not_lt.mp hlength
  have hfilled := appendPages_filled faults listNo (pageCount (oldSize + rows.length)
    layout.recordsPerPage - oldSize / layout.recordsPerPage)
    (@filled_start layout oldSize rows (file.getD []) hbytes) hbytes
  rw [Nat.add_sub_cancel' (hfirst.trans hmono)] at hfilled
  rw [appendedPages] at h ⊢
  split at h
  next => cases h
  next bytes heq =>
  rw [heq] at hfilled
  have hdone := hfilled rfl
  have hend := hdone.length_eq
  rw [Nat.max_eq_right hmono] at hend
  dsimp only at hend hdone ⊢
  split at h
  next => cases h
  next hfinish =>
  rw [if_neg hfinish]
  refine ⟨by omega, hbytes, not_not.mp hmod, by omega, bytes, ?_, hend, hdone.done⟩
  rw [← hend, ftruncate_length]

/-- Without injected faults an append returns when its file is whole and the new
one addressable. -/
theorem appendRecords_ok (listNo : Nat) {oldSize : Nat} {rows : List (Record layout)}
    {file : Option Bytes} (hfits : rows.length ≤ uint32Max - oldSize)
    (hbytes : pageCount oldSize layout.recordsPerPage * layout.pageSize ≤ (file.getD []).length)
    (hmod : (file.getD []).length % layout.pageSize = 0)
    (hoff : pageCount (oldSize + rows.length) layout.recordsPerPage * layout.pageSize ≤ offMax) :
    (layout.appendRecords IoFaults.none listNo oldSize rows file).2 = .ok () := by
  have hfirst := @div_le_pageCount oldSize layout.recordsPerPage layout.recordsPerPage_pos
  have hmono := @pageCount_mono oldSize (oldSize + rows.length) layout.recordsPerPage
    layout.recordsPerPage_pos (Nat.le_add_right _ _)
  have hpages := appendPages_addressable listNo (pageCount (oldSize + rows.length)
    layout.recordsPerPage - oldSize / layout.recordsPerPage)
    (@filled_start layout oldSize rows (file.getD []) hbytes) hbytes (by
      rwa [Nat.add_sub_cancel' (hfirst.trans hmono), Nat.max_eq_right hmono])
  unfold appendRecords
  split
  next => rfl
  rw [if_neg (by omega), if_neg (by simp)]
  dsimp only
  rw [if_neg (by omega), if_neg (by simp), appendedPages]
  split
  next error heq =>
    rw [heq] at hpages
    cases hpages
  next => rw [if_neg (by simpa using hoff)]

end Recast.RecordLayout
