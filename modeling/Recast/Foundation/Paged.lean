import Recast.Foundation.Slice
import Recast.Foundation.Updates

/-!
# Fixed-width slots in pages

A file of equal pages, each with room for a fixed number of slots and possibly
some slack after the last one. Slot `i` lives in page `i / perPage`.
-/

namespace Foundation

/-- The geometry of a paged file; the slots of a page fit in it. -/
structure Paging where
  pageBytes : Nat
  perPage : Nat
  width : Nat
  perPage_pos : 0 < perPage
  width_pos : 0 < width
  fits : perPage * width ≤ pageBytes

namespace Paging

variable {α : Type*} {paging : Paging}

/-- Where slot `i` starts. -/
def slotOffset (paging : Paging) (i : Nat) : Nat :=
  i / paging.perPage * paging.pageBytes + i % paging.perPage * paging.width

/-- The contents of slot `i`. -/
def slotAt (paging : Paging) (file : List α) (i : Nat) : List α :=
  slice file (paging.slotOffset i) paging.width

/-- Overwrite lanes of one page buffer, in list order. -/
def writeLanes (paging : Paging) (page : List α) (updates : List (Nat × List α)) : List α :=
  updates.foldl (fun page update => splice page (update.1 * paging.width) update.2) page

theorem lane_lt (i : Nat) : i % paging.perPage < paging.perPage :=
  Nat.mod_lt i paging.perPage_pos

theorem lane_end_le {lane : Nat} (h : lane < paging.perPage) :
    lane * paging.width + paging.width ≤ paging.pageBytes := by
  rw [← Nat.succ_mul]
  exact Nat.le_trans (Nat.mul_le_mul_right _ h) paging.fits

theorem lanes_disjoint {lane lane' : Nat} (h : lane ≠ lane') :
    lane * paging.width + paging.width ≤ lane' * paging.width ∨
      lane' * paging.width + paging.width ≤ lane * paging.width := by
  rw [← Nat.succ_mul, ← Nat.succ_mul]
  rcases Nat.lt_or_gt_of_ne h with hlt | hlt
  · exact Or.inl (Nat.mul_le_mul_right _ hlt)
  · exact Or.inr (Nat.mul_le_mul_right _ hlt)

theorem slot_end_le (i : Nat) :
    paging.slotOffset i + paging.width ≤ (i / paging.perPage + 1) * paging.pageBytes := by
  have := paging.lane_end_le (paging.lane_lt i)
  rw [slotOffset, Nat.succ_mul]
  omega

theorem page_le_slotOffset (i : Nat) :
    i / paging.perPage * paging.pageBytes ≤ paging.slotOffset i :=
  Nat.le_add_right _ _

/-- Slots of a file with enough pages lie inside it. -/
theorem slot_end_le_of_pages {i pages : Nat} (h : i / paging.perPage < pages) :
    paging.slotOffset i + paging.width ≤ pages * paging.pageBytes :=
  Nat.le_trans (paging.slot_end_le i) (Nat.mul_le_mul_right _ h)

/-- Distinct pages do not overlap. -/
theorem pages_disjoint {page page' : Nat} (h : page ≠ page') :
    (page + 1) * paging.pageBytes ≤ page' * paging.pageBytes ∨
      (page' + 1) * paging.pageBytes ≤ page * paging.pageBytes := by
  rcases Nat.lt_or_gt_of_ne h with hlt | hlt
  · exact Or.inl (Nat.mul_le_mul_right _ hlt)
  · exact Or.inr (Nat.mul_le_mul_right _ hlt)

/-- A slot, found inside the page that holds it. -/
theorem slice_page (file : List α) (i : Nat) :
    slice (slice file (i / paging.perPage * paging.pageBytes) paging.pageBytes)
        (i % paging.perPage * paging.width) paging.width = paging.slotAt file i := by
  rw [slice_slice _ (paging.lane_end_le (paging.lane_lt i))]
  rfl

theorem length_slotAt {file : List α} {i : Nat}
    (h : paging.slotOffset i + paging.width ≤ file.length) :
    (paging.slotAt file i).length = paging.width := by
  rw [slotAt, length_slice_of_le h]

/-! ### Lanes of a page buffer -/

theorem length_writeLanes {page : List α} (hpage : page.length = paging.pageBytes)
    {updates : List (Nat × List α)}
    (hupdates : ∀ update ∈ updates, update.1 < paging.perPage ∧ update.2.length = paging.width) :
    (paging.writeLanes page updates).length = paging.pageBytes := by
  induction updates generalizing page with
  | nil => exact hpage
  | cons update rest ih =>
      obtain ⟨hlane, hwidth⟩ := hupdates update List.mem_cons_self
      have := paging.lane_end_le hlane
      exact ih (by rw [length_splice_of_le (by omega), hpage])
        (fun update h => hupdates update (List.mem_cons_of_mem _ h))

/-- Writing lanes updates the slots they name, in list order. -/
theorem lane_writeLanes {page : List α} (hpage : page.length = paging.pageBytes)
    {updates : List (Nat × List α)}
    (hupdates : ∀ update ∈ updates, update.1 < paging.perPage ∧ update.2.length = paging.width)
    {lane : Nat} :
    slice (paging.writeLanes page updates) (lane * paging.width) paging.width =
      applyUpdates (fun lane => slice page (lane * paging.width) paging.width) updates lane := by
  induction updates generalizing page with
  | nil => rfl
  | cons update rest ih =>
      obtain ⟨hlane, hwidth⟩ := hupdates update List.mem_cons_self
      have hend := paging.lane_end_le hlane
      have hstep := @ih (splice page (update.1 * paging.width) update.2)
        (by rw [length_splice_of_le (by omega), hpage])
        (fun update h => hupdates update (List.mem_cons_of_mem _ h))
      rw [applyUpdates_cons]
      refine Eq.trans hstep ?_
      congr 1
      funext other
      by_cases hother : other = update.1
      · have hself := slice_splice_self (by omega : update.1 * paging.width ≤ page.length) update.2
        rw [hother, Function.update_self]
        rwa [hwidth] at hself
      · rw [Function.update_of_ne hother]
        apply slice_splice_disjoint (by omega)
        rw [hwidth]
        exact paging.lanes_disjoint hother

/-! ### Pages of a file -/

/-- Writing a whole page changes the slots of that page and no other slot the
file had. -/
theorem slotAt_overwrite (fill : α) (file : List α) {page : List α} (pageNo : Nat)
    (hpage : page.length = paging.pageBytes) {i : Nat}
    (hin : i / paging.perPage ≠ pageNo → paging.slotOffset i + paging.width ≤ file.length) :
    paging.slotAt (overwrite fill file (pageNo * paging.pageBytes) page) i =
      if i / paging.perPage = pageNo then slice page (i % paging.perPage * paging.width) paging.width
      else paging.slotAt file i := by
  split
  next heq =>
    rw [slotAt, slotOffset, heq]
    apply slice_overwrite_inside
    rw [hpage]
    exact paging.lane_end_le (paging.lane_lt i)
  next hne =>
    have hend := paging.slot_end_le i
    have hbegin := paging.page_le_slotOffset i
    apply slice_overwrite_disjoint _ (hin hne)
    rw [hpage]
    have hpages := paging.pages_disjoint hne
    rw [Nat.succ_mul pageNo] at hpages
    omega

/-- Cutting a file after a slot keeps the slot. -/
theorem slotAt_take {file : List α} {i size : Nat} (h : paging.slotOffset i + paging.width ≤ size) :
    paging.slotAt (file.take size) i = paging.slotAt file i :=
  slice_take file h

end Paging

end Foundation
