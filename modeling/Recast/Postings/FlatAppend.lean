import Recast.Postings.PackingLaws

/-!
# Appending flat codes

`append_flat_codes_bbs32` on the bytes it is given. The rows of a range share
bytes with rows outside it, so the empty lanes are checked half byte by half
byte before anything is merged.
-/

namespace Recast

open Foundation

/-- `flat_code_size`: the geometry it accepts. -/
def flatCodeSize (subquantizers : Nat) : Except Error CodeLayout :=
  if h : 0 < subquantizers ∧ subquantizers % 2 = 0 then .ok ⟨subquantizers, h.1, h.2⟩
  else .error (.invalidArgument
    "mutable PQ4 packing requires a positive even subquantizer count")

namespace CodeLayout

variable (layout : CodeLayout)

/-- The code of row `row` of a row-major buffer. -/
def flatRow (flat : Bytes) (row : Nat) : Code layout where
  bytes := (List.range layout.codeSize).map fun i => flat.getD (row * layout.codeSize + i) 0
  length_bytes := by simp

/-- The codes of a row-major buffer. -/
def flatRows (flat : Bytes) (count : Nat) : List (Code layout) :=
  (List.range count).map (layout.flatRow flat)

/-- What can stop an append of matching length: a size check. -/
def AppendSizeFails (first last : Nat) (buffer : Bytes) : Prop :=
  sizeMax < (last - first) * layout.codeSize ∨
    first < last ∧ (sizeMax - (kUpdateBlockSize - 1) < last ∨
      sizeMax < roundUpBlock last * layout.codeSize ∨
      buffer.length < roundUpBlock last * layout.codeSize)

end CodeLayout

/-- `append_flat_codes_bbs32` from a buffer that does not overlap the packed
one: the outcome and the packed buffer after the call. -/
def appendFlatCodesBbs32 (flat : Bytes) (subquantizers first last : Nat) (buffer : Bytes) :
    Except Error Unit × Bytes :=
  match flatCodeSize subquantizers with
  | .error e => (.error e, buffer)
  | .ok layout =>
      if last < first then (.error (.invalidArgument "invalid packed PQ4 append range"), buffer) else
      let count := last - first
      if sizeMax < count * layout.codeSize then
        (.error (.overflow "flat PQ4 append size overflows"), buffer) else
      if flat.length ≠ count * layout.codeSize then
        (.error (.invalidArgument "flat PQ4 append byte count is inconsistent"), buffer) else
      if count = 0 then (.ok (), buffer) else
      match layout.validateEmptyCodes first last buffer with
      | .error e => (.error e, buffer)
      | .ok () => (.ok (), layout.packCodesRange (layout.flatRows flat count) first buffer)

namespace CodeLayout

variable {layout : CodeLayout}

theorem flatCodeSize_subquantizers (layout : CodeLayout) :
    flatCodeSize layout.subquantizers = .ok layout := by
  rw [flatCodeSize, dif_pos ⟨layout.subquantizers_pos, layout.even⟩]

theorem length_flatRows (flat : Bytes) (count : Nat) :
    (layout.flatRows flat count).length = count := by
  rw [flatRows, List.length_map, List.length_range]

theorem element_flatRow (flat : Bytes) (row : Nat) {m : Nat} (hm : m < layout.subquantizers) :
    (layout.flatRow flat row).element m =
      nibbleAt flat (row * layout.codeSize + m / 2) (m % 2 == 1) := by
  have hcodes := layout.subquantizers_eq
  rw [Code.element, nibbleAt, nibbleAt, flatRow]
  congr 1
  rw [List.getD_eq_getElem?_getD, List.getElem?_map, List.getElem?_range (by omega)]
  rfl

/-- The append on bytes is the append on the codes they hold. -/
theorem appendFlatCodesBbs32_eq {flat buffer : Bytes} {first last : Nat}
    (hflat : flat.length = (last - first) * layout.codeSize) :
    appendFlatCodesBbs32 flat layout.subquantizers first last buffer =
      match layout.appendFlatCodes (layout.flatRows flat (last - first)) first last buffer with
      | .error e => (.error e, buffer)
      | .ok appended => (.ok (), appended) := by
  rw [appendFlatCodesBbs32, flatCodeSize_subquantizers, appendFlatCodes, length_flatRows]
  dsimp only
  by_cases hrange : last < first
  · rw [if_pos hrange, if_pos hrange]
  · rw [if_neg hrange, if_neg hrange]
    by_cases hsize : sizeMax < (last - first) * layout.codeSize
    · rw [if_pos hsize, if_pos hsize]
    · rw [if_neg hsize, if_neg hsize, if_neg (not_not.mpr hflat), if_neg (not_not.mpr rfl)]
      by_cases hcount : last - first = 0
      · rw [if_pos hcount, if_pos hcount]
      · rw [if_neg hcount, if_neg hcount]
        rcases layout.validateEmptyCodes first last buffer with e | ok
        · rfl
        · rfl

/-- The guard passes when the sizes fit and every lane of the range is zero. -/
theorem validateEmptyCodes_ok_iff {buffer : Bytes} {first last : Nat} (hrange : first < last) :
    layout.validateEmptyCodes first last buffer = .ok () ↔
      last ≤ sizeMax - (kUpdateBlockSize - 1) ∧ roundUpBlock last * layout.codeSize ≤ sizeMax ∧
        roundUpBlock last * layout.codeSize ≤ buffer.length ∧
        ∀ row m, first ≤ row → row < last → m < layout.subquantizers →
          layout.getPackedElement buffer row m = 0 := by
  have hlanes : layout.lanesEmpty buffer first last = true ↔
      ∀ row m, first ≤ row → row < last → m < layout.subquantizers →
        layout.getPackedElement buffer row m = 0 := by
    simp only [lanesEmpty_iff, unpackRow_eq_zero_iff]
    exact ⟨fun h row m hlow hhigh hm => h row hlow hhigh m hm,
      fun h row hlow hhigh m hm => h row m hlow hhigh hm⟩
  rw [← hlanes, validateEmptyCodes, if_neg (Nat.not_lt_of_lt hrange), if_neg (Nat.ne_of_lt hrange)]
  dsimp only
  split
  next h => simp [Nat.not_le.mpr h]
  next h =>
    split
    next h' => simp [Nat.not_le.mpr h']
    next h' =>
      split
      next h'' => simp [Nat.not_le.mpr h'']
      next h'' =>
        split
        next hempty => simp [hempty, Nat.not_lt.mp h, Nat.not_lt.mp h', Nat.not_lt.mp h'']
        next hempty => simp [hempty]

/-- Every row of the range gets its code merged in and no other row changes. -/
theorem packCodesRange_merges {codes : List (Code layout)} {first blocks : Nat} {buffer : Bytes}
    (hbuffer : blocks * layout.blockBytes ≤ buffer.length)
    (hroom : first + codes.length ≤ blocks * 32) {row m : Nat} (hm : m < layout.subquantizers) :
    layout.getPackedElement (layout.packCodesRange codes first buffer) row m =
      if first ≤ row ∧ row < first + codes.length then
        layout.getPackedElement buffer row m |||
          (codes.getD (row - first) (Code.zero layout)).element m
      else layout.getPackedElement buffer row m := by
  induction codes generalizing first buffer with
  | nil => rw [packCodesRange, if_neg (by simp)]
  | cons code rest ih =>
      rw [List.length_cons] at hroom ⊢
      have hlt : first < blocks * 32 := by omega
      obtain ⟨hlength, hread⟩ := getPacked_packRow hbuffer hlt code
      rw [packCodesRange, ih (hlength ▸ hbuffer) (by omega), hread row m hm]
      by_cases heq : row = first
      · subst heq
        simp
      · by_cases hin : first + 1 ≤ row ∧ row < first + 1 + rest.length
        · obtain ⟨next, rfl⟩ : ∃ next, row = first + 1 + next := ⟨row - (first + 1), by omega⟩
          have hskip : first + 1 + next - first = next + 1 := by omega
          rw [if_pos hin, if_neg heq, if_pos (by omega), Nat.add_sub_cancel_left, hskip,
            List.getD_cons_succ]
        · rw [if_neg hin, if_neg heq, if_neg (by omega)]

theorem length_packCodesRange {codes : List (Code layout)} {first : Nat} {buffer : Bytes} :
    (layout.packCodesRange codes first buffer).length = buffer.length := by
  induction codes generalizing first buffer with
  | nil => rfl
  | cons code rest ih =>
      rw [packCodesRange, ih, packRow]
      generalize List.range layout.subquantizers = elements
      induction elements generalizing buffer with
      | nil => rfl
      | cons m elements ih =>
          rw [List.foldl_cons, ih, length_orNibbleAt]

section Append

variable {flat buffer : Bytes} {first last : Nat}

/-- What is left to decide in a call with a matching byte count. -/
theorem appendFlatCodesBbs32_of_length (hrange : first ≤ last)
    (hflat : flat.length = (last - first) * layout.codeSize) :
    appendFlatCodesBbs32 flat layout.subquantizers first last buffer =
      if sizeMax < (last - first) * layout.codeSize then
        (.error (.overflow "flat PQ4 append size overflows"), buffer)
      else if last - first = 0 then (.ok (), buffer)
      else match layout.validateEmptyCodes first last buffer with
        | .error e => (.error e, buffer)
        | .ok () =>
            (.ok (), layout.packCodesRange (layout.flatRows flat (last - first)) first buffer) := by
  rw [appendFlatCodesBbs32, flatCodeSize_subquantizers]
  dsimp only
  rw [if_neg (Nat.not_lt.mpr hrange), if_neg (not_not.mpr hflat)]

theorem append_throws_iff (hrange : first ≤ last)
    (hflat : flat.length = (last - first) * layout.codeSize) :
    (∃ e, (appendFlatCodesBbs32 flat layout.subquantizers first last buffer).1 = .error e) ↔
      layout.AppendSizeFails first last buffer ∨
        ∃ row m, first ≤ row ∧ row < last ∧ m < layout.subquantizers ∧
          layout.getPackedElement buffer row m ≠ 0 := by
  rw [appendFlatCodesBbs32_of_length hrange hflat]
  by_cases hsize : sizeMax < (last - first) * layout.codeSize
  · rw [if_pos hsize]
    exact ⟨fun _ => .inl (.inl hsize), fun _ => ⟨_, rfl⟩⟩
  rw [if_neg hsize]
  by_cases hcount : last - first = 0
  · rw [if_pos hcount]
    constructor
    · rintro ⟨e, he⟩
      exact nomatch he
    · rintro ((h | ⟨h, -⟩) | ⟨row, m, hlow, hhigh, -⟩)
      · exact absurd h hsize
      · omega
      · omega
  rw [if_neg hcount]
  have hlt : first < last := by omega
  have hvalid := @validateEmptyCodes_ok_iff layout buffer first last hlt
  rcases hguard : layout.validateEmptyCodes first last buffer with e | ok
  · refine ⟨fun _ => ?_, fun _ => ⟨_, rfl⟩⟩
    by_contra hnone
    simp only [AppendSizeFails, not_or, not_and, not_exists, not_not, not_lt] at hnone
    obtain ⟨hrows, hbytes, hroom⟩ := hnone.1.2 hlt
    have hpasses := hvalid.mpr ⟨hrows, hbytes, hroom, hnone.2⟩
    rw [hguard] at hpasses
    exact nomatch hpasses
  · obtain ⟨hrows, hbytes, hroom, hempty⟩ := hvalid.mp hguard
    constructor
    · rintro ⟨e, he⟩
      exact nomatch he
    · rintro ((h | ⟨-, h | h | h⟩) | ⟨row, m, hlow, hhigh, hm, htaken⟩)
      · exact absurd h hsize
      · exact absurd hrows (Nat.not_le.mpr h)
      · exact absurd hbytes (Nat.not_le.mpr h)
      · exact absurd hroom (Nat.not_le.mpr h)
      · exact absurd (hempty row m hlow hhigh hm) htaken

theorem append_error_keeps {e : Error} {packed : Bytes}
    (h : appendFlatCodesBbs32 flat layout.subquantizers first last buffer = (.error e, packed)) :
    packed = buffer := by
  rw [appendFlatCodesBbs32, flatCodeSize_subquantizers] at h
  dsimp only at h
  -- Only the branch that succeeds writes.
  split at h
  next => exact (Prod.mk.inj h).2.symm
  next =>
    split at h
    next => exact (Prod.mk.inj h).2.symm
    next =>
      split at h
      next => exact (Prod.mk.inj h).2.symm
      next =>
        split at h
        next => exact (Prod.mk.inj h).2.symm
        next =>
          split at h
          next => exact (Prod.mk.inj h).2.symm
          next => exact nomatch (Prod.mk.inj h).1

/-- The byte of a stored row is the merge of its code into an empty lane. -/
theorem append_ok_reads {packed : Bytes} (hrange : first ≤ last)
    (hflat : flat.length = (last - first) * layout.codeSize)
    (h : appendFlatCodesBbs32 flat layout.subquantizers first last buffer = (.ok (), packed)) :
    packed.length = buffer.length ∧
      ∀ row m, m < layout.subquantizers → layout.getPackedElement packed row m =
        if first ≤ row ∧ row < last then
          nibbleAt flat ((row - first) * layout.codeSize + m / 2) (m % 2 == 1)
        else layout.getPackedElement buffer row m := by
  rw [appendFlatCodesBbs32_of_length hrange hflat] at h
  split at h
  next => exact nomatch (Prod.mk.inj h).1
  next =>
    split at h
    next hcount =>
      obtain ⟨-, rfl⟩ := Prod.mk.inj h
      refine ⟨rfl, fun row m hm => ?_⟩
      rw [if_neg (by omega)]
    next hcount =>
      have hlt : first < last := by omega
      split at h
      next => exact nomatch (Prod.mk.inj h).1
      next hguard =>
        obtain ⟨-, -, hroom, hempty⟩ := (validateEmptyCodes_ok_iff hlt).mp hguard
        obtain ⟨-, rfl⟩ := Prod.mk.inj h
        refine ⟨length_packCodesRange, fun row m hm => ?_⟩
        have hlength := @length_flatRows layout flat (last - first)
        have hblocks : roundUpBlock last * layout.codeSize =
            (last + 31) / 32 * layout.blockBytes := by
          rw [roundUpBlock, blockBytes, kUpdateBlockSize, Nat.mul_assoc]
          rfl
        rw [packCodesRange_merges (hblocks ▸ hroom) (by omega) hm, hlength,
          Nat.add_sub_cancel' hrange]
        by_cases hin : first ≤ row ∧ row < last
        · have hrow : (layout.flatRows flat (last - first)).getD (row - first) (Code.zero layout) =
              layout.flatRow flat (row - first) := by
            rw [flatRows, List.getD_eq_getElem?_getD, List.getElem?_map,
              List.getElem?_range (by omega)]
            rfl
          rw [if_pos hin, if_pos hin, hempty row m hin.1 hin.2 hm, UInt8.zero_or, hrow,
            element_flatRow _ _ hm]
        · rw [if_neg hin, if_neg hin]

end Append

/-- `append_flat_codes_bbs32` stores exactly the appended rows or changes
nothing, and throws exactly when a size check fails or a lane is taken. -/
theorem append_overwrites_or_keeps (first last : Nat) (flat buffer : Bytes)
    (hrange : first ≤ last) :
    (∃ e, appendFlatCodesBbs32 flat 0 first last buffer = (.error e, buffer)) ∧
      ∀ layout : CodeLayout, flat.length = (last - first) * layout.codeSize →
        ((∃ e, (appendFlatCodesBbs32 flat layout.subquantizers first last buffer).1 = .error e) ↔
          layout.AppendSizeFails first last buffer ∨
            ∃ row m, first ≤ row ∧ row < last ∧ m < layout.subquantizers ∧
              layout.getPackedElement buffer row m ≠ 0) ∧
        (∀ e packed,
          appendFlatCodesBbs32 flat layout.subquantizers first last buffer = (.error e, packed) →
            packed = buffer) ∧
        ∀ packed, appendFlatCodesBbs32 flat layout.subquantizers first last buffer = (.ok (), packed) →
          packed.length = buffer.length ∧
          ∀ row m, m < layout.subquantizers → layout.getPackedElement packed row m =
            if first ≤ row ∧ row < last then
              nibbleAt flat ((row - first) * layout.codeSize + m / 2) (m % 2 == 1)
            else layout.getPackedElement buffer row m := by
  constructor
  · exact ⟨_, rfl⟩
  · intro layout hflat
    exact ⟨append_throws_iff hrange hflat, fun _ _ h => append_error_keeps h,
      fun _ h => append_ok_reads hrange hflat h⟩

/-- Row 16 shares its bytes with row 0. -/
theorem append_overwrites_or_keeps_shared :
    (appendFlatCodesBbs32 [0x21] 2 16 17 (List.replicate 32 5)).1 = .ok () ∧
      ∀ packed, appendFlatCodesBbs32 [0x21] 2 16 17 (List.replicate 32 5) = (.ok (), packed) →
        getPackedElement ⟨2, by decide, rfl⟩ packed 16 0 = 1 ∧
        getPackedElement ⟨2, by decide, rfl⟩ packed 0 0 = 5 := by
  refine ⟨by rfl, fun packed h => ?_⟩
  have hreads := (((append_overwrites_or_keeps 16 17 [0x21] (List.replicate 32 5) (by decide)).2
    ⟨2, by decide, rfl⟩ rfl).2.2 packed h).2
  exact ⟨(hreads 16 0 (by decide)).trans (by decide), (hreads 0 0 (by decide)).trans (by decide)⟩

end CodeLayout

end Recast
