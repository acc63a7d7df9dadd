import Recast.Postings.Packing
import Recast.Foundation.Slice
import Recast.Foundation.Lanes
import Mathlib.Tactic.Ring

/-!
# What packed postings hold

A packed buffer is a sequence of lanes: each row owns its half bytes and its
three metadata bytes. Appending merges into empty lanes, and rewriting a block
changes the lanes of that block only.
-/

namespace Recast

open Foundation

theorem laneAddress_lt {v : Nat} (h : v < 16) : CodeLayout.laneAddress v < 16 := by
  unfold CodeLayout.laneAddress
  split <;> omega

theorem laneAddress_injective {v w : Nat} (hv : v < 16) (hw : w < 16)
    (h : CodeLayout.laneAddress v = CodeLayout.laneAddress w) : v = w := by
  unfold CodeLayout.laneAddress at h
  split at h <;> split at h <;> omega

/-- Every byte of a half block is the lane of some row. -/
theorem laneAddress_surjective {a : Nat} (h : a < 16) : ∃ v < 16, CodeLayout.laneAddress v = a := by
  refine ⟨if a % 2 = 0 then a / 2 else a / 2 + 8, by split <;> omega, ?_⟩
  unfold CodeLayout.laneAddress
  split <;> split <;> omega

namespace CodeLayout

variable {layout : CodeLayout}

theorem subquantizers_eq (layout : CodeLayout) : layout.subquantizers = 2 * layout.codeSize := by
  have := layout.even
  unfold codeSize
  omega

theorem blockBytes_eq (layout : CodeLayout) : layout.blockBytes = 32 * layout.codeSize := rfl

/-- The address inside a block. -/
theorem packedAddress_inner_lt (row : Nat) {m : Nat} (hm : m < layout.subquantizers) :
    m / 2 * 32 + m % 2 * 16 + laneAddress (row % 16) < layout.blockBytes := by
  have := laneAddress_lt (Nat.mod_lt row (by norm_num : 0 < 16))
  have := layout.subquantizers_eq
  have := layout.blockBytes_eq
  omega

theorem packedAddress_eq (row m : Nat) : layout.packedAddress row m =
    row / 32 * layout.blockBytes + (m / 2 * 32 + m % 2 * 16 + laneAddress (row % 16)) := by
  unfold packedAddress kUpdateBlockSize
  omega

theorem packedAddress_lt {row m blocks : Nat} (hrow : row < blocks * 32)
    (hm : m < layout.subquantizers) : layout.packedAddress row m < blocks * layout.blockBytes := by
  have hinner := layout.packedAddress_inner_lt row hm
  have hblock : row / 32 + 1 ≤ blocks := by omega
  have := Nat.mul_le_mul_right layout.blockBytes hblock
  rw [Nat.succ_mul] at this
  rw [packedAddress_eq]
  omega

theorem packedHigh_iff {row : Nat} : packedHigh row = true ↔ 16 ≤ row % 32 :=
  decide_eq_true_iff

/-- No two elements share a half byte. -/
theorem packedAddress_injective {row row' m m' : Nat} (hm : m < layout.subquantizers)
    (hm' : m' < layout.subquantizers)
    (haddress : layout.packedAddress row m = layout.packedAddress row' m')
    (hhigh : packedHigh row = packedHigh row') : row = row' ∧ m = m' := by
  have hinner := layout.packedAddress_inner_lt row hm
  have hinner' := layout.packedAddress_inner_lt row' hm'
  have hpos : 0 < layout.blockBytes := by omega
  rw [packedAddress_eq, packedAddress_eq] at haddress
  have hblock : row / 32 = row' / 32 := by
    have h := congrArg (· / layout.blockBytes) haddress
    simp only [Nat.mul_comm _ layout.blockBytes, Nat.mul_add_div hpos] at h
    rwa [Nat.div_eq_of_lt hinner, Nat.div_eq_of_lt hinner', Nat.add_zero, Nat.add_zero] at h
  rw [hblock] at haddress
  have hrest := Nat.add_left_cancel haddress
  have hlt := laneAddress_lt (Nat.mod_lt row (by norm_num : 0 < 16))
  have hlt' := laneAddress_lt (Nat.mod_lt row' (by norm_num : 0 < 16))
  have hlane := laneAddress_injective (Nat.mod_lt row (by norm_num)) (Nat.mod_lt row' (by norm_num))
    (by omega : laneAddress (row % 16) = laneAddress (row' % 16))
  have hhalf : 16 ≤ row % 32 ↔ 16 ≤ row' % 32 := by
    rw [← packedHigh_iff, ← packedHigh_iff, hhigh]
  omega

/-- Every half byte of the blocks belongs to an element. -/
theorem packedAddress_surjective {blocks address : Nat} (h : address < blocks * layout.blockBytes)
    (high : Bool) : ∃ row < blocks * 32, ∃ m < layout.subquantizers,
      layout.packedAddress row m = address ∧ packedHigh row = high := by
  have hpos : 0 < layout.blockBytes := by
    rcases Nat.eq_zero_or_pos layout.blockBytes with h0 | h0
    · simp [h0] at h
    · exact h0
  have hblock : address / layout.blockBytes < blocks := by
    rwa [Nat.div_lt_iff_lt_mul hpos]
  have hinner := Nat.mod_lt address hpos
  have hsplit := Nat.div_add_mod address layout.blockBytes
  obtain ⟨v, hv, hlane⟩ := laneAddress_surjective
    (Nat.mod_lt (address % layout.blockBytes) (by norm_num : 0 < 16))
  have hsize := layout.blockBytes_eq
  have hcodes := layout.subquantizers_eq
  refine ⟨address / layout.blockBytes * 32 + (if high then 16 else 0) + v, ?_,
    address % layout.blockBytes / 16, by omega, ?_, ?_⟩
  · split <;> omega
  · have hmod : (address / layout.blockBytes * 32 + (if high then 16 else 0) + v) % 16 = v := by
      split <;> omega
    have hdiv : (address / layout.blockBytes * 32 + (if high then 16 else 0) + v) / 32 =
        address / layout.blockBytes := by
      split <;> omega
    rw [packedAddress_eq, hmod, hdiv, hlane, Nat.mul_comm]
    omega
  · cases high <;> simp only [packedHigh, kUpdateBlockSize, Bool.false_eq_true, if_false, if_true,
      decide_eq_false_iff_not, decide_eq_true_eq] <;> omega

/-! ### Elements of a code -/

theorem element_lt (code : Code layout) (m : Nat) : code.element m < 16 := nibbleAt_lt _ _ _

/-- A code is determined by its elements. -/
theorem code_ext {first second : Code layout}
    (h : ∀ m < layout.subquantizers, first.element m = second.element m) : first = second := by
  apply Code.ext
  apply buffer_ext (by rw [first.length_bytes, second.length_bytes])
  intro address haddress high
  rw [first.length_bytes] at haddress
  have hcodes := layout.subquantizers_eq
  have := h (2 * address + if high then 1 else 0) (by split <;> omega)
  have hbyte : (2 * address + if high then 1 else 0) / 2 = address := by split <;> omega
  have hhalf : ((2 * address + if high then 1 else 0) % 2 == 1) = high := by
    cases high <;> simp [Nat.add_mod]
  simpa only [Code.element, hbyte, hhalf] using this

theorem getPackedElement_lt (buffer : Bytes) (row m : Nat) :
    layout.getPackedElement buffer row m < 16 := nibbleAt_lt _ _ _

theorem element_unpackRow (buffer : Bytes) (row : Nat) {m : Nat} (hm : m < layout.subquantizers) :
    (layout.unpackRow buffer row).element m = layout.getPackedElement buffer row m := by
  have hcodes := layout.subquantizers_eq
  have hbyte : ((List.range layout.codeSize).map (layout.unpackByte buffer row)).getD (m / 2) 0 =
      layout.unpackByte buffer row (m / 2) := by
    rw [List.getD_eq_getElem?_getD, List.getElem?_map, List.getElem?_range (by omega)]
    rfl
  rw [Code.element, nibbleAt, unpackRow, hbyte, unpackByte,
    nibble_of_halves (layout.getPackedElement_lt _ _ _) (layout.getPackedElement_lt _ _ _)]
  rcases Nat.mod_two_eq_zero_or_one m with hm2 | hm2
  · rw [hm2, if_neg (by simp)]
    congr 1
    omega
  · rw [hm2, if_pos (by simp)]
    congr 1
    omega

theorem element_zero (m : Nat) : (Code.zero layout).element m = 0 := by
  rw [Code.element, nibbleAt, Code.zero]
  have hzero : (List.replicate layout.codeSize (0 : UInt8)).getD (m / 2) 0 = 0 := by
    rw [List.getD_eq_getElem?_getD, List.getElem?_replicate]
    split <;> rfl
  rw [hzero, nibble_zero]

/-! ### Rows of a buffer -/

section Rows

variable {buffer : Bytes} {blocks row : Nat}

/-- Writing all elements of a row, one half byte after the other. -/
theorem getPacked_foldl {write : Bytes → Nat → Bytes} {merge : UInt8 → Nat → UInt8}
    (hlength : ∀ buffer m, (write buffer m).length = buffer.length)
    (hwrite : ∀ buffer : Bytes, ∀ m < layout.subquantizers, layout.packedAddress row m < buffer.length →
      ∀ row' m', layout.getPackedElement (write buffer m) row' m' =
        if layout.packedAddress row' m' = layout.packedAddress row m ∧
          packedHigh row = packedHigh row' then merge (layout.getPackedElement buffer row' m') m
        else layout.getPackedElement buffer row' m')
    (hbuffer : blocks * layout.blockBytes ≤ buffer.length) (hrow : row < blocks * 32)
    {count : Nat} (hcount : count ≤ layout.subquantizers) :
    ((List.range count).foldl write buffer).length = buffer.length ∧
      ∀ row' m', m' < layout.subquantizers →
        layout.getPackedElement ((List.range count).foldl write buffer) row' m' =
          if row' = row ∧ m' < count then merge (layout.getPackedElement buffer row' m') m'
          else layout.getPackedElement buffer row' m' := by
  induction count with
  | zero => exact ⟨rfl, fun row' m' _ => by simp⟩
  | succ count ih =>
      obtain ⟨hsame, hread⟩ := ih (by omega)
      rw [List.range_succ, List.foldl_append]
      refine ⟨(hlength _ _).trans hsame, fun row' m' hm' => ?_⟩
      have haddress := layout.packedAddress_lt hrow (by omega : count < layout.subquantizers)
      refine (hwrite _ count (by omega) (hsame ▸ haddress.trans_le hbuffer) row' m').trans ?_
      by_cases hsame' : row' = row ∧ m' = count
      · obtain ⟨rfl, rfl⟩ := hsame'
        rw [if_pos ⟨rfl, rfl⟩, hread row' m' hm', if_neg (by omega), if_pos (by omega)]
      · rw [if_neg (fun h => hsame'
          (packedAddress_injective hm' (by omega) h.1 h.2.symm)), hread row' m' hm']
        congr 1
        simp only [eq_iff_iff, and_congr_right_iff]
        intro hr
        have : m' ≠ count := fun h => hsame' ⟨hr, h⟩
        omega

theorem getPacked_packRow (hbuffer : blocks * layout.blockBytes ≤ buffer.length)
    (hrow : row < blocks * 32) (code : Code layout) :
    (layout.packRow buffer row code).length = buffer.length ∧
      ∀ row' m', m' < layout.subquantizers →
        layout.getPackedElement (layout.packRow buffer row code) row' m' =
          if row' = row then layout.getPackedElement buffer row' m' ||| code.element m'
          else layout.getPackedElement buffer row' m' := by
  obtain ⟨hlength, hread⟩ := @getPacked_foldl layout buffer blocks row
    (fun buffer m => orNibbleAt buffer (layout.packedAddress row m) (code.element m) (packedHigh row))
    (fun old m => old ||| code.element m) (fun _ _ => length_orNibbleAt _ _ _ _)
    (fun buffer m _ haddress row' m' => by
      rw [getPackedElement, getPackedElement, nibbleAt_orNibbleAt haddress (element_lt code m)])
    hbuffer hrow layout.subquantizers (Nat.le_refl _)
  refine ⟨hlength, fun row' m' hm' => (hread row' m' hm').trans ?_⟩
  simp [hm']

theorem getPacked_setRow (hbuffer : buffer.length = blocks * layout.blockBytes)
    (hrow : row < blocks * 32) (code : Code layout) :
    (layout.setRow buffer row code).length = buffer.length ∧
      ∀ row' m', m' < layout.subquantizers →
        layout.getPackedElement (layout.setRow buffer row code) row' m' =
          if row' = row then code.element m' else layout.getPackedElement buffer row' m' := by
  obtain ⟨hlength, hread⟩ := @getPacked_foldl layout buffer blocks row
    (fun buffer m => layout.setPackedElement buffer row m (code.element m))
    (fun _ m => code.element m) (fun _ _ => length_setNibbleAt _ _ _ _)
    (fun buffer m _ haddress row' m' => by
      rw [getPackedElement, getPackedElement, setPackedElement,
        nibbleAt_setNibbleAt haddress (element_lt code m)])
    hbuffer.ge hrow layout.subquantizers (Nat.le_refl _)
  refine ⟨hlength, fun row' m' hm' => (hread row' m' hm').trans ?_⟩
  simp [hm']

/-- Overwriting a row leaves the other rows alone. -/
theorem unpackRow_setRow (hbuffer : buffer.length = blocks * layout.blockBytes)
    (hrow : row < blocks * 32) (code : Code layout) (row' : Nat) :
    layout.unpackRow (layout.setRow buffer row code) row' =
      if row' = row then code else layout.unpackRow buffer row' := by
  apply code_ext
  intro m hm
  rw [element_unpackRow _ _ hm, (getPacked_setRow hbuffer hrow code).2 row' m hm]
  split
  next => rfl
  next => rw [element_unpackRow _ _ hm]

/-- Merging a row into an empty lane stores it and leaves the other rows alone. -/
theorem unpackRow_packRow (hbuffer : buffer.length = blocks * layout.blockBytes)
    (hrow : row < blocks * 32) (hempty : layout.unpackRow buffer row = Code.zero layout)
    (code : Code layout) (row' : Nat) :
    layout.unpackRow (layout.packRow buffer row code) row' =
      if row' = row then code else layout.unpackRow buffer row' := by
  apply code_ext
  intro m hm
  rw [element_unpackRow _ _ hm, (getPacked_packRow hbuffer.ge hrow code).2 row' m hm]
  split
  next heq =>
    have hzero := element_unpackRow buffer row hm
    rw [hempty, element_zero] at hzero
    rw [heq, ← hzero, UInt8.zero_or]
  next => rw [element_unpackRow _ _ hm]

/-- A packed buffer is determined by its rows. -/
theorem packed_ext {first second : Bytes} (hfirst : first.length = blocks * layout.blockBytes)
    (hsecond : second.length = blocks * layout.blockBytes)
    (h : ∀ row < blocks * 32, layout.unpackRow first row = layout.unpackRow second row) :
    first = second := by
  apply buffer_ext (by rw [hfirst, hsecond])
  intro address haddress high
  rw [hfirst] at haddress
  obtain ⟨row, hrow, m, hm, rfl, rfl⟩ := layout.packedAddress_surjective haddress high
  have := congrArg (·.element m) (h row hrow)
  simpa only [element_unpackRow _ _ hm, getPackedElement] using this

/-- The zero check on a row. -/
theorem unpackRow_eq_zero_iff (buffer : Bytes) (row : Nat) :
    layout.unpackRow buffer row = Code.zero layout ↔
      ∀ m < layout.subquantizers, layout.getPackedElement buffer row m = 0 := by
  constructor
  · intro h m hm
    rw [← element_unpackRow _ _ hm, h, element_zero]
  · intro h
    apply code_ext
    intro m hm
    rw [element_unpackRow _ _ hm, h m hm, element_zero]

theorem lanesEmpty_iff {first last : Nat} : layout.lanesEmpty buffer first last = true ↔
    ∀ row, first ≤ row → row < last → layout.unpackRow buffer row = Code.zero layout := by
  simp only [lanesEmpty, List.all_eq_true, List.mem_range'_1, List.mem_range, beq_iff_eq,
    unpackRow_eq_zero_iff]
  constructor
  · exact fun h row hlow hhigh m hm => h row ⟨hlow, by omega⟩ m hm
  · exact fun h row hrow m hm => h row hrow.1 (by omega) m hm

end Rows

/-! ### Blocks -/

section Blocks

variable {buffer : Bytes} {blocks : Nat}

theorem unpackRow_congr {first second : Bytes} {row row' : Nat}
    (h : ∀ m < layout.subquantizers,
      layout.getPackedElement first row m = layout.getPackedElement second row' m) :
    layout.unpackRow first row = layout.unpackRow second row' := by
  apply code_ext
  intro m hm
  rw [element_unpackRow _ _ hm, element_unpackRow _ _ hm, h m hm]

theorem block_end_le {block : Nat} (h : block < blocks) :
    block * layout.blockBytes + layout.blockBytes ≤ blocks * layout.blockBytes := by
  rw [← Nat.succ_mul]
  exact Nat.mul_le_mul_right _ h

/-- The rows of a block, read from the block alone. -/
theorem unpackRow_slice (buffer : Bytes) (block : Nat) {lane : Nat} (hlane : lane < 32) :
    layout.unpackRow (slice buffer (block * layout.blockBytes) layout.blockBytes) lane =
      layout.unpackRow buffer (block * 32 + lane) := by
  apply unpackRow_congr
  intro m hm
  have hinner := layout.packedAddress_inner_lt lane hm
  have hzero : lane / 32 = 0 := by omega
  have hblock : (block * 32 + lane) / 32 = block := by omega
  have hlow : (block * 32 + lane) % 16 = lane % 16 := by omega
  have hhigh : packedHigh (block * 32 + lane) = packedHigh lane := by
    rw [Bool.eq_iff_iff, packedHigh_iff, packedHigh_iff]
    omega
  rw [getPackedElement, getPackedElement, packedAddress_eq, packedAddress_eq, hzero, hblock, hlow,
    hhigh, Nat.zero_mul, Nat.zero_add, nibbleAt, nibbleAt, getD_slice _ hinner]

/-- Replacing one block changes its rows and no others. -/
theorem unpackRow_splice (hbuffer : buffer.length = blocks * layout.blockBytes) {block : Nat}
    (hblock : block < blocks) {bytes : Bytes} (hbytes : bytes.length = layout.blockBytes)
    (row : Nat) :
    layout.unpackRow (splice buffer (block * layout.blockBytes) bytes) row =
      if row / 32 = block then layout.unpackRow bytes (row % 32)
      else layout.unpackRow buffer row := by
  have hend := layout.block_end_le hblock
  by_cases heq : row / 32 = block
  · rw [if_pos heq]
    apply unpackRow_congr
    intro m hm
    have hinner := layout.packedAddress_inner_lt row hm
    have hzero : row % 32 / 32 = 0 := by omega
    have hlow : row % 32 % 16 = row % 16 := by omega
    have hhigh : packedHigh (row % 32) = packedHigh row := by
      rw [Bool.eq_iff_iff, packedHigh_iff, packedHigh_iff]
      omega
    rw [getPackedElement, getPackedElement, packedAddress_eq, packedAddress_eq, hzero, heq, hlow,
      hhigh, Nat.zero_mul, Nat.zero_add, nibbleAt, nibbleAt, getD_splice (by omega),
      if_neg (by omega), if_pos (by omega), Nat.add_sub_cancel_left]
  · rw [if_neg heq]
    apply unpackRow_congr
    intro m hm
    have hinner := layout.packedAddress_inner_lt row hm
    have hapart : row / 32 * layout.blockBytes + layout.blockBytes ≤ block * layout.blockBytes ∨
        block * layout.blockBytes + layout.blockBytes ≤ row / 32 * layout.blockBytes := by
      rw [← Nat.succ_mul, ← Nat.succ_mul]
      rcases Nat.lt_or_gt_of_ne heq with h | h
      · exact Or.inl (Nat.mul_le_mul_right _ h)
      · exact Or.inr (Nat.mul_le_mul_right _ h)
    rw [getPackedElement, getPackedElement, packedAddress_eq, nibbleAt, nibbleAt,
      getD_splice (by omega)]
    rcases hapart with h | h
    · rw [if_pos (by omega)]
    · rw [if_neg (by omega), if_neg (by omega)]

/-- A rewritten block holds the given codes, whatever it held before. -/
theorem unpackRow_rewriteFlatBlock {block : Bytes} (hblock : block.length = layout.blockBytes)
    (codes : List (Code layout)) :
    (layout.rewriteFlatBlock codes block).length = layout.blockBytes ∧
      ∀ row < 32, layout.unpackRow (layout.rewriteFlatBlock codes block) row =
        codes.getD row (Code.zero layout) := by
  have hone : block.length = 1 * layout.blockBytes := by rw [hblock, Nat.one_mul]
  have hloop : ∀ count ≤ 32,
      ((List.range count).foldl (fun block row =>
        layout.setRow block row (codes.getD row (Code.zero layout))) block).length =
          1 * layout.blockBytes ∧
      ∀ row < count, layout.unpackRow ((List.range count).foldl (fun block row =>
        layout.setRow block row (codes.getD row (Code.zero layout))) block) row =
          codes.getD row (Code.zero layout) := by
    intro count hcount
    induction count with
    | zero => exact ⟨hone, by simp⟩
    | succ count ih =>
        obtain ⟨hlength, hread⟩ := ih (by omega)
        rw [List.range_succ, List.foldl_append]
        refine ⟨(getPacked_setRow hlength (by omega) _).1.trans hlength, fun row hrow => ?_⟩
        refine (unpackRow_setRow hlength (by omega) _ row).trans ?_
        split
        next heq => rw [heq]
        next hne => exact hread row (by omega)
  obtain ⟨hlength, hread⟩ := hloop 32 (Nat.le_refl _)
  exact ⟨by rw [rewriteFlatBlock, kUpdateBlockSize, hlength, Nat.one_mul], hread⟩

/-- Resizing whole blocks keeps the common rows; new rows are zero. -/
theorem unpackRow_resize (hbuffer : buffer.length = blocks * layout.blockBytes) {blocks' row : Nat}
    (hrow : row < blocks' * 32) :
    layout.unpackRow (resize 0 buffer (blocks' * layout.blockBytes)) row =
      if row < blocks * 32 then layout.unpackRow buffer row else Code.zero layout := by
  apply code_ext
  intro m hm
  have haddress := layout.packedAddress_lt hrow hm
  have hread : layout.getPackedElement (resize 0 buffer (blocks' * layout.blockBytes)) row m =
      if layout.packedAddress row m < buffer.length then layout.getPackedElement buffer row m
      else 0 := by
    rw [getPackedElement, nibbleAt, getD_resize _ _ haddress, getPackedElement, nibbleAt]
    split
    · rfl
    · exact nibble_zero _
  rw [element_unpackRow _ _ hm, hread, hbuffer]
  by_cases hold : row < blocks * 32
  · rw [if_pos (layout.packedAddress_lt hold hm), if_pos hold, element_unpackRow _ _ hm]
  · have hbeyond : blocks * layout.blockBytes ≤ layout.packedAddress row m := by
      have hblock : blocks ≤ row / 32 := by omega
      have := Nat.mul_le_mul_right layout.blockBytes hblock
      rw [packedAddress_eq]
      omega
    rw [if_neg (by omega), if_neg hold, element_zero]

/-- Merging codes into the lanes after the rows appends them. -/
theorem packCodesRange_lanes {buffer : Bytes} {rows codes : List (Code layout)}
    (hbuffer : buffer.length = blocks * layout.blockBytes)
    (hlanes : Lanes (layout.unpackRow buffer) (Code.zero layout) (blocks * 32) rows)
    (hroom : rows.length + codes.length ≤ blocks * 32) :
    (layout.packCodesRange codes rows.length buffer).length = blocks * layout.blockBytes ∧
      Lanes (layout.unpackRow (layout.packCodesRange codes rows.length buffer)) (Code.zero layout)
        (blocks * 32) (rows ++ codes) := by
  induction codes generalizing buffer rows with
  | nil => exact ⟨hbuffer, by rwa [List.append_nil]⟩
  | cons code rest ih =>
      rw [List.length_cons] at hroom
      have hlt : rows.length < blocks * 32 := by omega
      have hempty := hlanes.lane_empty (Nat.le_refl _) hlt
      have hlength := (getPacked_packRow hbuffer.ge hlt code).1.trans hbuffer
      have hpushed := hlanes.push hlt (fun row _ => unpackRow_packRow hbuffer hlt hempty code row)
      have hrest := ih hlength hpushed (by
        rw [List.length_append, List.length_singleton]
        omega)
      rw [List.length_append, List.length_singleton, List.append_assoc] at hrest
      exact hrest

end Blocks

end CodeLayout

/-! ### Metadata -/

namespace Metadata

variable {buffer : Bytes} {blocks : Nat}

theorem address_eq (row : Nat) : address row = row / 32 * 96 + row % 32 := rfl

theorem plane_lt {row : Nat} (hrow : row < blocks * 32) : address row + 64 < blocks * 96 := by
  rw [address_eq]
  omega

theorem load_congr {first second : Bytes} {row row' : Nat}
    (h : ∀ plane < 3, first.getD (address row + plane * 32) 0 =
      second.getD (address row' + plane * 32) 0) : load first row = load second row' := by
  have h0 := h 0 (by norm_num)
  have h1 := h 1 (by norm_num)
  have h2 := h 2 (by norm_num)
  simp only [Nat.zero_mul, Nat.add_zero, Nat.one_mul] at h0 h1
  simp only [load, kUpdateBlockSize, h0, h1, h2]

theorem length_store (buffer : Bytes) (row : Nat) (metadata : Metadata) :
    (store buffer row metadata).length = buffer.length := by
  simp [store]

/-- Storing a row leaves the other rows alone. -/
theorem load_store (hbuffer : buffer.length = blocks * 96) {row : Nat} (hrow : row < blocks * 32)
    (metadata : Metadata) (row' : Nat) :
    load (store buffer row metadata) row' = if row' = row then metadata else load buffer row' := by
  have hlt := plane_lt hrow
  have hread : ∀ i, (store buffer row metadata).getD i 0 =
      if i = address row + 64 then metadata.error
      else if i = address row + 32 then metadata.scale
      else if i = address row then metadata.norm else buffer.getD i 0 := by
    intro i
    simp only [store, kUpdateBlockSize]
    rw [getD_set _ (by simp only [List.length_set]; omega), getD_set _ (by
      simp only [List.length_set]; omega), getD_set _ (by omega)]
  by_cases heq : row' = row
  · subst heq
    rw [if_pos rfl, load]
    simp only [kUpdateBlockSize, hread]
    simp
  · rw [if_neg heq]
    apply load_congr
    intro plane hplane
    have hne : ∀ plane' < 3, address row' + plane * 32 ≠ address row + plane' * 32 := by
      intro plane' _ h
      rw [address_eq, address_eq] at h
      omega
    have h0 := hne 0 (by norm_num)
    have h1 := hne 1 (by norm_num)
    have h2 := hne 2 (by norm_num)
    rw [hread, if_neg h2, if_neg (by simpa using h1), if_neg (by simpa using h0)]

/-- A metadata buffer is determined by its rows. -/
theorem packed_ext {first second : Bytes} (hfirst : first.length = blocks * 96)
    (hsecond : second.length = blocks * 96)
    (h : ∀ row < blocks * 32, load first row = load second row) : first = second := by
  apply List.ext_getElem (by rw [hfirst, hsecond])
  intro i hi hi'
  rw [hfirst] at hi
  have hrow := h (i / 96 * 32 + i % 32) (by omega)
  have haddress : address (i / 96 * 32 + i % 32) = i / 96 * 96 + i % 32 := by
    rw [address_eq]
    omega
  simp only [load, Metadata.mk.injEq, haddress, kUpdateBlockSize] at hrow
  obtain ⟨hnorm, hscale, herror⟩ := hrow
  have hget : first.getD i 0 = second.getD i 0 := by
    have hplane : i % 96 / 32 = 0 ∨ i % 96 / 32 = 1 ∨ i % 96 / 32 = 2 := by omega
    rcases hplane with h | h | h
    · have : i / 96 * 96 + i % 32 = i := by omega
      rwa [this] at hnorm
    · have : i / 96 * 96 + i % 32 + 32 = i := by omega
      rwa [this] at hscale
    · have : i / 96 * 96 + i % 32 + 2 * 32 = i := by omega
      rwa [this] at herror
  simpa [List.getD_eq_getElem?_getD, hi', hfirst ▸ hi] using hget

theorem load_slice (buffer : Bytes) (block : Nat) {lane : Nat} (hlane : lane < 32) :
    load (slice buffer (block * kMetadataBlockBytes) kMetadataBlockBytes) lane =
      load buffer (block * 32 + lane) := by
  apply load_congr
  intro plane hplane
  have hinner : address lane + plane * 32 < 96 := by
    rw [address_eq]
    omega
  have haddress : block * 96 + (address lane + plane * 32) =
      address (block * 32 + lane) + plane * 32 := by
    rw [address_eq, address_eq]
    omega
  rw [kMetadataBlockBytes, kUpdateBlockSize, getD_slice _ hinner, haddress]

theorem load_splice (hbuffer : buffer.length = blocks * 96) {block : Nat} (hblock : block < blocks)
    {bytes : Bytes} (hbytes : bytes.length = 96) (row : Nat) :
    load (splice buffer (block * kMetadataBlockBytes) bytes) row =
      if row / 32 = block then load bytes (row % 32) else load buffer row := by
  have hblock96 : block * kMetadataBlockBytes = block * 96 := rfl
  by_cases heq : row / 32 = block
  · rw [if_pos heq]
    apply load_congr
    intro plane hplane
    have haddress : address row = block * 96 + row % 32 := by rw [address_eq, heq]
    have hinner : address (row % 32) = row % 32 := by
      rw [address_eq]
      omega
    rw [getD_splice (by omega), if_neg (by omega), if_pos (by omega)]
    congr 1
    omega
  · rw [if_neg heq]
    apply load_congr
    intro plane hplane
    have haddress := address_eq row
    rw [getD_splice (by omega)]
    rcases Nat.lt_or_gt_of_ne heq with h | h
    · rw [if_pos (by omega)]
    · rw [if_neg (by omega), if_neg (by omega)]

theorem load_replicate {row : Nat} (hrow : row < blocks * 32) :
    load (List.replicate (blocks * 96) 255) row = empty := by
  have hlt := plane_lt hrow
  have hread : ∀ i < blocks * 96, (List.replicate (blocks * 96) (255 : UInt8)).getD i 0 = 255 := by
    intro i hi
    rw [List.getD_eq_getElem?_getD, List.getElem?_replicate, if_pos hi]
    rfl
  simp only [load, kUpdateBlockSize]
  rw [hread _ (by omega), hread _ (by omega), hread _ (by omega)]
  rfl

/-- Resizing whole blocks keeps the common rows; new rows are empty. -/
theorem load_resize (hbuffer : buffer.length = blocks * 96) {blocks' row : Nat}
    (hrow : row < blocks' * 32) :
    load (resize 255 buffer (blocks' * 96)) row =
      if row < blocks * 32 then load buffer row else empty := by
  have hlt := plane_lt hrow
  have haddress := address_eq row
  split
  next hold =>
    have := plane_lt hold
    apply load_congr
    intro plane hplane
    rw [getD_resize _ _ (by omega), if_pos (by omega)]
  next hnew =>
    simp only [load, kUpdateBlockSize]
    rw [getD_resize _ _ (by omega), getD_resize _ _ (by omega), getD_resize _ _ (by omega),
      if_neg (by omega), if_neg (by omega), if_neg (by omega)]
    rfl

/-- Storing rows in the lanes after the rows appends them. -/
theorem storeRows_lanes {rows metadata : List Metadata} (hbuffer : buffer.length = blocks * 96)
    (hlanes : Lanes (load buffer) empty (blocks * 32) rows)
    (hroom : rows.length + metadata.length ≤ blocks * 32) :
    (storeRows metadata rows.length buffer).length = blocks * 96 ∧
      Lanes (load (storeRows metadata rows.length buffer)) empty (blocks * 32)
        (rows ++ metadata) := by
  induction metadata generalizing buffer rows with
  | nil => exact ⟨hbuffer, by rwa [List.append_nil]⟩
  | cons value rest ih =>
      rw [List.length_cons] at hroom
      have hlt : rows.length < blocks * 32 := by omega
      have hpushed := hlanes.push hlt (fun row _ => load_store hbuffer hlt value row)
      have hrest := ih ((length_store _ _ _).trans hbuffer) hpushed (by
        rw [List.length_append, List.length_singleton]
        omega)
      rw [List.length_append, List.length_singleton, List.append_assoc] at hrest
      exact hrest

/-- Packed metadata holds the rows. -/
theorem packBlocks_lanes {metadata : List Metadata} (hroom : metadata.length ≤ blocks * 32) :
    (packBlocks metadata (blocks * 32)).length = blocks * 96 ∧
      Lanes (load (packBlocks metadata (blocks * 32))) empty (blocks * 32) metadata := by
  have hsize : blocks * 32 * 3 = blocks * 96 := by omega
  have hnone : Lanes (load (List.replicate (blocks * 96) 255)) empty (blocks * 32) [] :=
    ⟨by simp, fun row hrow => load_replicate hrow⟩
  have hstored := storeRows_lanes (by simp) hnone (by simpa using hroom)
  rw [packBlocks, hsize]
  exact hstored

end Metadata

end Recast
