import Recast.Foundation.Slice

/-!
# Buffers with checked accesses

Reads and writes that say whether they lie inside the buffer, and the rule for a
loop of them: an invariant that every step keeps, and under which every step
stays inside, carries the whole loop.
-/

namespace Foundation

variable {α β σ : Type}

/-- Write one entry; none outside the buffer. -/
def storeAt (buffer : List α) (index : ℕ) (value : α) : Option (List α) :=
  if index < buffer.length then some (buffer.set index value) else none

/-- Read `count` entries; none when some lie outside the buffer. -/
def loadSlice (buffer : List α) (start count : ℕ) : Option (List α) :=
  if start + count ≤ buffer.length then some (slice buffer start count) else none

/-- Write the entries `values`; none when some fall outside the buffer. -/
def storeSlice (buffer : List α) (start : ℕ) (values : List α) : Option (List α) :=
  if start + values.length ≤ buffer.length then some (splice buffer start values) else none

/-- `memcpy` of `count` entries. -/
def copySlice (buffer : List α) (start : ℕ) (source : List α) (sourceStart count : ℕ) :
    Option (List α) := do
  let values ← loadSlice source sourceStart count
  storeSlice buffer start values

/-- Copy `count` entries of each of `rows` rows, from one place in the rows of the
source to one place in the rows of the buffer. -/
def copyRows (rows count : ℕ) (buffer : List α) (width start : ℕ) (source : List α)
    (sourceWidth sourceStart : ℕ) : Option (List α) :=
  (List.range rows).foldlM
    (fun buffer i =>
      copySlice buffer (i * width + start) source (i * sourceWidth + sourceStart) count)
    buffer

/-! ### Accesses inside a buffer -/

theorem storeAt_inside {buffer : List α} {index : ℕ} (h : index < buffer.length) (value : α) :
    ∃ buffer', storeAt buffer index value = some buffer' ∧ buffer'.length = buffer.length :=
  ⟨_, if_pos h, List.length_set⟩

theorem loadSlice_inside {buffer : List α} {start count : ℕ} (h : start + count ≤ buffer.length) :
    loadSlice buffer start count = some (slice buffer start count) := if_pos h

theorem storeSlice_inside {buffer : List α} {start : ℕ} {values : List α}
    (h : start + values.length ≤ buffer.length) :
    ∃ buffer', storeSlice buffer start values = some buffer' ∧ buffer'.length = buffer.length :=
  ⟨_, if_pos h, length_splice_of_le h⟩

theorem storeSlice_replicate_inside {buffer : List α} {count : ℕ} (h : count ≤ buffer.length)
    (fill : α) : ∃ buffer', storeSlice buffer 0 (List.replicate count fill) = some buffer' ∧
      buffer'.length = buffer.length := by
  apply storeSlice_inside
  rwa [List.length_replicate, Nat.zero_add]

theorem copySlice_inside {buffer source : List α} {start sourceStart count : ℕ}
    (h : start + count ≤ buffer.length) (hsource : sourceStart + count ≤ source.length) :
    ∃ buffer', copySlice buffer start source sourceStart count = some buffer' ∧
      buffer'.length = buffer.length := by
  have hlength := length_slice_of_le hsource
  rw [copySlice, loadSlice_inside hsource]
  exact storeSlice_inside (hlength.symm ▸ h)

/-! ### Loops -/

/-- A loop keeps an invariant under which no step leaves a buffer. -/
theorem foldlM_inside {step : σ → β → Option σ} {P : σ → Prop} {xs : List β}
    (hstep : ∀ state x, P state → x ∈ xs → ∃ state', step state x = some state' ∧ P state')
    {state : σ} (hstate : P state) :
    ∃ state', xs.foldlM step state = some state' ∧ P state' := by
  induction xs generalizing state with
  | nil => exact ⟨state, rfl, hstate⟩
  | cons x xs ih =>
      obtain ⟨next, hnext, hkept⟩ := hstep state x hstate List.mem_cons_self
      obtain ⟨last, hlast, hend⟩ :=
        ih (fun state y hstate hy => hstep state y hstate (List.mem_cons_of_mem x hy)) hkept
      refine ⟨last, ?_, hend⟩
      rw [List.foldlM_cons, hnext]
      exact hlast

/-- A loop that keeps the size of its buffer. -/
theorem foldlM_sized {size : ℕ} {step : List α → β → Option (List α)} {xs : List β}
    (hstep : ∀ buffer x, buffer.length = size → x ∈ xs →
      ∃ buffer', step buffer x = some buffer' ∧ buffer'.length = size)
    {buffer : List α} (hbuffer : buffer.length = size) :
    ∃ buffer', xs.foldlM step buffer = some buffer' ∧ buffer'.length = size :=
  foldlM_inside (P := fun buffer : List α => buffer.length = size) hstep hbuffer

/-- A loop over rows and over the entries of a row that keeps the size of its buffer. -/
theorem foldlM_rows_sized {rows width size : ℕ} {step : ℕ → List α → ℕ → Option (List α)}
    (hstep : ∀ i < rows, ∀ j < width, ∀ buffer : List α, buffer.length = size →
      ∃ buffer', step i buffer j = some buffer' ∧ buffer'.length = size)
    {buffer : List α} (hbuffer : buffer.length = size) :
    ∃ buffer', (List.range rows).foldlM
        (fun buffer i => (List.range width).foldlM (step i) buffer) buffer = some buffer' ∧
      buffer'.length = size := by
  apply foldlM_sized ?_ hbuffer
  intro current i hcurrent hi
  apply foldlM_sized ?_ hcurrent
  intro current j hcurrent hj
  exact hstep i (List.mem_range.mp hi) j (List.mem_range.mp hj) current hcurrent

/-- A range within a row lies within the rows. -/
theorem row_end_le {rows width i inner : ℕ} (hi : i < rows) (hinner : inner ≤ width) :
    i * width + inner ≤ rows * width :=
  calc i * width + inner
      _ ≤ i * width + width := Nat.add_le_add_left hinner _
      _ = (i + 1) * width := (Nat.succ_mul i width).symm
      _ ≤ rows * width := Nat.mul_le_mul_right width hi

theorem copyRows_inside {rows count width start sourceWidth sourceStart : ℕ}
    {buffer source : List α} (hstart : start + count ≤ width)
    (hbuffer : rows * width ≤ buffer.length) (hsourceStart : sourceStart + count ≤ sourceWidth)
    (hsource : rows * sourceWidth ≤ source.length) :
    ∃ buffer', copyRows rows count buffer width start source sourceWidth sourceStart =
        some buffer' ∧ buffer'.length = buffer.length := by
  apply foldlM_sized ?_ rfl
  intro current i hcurrent hi
  have htarget := row_end_le (List.mem_range.mp hi) hstart
  have hread := row_end_le (List.mem_range.mp hi) hsourceStart
  rw [← hcurrent] at hbuffer ⊢
  exact copySlice_inside (by omega) (by omega)

end Foundation
