import Recast.Foundation.Nibbles
import Mathlib.Algebra.Group.Nat.Defs

/-!
# Vector registers

Sixteen-lane registers as functions of the lane, with the operations on them
under the names of the intrinsics.
-/

namespace Foundation

/-- A register of sixteen lanes. -/
abbrev Lanes16 (α : Type) := Fin 16 → α

namespace Lanes16

variable {α : Type}

/-- `_mm_loadu_si128` and `_mm512_loadu_ps`: sixteen consecutive elements. -/
def loadu (memory : List α) (address : ℕ) (outside : α) : Lanes16 α :=
  fun lane => memory.getD (address + lane) outside

/-- `_mm_and_si128`. -/
def andSi128 (a b : Lanes16 UInt8) : Lanes16 UInt8 := fun lane => a lane &&& b lane

/-- `_mm_set1_epi8`. -/
def set1 (value : α) : Lanes16 α := fun _ => value

/-- The little-endian 16-bit word that byte `lane` is in. -/
def word (a : Lanes16 UInt8) (lane : Fin 16) : ℕ :=
  (a ⟨lane / 2 * 2, by omega⟩).toNat + 256 * (a ⟨lane / 2 * 2 + 1, by omega⟩).toNat

/-- `_mm_srli_epi16`: each 16-bit word is shifted right. -/
def srliEpi16 (a : Lanes16 UInt8) (shift : ℕ) : Lanes16 UInt8 := fun lane =>
  UInt8.ofNat (a.word lane / 2 ^ shift / 256 ^ (lane.val % 2))

/-- `_mm512_cvtepu8_epi32`: bytes as lane numbers. -/
def cvtepu8Epi32 (a : Lanes16 UInt8) : Lanes16 ℕ := fun lane => (a lane).toNat

/-- `_mm512_permutexvar_ps`: every lane picks a lane of `a` by four index bits. -/
def permutexvar (index : Lanes16 ℕ) (a : Lanes16 α) : Lanes16 α :=
  fun lane => a ⟨index lane % 16, Nat.mod_lt _ (by decide)⟩

/-- `_mm512_add_ps`. -/
def add [Add α] (a b : Lanes16 α) : Lanes16 α := fun lane => a lane + b lane

/-- `_mm512_sub_ps`. -/
def sub [Sub α] (a b : Lanes16 α) : Lanes16 α := fun lane => a lane - b lane

/-- `_mm512_mul_ps`. -/
def mul [Mul α] (a b : Lanes16 α) : Lanes16 α := fun lane => a lane * b lane

/-- `_mm512_cvtepu16_epi32`: 16-bit words as lane numbers. -/
def cvtepu16Epi32 (a : Lanes16 UInt16) : Lanes16 ℕ := fun lane => (a lane).toNat

/-- `_mm512_cvtepi32_ps`. -/
def cvtepi32Ps [NatCast α] (a : Lanes16 ℕ) : Lanes16 α := fun lane => (a lane : α)

/-- `_mm512_cmpeq_epi32_mask`. -/
def cmpeqEpi32Mask (a b : Lanes16 ℕ) : Lanes16 Bool := fun lane => a lane == b lane

/-- `_mm512_mask_mov_ps`: the lanes under the mask are those of `a`. -/
def maskMov (source : Lanes16 α) (mask : Lanes16 Bool) (a : Lanes16 α) : Lanes16 α :=
  fun lane => if mask lane then a lane else source lane

/-- `_mm512_storeu_ps`: the lanes in order. -/
def storeu (a : Lanes16 α) : List α := List.ofFn a

theorem toNat_and_mask (n : ℕ) : (UInt8.ofNat n &&& 15).toNat = n % 16 := by
  have hmask : (15 : UInt8).toNat = 2 ^ 4 - 1 := rfl
  rw [UInt8.toNat_and, hmask, Nat.and_two_pow_sub_one_eq_mod, UInt8.toNat_ofNat']
  omega

theorem toNat_nibble_high (byte : UInt8) : (nibble byte true).toNat = byte.toNat / 16 := by
  rw [nibble, if_pos rfl, UInt8.toNat_shiftRight, Nat.shiftRight_eq_div_pow]
  rfl

@[simp] theorem length_storeu (a : Lanes16 α) : a.storeu.length = 16 := List.length_ofFn

/-- The shift drags bits of the next byte in, the mask takes them off again. -/
theorem srliEpi16_and_mask (a : Lanes16 UInt8) :
    andSi128 (srliEpi16 a 4) (set1 15) = fun lane => nibble (a lane) true := by
  funext lane
  apply UInt8.toNat_inj.mp
  simp only [andSi128, srliEpi16, set1]
  rw [toNat_and_mask, toNat_nibble_high, word]
  have hlow := (a ⟨lane / 2 * 2, by omega⟩).toNat_lt
  have hhigh := (a ⟨lane / 2 * 2 + 1, by omega⟩).toNat_lt
  rcases Nat.mod_two_eq_zero_or_one lane with heven | hodd
  · have hlane : lane = ⟨lane / 2 * 2, by omega⟩ := Fin.ext (by simp only; omega)
    rw [heven, congrArg a hlane, Nat.pow_zero, Nat.div_one]
    omega
  · have hlane : lane = ⟨lane / 2 * 2 + 1, by omega⟩ := Fin.ext (by simp only; omega)
    rw [hodd, congrArg a hlane, Nat.pow_one]
    omega

theorem and_mask (a : Lanes16 UInt8) :
    andSi128 a (set1 15) = fun lane => nibble (a lane) false := rfl

/-- Picking from a loaded table by bytes reads the table at the bytes. -/
theorem permutexvar_loadu {index : Lanes16 UInt8} (table : List α) (address : ℕ) (outside : α)
    (h : ∀ lane, index lane < 16) :
    permutexvar (cvtepu8Epi32 index) (loadu table address outside) =
      fun lane => table.getD (address + (index lane).toNat) outside := by
  funext lane
  have hlane : (index lane).toNat < 16 := UInt8.lt_iff_toNat_lt.mp (h lane)
  simp only [permutexvar, cvtepu8Epi32, loadu, Nat.mod_eq_of_lt hlane]

end Lanes16

theorem length_flatMap_blocks {α : Type} {blocks : ℕ → List α} {size : ℕ}
    (h : ∀ block, (blocks block).length = size) (count : ℕ) :
    ((List.range count).flatMap blocks).length = count * size := by
  induction count with
  | zero => simp
  | succ count ih => simp [List.range_succ, List.flatMap_append, ih, h, Nat.succ_mul]

/-- An element of equal blocks stored one after the other. -/
theorem getElem?_flatMap_blocks {α : Type} {blocks : ℕ → List α} {size : ℕ}
    (h : ∀ block, (blocks block).length = size) {count block i : ℕ} (hblock : block < count)
    (hi : i < size) : ((List.range count).flatMap blocks)[block * size + i]? = (blocks block)[i]? := by
  induction count with
  | zero => exact absurd hblock (Nat.not_lt_zero _)
  | succ count ih =>
      have hlength := length_flatMap_blocks h count
      rw [List.range_succ, List.flatMap_append]
      rcases Nat.lt_succ_iff_lt_or_eq.mp hblock with hearlier | hlast
      · have hend : (block + 1) * size ≤ count * size := Nat.mul_le_mul_right size hearlier
        rw [Nat.succ_mul] at hend
        rw [List.getElem?_append_left (by omega)]
        exact ih hearlier
      · subst hlast
        rw [List.getElem?_append_right (by omega), hlength, Nat.add_sub_cancel_left]
        simp

/-- Tiles of `size` places, the last one cut off at `count`, are the places in order. -/
theorem flatMap_range_tiles {α : Type} (f : ℕ → α) (size count tiles : ℕ) :
    ((List.range tiles).flatMap fun tile =>
        (List.range (min size (count - tile * size))).map fun lane => f (tile * size + lane)) =
      (List.range (min count (tiles * size))).map f := by
  induction tiles with
  | zero => rw [Nat.zero_mul, Nat.min_zero]; rfl
  | succ tiles ih =>
      have hsplit : min count ((tiles + 1) * size) =
          min count (tiles * size) + min size (count - tiles * size) := by
        rw [Nat.succ_mul]
        omega
      rw [List.range_succ, List.flatMap_append, ih, List.flatMap_singleton, hsplit,
        List.range_add, List.map_append, List.map_map]
      congr 1
      refine List.map_congr_left fun lane hlane => ?_
      have hlane := List.mem_range.mp hlane
      have hfull : min count (tiles * size) = tiles * size := by omega
      rw [Function.comp_apply, hfull]

end Foundation
