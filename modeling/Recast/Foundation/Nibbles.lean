import Mathlib.Data.List.Basic
import Mathlib.Data.Fintype.Basic

/-!
# Half bytes

Reading, merging and overwriting the two four-bit halves of a byte, and the
same operations at an address of a buffer.
-/

namespace Foundation

/-- The low or the high half of a byte. -/
def nibble (byte : UInt8) (high : Bool) : UInt8 :=
  if high then byte >>> 4 else byte &&& 15

/-- Merge `value` into one half with a bitwise or. -/
def orNibble (byte value : UInt8) (high : Bool) : UInt8 :=
  if high then byte ||| (value <<< 4) else byte ||| value

/-- Overwrite one half by `value`. -/
def setNibble (byte value : UInt8) (high : Bool) : UInt8 :=
  if high then (value <<< 4) ||| (byte &&& 15) else value ||| (byte &&& 240)

/-- A property of bytes, checked for each of them. -/
theorem forall_byte {P : UInt8 → Prop} (h : ∀ n : Fin 256, P (UInt8.ofNat n)) (byte : UInt8) :
    P byte := by
  have := h ⟨byte.toNat, byte.toNat_lt⟩
  rwa [UInt8.ofNat_toNat] at this

/-- A property of half bytes, checked for each of them. -/
theorem forall_nibble {P : UInt8 → Prop} (h : ∀ n : Fin 16, P (UInt8.ofNat n)) {value : UInt8}
    (hvalue : value < 16) : P value := by
  have := h ⟨value.toNat, by simpa using UInt8.lt_iff_toNat_lt.mp hvalue⟩
  rwa [UInt8.ofNat_toNat] at this

theorem nibble_lt (byte : UInt8) (high : Bool) : nibble byte high < 16 := by
  revert high
  exact forall_byte (P := fun byte => ∀ high, nibble byte high < 16) (by decide +kernel) byte

/-- A byte is determined by its halves. -/
theorem nibble_ext {first second : UInt8} (hlow : nibble first false = nibble second false)
    (hhigh : nibble first true = nibble second true) : first = second := by
  have hjoin : ∀ byte, byte = nibble byte false ||| (nibble byte true <<< 4) :=
    forall_byte (by decide +kernel)
  rw [hjoin first, hlow, hhigh, ← hjoin]

theorem nibble_zero (high : Bool) : nibble 0 high = 0 := by
  cases high <;> rfl

theorem byteOr_and_right (a b c : UInt8) : (a ||| b) &&& c = (a &&& c) ||| (b &&& c) :=
  UInt8.toBitVec_inj.mp (by
    apply BitVec.eq_of_getLsbD_eq
    intro i _
    simp [Bool.and_or_distrib_right])

/-- The halves of a value below 16, before and after the shift. -/
theorem halves_of_lt {value : UInt8} (hvalue : value < 16) :
    value &&& 15 = value ∧ value >>> 4 = 0 ∧ (value <<< 4) &&& 15 = 0 ∧
      (value <<< 4) >>> 4 = value :=
  forall_nibble (P := fun value => value &&& 15 = value ∧ value >>> 4 = 0 ∧
    (value <<< 4) &&& 15 = 0 ∧ (value <<< 4) >>> 4 = value) (by decide +kernel) hvalue

/-- The halves of the two masked bytes. -/
theorem halves_of_mask (byte : UInt8) :
    (byte &&& 15) &&& 15 = byte &&& 15 ∧ (byte &&& 15) >>> 4 = 0 ∧
      (byte &&& 240) &&& 15 = 0 ∧ (byte &&& 240) >>> 4 = byte >>> 4 := by
  revert byte
  exact forall_byte (by decide +kernel)

theorem nibble_orNibble {byte value : UInt8} (hvalue : value < 16) (high high' : Bool) :
    nibble (orNibble byte value high) high' =
      if high = high' then nibble byte high' ||| value else nibble byte high' := by
  obtain ⟨hlow, hnone, hshifted, hback⟩ := halves_of_lt hvalue
  cases high <;> cases high' <;>
    simp [nibble, orNibble, byteOr_and_right, UInt8.shiftRight_or, hlow, hnone, hshifted, hback]

theorem nibble_setNibble {byte value : UInt8} (hvalue : value < 16) (high high' : Bool) :
    nibble (setNibble byte value high) high' = if high = high' then value else nibble byte high' := by
  obtain ⟨hlow, hnone, hshifted, hback⟩ := halves_of_lt hvalue
  obtain ⟨hmask, hlost, hcleared, hkept⟩ := halves_of_mask byte
  cases high <;> cases high' <;>
    simp [nibble, setNibble, byteOr_and_right, UInt8.shiftRight_or, hlow, hnone, hshifted, hback,
      hmask, hlost, hcleared, hkept]

/-- A byte put together from two halves. -/
theorem nibble_of_halves {low high : UInt8} (hlow : low < 16) (hhigh : high < 16) (half : Bool) :
    nibble (low ||| (high <<< 4)) half = if half then high else low := by
  obtain ⟨hl, hl', -, -⟩ := halves_of_lt hlow
  obtain ⟨-, -, hh, hh'⟩ := halves_of_lt hhigh
  cases half <;> simp [nibble, byteOr_and_right, UInt8.shiftRight_or, hl, hl', hh, hh']

/-! ### Buffers -/

/-- The half byte stored at an address. -/
def nibbleAt (buffer : List UInt8) (address : Nat) (high : Bool) : UInt8 :=
  nibble (buffer.getD address 0) high

def orNibbleAt (buffer : List UInt8) (address : Nat) (value : UInt8) (high : Bool) : List UInt8 :=
  buffer.modify address (orNibble · value high)

def setNibbleAt (buffer : List UInt8) (address : Nat) (value : UInt8) (high : Bool) : List UInt8 :=
  buffer.modify address (setNibble · value high)

theorem nibbleAt_lt (buffer : List UInt8) (address : Nat) (high : Bool) :
    nibbleAt buffer address high < 16 := nibble_lt _ _

@[simp] theorem length_orNibbleAt (buffer : List UInt8) (address : Nat) (value : UInt8)
    (high : Bool) : (orNibbleAt buffer address value high).length = buffer.length :=
  List.length_modify ..

@[simp] theorem length_setNibbleAt (buffer : List UInt8) (address : Nat) (value : UInt8)
    (high : Bool) : (setNibbleAt buffer address value high).length = buffer.length :=
  List.length_modify ..

theorem getD_modify (buffer : List UInt8) (f : UInt8 → UInt8) {address other : Nat}
    (h : address < buffer.length) : (buffer.modify address f).getD other 0 =
      if other = address then f (buffer.getD other 0) else buffer.getD other 0 := by
  rw [List.getD_eq_getElem?_getD, List.getD_eq_getElem?_getD, List.getElem?_modify]
  by_cases heq : other = address
  · subst heq
    simp [h]
  · simp [heq, Ne.symm heq]

theorem nibbleAt_orNibbleAt {buffer : List UInt8} {address : Nat} (h : address < buffer.length)
    {value : UInt8} (hvalue : value < 16) (high high' : Bool) (other : Nat) :
    nibbleAt (orNibbleAt buffer address value high) other high' =
      if other = address ∧ high = high' then nibbleAt buffer other high' ||| value
      else nibbleAt buffer other high' := by
  rw [nibbleAt, orNibbleAt, getD_modify _ _ h]
  by_cases heq : other = address
  · rw [if_pos heq, nibble_orNibble hvalue]
    simp [heq, nibbleAt]
  · simp [heq, nibbleAt]

theorem nibbleAt_setNibbleAt {buffer : List UInt8} {address : Nat} (h : address < buffer.length)
    {value : UInt8} (hvalue : value < 16) (high high' : Bool) (other : Nat) :
    nibbleAt (setNibbleAt buffer address value high) other high' =
      if other = address ∧ high = high' then value else nibbleAt buffer other high' := by
  rw [nibbleAt, setNibbleAt, getD_modify _ _ h]
  by_cases heq : other = address
  · rw [if_pos heq, nibble_setNibble hvalue]
    simp [heq, nibbleAt]
  · simp [heq, nibbleAt]

/-- Buffers of one length with the same half bytes are equal. -/
theorem buffer_ext {first second : List UInt8} (hlength : first.length = second.length)
    (h : ∀ address < first.length, ∀ high,
      nibbleAt first address high = nibbleAt second address high) : first = second := by
  apply List.ext_getElem hlength
  intro i hi hi'
  have hget : ∀ high, nibble first[i] high = nibble second[i] high := by
    intro high
    have := h i hi high
    simpa [nibbleAt, List.getD_eq_getElem?_getD, hi, hi'] using this
  exact nibble_ext (hget false) (hget true)

end Foundation
