import Mathlib.Data.List.Basic
import Mathlib.Tactic.Ring

/-!
# Little-endian words

A natural number in a fixed number of bytes, least significant byte first.
-/

namespace Foundation

/-- The `width` low bytes of `n`. -/
def toLittleEndian : Nat → Nat → List UInt8
  | 0, _ => []
  | width + 1, n => UInt8.ofNat (n % 256) :: toLittleEndian width (n / 256)

/-- The number whose bytes these are. -/
def ofLittleEndian : List UInt8 → Nat
  | [] => 0
  | byte :: rest => byte.toNat + 256 * ofLittleEndian rest

@[simp] theorem length_toLittleEndian (width n : Nat) : (toLittleEndian width n).length = width := by
  induction width generalizing n with
  | zero => rfl
  | succ width ih => simp [toLittleEndian, ih]

theorem ofLittleEndian_toLittleEndian {width n : Nat} (h : n < 256 ^ width) :
    ofLittleEndian (toLittleEndian width n) = n := by
  induction width generalizing n with
  | zero => simp only [pow_zero, Nat.lt_one_iff] at h; simp [toLittleEndian, ofLittleEndian, h]
  | succ width ih =>
      have hrest : n / 256 < 256 ^ width := by
        rw [Nat.div_lt_iff_lt_mul (by norm_num)]
        rwa [pow_succ] at h
      have hbyte : (UInt8.ofNat (n % 256)).toNat = n % 256 := by
        rw [UInt8.toNat_ofNat']
        omega
      rw [toLittleEndian, ofLittleEndian, ih hrest, hbyte]
      omega

theorem toLittleEndian_ofLittleEndian (bytes : List UInt8) :
    toLittleEndian bytes.length (ofLittleEndian bytes) = bytes := by
  induction bytes with
  | nil => rfl
  | cons byte rest ih =>
      have hbyte := byte.toNat_lt
      have hlow : (byte.toNat + 256 * ofLittleEndian rest) % 256 = byte.toNat := by omega
      have hhigh : (byte.toNat + 256 * ofLittleEndian rest) / 256 = ofLittleEndian rest := by omega
      rw [List.length_cons, ofLittleEndian, toLittleEndian, hlow, hhigh, ih, UInt8.ofNat_toNat]

theorem ofLittleEndian_lt (bytes : List UInt8) : ofLittleEndian bytes < 256 ^ bytes.length := by
  induction bytes with
  | nil => simp [ofLittleEndian]
  | cons byte rest ih =>
      have hbyte := byte.toNat_lt
      rw [ofLittleEndian, List.length_cons, pow_succ]
      omega

end Foundation
