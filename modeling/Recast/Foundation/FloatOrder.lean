import Recast.Foundation.Ieee

/-!
# The order of machine floats in their bits

A binary32 pattern is a sign and a magnitude. The numbers of one sign order as
their magnitudes, read as unsigned integers.
-/

namespace Foundation

open Float.Model Float.Model.UnpackedFloat

/-- The magnitude of infinity. The patterns above it are NaNs. -/
def infinityMagnitude : ℕ := 255 * 2 ^ 23

/-- A pattern as one signed number. Both zeros are 0. -/
def signedMagnitude (bits : UInt32) : ℤ :=
  if bits.toNat < 2 ^ 31 then (bits.toNat : ℤ) else 2 ^ 31 - (bits.toNat : ℤ)

/-- Kind, exponent and mantissa of the positive number of a magnitude. -/
def magnitudePlace (n : ℕ) : ℤ × ℤ × ℤ :=
  if n = 0 then (0, 0, 0)
  else if n < 2 ^ 23 then (1, -149, (n : ℤ))
  else if n < infinityMagnitude then (1, ((n / 2 ^ 23 : ℕ) : ℤ) - 150, ((2 ^ 23 + n % 2 ^ 23 : ℕ) : ℤ))
  else (2, 0, 0)

/-- The place of the number of a signed magnitude. -/
def signedPlace (z : ℤ) : ℤ ×ₗ ℤ ×ₗ ℤ :=
  let (kind, exponent, mantissa) := magnitudePlace z.natAbs
  if 0 ≤ z then toLex (kind, toLex (exponent, mantissa))
  else toLex (-kind, toLex (-exponent, -mantissa))

theorem place_lt_iff {a b c a' b' c' : ℤ} :
    toLex (a, toLex (b, c)) < toLex (a', toLex (b', c')) ↔
      a < a' ∨ a = a' ∧ (b < b' ∨ b = b' ∧ c < c') := by
  rw [Prod.Lex.toLex_lt_toLex, Prod.Lex.toLex_lt_toLex]

/-- Larger magnitudes have larger places. -/
theorem magnitudePlace_lt {m n : ℕ} (h : m < n) (hn : n ≤ infinityMagnitude) :
    (magnitudePlace m).1 < (magnitudePlace n).1 ∨ (magnitudePlace m).1 = (magnitudePlace n).1 ∧
      ((magnitudePlace m).2.1 < (magnitudePlace n).2.1 ∨
        (magnitudePlace m).2.1 = (magnitudePlace n).2.1 ∧
          (magnitudePlace m).2.2 < (magnitudePlace n).2.2) := by
  unfold magnitudePlace infinityMagnitude at *
  split <;> split <;> try split
  all_goals try split
  all_goals try split
  all_goals try split
  all_goals dsimp only
  all_goals omega

theorem magnitudePlace_kind (n : ℕ) : 0 ≤ (magnitudePlace n).1 ∧
    ((magnitudePlace n).1 = 0 ↔ n = 0) := by
  unfold magnitudePlace
  split
  next h => simp [h]
  next h =>
    split
    next => simp [h]
    next =>
      split
      next => simp [h]
      next => simp [h]

theorem signedPlace_lt {z w : ℤ} (h : z < w) (hz : z.natAbs ≤ infinityMagnitude)
    (hw : w.natAbs ≤ infinityMagnitude) : signedPlace z < signedPlace w := by
  obtain ⟨hkindz, hzeroz⟩ := magnitudePlace_kind z.natAbs
  obtain ⟨hkindw, hzerow⟩ := magnitudePlace_kind w.natAbs
  unfold signedPlace
  dsimp only
  by_cases hnegz : 0 ≤ z
  · rw [if_pos hnegz, if_pos (by omega), place_lt_iff]
    exact magnitudePlace_lt (by omega) hw
  · rw [if_neg hnegz]
    by_cases hnegw : 0 ≤ w
    · rw [if_pos hnegw, place_lt_iff]
      left
      omega
    · rw [if_neg hnegw, place_lt_iff]
      rcases @magnitudePlace_lt w.natAbs z.natAbs (by omega) hz with
        hkind | ⟨hkind, hexponent | ⟨hexponent, hmantissa⟩⟩
      · exact .inl (neg_lt_neg hkind)
      · exact .inr ⟨congrArg Neg.neg hkind.symm, .inl (neg_lt_neg hexponent)⟩
      · exact .inr ⟨congrArg Neg.neg hkind.symm,
          .inr ⟨congrArg Neg.neg hexponent.symm, neg_lt_neg hmantissa⟩⟩

theorem signedPlace_lt_iff {z w : ℤ} (hz : z.natAbs ≤ infinityMagnitude)
    (hw : w.natAbs ≤ infinityMagnitude) : signedPlace z < signedPlace w ↔ z < w := by
  refine ⟨fun h => ?_, fun h => signedPlace_lt h hz hw⟩
  by_contra hge
  rcases eq_or_lt_of_le (not_lt.mp hge) with heq | hlt
  · rw [heq] at h
    exact lt_irrefl _ h
  · exact lt_asymm h (signedPlace_lt hlt hw hz)

theorem signedPlace_eq_iff {z w : ℤ} (hz : z.natAbs ≤ infinityMagnitude)
    (hw : w.natAbs ≤ infinityMagnitude) : signedPlace z = signedPlace w ↔ z = w := by
  refine ⟨fun h => le_antisymm ?_ ?_, congrArg _⟩
  · exact not_lt.mp fun hlt => (signedPlace_lt hlt hw hz).ne' h
  · exact not_lt.mp fun hlt => (signedPlace_lt hlt hz hw).ne h

/-! ### The fields of a pattern -/

section Fields

variable (bits : UInt32)

theorem toNat_unpackMantissa :
    (@unpackMantissa Format.binary32 bits.toBitVec).toNat = bits.toNat % 2 ^ 23 := by
  rw [unpackMantissa, BitVec.toNat_cast, BitVec.extractLsb_toNat]
  rfl

theorem toNat_unpackExponent :
    (@unpackExponent Format.binary32 bits.toBitVec).toNat =
      bits.toNat / 2 ^ 23 % 2 ^ 8 := by
  rw [unpackExponent, BitVec.toNat_cast, BitVec.extractLsb_toNat, Nat.shiftRight_eq_div_pow]
  rfl

theorem toNat_unpackSign :
    (@unpackSign Format.binary32 bits.toBitVec).toNat = bits.toNat / 2 ^ 31 := by
  have hlt := bits.toNat_lt
  rw [unpackSign, BitVec.toNat_cast, BitVec.extractLsb_toNat, Nat.shiftRight_eq_div_pow]
  change bits.toNat / 2 ^ 31 % 2 = bits.toNat / 2 ^ 31
  omega

theorem unpackSign_eq : Sign.ofBitVec (@unpackSign Format.binary32 bits.toBitVec) =
    if bits.toNat < 2 ^ 31 then .positive else .negative := by
  have hsign := toNat_unpackSign bits
  have hlt := bits.toNat_lt
  split
  next hlow =>
    have hzero : @unpackSign Format.binary32 bits.toBitVec = 0#1 :=
      BitVec.eq_of_toNat_eq (hsign.trans (by change _ = 0; omega))
    rw [hzero]
    rfl
  next hhigh =>
    have hone : @unpackSign Format.binary32 bits.toBitVec = 1#1 :=
      BitVec.eq_of_toNat_eq (hsign.trans (by change _ = 1; omega))
    rw [hone]
    rfl

theorem natAbs_signedMagnitude : (signedMagnitude bits).natAbs = bits.toNat % 2 ^ 31 := by
  have hlt := bits.toNat_lt
  unfold signedMagnitude
  split <;> omega

/-- A negative pattern mirrors the place of its magnitude. -/
theorem signedPlace_signedMagnitude {kind exponent mantissa : ℤ}
    (hplace : magnitudePlace (bits.toNat % 2 ^ 31) = (kind, exponent, mantissa)) :
    signedPlace (signedMagnitude bits) =
      if bits.toNat < 2 ^ 31 then toLex (kind, toLex (exponent, mantissa))
      else toLex (-kind, toLex (-exponent, -mantissa)) := by
  have hlt := bits.toNat_lt
  unfold signedPlace
  rw [natAbs_signedMagnitude, hplace]
  dsimp only
  by_cases hlow : bits.toNat < 2 ^ 31
  · rw [if_pos hlow, if_pos (by rw [signedMagnitude, if_pos hlow]; omega)]
  · rw [if_neg hlow]
    by_cases hzero : bits.toNat % 2 ^ 31 = 0
    · rw [hzero] at hplace
      obtain ⟨rfl, rfl, rfl⟩ : 0 = kind ∧ 0 = exponent ∧ 0 = mantissa := by
        simpa [magnitudePlace] using hplace
      simp
    · rw [if_neg (by rw [signedMagnitude, if_neg hlow]; omega)]

/-- The place of a number, read off its pattern. -/
theorem floatKey_unpack (hnumber : UnpackedFloat.unpack Format.binary32 bits.toBitVec ≠ .notANumber) :
    floatKey (UnpackedFloat.unpack Format.binary32 bits.toBitVec) = signedPlace (signedMagnitude bits) ∧
      (signedMagnitude bits).natAbs ≤ infinityMagnitude := by
  have hmantissa := toNat_unpackMantissa bits
  have hexponent := toNat_unpackExponent bits
  have hones : @unpackExponent Format.binary32 bits.toBitVec = -1#_ ↔
      bits.toNat / 2 ^ 23 % 2 ^ 8 = 255 := by
    rw [← BitVec.toNat_inj, hexponent]
    rfl
  have hzeros : @unpackExponent Format.binary32 bits.toBitVec = 0#_ ↔
      bits.toNat / 2 ^ 23 % 2 ^ 8 = 0 := by
    rw [← BitVec.toNat_inj, hexponent]
    rfl
  have hnone : @unpackMantissa Format.binary32 bits.toBitVec = 0#_ ↔
      bits.toNat % 2 ^ 23 = 0 := by
    rw [← BitVec.toNat_inj, hmantissa]
    rfl
  have hinfinity : infinityMagnitude = 255 * 2 ^ 23 := rfl
  rw [natAbs_signedMagnitude]
  unfold UnpackedFloat.unpack at hnumber ⊢
  dsimp only at hnumber ⊢
  rw [unpackSign_eq] at hnumber ⊢
  split
  next h =>
    split
    next hmantissa0 =>
      rw [hones] at h
      rw [hnone] at hmantissa0
      refine ⟨?_, by omega⟩
      have hplace : magnitudePlace (bits.toNat % 2 ^ 31) = (2, 0, 0) := by
        rw [magnitudePlace, if_neg (by omega), if_neg (by omega), if_neg (by omega)]
      rw [signedPlace_signedMagnitude bits hplace]
      split <;> rfl
    next hmantissa0 =>
      rw [if_pos h, if_neg hmantissa0] at hnumber
      exact absurd rfl hnumber
  next h =>
    rw [hones] at h
    split
    next h0 =>
      rw [hzeros] at h0
      split
      next hmantissa0 =>
        rw [hnone] at hmantissa0
        refine ⟨?_, by omega⟩
        have hplace : magnitudePlace (bits.toNat % 2 ^ 31) = (0, 0, 0) := by
          rw [magnitudePlace, if_pos (by omega)]
        rw [signedPlace_signedMagnitude bits hplace]
        split <;> rfl
      next hmantissa0 =>
        rw [hnone] at hmantissa0
        refine ⟨?_, by omega⟩
        have hsame : bits.toNat % 2 ^ 31 = bits.toNat % 2 ^ 23 := by omega
        have hplace : magnitudePlace (bits.toNat % 2 ^ 31) =
            (1, -149, ((bits.toNat % 2 ^ 23 : ℕ) : ℤ)) := by
          rw [magnitudePlace, if_neg (by omega), if_pos (by omega), hsame]
        rw [signedPlace_signedMagnitude bits hplace]
        simp only [hmantissa, hexponent, h0]
        split <;> rfl
    next h0 =>
      rw [hzeros] at h0
      refine ⟨?_, by omega⟩
      have hplace : magnitudePlace (bits.toNat % 2 ^ 31) = (1,
          ((bits.toNat / 2 ^ 23 % 2 ^ 8 : ℕ) : ℤ) - 150,
          ((2 ^ 23 + bits.toNat % 2 ^ 23 : ℕ) : ℤ)) := by
        rw [magnitudePlace, if_neg (by omega), if_neg (by omega), if_pos (by omega)]
        have hfield : bits.toNat % 2 ^ 31 / 2 ^ 23 = bits.toNat / 2 ^ 23 % 2 ^ 8 := by omega
        have hrest : bits.toNat % 2 ^ 31 % 2 ^ 23 = bits.toNat % 2 ^ 23 := by omega
        rw [hfield, hrest]
      rw [signedPlace_signedMagnitude bits hplace]
      simp only [toNat_implicit, hmantissa, hexponent]
      split <;> rfl

end Fields

/-! ### Machine floats -/

section Machine

variable {x y : Float32}

theorem signedMagnitude_le (hx : x.isNaN = false) :
    (signedMagnitude x.toBits).natAbs ≤ infinityMagnitude :=
  (floatKey_unpack x.toBits (float32_not_nan hx)).2

theorem float32_lt_iff_signedMagnitude (hx : x.isNaN = false) (hy : y.isNaN = false) :
    x < y ↔ signedMagnitude x.toBits < signedMagnitude y.toBits := by
  obtain ⟨hkeyx, hboundx⟩ := floatKey_unpack x.toBits (float32_not_nan hx)
  obtain ⟨hkeyy, hboundy⟩ := floatKey_unpack y.toBits (float32_not_nan hy)
  have hlt := @Ieee.OrderedBy.lt_iff _ _ _ _ _ _ float32_orderedBy x y hx hy
  change decide (x < y) = true ↔ floatKey (UnpackedFloat.unpack Format.binary32 x.toBits.toBitVec) <
    floatKey (UnpackedFloat.unpack Format.binary32 y.toBits.toBitVec) at hlt
  rw [hkeyx, hkeyy, decide_eq_true_eq, signedPlace_lt_iff hboundx hboundy] at hlt
  exact hlt

theorem float32_beq_iff_signedMagnitude (hx : x.isNaN = false) (hy : y.isNaN = false) :
    (x == y) = true ↔ signedMagnitude x.toBits = signedMagnitude y.toBits := by
  obtain ⟨hkeyx, hboundx⟩ := floatKey_unpack x.toBits (float32_not_nan hx)
  obtain ⟨hkeyy, hboundy⟩ := floatKey_unpack y.toBits (float32_not_nan hy)
  have hbeq := @Ieee.OrderedBy.beq_iff _ _ _ _ _ _ float32_orderedBy x y hx hy
  change (x == y) = true ↔ floatKey (UnpackedFloat.unpack Format.binary32 x.toBits.toBitVec) =
    floatKey (UnpackedFloat.unpack Format.binary32 y.toBits.toBitVec) at hbeq
  rw [hkeyx, hkeyy, signedPlace_eq_iff hboundx hboundy] at hbeq
  exact hbeq

end Machine

/-- Patterns up to infinity are numbers. -/
theorem mantissa_of_ones {bits : UInt32}
    (hnumber : (signedMagnitude bits).natAbs ≤ infinityMagnitude)
    (hones : @unpackExponent Format.binary32 bits.toBitVec = -1#_) :
    @unpackMantissa Format.binary32 bits.toBitVec = 0#_ := by
  have hfield : bits.toNat / 2 ^ 23 % 2 ^ 8 = 255 :=
    (toNat_unpackExponent bits).symm.trans (by rw [hones]; rfl)
  rw [natAbs_signedMagnitude, infinityMagnitude] at hnumber
  apply BitVec.eq_of_toNat_eq
  refine (toNat_unpackMantissa bits).trans ?_
  change bits.toNat % 2 ^ 23 = 0
  omega

/-- The pattern of a number is kept. -/
theorem toBits_ofBits_number {bits : UInt32}
    (hnumber : (signedMagnitude bits).natAbs ≤ infinityMagnitude) :
    (Float32.ofBits bits).toBits = bits := by
  have hvalid : Format.binary32.Valid bits.toBitVec :=
    ⟨fun hones hnonzero => absurd (mantissa_of_ones hnumber hones) hnonzero⟩
  have hpack := pack_unpack Format.binary32 (by decide) hvalid
  exact congrArg UInt32.ofBitVec hpack

theorem isNaN_ofBits_number {bits : UInt32}
    (hnumber : (signedMagnitude bits).natAbs ≤ infinityMagnitude) :
    (Float32.ofBits bits).isNaN = false := by
  have hbits := toBits_ofBits_number hnumber
  change (UnpackedFloat.unpack Format.binary32 (Float32.ofBits bits).toBits.toBitVec).isNaN = false
  rw [hbits]
  unfold UnpackedFloat.unpack
  dsimp only
  split
  next hones =>
    rw [if_pos (mantissa_of_ones hnumber hones)]
    rfl
  next =>
    split
    next => split <;> rfl
    next => rfl

end Foundation
