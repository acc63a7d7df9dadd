import Mathlib

/-!
# Machine floats

The bits of a float determine it. For `binary32`, the magnitude of a rounded
quotient: how small a number a division can produce.
-/

namespace Foundation

open Float.Model Float.Model.UnpackedFloat

theorem toBitVec_ofBitVec (b : BitVec 1) : (Sign.ofBitVec b).toBitVec = b := by
  revert b
  decide

theorem packComponents_unpack (spec : Format) (b : BitVec spec.numBits) :
    packComponents spec (Sign.ofBitVec (unpackSign b)) (unpackExponent b) (unpackMantissa b) = b := by
  have hm := spec.hm
  have he := spec.he
  apply BitVec.eq_of_getLsbD_eq
  intro i hi
  rw [packComponents, toBitVec_ofBitVec, BitVec.getLsbD_append, BitVec.getLsbD_append]
  simp only [unpackMantissa, unpackExponent, unpackSign, BitVec.getLsbD_cast,
    BitVec.getLsbD_extractLsb]
  have hbits : spec.numBits = 1 + spec.exponentBits + spec.mantissaBitsWithoutImplicit := rfl
  by_cases hmantissa : i < spec.mantissaBitsWithoutImplicit
  · simp [hmantissa]
    omega
  · by_cases hexponent : i - spec.mantissaBitsWithoutImplicit < spec.exponentBits
    · simp only [hmantissa, hexponent, if_false, if_true]
      rw [show spec.mantissaBitsWithoutImplicit + (i - spec.mantissaBitsWithoutImplicit) = i by omega]
      simp only [Bool.and_eq_right_iff_imp, decide_eq_true_eq]
      omega
    · simp only [hmantissa, hexponent, if_false]
      rw [show spec.mantissaBitsWithoutImplicit + spec.exponentBits +
        (i - spec.mantissaBitsWithoutImplicit - spec.exponentBits) = i by omega]
      simp only [Bool.and_eq_right_iff_imp, decide_eq_true_eq]
      omega

theorem toNat_implicit (n : Nat) (b : BitVec n) : (1#1 ++ b).toNat = 2 ^ n + b.toNat := by
  rw [BitVec.toNat_append, ← Nat.shiftLeft_add_eq_or_of_lt b.isLt]
  simp [Nat.shiftLeft_eq]

theorem pack_unpack (spec : Format) (hexponent : 2 ≤ spec.exponentBits) {b : BitVec spec.numBits}
    (hvalid : spec.Valid b) :
    UnpackedFloat.pack spec (UnpackedFloat.unpack spec b) = b := by
  have hb := packComponents_unpack spec b
  have hpow : 4 ≤ 2 ^ spec.exponentBits := Nat.pow_le_pow_right (n := 2) (by decide) hexponent
  have hmantissaLt := (unpackMantissa b).isLt
  have hexponentLt := (unpackExponent b).isLt
  unfold UnpackedFloat.unpack
  dsimp only
  split
  next hones =>
    split
    next hzero =>
      rw [UnpackedFloat.pack, packedInfinity]
      rw [hones, hzero] at hb
      exact hb
    next hnonzero => exact (hvalid.eq_packedNaN hones hnonzero).symm
  next hones =>
    split
    next hzero =>
      split
      next hmantissa =>
        rw [UnpackedFloat.pack, packedZero]
        rw [hzero, hmantissa] at hb
        exact hb
      next hmantissa =>
        have hlog : (unpackMantissa b).toNat.log2 < spec.mantissaBitsWithoutImplicit := by
          refine (Nat.log2_lt ?_).mpr hmantissaLt
          intro hn
          exact hmantissa (BitVec.eq_of_toNat_eq (by simpa using hn))
        have hsubnormal : ¬(unpackMantissa b).toNat.log2 + 1 = spec.mantissaBits := by
          unfold Format.mantissaBits
          omega
        rw [UnpackedFloat.pack, if_neg, if_neg hsubnormal]
        · rw [BitVec.ofNat_toNat, BitVec.setWidth_eq, ← hzero]
          exact hb
        · rw [hzero]
          simp only [BitVec.toNat_ofNat, Nat.zero_mod]
          omega
    next hnonzero =>
      have hlog : (2 ^ spec.mantissaBitsWithoutImplicit + (unpackMantissa b).toNat).log2 =
          spec.mantissaBitsWithoutImplicit := by
        have hne : 2 ^ spec.mantissaBitsWithoutImplicit + (unpackMantissa b).toNat ≠ 0 := by
          have := Nat.two_pow_pos spec.mantissaBitsWithoutImplicit
          omega
        refine le_antisymm (Nat.le_of_lt_succ ((Nat.log2_lt hne).mpr ?_))
          ((Nat.le_log2 hne).mpr (by omega))
        rw [Nat.pow_succ]
        omega
      have hones' : (unpackExponent b).toNat + 1 ≠ 2 ^ spec.exponentBits := by
        intro hn
        refine hones (BitVec.eq_of_toNat_eq ?_)
        rw [BitVec.neg_one_eq_allOnes, BitVec.toNat_allOnes]
        omega
      have hnormal : spec.mantissaBitsWithoutImplicit + 1 = spec.mantissaBits := by
        unfold Format.mantissaBits
        omega
      rw [UnpackedFloat.pack]
      simp only [toNat_implicit]
      have hbiased : ((unpackExponent b).toNat - ((spec.exponentBias : Int) +
          spec.mantissaBitsWithoutImplicit) + spec.exponentBias +
          spec.mantissaBitsWithoutImplicit : Int).toNat = (unpackExponent b).toNat := by omega
      rw [hbiased, if_neg (by omega), hlog, if_pos hnormal]
      have hmantissa : BitVec.ofNat spec.mantissaBitsWithoutImplicit
          (2 ^ spec.mantissaBitsWithoutImplicit + (unpackMantissa b).toNat) = unpackMantissa b := by
        apply BitVec.eq_of_toNat_eq
        rw [BitVec.toNat_ofNat, Nat.add_mod_left, Nat.mod_eq_of_lt hmantissaLt]
      rw [hmantissa, BitVec.ofNat_toNat, BitVec.setWidth_eq]
      exact hb

theorem float32_ofBits_toBits (value : Float32) : Float32.ofBits value.toBits = value := by
  obtain ⟨model⟩ := value
  obtain ⟨bits, hvalid⟩ := model
  have hpack := pack_unpack Format.binary32 (by decide) hvalid
  simp only [Float32.ofBits, Float32.toBits, Float32.Model.ofBits, Float32.Model.pack]
  congr 2
  rw [hpack]

theorem float_ofBits_toBits (value : Float) : Float.ofBits value.toBits = value := by
  obtain ⟨model⟩ := value
  obtain ⟨bits, hvalid⟩ := model
  have hpack := pack_unpack Format.binary64 (by decide) hvalid
  simp only [Float.ofBits, Float.toBits, Float.Model.ofBits, Float.Model.pack]
  congr 2
  rw [hpack]

section Operations

variable (x y : Float32)

theorem float32_lt_iff : x < y ↔ UnpackedFloat.lt x.toModel.unpack y.toModel.unpack = true :=
  decide_eq_true_iff

theorem float32_le_iff : x ≤ y ↔ UnpackedFloat.le x.toModel.unpack y.toModel.unpack = true :=
  decide_eq_true_iff

theorem float32_beq_eq : (x == y) = UnpackedFloat.beq x.toModel.unpack y.toModel.unpack := rfl

theorem float32_unpack_div : (x / y).toModel.unpack = UnpackedFloat.unpack Format.binary32
    (UnpackedFloat.pack Format.binary32
      (UnpackedFloat.div Format.binary32 x.toModel.unpack y.toModel.unpack)) := rfl

theorem float32_unpack_zero : (0 : Float32).toModel.unpack = .zero .positive := rfl

end Operations

/-! ## Magnitudes -/

theorem targetExponent_binary32 (x : Int) : Format.binary32.targetExponent x = max (x - 24) (-149) := by
  simp only [Format.targetExponent, Format.minExponent, Format.mantissaBits]
  norm_num

theorem mantissa_shiftRight (em : ExtendedMantissa) (k : Nat) :
    (em >>> k).mantissa = em.mantissa / 2 ^ k := by
  induction k with
  | zero => simp [HShiftRight.hShiftRight, Nat.repeat]
  | succ k ih =>
      change ((em >>> k).shiftRightOne).mantissa = _
      rw [ExtendedMantissa.shiftRightOne, ih, Nat.div_div_eq_div_mul, Nat.pow_succ]

theorem roundedMantissa_bounds (em : ExtendedMantissa) :
    em.mantissa ≤ em.roundedMantissa ∧ em.roundedMantissa ≤ em.mantissa + 1 := by
  obtain ⟨m, round, sticky⟩ := em
  cases round <;> cases sticky <;>
    simp only [ExtendedMantissa.roundedMantissa, ExtendedMantissa.accuracy,
      Accuracy.roundToNearestEven] <;> omega

theorem mantissa_ofMantissaAndAccuracy (m : Nat) (accuracy : Accuracy) :
    (ExtendedMantissa.ofMantissaAndAccuracy m accuracy).mantissa = m := by
  unfold ExtendedMantissa.ofMantissaAndAccuracy
  split <;> rfl

theorem log2_div_pow {n k : Nat} (hn : n ≠ 0) (hk : k ≤ n.log2) :
    (n / 2 ^ k).log2 = n.log2 - k := by
  have hlow := Nat.log2_self_le hn
  have hhigh := Nat.lt_log2_self (n := n)
  have hpow : 2 ^ n.log2 = 2 ^ (n.log2 - k) * 2 ^ k := by rw [← Nat.pow_add, Nat.sub_add_cancel hk]
  have hpow' : 2 ^ (n.log2 + 1) = 2 ^ (n.log2 - k + 1) * 2 ^ k := by
    rw [← Nat.pow_add]
    congr 1
    omega
  have hge : 2 ^ (n.log2 - k) ≤ n / 2 ^ k := by
    rw [Nat.le_div_iff_mul_le (Nat.two_pow_pos k), ← hpow]
    exact hlow
  have hlt : n / 2 ^ k < 2 ^ (n.log2 - k + 1) := by
    rw [Nat.div_lt_iff_lt_mul (Nat.two_pow_pos k), ← hpow']
    exact hhigh
  have hne : n / 2 ^ k ≠ 0 := by
    have := Nat.two_pow_pos (n.log2 - k)
    omega
  exact le_antisymm (Nat.le_of_lt_succ ((Nat.log2_lt hne).mpr hlt)) ((Nat.le_log2 hne).mpr hge)

theorem log2_mono {m n : Nat} (hm : m ≠ 0) (h : m ≤ n) : m.log2 ≤ n.log2 :=
  (Nat.le_log2 (by omega)).mpr ((Nat.log2_self_le hm).trans h)

/-- A finite number in the form `binary32` stores it in. -/
def IsCanonical (m : Nat) (e : Int) : Prop := -149 ≤ e ∧ (m.log2 = 23 ∨ m.log2 < 23 ∧ e = -149)

/-- A shift to the target exponent drops bits from the right only. -/
theorem shiftToTargetExponent_binary32 {m : Nat} {e : Int} (accuracy : Accuracy) (hm : m ≠ 0)
    (hexponent : e ≤ max ((m.log2 : Int) + 1 + e - 24) (-149)) (hlarge : -149 ≤ (m.log2 : Int) + e) :
    ∃ em e', shiftToTargetExponent Format.binary32 m e accuracy = (em, e') ∧ em.mantissa ≠ 0 ∧
      e' = max ((m.log2 : Int) + 1 + e - 24) (-149) ∧
      (em.mantissa.log2 : Int) + e' = m.log2 + e := by
  unfold shiftToTargetExponent shiftToExponent
  simp only [targetExponent_binary32, totalExponent]
  generalize htarget : max ((m.log2 : Int) + 1 + e - 24) (-149) = target at hexponent ⊢
  have hk : ((target - e).toNat : Int) = target - e := Int.toNat_of_nonneg (by omega)
  have hkLe : (target - e).toNat ≤ m.log2 := by omega
  have hlog := log2_div_pow hm hkLe
  refine ⟨_, _, rfl, ?_, by omega, ?_⟩
  · rw [mantissa_shiftRight, mantissa_ofMantissaAndAccuracy]
    intro hzero
    have hlt := (Nat.div_eq_zero_iff_lt (Nat.two_pow_pos _)).mp hzero
    have hpow := (Nat.pow_le_pow_right (n := 2) (by decide) hkLe).trans (Nat.log2_self_le hm)
    omega
  · rw [mantissa_shiftRight, mantissa_ofMantissaAndAccuracy, hlog]
    omega

/-- Rounding a number that is not too small keeps its leading bit or moves it up. -/
theorem roundWithAccuracy_binary32 {m : Nat} {e : Int} (accuracy : Accuracy) (hm : m ≠ 0)
    (hexponent : e ≤ max ((m.log2 : Int) + 1 + e - 24) (-149)) (hlarge : -149 ≤ (m.log2 : Int) + e) :
    ∃ m' e' h', roundWithAccuracy Format.binary32 .positive m e accuracy =
        .finite .positive m' e' h' ∧ IsCanonical m' e' ∧ (m.log2 : Int) + e ≤ m'.log2 + e' := by
  obtain ⟨em, e₁, hshift, hne, he₁, hlog⟩ :=
    shiftToTargetExponent_binary32 accuracy hm hexponent hlarge
  obtain ⟨hlow, hhigh⟩ := roundedMantissa_bounds em
  have hr : em.roundedMantissa ≠ 0 := by omega
  have hrLow := log2_mono hne hlow
  have hrHigh : em.roundedMantissa.log2 ≤ em.mantissa.log2 + 1 := by
    have hlt := Nat.lt_log2_self (n := em.mantissa)
    have hle : em.roundedMantissa < 2 ^ (em.mantissa.log2 + 1 + 1) := by
      rw [Nat.pow_succ]
      have := Nat.two_pow_pos (em.mantissa.log2 + 1)
      omega
    exact Nat.le_of_lt_succ ((Nat.log2_lt hr).mpr hle)
  obtain ⟨em', e₂, hshift', hne', he₂, hlog'⟩ :=
    shiftToTargetExponent_binary32 .exact hr (e := e₁) (by omega) (by omega)
  refine ⟨em'.mantissa, e₂, Nat.pos_of_ne_zero hne', ?_, ?_, by omega⟩
  · simp only [roundWithAccuracy, hshift, hshift', dif_neg hne']
  · unfold IsCanonical
    omega

/-- A positive number of which `2 ^ k` is a lower bound, or infinity. -/
def AtLeast (k : Int) (x : UnpackedFloat) : Prop :=
  x = .infinity .positive ∨ ∃ m e h, x = .finite .positive m e h ∧ k ≤ (m.log2 : Int) + e

theorem unpackSign_packComponents (sign : Sign) (exponent : BitVec 8) (mantissa : BitVec 23) :
    unpackSign (packComponents Format.binary32 sign exponent mantissa) = sign.toBitVec := by
  apply BitVec.eq_of_getLsbD_eq
  intro i hi
  have hi' : i = 0 := by omega
  subst hi'
  simp only [unpackSign, packComponents, BitVec.getLsbD_cast, BitVec.getLsbD_extractLsb]
  rw [BitVec.getLsbD_append, BitVec.getLsbD_append]
  simp

theorem unpack_packedInfinity :
    UnpackedFloat.unpack Format.binary32 (packedInfinity Format.binary32 .positive) =
      .infinity .positive := rfl

/-- Packing a canonical positive number loses nothing but what overflows. -/
theorem unpack_pack_binary32 {m : Nat} {e : Int} (h : 0 < m) (hcanonical : IsCanonical m e) :
    UnpackedFloat.unpack Format.binary32
        (UnpackedFloat.pack Format.binary32 (.finite .positive m e h)) = .infinity .positive ∨
      ∃ h', UnpackedFloat.unpack Format.binary32
        (UnpackedFloat.pack Format.binary32 (.finite .positive m e h)) =
          .finite .positive m e h' := by
  obtain ⟨hmin, hform⟩ := hcanonical
  have hlow := Nat.log2_self_le (Nat.pos_iff_ne_zero.mp h)
  have hhigh := Nat.lt_log2_self (n := m)
  have hsign : Sign.ofBitVec Sign.positive.toBitVec = .positive := rfl
  rw [UnpackedFloat.pack]
  split
  · exact .inl unpack_packedInfinity
  next hoverflow =>
    right
    have hbias : Format.binary32.exponentBias = 127 := rfl
    rw [hbias] at hoverflow ⊢
    change ¬2 ^ 8 ≤ (e + (127 : Nat) + (23 : Nat)).toNat + 1 at hoverflow
    split
    next hnormal =>
      change m.log2 + 1 = 24 at hnormal
      have hlog : m.log2 = 23 := by omega
      rw [hlog] at hlow hhigh
      have hbiased : (e + (127 : Nat) + (23 : Nat)).toNat < 2 ^ 8 := by omega
      have hbiasedPos : (e + (127 : Nat) + (23 : Nat)).toNat ≠ 0 := by omega
      have hexponent : (BitVec.ofNat 8 (e + (127 : Nat) + (23 : Nat)).toNat).toNat =
          (e + (127 : Nat) + (23 : Nat)).toNat := by
        rw [BitVec.toNat_ofNat, Nat.mod_eq_of_lt hbiased]
      have hones : BitVec.ofNat 8 (e + (127 : Nat) + (23 : Nat)).toNat ≠ -1#8 := by
        intro heq
        have hnat := congrArg BitVec.toNat heq
        rw [hexponent] at hnat
        change _ = 255 at hnat
        omega
      have hzero : BitVec.ofNat 8 (e + (127 : Nat) + (23 : Nat)).toNat ≠ 0#8 := by
        intro heq
        have hnat := congrArg BitVec.toNat heq
        rw [hexponent] at hnat
        exact hbiasedPos hnat
      have hmantissa : (BitVec.ofNat 23 m).toNat = m - 2 ^ 23 := by
        rw [BitVec.toNat_ofNat]
        omega
      unfold UnpackedFloat.unpack
      simp only [unpackExponent_packComponents, unpackMantissa_packComponents]
      rw [unpackSign_packComponents, hsign]
      refine ⟨h, ?_⟩
      rw [if_neg hones, if_neg hzero, UnpackedFloat.finite.injEq]
      refine ⟨rfl, ?_, ?_⟩
      · rw [toNat_implicit, hmantissa]
        omega
      · rw [hexponent, hbias]
        omega
    next hsubnormal =>
      change ¬m.log2 + 1 = 24 at hsubnormal
      obtain ⟨hlogLt, rfl⟩ := hform.resolve_left (by omega)
      have hsmall : m < 2 ^ 23 := (Nat.log2_lt (by omega)).mp hlogLt
      have hmantissa : (BitVec.ofNat 23 m).toNat = m := by
        rw [BitVec.toNat_ofNat, Nat.mod_eq_of_lt hsmall]
      have hne : BitVec.ofNat 23 m ≠ 0#23 := by
        intro heq
        have hnat := congrArg BitVec.toNat heq
        rw [hmantissa] at hnat
        change m = 0 at hnat
        omega
      unfold UnpackedFloat.unpack
      simp only [unpackExponent_packComponents, unpackMantissa_packComponents]
      rw [unpackSign_packComponents, hsign]
      refine ⟨h, ?_⟩
      rw [if_neg (by decide), if_pos trivial, dif_neg hne, UnpackedFloat.finite.injEq]
      refine ⟨rfl, hmantissa, ?_⟩
      rw [hbias]
      rfl

/-- A quotient of positive numbers is not much smaller than their magnitudes say. -/
theorem div_binary32 {m₁ m₂ : Nat} {e₁ e₂ : Int} (h₁ : 0 < m₁) (h₂ : 0 < m₂)
    (hlarge : -149 ≤ (m₁.log2 : Int) + e₁ - (m₂.log2 + e₂) - 1) :
    ∃ m e h, UnpackedFloat.div Format.binary32 (.finite .positive m₁ e₁ h₁)
        (.finite .positive m₂ e₂ h₂) = .finite .positive m e h ∧ IsCanonical m e ∧
      (m₁.log2 : Int) + e₁ - (m₂.log2 + e₂) - 1 ≤ m.log2 + e := by
  unfold UnpackedFloat.div divCore
  simp only [targetExponent_binary32, totalExponent]
  generalize ht : min (e₁ - e₂) (max ((m₁.log2 : Int) + 1 + e₁ - (m₂.log2 + 1 + e₂) - 24) (-149)) =
    t
  have hs : ((e₁ - e₂ - t).toNat : Int) = e₁ - e₂ - t := Int.toNat_of_nonneg (by omega)
  generalize (e₁ - e₂ - t).toNat = s at hs
  have hlow₁ := Nat.log2_self_le (Nat.pos_iff_ne_zero.mp h₁)
  have hhigh₂ := Nat.lt_log2_self (n := m₂)
  have hq : 2 ^ (m₁.log2 + s - (m₂.log2 + 1)) ≤ m₁ <<< s / m₂ := by
    rw [Nat.le_div_iff_mul_le h₂, Nat.shiftLeft_eq]
    calc 2 ^ (m₁.log2 + s - (m₂.log2 + 1)) * m₂
        ≤ 2 ^ (m₁.log2 + s - (m₂.log2 + 1)) * 2 ^ (m₂.log2 + 1) :=
          Nat.mul_le_mul_left _ hhigh₂.le
      _ = 2 ^ (m₁.log2 + s) := by
          rw [← Nat.pow_add]
          congr 1
          omega
      _ = 2 ^ m₁.log2 * 2 ^ s := Nat.pow_add _ _ _
      _ ≤ m₁ * 2 ^ s := Nat.mul_le_mul_right _ hlow₁
  have hne : m₁ <<< s / m₂ ≠ 0 := by
    have := Nat.two_pow_pos (m₁.log2 + s - (m₂.log2 + 1))
    omega
  have hlog := (Nat.le_log2 hne).mpr hq
  obtain ⟨m, e, h, hround, hcanonical, hle⟩ := roundWithAccuracy_binary32
    (accuracyOfFraction (m₁ <<< s % m₂) m₂) hne (e := t) (by omega) (by omega)
  exact ⟨m, e, h, hround, hcanonical, by omega⟩

/-- What a `binary32` holds is canonical. -/
theorem unpack_canonical (bits : BitVec Format.binary32.numBits) {sign : Sign} {m : Nat} {e : Int}
    {h : 0 < m} (hunpack : UnpackedFloat.unpack Format.binary32 bits = .finite sign m e h) :
    IsCanonical m e := by
  have hmantissa : (unpackMantissa bits).toNat < 2 ^ 23 := (unpackMantissa bits).isLt
  have hbias : Format.binary32.exponentBias = 127 := rfl
  unfold UnpackedFloat.unpack at hunpack
  dsimp only at hunpack
  split at hunpack
  next => split at hunpack <;> simp at hunpack
  next =>
    split at hunpack
    next hzero =>
      split at hunpack
      next => simp at hunpack
      next hne =>
        rw [UnpackedFloat.finite.injEq] at hunpack
        obtain ⟨-, rfl, rfl⟩ := hunpack
        rw [hzero, hbias]
        have hlog := (Nat.log2_lt (by omega)).mpr hmantissa
        exact ⟨le_refl _, Or.inr ⟨hlog, rfl⟩⟩
    next hzero =>
      rw [UnpackedFloat.finite.injEq] at hunpack
      obtain ⟨-, rfl, rfl⟩ := hunpack
      have hpos : 0 < (unpackExponent bits).toNat := by
        refine Nat.pos_of_ne_zero fun hn => hzero (BitVec.eq_of_toNat_eq ?_)
        simpa using hn
      rw [toNat_implicit, hbias]
      have hlog : (2 ^ 23 + (unpackMantissa bits).toNat).log2 = 23 :=
        le_antisymm (Nat.le_of_lt_succ ((Nat.log2_lt (by omega)).mpr (by omega)))
          ((Nat.le_log2 (by omega)).mpr (by omega))
      exact ⟨by omega, Or.inl hlog⟩

end Foundation
