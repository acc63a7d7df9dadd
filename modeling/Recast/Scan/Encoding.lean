import Recast.Scan.Estimate
import Mathlib.Algebra.Order.Round
import Mathlib.Data.Rat.Floor

/-!
# Encoding

`encode` splits a vector as training does, codes the direction and keeps three
bytes about it: the norm, the scale of the reconstruction and an upper bound on
the direction error.
-/

namespace Recast

section

variable {F K : Type}
variable [Field F] [LinearOrder F] [FloorRing F]

/-- `std::lround`: halves go away from zero. -/
def lround (value : F) : ℤ := if 0 ≤ value then round value else -round (-value)

/-- The byte of an integer clamped to `[0, maximum]`. -/
def clampByte (maximum : ℕ) (code : ℤ) : UInt8 := UInt8.ofNat (max 0 (min (maximum : ℤ) code)).toNat

/-- `quantize_linear`. Code 255 is the overflow sentinel. -/
def quantizeLinear (numerics : Numerics F K) (value maximum step : F) : UInt8 :=
  if numerics.isFinite value = false ∨ maximum + 1 / 2 * step < value then 255
  else if maximum ≤ 0 then 0
  else clampByte 254 (lround (value / step))

/-- What `quantize_error_upper` takes off before it rounds up, `1e-7f`. -/
def errorSlack : F := 1 / 10 ^ 7

/-- `quantize_error_upper`. -/
def quantizeErrorUpper (error : F) : UInt8 :=
  let clamped := max 0 (min 2 error)
  clampByte 255 ⌈clamped * 255 / 2 - errorSlack⌉

/-- `fvec_L2sqr`. -/
def l2Sqr (faiss : Faiss F) (u v : List F) : F := faiss.normL2Sqr (u.zipWith (· - ·) v)

/-- One row of `encode`. -/
def RecastQuantizer.encodeRow (numerics : Numerics F K) (faiss : Faiss F)
    (quantizer : RecastQuantizer F K) (row : List F) : List UInt8 × Metadata :=
  let (unit, norm) := normalize numerics faiss (center quantizer.mean row)
  let direction := quantizer.transform faiss unit
  let code := quantizer.direction.computeCode faiss direction
  let normCode := quantizeLinear numerics norm quantizer.normMax quantizer.normStep
  -- The reconstruction is normalized in place before its distance to the direction.
  let (reconstruction, reconstructionNorm) :=
    normalize numerics faiss (quantizer.direction.decode faiss code)
  if numerics.kMinNorm < reconstructionNorm ∧
      (quantizer.config.metric ≠ .cosine ∨ numerics.kMinNorm < norm) then
    let scale :=
      if quantizer.config.metric = .cosine then 1 / reconstructionNorm
      else norm / reconstructionNorm
    (code, {
      norm := normCode
      scale := quantizeLinear numerics scale quantizer.scaleMax quantizer.scaleStep
      error := quantizeErrorUpper (numerics.sqrt (l2Sqr faiss direction reconstruction)) })
  else (code, ⟨normCode, 255, 255⟩)

/-- `encode`. -/
def RecastQuantizer.encode (numerics : Numerics F K) (faiss : Faiss F)
    (quantizer : RecastQuantizer F K) (rows : List (List F)) :
    Except ModelError (List (List UInt8 × Metadata)) :=
  if quantizer.trained = false then
    .error (.invalidArgument "invalid encode input or untrained quantizer")
  else .ok (rows.map (quantizer.encodeRow numerics faiss))

omit [FloorRing F] [LinearOrder F] in
theorem byteValue_eq (byte : UInt8) : (byteValue byte : F) = ((byte.toNat : ℤ) : F) := by
  rw [byteValue, Int.cast_natCast]

theorem clampByte_toNat {maximum : ℕ} (hmaximum : maximum ≤ 255) (code : ℤ) :
    ((clampByte maximum code).toNat : ℤ) = max 0 (min (maximum : ℤ) code) := by
  rw [clampByte, UInt8.toNat_ofNat', Nat.mod_eq_of_lt (by omega)]
  exact Int.toNat_of_nonneg (le_max_left _ _)

omit [FloorRing F] [LinearOrder F] in
theorem byteValue_clampByte {maximum : ℕ} (hmaximum : maximum ≤ 255) {code : ℤ}
    (hnonneg : 0 ≤ code) (hle : code ≤ maximum) :
    (byteValue (clampByte maximum code) : F) = code := by
  have hcode : ((clampByte maximum code).toNat : ℤ) = code := by
    rw [clampByte_toNat hmaximum, min_eq_right hle, max_eq_right hnonneg]
  rw [byteValue_eq, hcode]

end

/-! ## Linear codes -/

section Linear

variable {F K : Type}
variable [Field F] [LinearOrder F] [IsStrictOrderedRing F] [FloorRing F]

theorem lround_nonneg {value : F} (hvalue : 0 ≤ value) : 0 ≤ lround value := by
  rw [lround, if_pos hvalue, round_eq]
  exact Int.floor_nonneg.mpr (by positivity)

theorem lround_le {value : F} (hvalue : 0 ≤ value) {maximum : ℕ} (hle : value ≤ maximum) :
    lround value ≤ maximum := by
  rw [lround, if_pos hvalue, round_eq]
  refine Int.floor_le_iff.mpr ?_
  push_cast
  linarith

theorem abs_lround_sub {value : F} (hvalue : 0 ≤ value) : |(lround value : F) - value| ≤ 1 / 2 := by
  rw [lround, if_pos hvalue, abs_sub_comm]
  exact abs_sub_round value

theorem zero_lt_stepOf (maximum : F) : 0 < stepOf maximum := by
  unfold stepOf
  split
  · positivity
  · exact one_pos

/-- A value of the trained range has a proper code, half a step away at most. -/
theorem quantizeLinear_spec {numerics : Numerics F K} {value maximum : F}
    (hfinite : numerics.isFinite value = true) (hvalue : 0 ≤ value) (hmaximum : value ≤ maximum) :
    (quantizeLinear numerics value maximum (stepOf maximum)).toNat ≤ 254 ∧
      |byteValue (quantizeLinear numerics value maximum (stepOf maximum)) * stepOf maximum -
        value| ≤ stepOf maximum / 2 := by
  have hstep := zero_lt_stepOf maximum
  have hrange : ¬(numerics.isFinite value = false ∨ maximum + 1 / 2 * stepOf maximum < value) := by
    rw [hfinite]
    rintro (h | h)
    · exact Bool.noConfusion h
    · linarith
  rw [quantizeLinear, if_neg hrange]
  by_cases hzero : maximum ≤ 0
  · have hvalue0 : value = 0 := le_antisymm (hmaximum.trans hzero) hvalue
    rw [if_pos hzero, hvalue0]
    refine ⟨Nat.zero_le _, ?_⟩
    have hbyte : (byteValue 0 : F) = 0 := Nat.cast_zero
    rw [hbyte, zero_mul, sub_zero, abs_zero]
    exact (half_pos hstep).le
  · rw [if_neg hzero]
    have hpositive : 0 < maximum := not_le.mp hzero
    have hquotient : 0 ≤ value / stepOf maximum := div_nonneg hvalue hstep.le
    have htop : value / stepOf maximum ≤ ((254 : ℕ) : F) := by
      rw [div_le_iff₀ hstep, stepOf, if_pos hpositive]
      calc value ≤ maximum := hmaximum
        _ = ((254 : ℕ) : F) * (maximum / ((254 : ℕ) : F)) := by
          rw [mul_div_cancel₀ _ (by norm_num)]
    have hlow := lround_nonneg hquotient
    have hhigh := lround_le hquotient htop
    constructor
    · have hmaximum : 254 ≤ 255 := by decide
      have := clampByte_toNat hmaximum (lround (value / stepOf maximum))
      omega
    · rw [byteValue_clampByte (by decide) hlow hhigh]
      have hdistance := abs_lround_sub hquotient
      calc |(lround (value / stepOf maximum) : F) * stepOf maximum - value|
          = |(lround (value / stepOf maximum) : F) - value / stepOf maximum| * stepOf maximum := by
            rw [← abs_of_pos hstep, ← abs_mul, abs_of_pos hstep, sub_mul,
              div_mul_cancel₀ _ hstep.ne']
        _ ≤ 1 / 2 * stepOf maximum := mul_le_mul_of_nonneg_right hdistance hstep.le
        _ = stepOf maximum / 2 := by ring

end Linear

/-! ## The error byte -/

section ErrorByte

variable {K : Type} {error : ℚ}

/-- The code of an error of the range, before it is made a byte. -/
def errorCode (error : ℚ) : ℤ := ⌈error * 255 / 2 - errorSlack⌉

theorem errorCode_nonneg (h : 0 ≤ error) : 0 ≤ errorCode error := by
  have hlow : (-1 : ℤ) < errorCode error := by
    refine Int.lt_ceil.mpr ?_
    rw [errorSlack]
    push_cast
    linarith
  omega

theorem errorCode_le (h : error ≤ 2) : errorCode error ≤ 255 := by
  refine Int.ceil_le.mpr ?_
  rw [errorSlack]
  push_cast
  linarith

theorem errorCode_mono {error' : ℚ} (h : error ≤ error') : errorCode error ≤ errorCode error' :=
  Int.ceil_le_ceil (by linarith)

theorem byteValue_quantizeErrorUpper (h0 : 0 ≤ error) (h2 : error ≤ 2) :
    (byteValue (quantizeErrorUpper error) : ℚ) = errorCode error := by
  rw [quantizeErrorUpper, min_eq_right h2, max_eq_right h0]
  exact byteValue_clampByte le_rfl (errorCode_nonneg h0) (errorCode_le h2)

/-- The scaled error is covered by its code exactly when it is not within the
slack above an integer. -/
theorem le_errorCode_iff :
    error * 255 / 2 ≤ errorCode error ↔
      Int.fract (error * 255 / 2) = 0 ∨ errorSlack < Int.fract (error * 255 / 2) := by
  have hsplit := Int.floor_add_fract (error * 255 / 2)
  have hfract := Int.fract_nonneg (error * 255 / 2)
  have hfract1 := Int.fract_lt_one (error * 255 / 2)
  have hslack : (0 : ℚ) < errorSlack := by norm_num [errorSlack]
  constructor
  · intro hcovers
    by_contra hgap
    obtain ⟨hpositive, hwithin⟩ := not_or.mp hgap
    -- Rounding up does not leave the floor.
    have hcode : errorCode error ≤ ⌊error * 255 / 2⌋ := Int.ceil_le.mpr (by linarith)
    have hcode' : (errorCode error : ℚ) ≤ ⌊error * 255 / 2⌋ := by exact_mod_cast hcode
    exact hpositive (le_antisymm (by linarith) hfract)
  · rintro (hzero | hbeyond)
    · have hlow : ⌊error * 255 / 2⌋ - 1 < errorCode error := by
        refine Int.lt_ceil.mpr ?_
        have : (errorSlack : ℚ) < 1 := by norm_num [errorSlack]
        push_cast
        linarith
      have hcode : (⌊error * 255 / 2⌋ : ℚ) ≤ errorCode error := by
        exact_mod_cast Int.le_of_sub_one_lt hlow
      linarith
    · have hlow : ⌊error * 255 / 2⌋ < errorCode error := Int.lt_ceil.mpr (by linarith)
      have hcode : (⌊error * 255 / 2⌋ + 1 : ℚ) ≤ errorCode error := by exact_mod_cast hlow
      linarith

/-- What `decode_metadata` returns for the byte of an error. -/
def storedError (quantizer : RecastQuantizer ℚ K) (metadata : Metadata) (error : ℚ) : ℚ :=
  (quantizer.decodeMetadata { metadata with error := quantizeErrorUpper error }).directionError

theorem storedError_eq (quantizer : RecastQuantizer ℚ K) (metadata : Metadata) (h0 : 0 ≤ error)
    (h2 : error ≤ 2) : storedError quantizer metadata error = errorCode error * (2 / 255) := by
  change byteValue (quantizeErrorUpper error) * _ = _
  rw [byteValue_quantizeErrorUpper h0 h2]
  norm_num

/-- The stored error bounds the measured one from above, by one code step at
most and monotonically, exactly when the measured error is not within the slack
above a code. -/
theorem stored_error_conservative_iff (quantizer : RecastQuantizer ℚ K) (metadata : Metadata)
    (h0 : 0 ≤ error) (h2 : error ≤ 2) :
    (error ≤ storedError quantizer metadata error ∧
      storedError quantizer metadata error ≤ error + 2 / 255 ∧
      ∀ error', error ≤ error' → error' ≤ 2 →
        storedError quantizer metadata error ≤ storedError quantizer metadata error') ↔
    (Int.fract (error * 255 / 2) = 0 ∨ errorSlack < Int.fract (error * 255 / 2)) := by
  rw [← le_errorCode_iff, storedError_eq quantizer metadata h0 h2]
  constructor
  · rintro ⟨hcovers, -, -⟩
    linarith
  · intro hcovers
    refine ⟨by linarith, ?_, fun error' hle h2' => ?_⟩
    · have hceil := Int.ceil_lt_add_one (error * 255 / 2 - errorSlack)
      have hslack : (0 : ℚ) < errorSlack := by norm_num [errorSlack]
      change (errorCode error : ℚ) < _ at hceil
      linarith
    · rw [storedError_eq quantizer metadata (h0.trans hle) h2']
      have hmono : (errorCode error : ℚ) ≤ errorCode error' := by
        exact_mod_cast errorCode_mono hle
      linarith

/-- A trained quantizer of two dimensions over the rationals. -/
def rationalQuantizer : RecastQuantizer ℚ ℚ :=
  ⟨⟨2, 2, .uniform, .none, .squaredL2, .none⟩, [0, 0], none,
    .uniform ⟨2, 2, 4, 16, 1, List.replicate 32 0⟩, 0, 1, 0, 1, true⟩

theorem stored_error_conservative_iff_one :
    (1 : ℚ) ≤ storedError rationalQuantizer ⟨0, 0, 0⟩ 1 := by
  have hfract : (errorSlack : ℚ) < Int.fract ((1 : ℚ) * 255 / 2) := by decide +kernel
  exact ((stored_error_conservative_iff rationalQuantizer ⟨0, 0, 0⟩ (by norm_num)
    (by norm_num)).mpr (.inr hfract)).1

/-- An error of half the slack, in code steps, is stored as zero. -/
theorem stored_error_below_measured :
    ¬∀ error : ℚ, 0 ≤ error → error ≤ 2 →
      error ≤ storedError rationalQuantizer ⟨0, 0, 0⟩ error := by
  intro hconservative
  have hstored : storedError rationalQuantizer ⟨0, 0, 0⟩ (1 / 2550000000) = 0 := by decide +kernel
  have := hconservative (1 / 2550000000) (by norm_num) (by norm_num)
  rw [hstored] at this
  norm_num at this

end ErrorByte

end Recast
