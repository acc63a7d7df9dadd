import Recast.Model.Trained
import Recast.Model.Persistence
import Recast.Foundation.FloatBits

/-!
# The metadata ranges

What `load` requires of a range is what training produces, on machine floats: a
nonzero norm is above `kMinNorm` and a reconstruction is not huge, so no step
rounds to zero.
-/

namespace Recast

open Foundation Float.Model

/-- Not a number, zero, or at least `2 ^ k`. -/
inductive Sized (k : Int) : UnpackedFloat → Prop where
  | nan : Sized k .notANumber
  | zero (s : UnpackedFloat.Sign) : Sized k (.zero s)
  | large {u : UnpackedFloat} (h : AtLeast k u) : Sized k u

/-- Zero, or at least `2 ^ k`. -/
inductive Ranged (k : Int) : UnpackedFloat → Prop where
  | zero (s : UnpackedFloat.Sign) : Ranged k (.zero s)
  | large {u : UnpackedFloat} (h : AtLeast k u) : Ranged k u

/-- A positive number below `2 ^ (k + 1)`. -/
def AtMost (k : Int) (u : UnpackedFloat) : Prop :=
  ∃ m e h, u = .finite .positive m e h ∧ (m.log2 : Int) + e ≤ k

theorem Ranged.not_lt_zero {k : Int} {x : Float32} (h : Ranged k x.toModel.unpack) : ¬x < 0 := by
  rw [float32_lt_iff, float32_unpack_zero]
  generalize x.toModel.unpack = u at h
  cases h with
  | zero s => exact Bool.false_ne_true
  | large h =>
      rcases h with rfl | ⟨m, e, hpos, rfl, -⟩
      · exact Bool.false_ne_true
      · exact Bool.false_ne_true

theorem not_le_zero_of_atLeast {k : Int} {x : Float32} (h : AtLeast k x.toModel.unpack) :
    ¬x ≤ 0 := by
  rw [float32_le_iff, float32_unpack_zero]
  generalize x.toModel.unpack = u at h
  rcases h with rfl | ⟨m, e, hpos, rfl, -⟩
  · exact Bool.false_ne_true
  · exact Bool.false_ne_true

/-- The larger of a range and a sized number is in the range. -/
theorem Ranged.maxOf {k : Int} {x y : Float32} (hx : Ranged k x.toModel.unpack)
    (hy : Sized k y.toModel.unpack) : Ranged k (maxOf x y).toModel.unpack := by
  rw [Recast.maxOf]
  split
  next hlt =>
    rw [float32_lt_iff] at hlt
    generalize x.toModel.unpack = u at hx hlt
    generalize y.toModel.unpack = v at hy hlt
    cases hy with
    | nan =>
        have hnan : UnpackedFloat.lt u .notANumber = false := by
          unfold UnpackedFloat.lt UnpackedFloat.compare
          cases u <;> rfl
        rw [hnan] at hlt
        exact (Bool.false_ne_true hlt).elim
    | zero s => exact .zero s
    | large h => exact .large h
  next => exact hx

/-- The numbers of a fold of maxima. -/
theorem Ranged.foldl {k : Int} {start : Float32} (hstart : Ranged k start.toModel.unpack)
    {values : List Float32} (hvalues : ∀ value ∈ values, Sized k value.toModel.unpack) :
    Ranged k (values.foldl Recast.maxOf start).toModel.unpack := by
  induction values generalizing start with
  | nil => exact hstart
  | cons value values ih =>
      obtain ⟨hvalue, hrest⟩ := List.forall_mem_cons.mp hvalues
      exact ih (hstart.maxOf hvalue) hrest

/-- What is stored can be read back, up to an overflow to infinity. -/
theorem atLeast_unpack_pack {k : Int} {m : Nat} {e : Int} (h : 0 < m) (hcanonical : IsCanonical m e)
    (hk : k ≤ (m.log2 : Int) + e) : AtLeast k (UnpackedFloat.unpack Format.binary32
      (UnpackedFloat.pack Format.binary32 (.finite .positive m e h))) := by
  rcases unpack_pack_binary32 h hcanonical with hinf | ⟨h', hfinite⟩
  · exact Or.inl hinf
  · exact Or.inr ⟨m, e, h', hfinite, hk⟩

theorem unpack_pack_notANumber : UnpackedFloat.unpack Format.binary32
    (UnpackedFloat.pack Format.binary32 .notANumber) = .notANumber := rfl

theorem unpack_pack_infinity : UnpackedFloat.unpack Format.binary32
    (UnpackedFloat.pack Format.binary32 (.infinity .positive)) = .infinity .positive := rfl

theorem unpack_pack_zero (s : UnpackedFloat.Sign) : UnpackedFloat.unpack Format.binary32
    (UnpackedFloat.pack Format.binary32 (.zero s)) = .zero s := by
  cases s <;> rfl

/-- A quotient by a number that is not huge. -/
theorem atLeast_div {k b : Int} (hlarge : -149 ≤ k - b - 1) {x y : Float32}
    (hx : AtLeast k x.toModel.unpack) (hy : AtMost b y.toModel.unpack) :
    AtLeast (k - b - 1) (x / y).toModel.unpack := by
  rw [float32_unpack_div]
  generalize x.toModel.unpack = u at hx
  obtain ⟨m, e, h, hm, hle⟩ := hy
  rw [hm]
  rcases hx with rfl | ⟨m', e', h', rfl, hk⟩
  · exact Or.inl unpack_pack_infinity
  · obtain ⟨m'', e'', h'', hdiv, hcanonical, hle'⟩ := @div_binary32 m' m e' e h' h (by omega)
    rw [hdiv]
    exact atLeast_unpack_pack h'' hcanonical (by omega)

theorem sized_div {k b : Int} (hlarge : -149 ≤ k - b - 1) {x y : Float32}
    (hx : Sized k x.toModel.unpack) (hy : AtMost b y.toModel.unpack) :
    Sized (k - b - 1) (x / y).toModel.unpack := by
  generalize hu : x.toModel.unpack = u at hx
  cases hx with
  | nan =>
      obtain ⟨m, e, h, hm, -⟩ := hy
      have hnan : (x / y).toModel.unpack = .notANumber := by
        rw [float32_unpack_div, hu, hm]
        exact unpack_pack_notANumber
      exact hnan ▸ .nan
  | zero s =>
      obtain ⟨m, e, h, hm, -⟩ := hy
      have hzero : (x / y).toModel.unpack = .zero (s / .positive) := by
        rw [float32_unpack_div, hu, hm]
        exact unpack_pack_zero _
      exact hzero ▸ .zero _
  | large h => exact .large (atLeast_div hlarge (hu ▸ h) hy)

/-! ## The thresholds -/

theorem unpack_kMinNorm :
    ∃ h, kMinNorm.toModel.unpack = .finite .positive 9223372 (-63) h := ⟨by decide, rfl⟩

/-- `2 ^ 100`, a length no reconstruction of unit directions comes near. -/
def kHugeNorm : Float32 := Float32.ofBits 0x71800000

theorem unpack_kHugeNorm :
    ∃ h, kHugeNorm.toModel.unpack = .finite .positive (2 ^ 23) 77 h := ⟨by decide, rfl⟩

theorem atMost_254 : AtMost 7 (((254 : Nat) : Float32)).toModel.unpack :=
  ⟨16646144, -16, by decide, rfl, by decide⟩

theorem atLeast_one : AtLeast 0 ((1 : Float32)).toModel.unpack :=
  Or.inr ⟨2 ^ 23, -23, by decide, rfl, by decide⟩

/-- Above `kMinNorm` a number is at least `2 ^ (-40)`. -/
theorem atLeast_of_kMinNorm_lt {x : Float32} (h : kMinNorm < x) :
    AtLeast (-40) x.toModel.unpack := by
  obtain ⟨hpos, hmin⟩ := unpack_kMinNorm
  have hcanonical := @unpack_canonical x.toModel.toBits.toBitVec
  rw [float32_lt_iff, hmin] at h
  change ∀ {sign m e h}, x.toModel.unpack = .finite sign m e h → IsCanonical m e at hcanonical
  generalize x.toModel.unpack = u at h hcanonical
  cases u with
  | notANumber => exact (Bool.false_ne_true h).elim
  | infinity s =>
      cases s with
      | positive => exact Or.inl rfl
      | negative => exact (Bool.false_ne_true h).elim
  | zero s => exact (Bool.false_ne_true h).elim
  | finite s m e hm =>
      cases s with
      | negative => exact (Bool.false_ne_true h).elim
      | positive =>
          obtain ⟨-, hform⟩ := hcanonical rfl
          have hlt : (-63 : Int) < e ∨ (-63 : Int) = e ∧ 9223372 < m := by
            simpa [UnpackedFloat.lt, UnpackedFloat.compare, Ordering.then_eq_lt,
              Std.compare_eq_lt] using h
          refine Or.inr ⟨m, e, hm, rfl, ?_⟩
          rcases hlt with hlt | ⟨rfl, hlt⟩
          · omega
          · have hlog : 23 ≤ m.log2 := (Nat.le_log2 (by omega)).mpr (by omega)
            omega

/-- A number that is not above `kMinNorm` is at most it, unless it is not a number. -/
theorem sized_of_not_le_kMinNorm {x : Float32} (h : ¬x ≤ kMinNorm) :
    Sized (-40) x.toModel.unpack := by
  by_cases hlt : kMinNorm < x
  · exact .large (atLeast_of_kMinNorm_lt hlt)
  · obtain ⟨hpos, hmin⟩ := unpack_kMinNorm
    rw [float32_le_iff, hmin] at h
    rw [float32_lt_iff, hmin] at hlt
    generalize x.toModel.unpack = u at h hlt
    cases u with
    | notANumber => exact .nan
    | infinity s =>
        cases s with
        | positive => exact (hlt rfl).elim
        | negative => exact (h rfl).elim
    | zero s => exact .zero s
    | finite s m e hm =>
        cases s with
        | negative => exact (h rfl).elim
        | positive =>
            refine absurd ?_ h
            have hle : ¬((-63 : Int) < e ∨ (-63 : Int) = e ∧ 9223372 < m) := by
              simpa [UnpackedFloat.lt, UnpackedFloat.compare, Ordering.then_eq_lt,
                Std.compare_eq_lt] using hlt
            have hcases : e < (-63 : Int) ∨ e = (-63 : Int) ∧ m ≤ 9223372 := by omega
            simpa [UnpackedFloat.le, UnpackedFloat.compare, Ordering.isLE_then_iff_or,
              Std.compare_eq_lt, Nat.isLE_compare] using hcases

/-- Between the thresholds. -/
theorem atMost_of_le_kHugeNorm {x : Float32} (hlow : kMinNorm < x) (hhigh : ¬kHugeNorm < x) :
    AtMost 100 x.toModel.unpack := by
  obtain ⟨hpos, hhuge⟩ := unpack_kHugeNorm
  have hlarge := atLeast_of_kMinNorm_lt hlow
  have hcanonical := @unpack_canonical x.toModel.toBits.toBitVec
  rw [float32_lt_iff, hhuge] at hhigh
  change ∀ {sign m e h}, x.toModel.unpack = .finite sign m e h → IsCanonical m e at hcanonical
  generalize x.toModel.unpack = u at hlarge hhigh hcanonical
  rcases hlarge with rfl | ⟨m, e, hm, rfl, -⟩
  · exact (hhigh rfl).elim
  · obtain ⟨-, hform⟩ := hcanonical rfl
    have hle : ¬((77 : Int) < e ∨ (77 : Int) = e ∧ 2 ^ 23 < m) := by
      simpa [UnpackedFloat.lt, UnpackedFloat.compare, Ordering.then_eq_lt,
        Std.compare_eq_lt] using hhigh
    exact ⟨m, e, hm, rfl, by omega⟩

/-! ## What training stores -/

theorem AtLeast_mono {k k' : Int} (hle : k' ≤ k) {u : UnpackedFloat} (h : AtLeast k u) :
    AtLeast k' u :=
  h.imp_right fun ⟨m, e, hm, hu, hk⟩ => ⟨m, e, hm, hu, hle.trans hk⟩

theorem Sized.mono {k k' : Int} (hle : k' ≤ k) {u : UnpackedFloat} (h : Sized k u) :
    Sized k' u := by
  cases h with
  | nan => exact .nan
  | zero s => exact .zero s
  | large h => exact .large (AtLeast_mono hle h)

theorem sized_norm (faiss : Faiss Float32) (vector : List Float32) :
    Sized (-40) (normalize machineNumerics faiss vector).2.toModel.unpack := by
  have hzero : Sized (-40) ((0 : Float32)).toModel.unpack := .zero .positive
  rw [normalize]
  split
  next => exact hzero
  next hlarge => exact sized_of_not_le_kMinNorm hlarge

theorem ranged_largestNorm (faiss : Faiss Float32) (vectors : List (List Float32)) :
    Ranged (-40) (largestNorm (vectors.map fun vector =>
      (normalize machineNumerics faiss vector).2)).toModel.unpack := by
  have hstart : Ranged (-40) (0 : Float32).toModel.unpack := .zero .positive
  refine hstart.foldl fun value hvalue => ?_
  obtain ⟨vector, -, rfl⟩ := List.mem_map.mp hvalue
  exact sized_norm faiss vector

theorem sized_scale {metric : DistanceMetric} {norm reconstruction scale : Float32}
    (hnorm : Sized (-40) norm.toModel.unpack) (hbounded : ¬kHugeNorm < reconstruction)
    (h : scaleOf machineNumerics metric norm reconstruction = some scale) :
    Sized (-141) scale.toModel.unpack := by
  rw [scaleOf] at h
  split at h
  next hlarge =>
    have hmost := atMost_of_le_kHugeNorm hlarge.1 hbounded
    obtain rfl := Option.some.inj h
    split
    next =>
      have hone : Sized 0 ((1 : Float32)).toModel.unpack := .large atLeast_one
      exact (sized_div (by decide) hone hmost).mono (by decide)
    next => exact (sized_div (by decide) hnorm hmost).mono (by decide)
  next => simp at h

/-- The largest scale, when no reconstruction is huge. -/
theorem ranged_largestScale {faiss : Faiss Float32} (metric : DistanceMetric)
    {direction : DirectionQuantizer Float32 Float}
    (hbounded : ∀ row, ¬kHugeNorm < reconstructionNorm machineNumerics faiss direction row)
    {norms : List Float32} (hnorms : ∀ norm ∈ norms, Sized (-40) norm.toModel.unpack)
    (transformed : List (List Float32)) :
    Ranged (-141)
      (largestScale machineNumerics faiss metric direction norms transformed).toModel.unpack := by
  have hpairs : ∀ pair ∈ norms.zip transformed, Sized (-40) pair.1.toModel.unpack :=
    fun pair hpair => hnorms pair.1 (List.of_mem_zip hpair).1
  have hstart : Ranged (-141) (0 : Float32).toModel.unpack := .zero .positive
  unfold largestScale
  generalize norms.zip transformed = pairs at hpairs
  generalize (0 : Float32) = start at hstart
  induction pairs generalizing start with
  | nil => exact hstart
  | cons pair pairs ih =>
      obtain ⟨hpair, hrest⟩ := List.forall_mem_cons.mp hpairs
      rw [List.foldl_cons]
      refine ih hrest _ ?_
      split
      next scale hscale => exact hstart.maxOf (sized_scale hpair (hbounded pair.2) hscale)
      next => exact hstart

/-- No step of a range is zero or negative. -/
theorem stepOf_pos {k : Int} (hk : -149 ≤ k - 7 - 1) {maximum : Float32}
    (h : Ranged k maximum.toModel.unpack) : ¬stepOf maximum ≤ 0 := by
  rw [stepOf]
  split
  next hpos =>
    rw [float32_lt_iff, float32_unpack_zero] at hpos
    generalize hu : maximum.toModel.unpack = u at h hpos
    cases h with
    | zero s => exact (Bool.false_ne_true hpos).elim
    | large h => exact not_le_zero_of_atLeast (atLeast_div hk (hu ▸ h) atMost_254)
  next => exact not_le_zero_of_atLeast atLeast_one

theorem validRange_stepOf {k : Int} (hk : -149 ≤ k - 7 - 1) {maximum : Float32}
    (h : Ranged k maximum.toModel.unpack) (hfinite : maximum.isFinite = true)
    (hstep : (stepOf maximum).isFinite = true) : validRange maximum (stepOf maximum) = true := by
  simp [validRange, hfinite, hstep, h.not_lt_zero, stepOf_pos hk h]

end Recast
