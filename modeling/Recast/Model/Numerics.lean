import Recast.Model.Error
import Mathlib.Data.Nat.Cast.Defs

/-!
# Numbers and Faiss

The quantizer computes with `float` (`F` below) and, in the uneven planner,
with `double` (`K`). Training, coding and scanning are the same definitions
over the reals and over machine floats; what the arithmetic does not provide as
an operator is in `Numerics`. What Faiss provides is in `Faiss`.
-/

namespace Recast

/-- The functions on numbers the code calls. -/
structure Numerics (F K : Type) where
  sqrt : F → F
  kMinNorm : F
  isFinite : F → Bool
  widen : F → K
  log2 : K → K

/-- `faiss::LinearTransform`. The matrix is row-major, `dOut` rows of `dIn`. -/
structure LinearTransform (F : Type) where
  dIn : Nat
  dOut : Nat
  isTrained : Bool
  isOrthonormal : Bool
  A : List F
  b : List F

/-- What a Faiss reader of transforms returns: a linear transform or another kind. -/
inductive VectorTransform (F : Type) where
  | linear (transform : LinearTransform F)
  | other

/-- `faiss::ProductQuantizer`. -/
structure ProductQuantizer (F : Type) where
  d : Nat
  M : Nat
  nbits : Nat
  ksub : Nat
  codeSize : Nat
  centroids : List F

/-- The part of Faiss the quantizer uses. Training works on an object and may
throw with the object changed. -/
structure Faiss (F : Type) where
  normL2Sqr : List F → F
  innerProduct : List F → List F → F
  /-- `PCAMatrix(d, d, 0, false)` with `balanced_bins`, trained on the rows. -/
  trainPca : Nat → Nat → List (List F) → LinearTransform F × Option ModelError
  apply : LinearTransform F → List F → List F
  transformTranspose : LinearTransform F → List F → List F
  /-- The constructor `ProductQuantizer(d, M, nbits)`. -/
  createPq : Nat → Nat → Nat → Except ModelError (ProductQuantizer F)
  trainPq : ProductQuantizer F → List (List F) → ProductQuantizer F × Option ModelError
  computeCode : ProductQuantizer F → List F → List UInt8
  decode : ProductQuantizer F → List UInt8 → List F
  innerProdTable : ProductQuantizer F → List F → List F

end Recast
