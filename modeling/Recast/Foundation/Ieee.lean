import Recast.Foundation.FloatBits
import Mathlib.Algebra.Order.Field.Basic
import Mathlib.Data.Prod.Lex
import Mathlib.Order.WithBot

/-!
# Floating-point comparisons

Algorithms on floating-point values are written over an interface of their
comparisons and operations. Two instances: the machine's binary32, and exact
numbers extended with the IEEE infinities and NaN. On values other than NaN both
compare as a linear order.
-/

namespace Foundation

/-- The operations of a floating-point type. -/
class Ieee (E : Type) where
  lt : E → E → Bool
  le : E → E → Bool
  beq : E → E → Bool
  add : E → E → E
  sub : E → E → E
  mul : E → E → E
  zero : E
  infinity : E
  negInfinity : E
  isInf : E → Bool
  isNaN : E → Bool

/-- The comparisons of the valid values are those of their keys. -/
structure Ieee.OrderedBy {E K : Type} [Ieee E] [LinearOrder K] (key : E → K) (valid : E → Prop) :
    Prop where
  lt_iff : ∀ {x y}, valid x → valid y → (Ieee.lt x y = true ↔ key x < key y)
  beq_iff : ∀ {x y}, valid x → valid y → (Ieee.beq x y = true ↔ key x = key y)
  le_iff : ∀ {x y}, valid x → valid y → (Ieee.le x y = true ↔ key x ≤ key y)

/-- The valid values are the numbers, and the infinities are among them. -/
structure Ieee.Numbers {E K : Type} [Ieee E] [LinearOrder K] (key : E → K) (valid : E → Prop) : Prop
    extends Ieee.OrderedBy key valid where
  of_isNaN : ∀ {x : E}, Ieee.isNaN x = false → valid x
  infinity : valid Ieee.infinity
  negInfinity : valid Ieee.negInfinity

/-! ## Machine floats -/

instance : Ieee Float32 where
  lt x y := x < y
  le x y := x ≤ y
  beq x y := x == y
  add x y := x + y
  sub x y := x - y
  mul x y := x * y
  zero := Float32.ofNat 0
  infinity := Float32.ofNat 1 / Float32.ofNat 0
  negInfinity := -(Float32.ofNat 1 / Float32.ofNat 0)
  isInf x := x.isInf
  isNaN x := x.isNaN

open Float.Model in
/-- The place of a number in the order of all numbers: by its kind, and for
finite ones by exponent and mantissa. Both zeros have one place. -/
def floatKey : UnpackedFloat → ℤ ×ₗ ℤ ×ₗ ℤ
  | .notANumber => toLex (0, toLex (0, 0))
  | .zero _ => toLex (0, toLex (0, 0))
  | .infinity .negative => toLex (-2, toLex (0, 0))
  | .infinity .positive => toLex (2, toLex (0, 0))
  | .finite .negative m e _ => toLex (-1, toLex (-e, -(m : ℤ)))
  | .finite .positive m e _ => toLex (1, toLex (e, (m : ℤ)))

theorem compare_natCast (m n : ℕ) : compare (m : ℤ) (n : ℤ) = compare m n := by
  simp only [compare, compareOfLessAndEq, Int.ofNat_lt, Int.ofNat_inj]

theorem compare_neg (a b : ℤ) : compare (-a) (-b) = (compare a b).swap := by
  rw [← Std.OrientedOrd.eq_swap]
  simp only [compare, compareOfLessAndEq, neg_lt_neg_iff, neg_inj, eq_comm]

open Float.Model in
/-- Numbers compare as their places. -/
theorem floatKey_compare {u v : UnpackedFloat} (hu : u ≠ .notANumber) (hv : v ≠ .notANumber) :
    UnpackedFloat.compare u v = some (compare (floatKey u) (floatKey v)) := by
  cases u with
  | notANumber => exact absurd rfl hu
  | infinity s =>
      cases v with
      | notANumber => exact absurd rfl hv
      | infinity s' => cases s <;> cases s' <;> rfl
      | zero s' => cases s <;> rfl
      | finite s' m' e' h' => cases s <;> cases s' <;> rfl
  | zero s =>
      cases v with
      | notANumber => exact absurd rfl hv
      | infinity s' => cases s' <;> rfl
      | zero s' => rfl
      | finite s' m' e' h' => cases s' <;> rfl
  | finite s m e h =>
      cases v with
      | notANumber => exact absurd rfl hv
      | infinity s' => cases s <;> cases s' <;> rfl
      | zero s' => cases s <;> rfl
      | finite s' m' e' h' =>
          cases s with
          | negative =>
              cases s' with
              | positive => rfl
              | negative =>
                  change _ = some ((compare (-e) (-e')).then (compare (-(m : ℤ)) (-(m' : ℤ))))
                  rw [compare_neg, compare_neg, compare_natCast, ← Ordering.swap_then]
                  rfl
          | positive =>
              cases s' with
              | negative => rfl
              | positive =>
                  change _ = some ((compare e e').then (compare (m : ℤ) (m' : ℤ)))
                  rw [compare_natCast]
                  rfl

theorem float32_not_nan {x : Float32} (h : x.isNaN = false) :
    x.toModel.unpack ≠ .notANumber := by
  intro hnan
  have hx : x.isNaN = x.toModel.unpack.isNaN := rfl
  rw [hx, hnan] at h
  exact Bool.noConfusion h

/-- The machine's comparisons of numbers are those of their places. -/
theorem float32_orderedBy :
    Ieee.OrderedBy (fun x : Float32 => floatKey x.toModel.unpack) fun x => x.isNaN = false where
  lt_iff {x y} hx hy := by
    have hcompare := floatKey_compare (float32_not_nan hx) (float32_not_nan hy)
    change decide (x < y) = true ↔ _
    rw [decide_eq_true_eq, float32_lt_iff, Float.Model.UnpackedFloat.lt, hcompare]
    simp [compare_lt_iff_lt]
  beq_iff {x y} hx hy := by
    have hcompare := floatKey_compare (float32_not_nan hx) (float32_not_nan hy)
    change (x == y) = true ↔ _
    rw [float32_beq_eq, Float.Model.UnpackedFloat.beq, hcompare]
    simp [compare_eq_iff_eq]
  le_iff {x y} hx hy := by
    have hcompare := floatKey_compare (float32_not_nan hx) (float32_not_nan hy)
    change decide (x ≤ y) = true ↔ _
    rw [decide_eq_true_eq, float32_le_iff, Float.Model.UnpackedFloat.le, hcompare,
      Option.any_some, Ordering.isLE_iff_ne_gt]
    exact compare_le_iff_le

theorem float32_numbers :
    Ieee.Numbers (fun x : Float32 => floatKey x.toModel.unpack) fun x => x.isNaN = false where
  toOrderedBy := float32_orderedBy
  of_isNaN := fun h => h
  infinity := by decide +kernel
  negInfinity := by decide +kernel

/-! ## Exact numbers -/

/-- Exact numbers with the IEEE infinities and NaN. -/
inductive Extended (F : Type) where
  | nan
  | negInfinity
  | finite (value : F)
  | infinity
  deriving DecidableEq

namespace Extended

variable {F : Type} [Field F] [LinearOrder F]

def lt : Extended F → Extended F → Bool
  | nan, _ => false
  | _, nan => false
  | _, negInfinity => false
  | negInfinity, _ => true
  | infinity, _ => false
  | finite _, infinity => true
  | finite x, finite y => decide (x < y)

def beq : Extended F → Extended F → Bool
  | nan, _ => false
  | x, y => decide (x = y)

def neg : Extended F → Extended F
  | nan => nan
  | negInfinity => infinity
  | finite x => finite (-x)
  | infinity => negInfinity

def add : Extended F → Extended F → Extended F
  | nan, _ => nan
  | _, nan => nan
  | negInfinity, infinity => nan
  | infinity, negInfinity => nan
  | negInfinity, _ => negInfinity
  | _, negInfinity => negInfinity
  | infinity, _ => infinity
  | _, infinity => infinity
  | finite x, finite y => finite (x + y)

/-- An infinity times a finite number. -/
def scaleInfinity (value : F) : Extended F :=
  if value = 0 then nan else if 0 < value then infinity else negInfinity

def mul : Extended F → Extended F → Extended F
  | nan, _ => nan
  | _, nan => nan
  | infinity, infinity => infinity
  | negInfinity, negInfinity => infinity
  | infinity, negInfinity => negInfinity
  | negInfinity, infinity => negInfinity
  | infinity, finite y => scaleInfinity y
  | finite x, infinity => scaleInfinity x
  | negInfinity, finite y => neg (scaleInfinity y)
  | finite x, negInfinity => neg (scaleInfinity x)
  | finite x, finite y => finite (x * y)

instance : Ieee (Extended F) where
  lt := lt
  le x y := lt x y || beq x y
  beq := beq
  add := add
  sub x y := add x (neg y)
  mul := mul
  zero := finite 0
  infinity := infinity
  negInfinity := negInfinity
  isInf x := x = infinity ∨ x = negInfinity
  isNaN x := x = nan

/-- The place of a number other than NaN. -/
def key : Extended F → WithBot (WithTop F)
  | nan => ⊥
  | negInfinity => ⊥
  | finite x => ((x : WithTop F) : WithBot (WithTop F))
  | infinity => ((⊤ : WithTop F) : WithBot (WithTop F))

omit [Field F] in
theorem key_injective {x y : Extended F} (hx : x ≠ nan) (hy : y ≠ nan) :
    x.key = y.key ↔ x = y := by
  cases x <;> cases y <;> simp_all [key]

/-- Numbers other than NaN compare as their places. -/
theorem orderedBy : Ieee.OrderedBy (key : Extended F → WithBot (WithTop F)) (· ≠ nan) := by
  have hlt {x y : Extended F} (hx : x ≠ nan) (hy : y ≠ nan) :
      lt x y = true ↔ x.key < y.key := by
    have hbelow (value : F) : ((value : WithTop F) : WithBot (WithTop F)) <
        ((⊤ : WithTop F) : WithBot (WithTop F)) := WithBot.coe_lt_coe.mpr (WithTop.coe_lt_top value)
    cases x <;> cases y <;> simp_all [key, lt]
  have hbeq {x y : Extended F} (hx : x ≠ nan) (hy : y ≠ nan) :
      beq x y = true ↔ x.key = y.key := by
    rw [key_injective hx hy]
    cases x <;> cases y <;> simp_all [beq]
  refine ⟨hlt, hbeq, fun {x y} hx hy => ?_⟩
  change (lt x y || beq x y) = true ↔ _
  rw [Bool.or_eq_true, hlt hx hy, hbeq hx hy, le_iff_lt_or_eq]

end Extended

end Foundation
