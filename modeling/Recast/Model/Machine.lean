import Recast.Model.Quantizer
import Recast.Foundation.Reader

/-!
# Machine numbers

The quantizer over IEEE `float` and `double`, which are Lean's `Float32` and
`Float`, and the bytes of such a number in a model file.
-/

namespace Recast

open Foundation

instance instZeroFloat32 : Zero Float32 := ⟨Float32.ofNat 0⟩
instance instOneFloat32 : One Float32 := ⟨Float32.ofNat 1⟩
instance instNatCastFloat32 : NatCast Float32 := ⟨Float32.ofNat⟩
instance instZeroFloat : Zero Float := ⟨Float.ofNat 0⟩
instance instOneFloat : One Float := ⟨Float.ofNat 1⟩
instance instNatCastFloat : NatCast Float := ⟨Float.ofNat⟩

/-- `kMinNorm` as a `float`. -/
def kMinNorm : Float32 := 1e-12

/-- The machine's functions. -/
def machineNumerics : Numerics Float32 Float where
  sqrt := Float32.sqrt
  kMinNorm := kMinNorm
  isFinite := Float32.isFinite
  widen := Float32.toFloat
  log2 := Float.log2

/-- The four bytes of a `float`. -/
def encodeFloat (value : Float32) : List UInt8 := toLittleEndian 4 value.toBits.toNat

/-- The eight bytes of a `double`. -/
def encodeDouble (value : Float) : List UInt8 := toLittleEndian 8 value.toBits.toNat

end Recast
