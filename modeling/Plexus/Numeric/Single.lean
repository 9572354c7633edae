import Plexus.Numeric.Scalar
import Plexus.Numeric.LowRank

/-!
# Single precision

The scalars that networks run on: single-precision numbers, with rounding to the two
narrower storage formats and conversion from and to doubles.  All roundings go to the
nearest number of the format, ties to even.
-/

namespace Plexus
namespace Single

open Float.Model (Format UnpackedFloat)

/-- A number rounded to a binary format; what is not finite stays as it is. -/
def fit (format : Format) : UnpackedFloat → UnpackedFloat
  | .finite sign mantissa exponent _ => UnpackedFloat.round format sign mantissa exponent
  | x => x

/-- The single-precision number nearest to a double. -/
def narrow (x : Float) : Float32 := .ofModel (.pack (fit .binary32 x.toModel.unpack))

/-- A single-precision number as a double, which loses nothing. -/
def widen (x : Float32) : Float := .ofModel (.pack (fit .binary64 x.toModel.unpack))

/-- Rounds a bit pattern to a multiple of `2 ^ dropped`, ties to even. -/
def roundBits (dropped bits : Nat) : Nat :=
  let unit := 2 ^ dropped
  let odd := bits / unit % 2
  (bits + (unit / 2 - 1) + odd) / unit * unit

/-- Rounds to the upper half of single precision. -/
def brain (x : Float32) : Float32 :=
  if x.isNaN then x
  else
    let bits := x.toBits.toNat
    let sign := bits / 2 ^ 31
    Float32.ofBits (UInt32.ofNat (sign * 2 ^ 31 + roundBits 16 (bits % 2 ^ 31)))

/-- The bits of the least single-precision number with the exponent range of half precision. -/
def halfNormalBits : Nat := 0x38800000

/-- The bits of the first power of two beyond half precision. -/
def halfLimitBits : Nat := 0x47800000

/--
Rounds to half precision.  Below the least normal number of the format its numbers are
the multiples of `2 ^ -24`, which is the spacing of single-precision numbers at one half;
so adding one half and taking it off again rounds as the format does.
-/
def half (x : Float32) : Float32 :=
  if x.isNaN then x
  else
    let bits := x.toBits.toNat
    let sign := bits / 2 ^ 31
    let size := bits % 2 ^ 31
    let rounded :=
      if halfNormalBits ≤ size then
        let r := roundBits 13 size
        if halfLimitBits ≤ r then 0x7f800000 else r
      else (Float32.ofBits (UInt32.ofNat size) + 0.5 - 0.5).toBits.toNat
    Float32.ofBits (UInt32.ofNat (sign * 2 ^ 31 + rounded))

/-- The activation functions. -/
def activate : Activation → Float32 → Float32
  | .tanh, x => x.tanh
  | .relu, x => if x.isNaN then x else if x > 0.0 then x else 0.0
  | .sigmoid, x => 1.0 / (1.0 + (-x).exp)
  | .linear, x => x

/-- The derivatives of the activation functions, in terms of the function's value. -/
def slope : Activation → Float32 → Float32
  | .tanh, y => 1.0 - y * y
  | .relu, y => if y > 0.0 then 1.0 else 0.0
  | .sigmoid, y => y * (1.0 - y)
  | .linear, _ => 1.0

/-- The best approximation of a rank, found in double precision. -/
def principal (rows cols rank : Nat) (m : Array Float32) : Array Float32 :=
  (LowRank.principal rows cols rank (m.map widen)).map narrow

end Single

instance : Scalar Float32 where
  zero := 0.0
  one := 1.0
  add := (· + ·)
  sub := (· - ·)
  mul := (· * ·)
  div := (· / ·)
  sqrt := Float32.sqrt
  same x y := x == y
  less x y := x < y
  ofNat n := Single.narrow (Float.ofNat n)
  ofFloat := Single.narrow
  toFloat := Single.widen
  half := Single.half
  brain := Single.brain
  activate := Single.activate
  slope := Single.slope
  principal := Single.principal

end Plexus
