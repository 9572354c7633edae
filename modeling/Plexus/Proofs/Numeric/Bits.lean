import Plexus.Proofs.Numeric.Conversion

/-!
# The bits of numbers in single precision

The bits of a number are a sign bit and the bits of its size.  The sizes of numbers up to
infinity are counted by their bits from zero on; what lies beyond is no number.
-/

namespace Plexus
namespace Single

open Float.Model (Format UnpackedFloat)
open Float.Model.UnpackedFloat

/-- The bits of infinity.  Beyond them there are no numbers. -/
def infinityBits : Nat := 0x7f800000

theorem toNat_unpackExponent (v : BitVec Format.binary32.numBits) :
    (unpackExponent v).toNat = v.toNat / 2 ^ 23 % 2 ^ 8 := by
  rw [unpackExponent_def, BitVec.extractLsb'_toNat, Nat.shiftRight_eq_div_pow]

theorem toNat_unpackMantissa (v : BitVec Format.binary32.numBits) :
    (unpackMantissa v).toNat = v.toNat % 2 ^ 23 := by
  rw [unpackMantissa_def, BitVec.extractLsb'_toNat, Nat.shiftRight_zero]

theorem toNat_unpackSign (v : BitVec Format.binary32.numBits) :
    (unpackSign v).toNat = v.toNat / 2 ^ 31 % 2 := by
  rw [unpackSign_def, BitVec.extractLsb'_toNat, Nat.shiftRight_eq_div_pow]
  rfl

theorem exponent_all_ones_iff (n : Nat) :
    n / 2 ^ 23 % 2 ^ 8 + 1 = 2 ^ 8 ∧ ¬n % 2 ^ 23 = 0 ↔ infinityBits < n % 2 ^ 31 := by
  unfold infinityBits
  omega

theorem isNaNBits_iff (v : BitVec Format.binary32.numBits) :
    isNaNBits v = true ↔ infinityBits < v.toNat % 2 ^ 31 := by
  rw [isNaNBits, decide_eq_true_iff, ne_eq, eq_neg_one_iff, eq_zero_iff, toNat_unpackExponent,
    toNat_unpackMantissa]
  exact exponent_all_ones_iff _

theorem isNaN_iff_bits (x : Float32) :
    x.isNaN = true ↔ infinityBits < x.toBits.toNat % 2 ^ 31 := by
  have hvalid := x.toModel.valid
  have hnan := isNaN_unpack_iff_of_valid hvalid (by decide)
  refine Iff.trans hnan (Iff.trans ?_ (isNaNBits_iff x.toBits.toBitVec))
  constructor
  · intro h
    have hbits : x.toBits.toBitVec = packedNaN .binary32 := h
    rw [hbits]
    exact isNaNBits_packedNaN
  · intro h
    rw [isNaNBits, decide_eq_true_iff] at h
    exact hvalid.eq_packedNaN h.1 h.2

theorem toNat_toBits_ofBits {b : UInt32} (h : b.toNat % 2 ^ 31 ≤ infinityBits) :
    (Float32.ofBits b).toBits.toNat = b.toNat := by
  have hnumber : @isNaNBits .binary32 b.toBitVec = false := by
    rw [← Bool.not_eq_true, isNaNBits_iff]
    exact Nat.not_lt.mpr h
  have hpack := @pack_unpack .binary32 b.toBitVec (by decide)
  rw [hnumber, if_neg Bool.false_ne_true] at hpack
  exact congrArg BitVec.toNat hpack

/-!
## Signs and sizes
-/

/-- The sign bit of a number. -/
def signBit (x : Float32) : Nat := x.toBits.toNat / 2 ^ 31

/-- The bits of a number without its sign. -/
def sizeBits (x : Float32) : Nat := x.toBits.toNat % 2 ^ 31

theorem signBit_lt (x : Float32) : signBit x < 2 := by
  have h : x.toBits.toNat < 2 ^ 32 := x.toBits.toNat_lt
  unfold signBit
  omega

theorem sizeBits_le {x : Float32} (h : x.isNaN = false) : sizeBits x ≤ infinityBits := by
  rw [← Nat.not_lt, sizeBits, ← isNaN_iff_bits, h]
  exact Bool.false_ne_true

/-- The number with a sign bit and the bits of a size. -/
def signed (sign size : Nat) : Float32 := Float32.ofBits (UInt32.ofNat (sign * 2 ^ 31 + size))

theorem toNat_ofNat_signed {sign size : Nat} (hsign : sign < 2) (hsize : size ≤ infinityBits) :
    (UInt32.ofNat (sign * 2 ^ 31 + size)).toNat = sign * 2 ^ 31 + size := by
  unfold infinityBits at hsize
  rw [UInt32.toNat_ofNat', Nat.mod_eq_of_lt (by omega)]

theorem toNat_toBits_signed {sign size : Nat} (hsign : sign < 2) (hsize : size ≤ infinityBits) :
    (signed sign size).toBits.toNat = sign * 2 ^ 31 + size := by
  have hbits := toNat_ofNat_signed hsign hsize
  rw [signed, toNat_toBits_ofBits, hbits]
  rw [hbits]
  unfold infinityBits at hsize ⊢
  omega

theorem signBit_signed {sign size : Nat} (hsign : sign < 2) (hsize : size ≤ infinityBits) :
    signBit (signed sign size) = sign := by
  rw [signBit, toNat_toBits_signed hsign hsize]
  unfold infinityBits at hsize
  omega

theorem sizeBits_signed {sign size : Nat} (hsign : sign < 2) (hsize : size ≤ infinityBits) :
    sizeBits (signed sign size) = size := by
  rw [sizeBits, toNat_toBits_signed hsign hsize]
  unfold infinityBits at hsize
  omega

theorem isNaN_signed {sign size : Nat} (hsign : sign < 2) (hsize : size ≤ infinityBits) :
    (signed sign size).isNaN = false := by
  rw [← Bool.not_eq_true, isNaN_iff_bits]
  exact Nat.not_lt.mpr ((sizeBits_signed hsign hsize).le.trans hsize)

/-!
## Unpacked numbers
-/

theorem unpack_ofBits (b : UInt32) :
    (Float32.ofBits b).toModel.unpack = unpack .binary32 b.toBitVec :=
  unpack_pack (held_unpack (by decide) _)

theorem unpack_add {x y : Float32}
    (h : Held .binary32 (add .binary32 x.toModel.unpack y.toModel.unpack)) :
    (x + y).toModel.unpack = add .binary32 x.toModel.unpack y.toModel.unpack :=
  unpack_pack h

theorem unpack_sub {x y : Float32}
    (h : Held .binary32 (sub .binary32 x.toModel.unpack y.toModel.unpack)) :
    (x - y).toModel.unpack = sub .binary32 x.toModel.unpack y.toModel.unpack :=
  unpack_pack h

theorem eq_of_unpack_eq {x y : Float32} (h : x.toModel.unpack = y.toModel.unpack) : x = y := by
  have hbits := (unpack_inj_of_valid x.toModel.valid y.toModel.valid (by decide)).mp h
  exact Float32.toBits_inj.mp (UInt32.toBitVec_inj.mp hbits)

theorem bits_of_fields {n : Nat} (h : n / 2 ^ 31 % 2 = 0) (hn : n < 2 ^ 32) :
    n = n / 2 ^ 23 % 2 ^ 8 * 2 ^ 23 + n % 2 ^ 23 := by
  omega

/-- The bits of a positive number count the numbers of the format from zero on. -/
theorem bits_of_unpack {v : BitVec Format.binary32.numBits} {m : Nat} {e : Int} {hm : 0 < m}
    (h : unpack .binary32 v = .finite .positive m e hm) :
    (v.toNat : Int) = (e + 149) * 2 ^ 23 + m := by
  have hsign : Sign.ofBitVec (unpackSign v) = .positive → v.toNat / 2 ^ 31 % 2 = 0 := by
    intro hpositive
    rw [← toNat_unpackSign, ← Sign.toBitVec_ofBitVec (unpackSign v), hpositive]
    rfl
  -- The cases are those of `unpack`: no number, subnormal, normal.
  have hbits := fun hpositive => bits_of_fields (hsign hpositive) v.isLt
  rw [← toNat_unpackExponent, ← toNat_unpackMantissa] at hbits
  unfold unpack at h
  simp only [eq_neg_one_iff, eq_zero_iff] at h
  split at h
  · split at h
    · cases h
    · cases h
  · split at h
    · next hexponent =>
        split at h
        · cases h
        · injection h with hpositive hmantissa hplace
          have hvalue := hbits hpositive
          rw [← hmantissa, ← hplace, hexponent]
          rw [hexponent] at hvalue
          simp only [Format.exponentBias]
          omega
    · injection h with hpositive hmantissa hplace
      have hvalue := hbits hpositive
      rw [toNat_one_append] at hmantissa
      rw [← hmantissa, ← hplace]
      simp only [Format.exponentBias]
      omega

theorem finite_of_bits {v : BitVec Format.binary32.numBits} (hpos : 0 < v.toNat)
    (h : v.toNat < 2 ^ 30) :
    ∃ m e, ∃ hm : 0 < m, unpack .binary32 v = .finite .positive m e hm := by
  have hsign : Sign.ofBitVec (unpackSign v) = .positive := by
    have hzero : unpackSign v = 0#1 := by
      rw [eq_zero_iff, toNat_unpackSign]
      omega
    rw [hzero]
    rfl
  have hexponent := toNat_unpackExponent v
  have hmantissa := toNat_unpackMantissa v
  unfold unpack
  simp only [eq_neg_one_iff, eq_zero_iff, hsign]
  split
  · next hmax =>
      have hlimit : (unpackExponent v).toNat < 255 := by
        rw [hexponent]
        omega
      have hfull : (unpackExponent v).toNat + 1 = 256 := hmax
      omega
  · split
    · next hzero =>
        split
        · next hnone =>
          rw [hexponent] at hzero
          rw [hmantissa] at hnone
          omega
        · next hsome => exact ⟨_, _, Nat.pos_of_ne_zero hsome, rfl⟩
    · refine ⟨_, _, ?_, rfl⟩
      rw [toNat_one_append]
      exact Nat.add_pos_left (Nat.two_pow_pos _) _

end Single
end Plexus
