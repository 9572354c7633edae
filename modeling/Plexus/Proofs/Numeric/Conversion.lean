import Mathlib
import Plexus.Numeric.Single

/-!
# Conversion between single and double precision

A number of single precision is widened without loss, so that narrowing it again gives the
number back.  The numbers of a format are unpacked into a mantissa and an exponent in a
canonical form; rounding a number that a format can hold only brings it into that form.
-/

namespace Plexus
namespace Single

open Float.Model (Format UnpackedFloat totalExponent)
open Float.Model.UnpackedFloat

/-- The exponent of a number as it is stored in a format. -/
def biased (spec : Format) (e : Int) : Int :=
  e + spec.exponentBias + spec.mantissaBitsWithoutImplicit

/-- A mantissa and an exponent in the form in which a format holds them. -/
structure Canonical (spec : Format) (m : Nat) (e : Int) : Prop where
  pos : 0 < m
  bound : m < 2 ^ (spec.mantissaBitsWithoutImplicit + 1)
  normal : 2 ^ spec.mantissaBitsWithoutImplicit ≤ m ∨ biased spec e = 1
  low : 1 ≤ biased spec e
  high : biased spec e + 1 < (2 ^ spec.exponentBits : Nat)

/-!
## Rounding
-/

theorem log2_mul_two_pow {m : Nat} (h : 0 < m) (k : Nat) :
    (m * 2 ^ k).log2 = m.log2 + k := by
  induction k with
  | zero => simp
  | succ k ih =>
      have hpos : m * 2 ^ k ≠ 0 := Nat.ne_of_gt (Nat.mul_pos h (Nat.two_pow_pos k))
      have hdouble : m * 2 ^ (k + 1) = 2 * (m * 2 ^ k) := by
        rw [Nat.pow_succ]
        ac_rfl
      rw [hdouble, Nat.log2_two_mul hpos, ih]
      rfl

/-- Shifting a mantissa does not change where its number begins. -/
theorem totalExponent_shift {m : Nat} (h : 0 < m) (e : Int) (k : Nat) :
    totalExponent (m * 2 ^ k) (e - k) = totalExponent m e := by
  rw [totalExponent, totalExponent, log2_mul_two_pow h]
  omega

/-- A canonical exponent is the one that its format asks for. -/
theorem Canonical.targetExponent {spec : Format} {m : Nat} {e : Int}
    (h : Canonical spec m e) :
    spec.targetExponent (totalExponent m e) = e := by
  have hbias : 0 < 2 ^ (spec.exponentBits - 1) := Nat.two_pow_pos _
  have hcast : ((2 ^ (spec.exponentBits - 1) : Nat) : Int) = 2 ^ (spec.exponentBits - 1) := by
    rw [Int.natCast_pow]
    rfl
  have hupper : m.log2 < spec.mantissaBitsWithoutImplicit + 1 :=
    (Nat.log2_lt (Nat.ne_of_gt h.pos)).mpr h.bound
  have hlow := h.low
  have hnormal := h.normal
  simp only [biased, Format.exponentBias] at hlow hnormal
  simp only [Format.targetExponent, Format.minExponent, Format.mantissaBits, totalExponent,
    ← hcast]
  rcases hnormal with hnormal | hsubnormal
  · have hlower : spec.mantissaBitsWithoutImplicit ≤ m.log2 :=
      (Nat.le_log2 (Nat.ne_of_gt h.pos)).mpr hnormal
    omega
  · omega

/-- Shifting out zeros loses nothing. -/
theorem shift_zeros (m k : Nat) :
    (⟨m * 2 ^ k, false, false⟩ : ExtendedMantissa) >>> k = ⟨m, false, false⟩ := by
  show Nat.repeat ExtendedMantissa.shiftRightOne k ⟨m * 2 ^ k, false, false⟩ = _
  induction k generalizing m with
  | zero => simp [Nat.repeat]
  | succ k ih =>
      have hdouble : m * 2 ^ (k + 1) = m * 2 * 2 ^ k := by
        rw [Nat.pow_succ]
        ac_rfl
      rw [Nat.repeat, hdouble, ih (m * 2), ExtendedMantissa.shiftRightOne]
      simp

theorem Canonical.shiftToTargetExponent_eq {spec : Format} {m : Nat} {e : Int}
    (h : Canonical spec m e) :
    shiftToTargetExponent spec m e .exact = (⟨m, false, false⟩, e) := by
  have hzero := shift_zeros m 0
  rw [Nat.pow_zero, Nat.mul_one] at hzero
  rw [shiftToTargetExponent, h.targetExponent, shiftToExponent, Int.sub_self]
  simp only [ExtendedMantissa.ofMantissaAndAccuracy, Int.toNat_zero, hzero]
  rw [Int.natCast_zero, Int.add_zero]

/-- A number that a format can hold is rounded to its canonical form. -/
theorem roundWithAccuracy_shift {spec : Format} {m : Nat} {e : Int} (h : Canonical spec m e)
    (sign : Sign) (k : Nat) :
    roundWithAccuracy spec sign (m * 2 ^ k) (e - k) .exact = .finite sign m e h.pos := by
  have hamount : (e - (e - k)).toNat = k := by omega
  have hfirst : shiftToTargetExponent spec (m * 2 ^ k) (e - k) .exact =
      (⟨m, false, false⟩, e) := by
    rw [shiftToTargetExponent, totalExponent_shift h.pos, h.targetExponent, shiftToExponent,
      hamount]
    simp only [ExtendedMantissa.ofMantissaAndAccuracy, shift_zeros]
    rw [Int.sub_add_cancel]
  have hrounded : (⟨m, false, false⟩ : ExtendedMantissa).roundedMantissa = m := rfl
  unfold roundWithAccuracy
  rw [hfirst]
  dsimp only
  rw [hrounded, h.shiftToTargetExponent_eq]
  exact dif_neg (Nat.ne_of_gt h.pos)

theorem round_down {spec : Format} {m : Nat} {e : Int} (h : Canonical spec m e) (sign : Sign)
    (k : Nat) :
    round spec sign (m * 2 ^ k) (e - k) = .finite sign m e h.pos := by
  have hamount : (e - k - e).toNat = 0 := by omega
  rw [UnpackedFloat.round, totalExponent_shift h.pos, h.targetExponent, decreaseExponent, hamount]
  dsimp only
  rw [Nat.shiftLeft_zero, Int.natCast_zero, Int.sub_zero]
  exact roundWithAccuracy_shift h sign k

theorem round_up {spec : Format} {m k : Nat} {e : Int} (hm : 0 < m)
    (h : Canonical spec (m * 2 ^ k) (e - k)) (sign : Sign) :
    round spec sign m e = .finite sign (m * 2 ^ k) (e - k) h.pos := by
  have hamount : (e - (e - k)).toNat = k := by omega
  have hexact := roundWithAccuracy_shift h sign 0
  rw [Nat.pow_zero, Nat.mul_one, Int.natCast_zero, Int.sub_zero] at hexact
  rw [UnpackedFloat.round, ← totalExponent_shift hm e k, h.targetExponent, decreaseExponent,
    hamount]
  dsimp only
  rw [Nat.shiftLeft_eq]
  exact hexact

/-!
## Packing
-/

theorem finite_congr {sign : Sign} {m n : Nat} {e f : Int} {hm : 0 < m} (hn : 0 < n) (hmn : m = n)
    (hef : e = f) :
    UnpackedFloat.finite sign m e hm = .finite sign n f hn := by
  cases hmn
  cases hef
  rfl

/-- The leading one of a mantissa stands in front of the bits that are stored. -/
theorem toNat_one_append {n : Nat} (v : BitVec n) : (1#1 ++ v).toNat = 2 ^ n + v.toNat := by
  have hone : (1#1).toNat = 1 := rfl
  rw [BitVec.toNat_append, hone, Nat.one_shiftLeft, Nat.or_comm,
    Nat.or_two_pow_eq_add_of_lt v.isLt, Nat.add_comm]

theorem eq_neg_one_iff {n : Nat} (v : BitVec n) :
    v = -1#n ↔ v.toNat + 1 = 2 ^ n := by
  have hpos : 0 < 2 ^ n := Nat.two_pow_pos n
  rw [← BitVec.toNat_inj, BitVec.neg_one_eq_allOnes, BitVec.toNat_allOnes]
  omega

theorem eq_zero_iff {n : Nat} (v : BitVec n) : v = 0#n ↔ v.toNat = 0 := by
  rw [← BitVec.toNat_inj]
  simp

/-- A number in canonical form is packed without loss. -/
theorem Canonical.unpack_pack {spec : Format} {m : Nat} {e : Int} (h : Canonical spec m e)
    (sign : Sign) (hm : 0 < m) :
    unpack spec (pack spec (.finite sign m e hm)) = .finite sign m e hm := by
  have hlow := h.low
  have hhigh := h.high
  have hbound := h.bound
  have hexponent : ((biased spec e).toNat : Int) = biased spec e := by omega
  have hnoOverflow : ¬2 ^ spec.exponentBits ≤ (biased spec e).toNat + 1 := by omega
  have hpack : pack spec (.finite sign m e hm) =
      if m.log2 + 1 = spec.mantissaBits then
        packComponents spec sign (.ofNat _ (biased spec e).toNat) (.ofNat _ m)
      else packComponents spec sign 0#_ (.ofNat _ m) := by
    rw [pack]
    exact if_neg hnoOverflow
  rw [hpack]
  by_cases hnormal : 2 ^ spec.mantissaBitsWithoutImplicit ≤ m
  · have hlog : m.log2 = spec.mantissaBitsWithoutImplicit :=
      (Nat.log2_eq_iff (Nat.ne_of_gt hm)).mpr ⟨hnormal, hbound⟩
    have hstored : (BitVec.ofNat spec.exponentBits (biased spec e).toNat).toNat =
        (biased spec e).toNat := by
      rw [BitVec.toNat_ofNat, Nat.mod_eq_of_lt (by omega)]
    have hmantissa : 2 ^ spec.mantissaBitsWithoutImplicit +
        (BitVec.ofNat spec.mantissaBitsWithoutImplicit m).toNat = m := by
      rw [Nat.pow_succ] at hbound
      rw [BitVec.toNat_ofNat, Nat.mod_eq_sub_mod hnormal, Nat.mod_eq_of_lt (by omega)]
      omega
    rw [if_pos (by rw [hlog, Format.mantissaBits]; omega)]
    unfold unpack
    simp only [unpackMantissa_packComponents, unpackExponent_packComponents,
      unpackSign_packComponents, Sign.ofBitVec_toBitVec, eq_neg_one_iff, eq_zero_iff, hstored]
    rw [if_neg (by omega), if_neg (by omega)]
    apply finite_congr hm
    · rw [toNat_one_append, hmantissa]
    · rw [hexponent, biased]
      omega
  · have hsubnormal : biased spec e = 1 := h.normal.resolve_left hnormal
    have hlog : m.log2 < spec.mantissaBitsWithoutImplicit :=
      (Nat.log2_lt (Nat.ne_of_gt hm)).mpr (by omega)
    have hmantissa : (BitVec.ofNat spec.mantissaBitsWithoutImplicit m).toNat = m := by
      rw [BitVec.toNat_ofNat, Nat.mod_eq_of_lt (by omega)]
    have hzero : (0#(spec.exponentBits)).toNat = 0 := BitVec.toNat_zero
    rw [if_neg (by rw [Format.mantissaBits]; omega)]
    unfold unpack
    simp only [unpackMantissa_packComponents, unpackExponent_packComponents,
      unpackSign_packComponents, Sign.ofBitVec_toBitVec, eq_neg_one_iff, eq_zero_iff, hzero]
    rw [if_neg (by omega), if_pos trivial, dif_neg (by rw [hmantissa]; omega)]
    apply finite_congr hm
    · exact hmantissa
    · unfold biased at hsubnormal
      omega

/-- What is unpacked is in canonical form, in a format with room for numbers at all. -/
theorem canonical_of_unpack {spec : Format} (hbits : 2 ≤ spec.exponentBits)
    {v : BitVec spec.numBits} {sign : Sign} {m : Nat} {e : Int} {hm : 0 < m}
    (h : unpack spec v = .finite sign m e hm) :
    Canonical spec m e := by
  have hroom : 2 ^ 2 ≤ 2 ^ spec.exponentBits := Nat.pow_le_pow_right (by decide) hbits
  have hmantissa := (unpackMantissa v).isLt
  have hexponent := (unpackExponent v).isLt
  unfold unpack at h
  simp only [eq_neg_one_iff, eq_zero_iff] at h
  split at h
  · split at h
    · cases h
    · cases h
  · next hmax =>
      split at h
      · split at h
        · cases h
        · next hzero hstored =>
            injection h with _ hvalue hplace
            subst hvalue hplace
            refine ⟨hm, by rw [Nat.pow_succ]; omega, Or.inr ?_, ?_, ?_⟩
            · unfold biased
              omega
            · unfold biased
              omega
            · unfold biased
              omega
      · next hzero =>
          injection h with _ hvalue hplace
          rw [toNat_one_append] at hvalue
          subst hvalue hplace
          refine ⟨hm, by rw [Nat.pow_succ]; omega, Or.inl (Nat.le_add_right _ _), ?_, ?_⟩
          · unfold biased
            omega
          · unfold biased
            omega

/-- What a format can hold: numbers in canonical form, and what is no finite number. -/
def Held (spec : Format) (u : UnpackedFloat) : Prop :=
  ∀ sign m e hm, u = .finite sign m e hm → Canonical spec m e

theorem Canonical.held {spec : Format} {sign : Sign} {m : Nat} {e : Int} {hm : 0 < m}
    (h : Canonical spec m e) :
    Held spec (.finite sign m e hm) := by
  intro sign' m' e' hm' heq
  injection heq with _ hvalue hplace
  rw [← hvalue, ← hplace]
  exact h

theorem unpack_pack {spec : Format} {u : UnpackedFloat} (h : Held spec u) :
    unpack spec (pack spec u) = u := by
  cases u with
  | infinity sign =>
      unfold pack packedInfinity unpack
      simp only [unpackMantissa_packComponents, unpackExponent_packComponents,
        unpackSign_packComponents, Sign.ofBitVec_toBitVec]
      rfl
  | notANumber => exact unpack_packedNaN
  | zero sign => exact unpack_packedZero
  | finite sign m e hm => exact (h sign m e hm rfl).unpack_pack sign hm

theorem held_unpack {spec : Format} (hbits : 2 ≤ spec.exponentBits) (v : BitVec spec.numBits) :
    Held spec (unpack spec v) :=
  fun _ _ _ _ h => canonical_of_unpack hbits h

/-!
## Widening and narrowing
-/

/-- A number of single precision, shifted to the left, is one of double precision. -/
theorem Canonical.widened {m : Nat} {e : Int} (h : Canonical .binary32 m e) :
    ∃ k : Nat, Canonical .binary64 (m * 2 ^ k) (e - k) := by
  have hm := Nat.ne_of_gt h.pos
  have hlog : m.log2 < 24 := (Nat.log2_lt hm).mpr h.bound
  have hsplit : 2 ^ m.log2 * 2 ^ (52 - m.log2) = 2 ^ 52 := by
    rw [← Nat.pow_add, Nat.add_sub_cancel' (by omega)]
  have hsplit' : 2 ^ (m.log2 + 1) * 2 ^ (52 - m.log2) = 2 ^ 53 := by
    rw [← Nat.pow_add, Nat.add_right_comm, Nat.add_sub_cancel' (by omega)]
  have hlow := h.low
  have hhigh := h.high
  simp only [biased, Format.exponentBias] at hlow hhigh
  refine ⟨52 - m.log2, ⟨Nat.mul_pos h.pos (Nat.two_pow_pos _), ?_, Or.inl ?_, ?_, ?_⟩⟩
  · show m * 2 ^ (52 - m.log2) < 2 ^ 53
    rw [← hsplit']
    exact Nat.mul_lt_mul_of_pos_right Nat.lt_log2_self (Nat.two_pow_pos _)
  · show 2 ^ 52 ≤ m * 2 ^ (52 - m.log2)
    rw [← hsplit]
    exact Nat.mul_le_mul_right _ (Nat.log2_self_le hm)
  · simp only [biased, Format.exponentBias]
    omega
  · simp only [biased, Format.exponentBias]
    omega

/-- Fitting a number of single precision to double precision and back changes nothing. -/
theorem fit_widened {u : UnpackedFloat} (h : Held .binary32 u) :
    Held .binary64 (fit .binary64 u) ∧ fit .binary32 (fit .binary64 u) = u := by
  cases u with
  | finite sign m e hm =>
      have hcanonical := h sign m e hm rfl
      rcases hcanonical.widened with ⟨k, hk⟩
      have hfit : fit .binary64 (.finite sign m e hm) = .finite sign (m * 2 ^ k) (e - k) hk.pos :=
        round_up hm hk sign
      rw [hfit]
      constructor
      · exact hk.held
      · exact round_down hcanonical sign k
  | infinity sign | notANumber | zero sign =>
      constructor
      · intro sign' m' e' hm' heq
        cases heq
      · rfl

theorem held_unpack_single (x : Float32) : Held .binary32 x.toModel.unpack :=
  held_unpack (by decide) _

theorem unpack_widen (x : Float32) :
    (widen x).toModel.unpack = fit .binary64 x.toModel.unpack :=
  unpack_pack (fit_widened (held_unpack_single x)).1

/-- Only how a double is unpacked matters for what it is narrowed to. -/
theorem unpack_narrow {d : Float} (h : Held .binary32 (fit .binary32 d.toModel.unpack)) :
    (narrow d).toModel.unpack = fit .binary32 d.toModel.unpack :=
  unpack_pack h

theorem unpack_narrow_of_widened {d : Float} {x : Float32}
    (h : d.toModel.unpack = fit .binary64 x.toModel.unpack) :
    (narrow d).toModel.unpack = x.toModel.unpack := by
  have hback := (fit_widened (held_unpack_single x)).2
  rw [← h] at hback
  rw [unpack_narrow (by rw [hback]; exact held_unpack_single x), hback]

end Single

/-!
## Equal as numbers
-/

namespace Scalar

variable {α : Type} [Scalar α]

/-- Whether two scalars are equal as numbers, or neither of them is a number. -/
def Like (x y : α) : Prop := same x y = true ∨ isNaN x = true ∧ isNaN y = true

theorem Like.refl (x : α) : Like x x := by
  cases h : same x x with
  | true => exact Or.inl h
  | false =>
      have hnan : isNaN x = true := by
        rw [isNaN, h]
        rfl
      exact Or.inr ⟨hnan, hnan⟩

/-- Scalars that doubles can hold without loss. -/
class Lossless (α : Type) [Scalar α] : Prop where
  like_widened : ∀ x : α, Like (ofFloat (toFloat x)) x
  like_equal : ∀ (x : α) (d : Float), (toFloat x != d) = false → Like (ofFloat d) x

/-- Scalars that, once read from a double, can be put into one and read again without loss. -/
class Rereadable (α : Type) [Scalar α] : Prop where
  like_reread : ∀ d : Float, Like (ofFloat (toFloat (ofFloat d : α)) : α) (ofFloat d)

instance [Lossless α] : Rereadable α where
  like_reread _ := Lossless.like_widened _

end Scalar

namespace Single

open Float.Model (UnpackedFloat)
open Float.Model.UnpackedFloat

theorem beq_self (u : UnpackedFloat) : u.beq u = true ∨ u = .notANumber := by
  by_cases hnan : u = .notANumber
  · exact Or.inr hnan
  · exact Or.inl ((beq_iff_ne_notANumber_and_eq u u).mpr ⟨hnan, hnan, Or.inl rfl⟩)

/-- Only zeros are equal as numbers without being the same. -/
theorem eq_of_beq {u v : UnpackedFloat} (h : u.beq v = true) :
    u = v ∨ ∃ s t, u = .zero s ∧ v = .zero t := by
  rcases (beq_iff_ne_notANumber_and_eq u v).mp h with ⟨-, -, heq | ⟨hu, hv⟩ | ⟨hu, hv⟩⟩
  · exact Or.inl heq
  · exact Or.inr ⟨_, _, hu, hv⟩
  · exact Or.inr ⟨_, _, hu, hv⟩

/-- Numbers that are unpacked alike are alike. -/
theorem like_of_unpack_eq {x y : Float32} (h : x.toModel.unpack = y.toModel.unpack) :
    Scalar.Like x y := by
  have hsame : ∀ z w : Float32, Scalar.same z w = z.toModel.unpack.beq w.toModel.unpack :=
    fun _ _ => rfl
  rcases beq_self y.toModel.unpack with heq | hnan
  · apply Or.inl
    rw [hsame, h]
    exact heq
  · apply Or.inr
    constructor
    · rw [Scalar.isNaN, hsame, h, hnan]
      rfl
    · rw [Scalar.isNaN, hsame, hnan]
      rfl

theorem fit_eq_zero {u : UnpackedFloat} {s : Sign} (h : Held .binary32 u)
    (hzero : fit .binary64 u = .zero s) :
    u = .zero s := by
  have hback := (fit_widened h).2
  rw [hzero] at hback
  exact hback.symm

end Single

/-- Single precision is widened without loss. -/
instance : Scalar.Lossless Float32 where
  like_widened x := by
    apply Single.like_of_unpack_eq
    exact Single.unpack_narrow_of_widened (Single.unpack_widen x)
  like_equal x d h := by
    have hbeq : (Single.widen x).toModel.unpack.beq d.toModel.unpack = true := by
      rw [bne, Bool.not_eq_false'] at h
      exact h
    rw [Single.unpack_widen] at hbeq
    rcases Single.eq_of_beq hbeq with heq | ⟨s, t, hs, ht⟩
    · exact Single.like_of_unpack_eq (Single.unpack_narrow_of_widened heq.symm)
    · -- The double may be the other zero.
      have hx := Single.fit_eq_zero (Single.held_unpack_single x) hs
      have hfit : Single.fit .binary32 d.toModel.unpack = .zero t := by
        rw [ht]
        rfl
      have hnarrow := Single.unpack_narrow (d := d) (by
        rw [hfit]
        intro sign m e hm heq
        cases heq)
      apply Or.inl
      show (Single.narrow d).toModel.unpack.beq x.toModel.unpack = true
      rw [hnarrow, hfit, hx]
      rfl

end Plexus
