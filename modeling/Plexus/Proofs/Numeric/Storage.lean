import Plexus.Proofs.Numeric.Bits

/-!
# Rounding to storage precisions

A number that has been rounded to a storage precision is not changed by rounding it once more.
Where numbers of half precision are subnormal, they are rounded by adding one half and taking it
off again: this leaves a multiple of the spacing of numbers at one half, to which the half can be
added without any rounding.
-/

namespace Plexus
namespace Single

open Float.Model (Format UnpackedFloat totalExponent)
open Float.Model.UnpackedFloat

/-!
## Rounding bit patterns
-/

/-- A pattern is rounded to the multiple below it, or to the one above it if it is none itself. -/
theorem roundBits_cases (dropped bits : Nat) (hdropped : 0 < dropped) :
    roundBits dropped bits = bits / 2 ^ dropped * 2 ^ dropped ∨
      0 < bits % 2 ^ dropped ∧
        roundBits dropped bits = (bits / 2 ^ dropped + 1) * 2 ^ dropped := by
  rcases Nat.exists_eq_add_of_lt hdropped with ⟨n, hn⟩
  have hhalf : 2 ^ dropped / 2 * 2 = 2 ^ dropped := by
    rw [hn, Nat.zero_add, Nat.pow_succ, Nat.mul_div_cancel _ (by decide)]
  have hpos : 0 < 2 ^ dropped := Nat.two_pow_pos dropped
  have hodd : bits / 2 ^ dropped % 2 < 2 := Nat.mod_lt _ (by decide)
  have hrest : bits % 2 ^ dropped < 2 ^ dropped := Nat.mod_lt _ hpos
  have hsum : bits + (2 ^ dropped / 2 - 1) + bits / 2 ^ dropped % 2 =
      2 ^ dropped * (bits / 2 ^ dropped) +
        (bits % 2 ^ dropped + (2 ^ dropped / 2 - 1) + bits / 2 ^ dropped % 2) := by
    have hsplit := Nat.div_add_mod bits (2 ^ dropped)
    omega
  rw [roundBits, hsum, Nat.mul_add_div hpos]
  generalize hx : bits % 2 ^ dropped + (2 ^ dropped / 2 - 1) + bits / 2 ^ dropped % 2 = x
  by_cases hlow : x < 2 ^ dropped
  · rw [Nat.div_eq_of_lt hlow]
    exact Or.inl rfl
  · have hone : x / 2 ^ dropped = 1 := Nat.div_eq_of_lt_le (by omega) (by omega)
    rw [hone]
    exact Or.inr ⟨by omega, rfl⟩

theorem dvd_roundBits {dropped : Nat} (bits : Nat) (hdropped : 0 < dropped) :
    2 ^ dropped ∣ roundBits dropped bits := by
  rcases roundBits_cases dropped bits hdropped with h | ⟨-, h⟩
  · exact ⟨_, h.trans (Nat.mul_comm _ _)⟩
  · exact ⟨_, h.trans (Nat.mul_comm _ _)⟩

theorem roundBits_of_dvd {dropped bits : Nat} (hdropped : 0 < dropped) (h : 2 ^ dropped ∣ bits) :
    roundBits dropped bits = bits := by
  rcases roundBits_cases dropped bits hdropped with hround | ⟨hrest, -⟩
  · rw [hround, Nat.div_mul_cancel h]
  · rw [Nat.mod_eq_zero_of_dvd h] at hrest
    exact absurd hrest (Nat.lt_irrefl 0)

theorem roundBits_le {dropped bits limit : Nat} (hdropped : 0 < dropped)
    (hlimit : 2 ^ dropped ∣ limit) (h : bits ≤ limit) :
    roundBits dropped bits ≤ limit := by
  rcases hlimit with ⟨k, rfl⟩
  have hpos : 0 < 2 ^ dropped := Nat.two_pow_pos dropped
  rcases roundBits_cases dropped bits hdropped with hround | ⟨hrest, hround⟩
  · rw [hround]
    exact (Nat.div_mul_le_self bits _).trans h
  · rw [hround, Nat.mul_comm]
    apply Nat.mul_le_mul_left
    rw [Nat.succ_le_iff, Nat.div_lt_iff_lt_mul hpos, Nat.mul_comm]
    apply Nat.lt_of_le_of_ne h
    rintro rfl
    rw [Nat.mul_mod_right] at hrest
    exact Nat.lt_irrefl 0 hrest

theorem le_roundBits {dropped bits limit : Nat} (hdropped : 0 < dropped)
    (hlimit : 2 ^ dropped ∣ limit) (h : limit ≤ bits) :
    limit ≤ roundBits dropped bits := by
  rcases hlimit with ⟨k, rfl⟩
  have hpos : 0 < 2 ^ dropped := Nat.two_pow_pos dropped
  have hk : k ≤ bits / 2 ^ dropped := by
    rw [Nat.le_div_iff_mul_le hpos, Nat.mul_comm]
    exact h
  rcases roundBits_cases dropped bits hdropped with hround | ⟨-, hround⟩
  · rw [hround, Nat.mul_comm]
    exact Nat.mul_le_mul_right _ hk
  · rw [hround, Nat.mul_comm]
    exact Nat.mul_le_mul_right _ (Nat.le_succ_of_le hk)

/-!
## Rounding unpacked numbers
-/

theorem mantissa_shiftRight (em : ExtendedMantissa) (k : Nat) :
    (em >>> k).mantissa = em.mantissa / 2 ^ k := by
  show (Nat.repeat ExtendedMantissa.shiftRightOne k em).mantissa = _
  induction k with
  | zero =>
      rw [Nat.pow_zero, Nat.div_one]
      rfl
  | succ k ih =>
      rw [Nat.repeat, ExtendedMantissa.shiftRightOne, ih, Nat.pow_succ, Nat.div_div_eq_div_mul]

theorem roundedMantissa_cases (em : ExtendedMantissa) :
    em.roundedMantissa = em.mantissa ∨ em.roundedMantissa = em.mantissa + 1 := by
  rcases em with ⟨m, _ | _, _ | _⟩
  · exact Or.inl rfl
  · exact Or.inl rfl
  · show m + m % 2 = m ∨ m + m % 2 = m + 1
    omega
  · exact Or.inr rfl

/-- A number with more digits than a format can hold is rounded down or up. -/
theorem round_cases {spec : Format} {m k : Nat} {e : Int} (sign : Sign)
    (htarget : spec.targetExponent (totalExponent m e) = e + k)
    (hcanonical : ∀ r, r = m / 2 ^ k ∨ r = m / 2 ^ k + 1 → Canonical spec r (e + k)) :
    ∃ r, ∃ h : 0 < r, (r = m / 2 ^ k ∨ r = m / 2 ^ k + 1) ∧
      round spec sign m e = .finite sign r (e + k) h := by
  have hdown : (e - (e + k)).toNat = 0 := by omega
  have hup : (e + k - e).toNat = k := by omega
  let em : ExtendedMantissa := (⟨m, false, false⟩ : ExtendedMantissa) >>> k
  have hshift : shiftToTargetExponent spec m e .exact = (em, e + k) := by
    rw [shiftToTargetExponent, htarget, shiftToExponent, hup]
    rfl
  have hr : em.roundedMantissa = m / 2 ^ k ∨ em.roundedMantissa = m / 2 ^ k + 1 := by
    have hmantissa : em.mantissa = m / 2 ^ k := mantissa_shiftRight _ k
    rw [← hmantissa]
    exact roundedMantissa_cases em
  have hheld := hcanonical _ hr
  refine ⟨em.roundedMantissa, hheld.pos, hr, ?_⟩
  rw [UnpackedFloat.round, htarget, decreaseExponent, hdown]
  dsimp only
  rw [Nat.shiftLeft_zero, Int.natCast_zero, Int.sub_zero]
  unfold roundWithAccuracy
  rw [hshift]
  dsimp only
  rw [hheld.shiftToTargetExponent_eq]
  exact dif_neg (Nat.ne_of_gt hheld.pos)

theorem decreaseExponent_shift (m : Nat) (e : Int) (k : Nat) :
    decreaseExponent m e (e - k) = (m * 2 ^ k, e - k) := by
  have hk : (e - (e - k)).toNat = k := by omega
  rw [decreaseExponent, hk, Nat.shiftLeft_eq]

theorem decreaseExponent_self (m : Nat) (e : Int) : decreaseExponent m e e = (m, e) := by
  have h := decreaseExponent_shift m e 0
  rw [Nat.pow_zero, Nat.mul_one, Int.natCast_zero, Int.sub_zero] at h
  exact h

theorem normalize_of_pos {spec : Format} {m : Nat} (hm : 0 < m) (e : Int) (zeroSign : Sign) :
    UnpackedFloat.normalize spec m e zeroSign = round spec .positive m e := by
  have hcompare : compare (m : Int) 0 = .gt := by
    rw [Int.compare_eq_gt]
    omega
  rw [UnpackedFloat.normalize, hcompare]
  dsimp only
  rw [Int.toNat_natCast]

/-!
## Adding one half and taking it off again
-/

/-- One half, as it is unpacked. -/
def oneHalf : UnpackedFloat := .finite .positive (2 ^ 23) (-24) (Nat.two_pow_pos 23)

theorem unpack_one_half : (0.5 : Float32).toModel.unpack = oneHalf := rfl

/-- One half and a multiple of the spacing of numbers there. -/
theorem canonical_beyond_half {k : Nat} (hk : k ≤ 1024) :
    Canonical .binary32 (2 ^ 23 + k) (-24) := by
  constructor
  · omega
  · show 2 ^ 23 + k < 2 ^ 24
    omega
  · exact Or.inl (Nat.le_add_right _ _)
  · decide
  · decide

theorem add_one_half {m : Nat} (hm : 0 < m) (k : Nat) :
    add .binary32 (.finite .positive m (-24 - k) hm) oneHalf =
      round .binary32 .positive (2 ^ 23 * 2 ^ k + m) (-24 - k) := by
  have hmin : min (-24 - (k : Int)) (-24) = -24 - k := by omega
  have hsum : Sign.positive.apply m + Sign.positive.apply (2 ^ 23 * 2 ^ k : Nat) =
      ((2 ^ 23 * 2 ^ k + m : Nat) : Int) := by
    show (m : Int) + (2 ^ 23 * 2 ^ k : Nat) = _
    omega
  unfold add oneHalf
  dsimp only
  rw [hmin, decreaseExponent_self, decreaseExponent_shift]
  dsimp only
  rw [hsum, normalize_of_pos (by omega)]

theorem sub_one_half (k : Nat) (hm : 0 < 2 ^ 23 + k) :
    sub .binary32 (.finite .positive (2 ^ 23 + k) (-24) hm) oneHalf =
      UnpackedFloat.normalize .binary32 k (-24) .positive := by
  have hsum : Sign.positive.apply (2 ^ 23 + k : Nat) - Sign.positive.apply (2 ^ 23 : Nat) =
      (k : Int) := by
    show ((2 ^ 23 + k : Nat) : Int) - (2 ^ 23 : Nat) = _
    omega
  unfold sub oneHalf
  dsimp only
  rw [min_self, decreaseExponent_self, decreaseExponent_self]
  dsimp only
  rw [hsum]

/-- What is smaller than one half changes neither the length nor the place of the sum. -/
theorem targetExponent_half_add {m k : Nat} (hm : m < 2 ^ 23 * 2 ^ k) :
    Format.binary32.targetExponent (totalExponent (2 ^ 23 * 2 ^ k + m) (-24 - k)) =
      -24 - k + k := by
  have hpow : 2 ^ (23 + k) = 2 ^ 23 * 2 ^ k := Nat.pow_add 2 23 k
  have hlog : (2 ^ 23 * 2 ^ k + m).log2 = 23 + k := by
    rw [Nat.log2_eq_iff (by omega), Nat.pow_succ, hpow]
    omega
  rw [totalExponent, hlog]
  show max ((23 + k : Nat) + 1 + (-24 - (k : Int)) - 24) (-149) = _
  omega

/-- A number below the normal numbers of half precision, plus one half. -/
theorem add_one_half_of_tiny {m : Nat} {e : Int} (h : Canonical .binary32 m e)
    (htiny : (e + 149) * 2 ^ 23 + m < halfNormalBits) :
    ∃ k ≤ 1024, ∃ hk : 0 < 2 ^ 23 + k,
      add .binary32 (.finite .positive m e h.pos) oneHalf =
        .finite .positive (2 ^ 23 + k) (-24) hk := by
  have hbound : m < 2 ^ 24 := h.bound
  have hnormal : 2 ^ 23 ≤ m ∨ e + 127 + 23 = 1 := h.normal
  have hlow : 1 ≤ e + 127 + 23 := h.low
  obtain ⟨k, hk, rfl⟩ : ∃ k : Nat, 14 ≤ k ∧ e = -24 - k := by
    refine ⟨(-24 - e).toNat, ?_⟩
    unfold halfNormalBits at htiny
    omega
  have hpos : 0 < 2 ^ k := Nat.two_pow_pos k
  have hlarge : 2 ^ 14 ≤ 2 ^ k := Nat.pow_le_pow_right (by decide) hk
  have hquotient : (2 ^ 23 * 2 ^ k + m) / 2 ^ k = 2 ^ 23 + m / 2 ^ k := by
    rw [Nat.mul_comm, Nat.mul_add_div hpos]
  have hsteps : m / 2 ^ k < 1024 := by
    rw [Nat.div_lt_iff_lt_mul hpos]
    omega
  have hplace : -24 - (k : Int) + k = -24 := by omega
  have htarget := targetExponent_half_add (m := m) (k := k) (by omega)
  have hcanonical : ∀ r, r = (2 ^ 23 * 2 ^ k + m) / 2 ^ k ∨
      r = (2 ^ 23 * 2 ^ k + m) / 2 ^ k + 1 → Canonical .binary32 r (-24 - k + k) := by
    intro r hr
    rw [hquotient] at hr
    rw [hplace]
    rcases hr with rfl | rfl
    · exact canonical_beyond_half (k := m / 2 ^ k) (by omega)
    · exact canonical_beyond_half (k := m / 2 ^ k + 1) (by omega)
  -- Rounded down or up, the sum is less than 1024 places beyond one half, or 1024 of them.
  rcases round_cases .positive htarget hcanonical with ⟨r, hr, hcases, hround⟩
  rw [add_one_half, hround]
  rw [hquotient] at hcases
  rcases hcases with rfl | rfl
  · exact ⟨m / 2 ^ k, by omega, hr, finite_congr hr rfl hplace⟩
  · exact ⟨m / 2 ^ k + 1, by omega, hr, finite_congr hr rfl hplace⟩

/-- A multiple of the spacing of numbers at one half. -/
def spaced (k : Nat) : UnpackedFloat := UnpackedFloat.normalize .binary32 k (-24) .positive

theorem canonical_spaced {k : Nat} (hpos : 0 < k) (hk : k ≤ 1024) :
    Canonical .binary32 (k * 2 ^ (23 - k.log2)) (-24 - (23 - k.log2 : Nat)) := by
  have hlog : k.log2 < 11 := (Nat.log2_lt (Nat.ne_of_gt hpos)).mpr (by omega)
  have hsplit : 2 ^ k.log2 * 2 ^ (23 - k.log2) = 2 ^ 23 := by
    rw [← Nat.pow_add, Nat.add_sub_cancel' (by omega)]
  have hsplit' : 2 ^ (k.log2 + 1) * 2 ^ (23 - k.log2) = 2 ^ 24 := by
    rw [← Nat.pow_add, Nat.add_right_comm, Nat.add_sub_cancel' (by omega)]
  constructor
  · exact Nat.mul_pos hpos (Nat.two_pow_pos _)
  · show k * 2 ^ (23 - k.log2) < 2 ^ 24
    rw [← hsplit']
    exact Nat.mul_lt_mul_of_pos_right Nat.lt_log2_self (Nat.two_pow_pos _)
  · apply Or.inl
    show 2 ^ 23 ≤ k * 2 ^ (23 - k.log2)
    rw [← hsplit]
    exact Nat.mul_le_mul_right _ (Nat.log2_self_le (Nat.ne_of_gt hpos))
  · show 1 ≤ -24 - ((23 - k.log2 : Nat) : Int) + 127 + 23
    omega
  · show -24 - ((23 - k.log2 : Nat) : Int) + 127 + 23 + 1 < 256
    omega

theorem spaced_of_pos {k : Nat} (hpos : 0 < k) (hk : k ≤ 1024) :
    spaced k = .finite .positive (k * 2 ^ (23 - k.log2)) (-24 - (23 - k.log2 : Nat))
      (canonical_spaced hpos hk).pos := by
  rw [spaced, normalize_of_pos hpos]
  exact round_up hpos (canonical_spaced hpos hk) .positive

theorem held_spaced {k : Nat} (hk : k ≤ 1024) : Held .binary32 (spaced k) := by
  rcases Nat.eq_zero_or_pos k with rfl | hpos
  · intro sign m e hm heq
    cases heq
  · rw [spaced_of_pos hpos hk]
    exact (canonical_spaced hpos hk).held

theorem spaced_add_one_half {k : Nat} (hk : k ≤ 1024) :
    add .binary32 (spaced k) oneHalf =
      .finite .positive (2 ^ 23 + k) (-24) (canonical_beyond_half hk).pos := by
  rcases Nat.eq_zero_or_pos k with rfl | hpos
  · rfl
  · rw [spaced_of_pos hpos hk, add_one_half, ← Nat.add_mul]
    exact round_down (canonical_beyond_half hk) .positive _

/-- Adding one half and taking it off again leaves a multiple of the spacing there. -/
theorem unpack_round_trip {x : Float32} {k : Nat} (hk : k ≤ 1024) {hm : 0 < 2 ^ 23 + k}
    (h : add .binary32 x.toModel.unpack oneHalf = .finite .positive (2 ^ 23 + k) (-24) hm) :
    (x + 0.5 - 0.5).toModel.unpack = spaced k := by
  have hadd : (x + 0.5).toModel.unpack = .finite .positive (2 ^ 23 + k) (-24) hm := by
    rw [← h, ← unpack_one_half]
    apply unpack_add
    rw [unpack_one_half, h]
    exact (canonical_beyond_half hk).held
  have hsub : sub .binary32 (x + 0.5).toModel.unpack (0.5 : Float32).toModel.unpack = spaced k := by
    rw [hadd, unpack_one_half, sub_one_half, spaced]
  rw [← hsub]
  apply unpack_sub
  rw [hsub]
  exact held_spaced hk

theorem toBits_spaced_le {z : Float32} {k : Nat} (hk : k ≤ 1024)
    (hz : z.toModel.unpack = spaced k) :
    z.toBits.toNat < halfNormalBits ∨ z.toBits.toNat = halfNormalBits := by
  rcases Nat.eq_zero_or_pos k with rfl | hpos
  · have hzero : z = 0.0 := eq_of_unpack_eq hz
    rw [hzero]
    exact Or.inl (by decide +kernel)
  · have hcanonical := canonical_spaced hpos hk
    have hbound : k * 2 ^ (23 - k.log2) < 2 ^ 24 := hcanonical.bound
    rw [spaced_of_pos hpos hk] at hz
    have hbits : (z.toBits.toNat : Int) = _ := bits_of_unpack hz
    unfold halfNormalBits
    rcases Nat.lt_or_eq_of_le hk with hlt | rfl
    · have hlog : k.log2 < 10 := (Nat.log2_lt (Nat.ne_of_gt hpos)).mpr hlt
      omega
    · have hlog : (1024 : Nat).log2 = 10 := rfl
      rw [hlog] at hbits
      omega

/-!
## Half precision
-/

/-- The bits of a size rounded to half precision. -/
def halfBits (size : Nat) : Nat :=
  if halfNormalBits ≤ size then
    let r := roundBits 13 size
    if halfLimitBits ≤ r then infinityBits else r
  else (Float32.ofBits (UInt32.ofNat size) + 0.5 - 0.5).toBits.toNat

/-- Below the normal numbers of half precision, sizes are rounded to multiples of its spacing. -/
theorem halfBits_of_tiny {size : Nat} (h : size < halfNormalBits) :
    ∃ k ≤ 1024, ∃ z : Float32, z.toModel.unpack = spaced k ∧ halfBits size = z.toBits.toNat := by
  have hbits : (UInt32.ofNat size).toBitVec.toNat = size := by
    unfold halfNormalBits at h
    show (UInt32.ofNat size).toNat = size
    rw [UInt32.toNat_ofNat', Nat.mod_eq_of_lt (by omega)]
  obtain ⟨k, hk, hm, hadd⟩ : ∃ k ≤ 1024, ∃ hm : 0 < 2 ^ 23 + k,
      add .binary32 (unpack .binary32 (UInt32.ofNat size).toBitVec) oneHalf =
        .finite .positive (2 ^ 23 + k) (-24) hm := by
    rcases Nat.eq_zero_or_pos size with rfl | hpos
    · exact ⟨0, by decide, Nat.two_pow_pos 23, rfl⟩
    · have hlow : 0 < (UInt32.ofNat size).toBitVec.toNat := by
        rw [hbits]
        exact hpos
      have hhigh : (UInt32.ofNat size).toBitVec.toNat < 2 ^ 30 := by
        rw [hbits]
        exact h.trans (by decide)
      rcases finite_of_bits hlow hhigh with ⟨m, e, hm, hunpack⟩
      have hsize := bits_of_unpack hunpack
      rw [hbits] at hsize
      rw [hunpack]
      apply add_one_half_of_tiny (canonical_of_unpack (by decide) hunpack)
      rw [← hsize]
      exact Int.ofNat_lt.mpr h
  rw [← unpack_ofBits] at hadd
  refine ⟨k, hk, _, unpack_round_trip hk hadd, ?_⟩
  rw [halfBits, if_neg (Nat.not_le.mpr h)]

/-- Such multiples are not rounded any further. -/
theorem halfBits_spaced {z : Float32} {k : Nat} (hk : k ≤ 1024)
    (hz : z.toModel.unpack = spaced k) :
    halfBits z.toBits.toNat = z.toBits.toNat := by
  rcases toBits_spaced_le hk hz with hlt | heq
  -- Adding one half is exact, so taking it off again gives the number itself.
  · have hadd := spaced_add_one_half hk
    rw [← hz] at hadd
    have hagain := unpack_round_trip hk hadd
    have hround : z + 0.5 - 0.5 = z := eq_of_unpack_eq (hagain.trans hz.symm)
    rw [halfBits, if_neg (Nat.not_le.mpr hlt), UInt32.ofNat_toNat, Float32.ofBits_toBits, hround]
  · rw [heq]
    decide +kernel

theorem halfBits_le {size : Nat} (h : size ≤ infinityBits) : halfBits size ≤ infinityBits := by
  by_cases hnormal : halfNormalBits ≤ size
  · have hround := roundBits_le (by decide : 0 < 13) (by decide : 2 ^ 13 ∣ infinityBits) h
    rw [halfBits, if_pos hnormal]
    dsimp only
    split
    · exact Nat.le_refl _
    · exact hround
  · rcases halfBits_of_tiny (Nat.not_le.mp hnormal) with ⟨k, hk, z, hz, hbits⟩
    have hle := toBits_spaced_le hk hz
    rw [hbits]
    unfold halfNormalBits at hle
    unfold infinityBits
    omega

theorem halfBits_halfBits (size : Nat) : halfBits (halfBits size) = halfBits size := by
  by_cases hnormal : halfNormalBits ≤ size
  · have hround : halfNormalBits ≤ roundBits 13 size :=
      le_roundBits (by decide) (by decide) hnormal
    have hdvd : 2 ^ 13 ∣ roundBits 13 size := dvd_roundBits size (by decide)
    have hbits : halfBits size =
        if halfLimitBits ≤ roundBits 13 size then infinityBits else roundBits 13 size := by
      rw [halfBits, if_pos hnormal]
    rw [hbits]
    split
    · decide +kernel
    · next hlimit =>
        rw [halfBits, if_pos hround, roundBits_of_dvd (by decide) hdvd]
        exact if_neg hlimit
  · rcases halfBits_of_tiny (Nat.not_le.mp hnormal) with ⟨k, hk, z, hz, hbits⟩
    rw [hbits]
    exact halfBits_spaced hk hz

/-!
## Rounding once more
-/

/-- A number with the bits of its size changed. -/
def resize (f : Nat → Nat) (x : Float32) : Float32 :=
  if x.isNaN then x else signed (signBit x) (f (sizeBits x))

theorem resize_resize {f : Nat → Nat} (hle : ∀ size ≤ infinityBits, f size ≤ infinityBits)
    (hf : ∀ size, f (f size) = f size) (x : Float32) :
    resize f (resize f x) = resize f x := by
  cases hnan : x.isNaN with
  | true =>
      have hsame : resize f x = x := by rw [resize, hnan, if_pos rfl]
      rw [hsame, hsame]
  | false =>
      have hsign := signBit_lt x
      have hsize := hle _ (sizeBits_le hnan)
      have hresized : resize f x = signed (signBit x) (f (sizeBits x)) := by
        rw [resize, hnan, if_neg Bool.false_ne_true]
      rw [hresized, resize, isNaN_signed hsign hsize, if_neg Bool.false_ne_true,
        signBit_signed hsign hsize, sizeBits_signed hsign hsize, hf]

theorem half_eq_resize (x : Float32) : half x = resize halfBits x := rfl

theorem brain_eq_resize (x : Float32) : brain x = resize (roundBits 16) x := rfl

theorem half_half (x : Float32) : half (half x) = half x := by
  rw [half_eq_resize, half_eq_resize]
  exact resize_resize (fun _ => halfBits_le) halfBits_halfBits x

theorem brain_brain (x : Float32) : brain (brain x) = brain x := by
  rw [brain_eq_resize, brain_eq_resize]
  apply resize_resize
  · intro size hsize
    exact roundBits_le (by decide) (by decide) hsize
  · intro size
    exact roundBits_of_dvd (by decide) (dvd_roundBits size (by decide))

end Single

/-!
## Scalars that can be stored
-/

namespace Scalar

/-- Scalars that storing them once more does not change. -/
class Storable (α : Type) [Scalar α] : Prop where
  store_zero : ∀ p, store p (zero : α) = zero
  like_store : ∀ p (x y : α), Rounded p x → Like y x → Like (store p y) x

end Scalar

namespace Single

open Scalar (store Like)

theorem store_store (p : Precision) (x : Float32) : store p (store p x) = store p x := by
  cases p with
  | fp32 => rfl
  | fp16 => exact half_half x
  | bf16 => exact brain_brain x

/-- Only zeros are alike without being the same. -/
theorem eq_or_zeros_of_like {x y : Float32} (h : Like y x) :
    y = x ∨ y = 0 ∧ x = -0 ∨ y = -0 ∧ x = 0 := by
  rcases h with hsame | ⟨hy, hx⟩
  · exact (Float32.beq_iff_ne_nan_and_eq.mp hsame).2.2
  · have hnan : ∀ z : Float32, Scalar.isNaN z = true → z = Float32.nan := by
      intro z hz
      rw [← Float32.beq_self_eq_false_iff, ← Bool.not_eq_true']
      exact hz
    exact Or.inl ((hnan y hy).trans (hnan x hx).symm)

theorem like_symm {x y : Float32} (h : Like y x) : Like x y := by
  rcases eq_or_zeros_of_like h with rfl | ⟨rfl, rfl⟩ | ⟨rfl, rfl⟩
  · exact h
  · exact Or.inl (by decide +kernel)
  · exact Or.inl (by decide +kernel)

theorem like_trans {x y z : Float32} (h : Like x y) (h' : Like y z) : Like x z := by
  rcases eq_or_zeros_of_like h with rfl | ⟨rfl, rfl⟩ | ⟨rfl, rfl⟩
  · exact h'
  · rcases eq_or_zeros_of_like h' with rfl | ⟨hy, -⟩ | ⟨-, rfl⟩
    · exact h
    · exact absurd (congrArg Float32.toBits hy) (by decide +kernel)
    · exact Scalar.Like.refl _
  · rcases eq_or_zeros_of_like h' with rfl | ⟨-, rfl⟩ | ⟨hy, -⟩
    · exact h
    · exact Scalar.Like.refl _
    · exact absurd (congrArg Float32.toBits hy) (by decide +kernel)

end Single

instance : Scalar.Storable Float32 where
  store_zero p := by cases p <;> decide +kernel
  like_store p x y := by
    rintro ⟨z, rfl⟩ hlike
    rcases Single.eq_or_zeros_of_like hlike with rfl | ⟨rfl, hx⟩ | ⟨rfl, hx⟩
    · rw [Single.store_store]
      exact Scalar.Like.refl _
    · rw [hx]
      cases p <;> exact Or.inl (by decide +kernel)
    · rw [hx]
      cases p <;> exact Or.inl (by decide +kernel)

end Plexus
