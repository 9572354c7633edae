import Mathlib
import Plexus.Decimal.Binary

/-!
# The nearest double

A fraction is rounded to a double by its value alone: every fraction in the interval that reaches
half way from a double to its neighbours has the bits of that double.  Below a power of two the
neighbour is twice as near, and there the mantissa is found with one bit more and carried over.
-/

namespace Plexus
namespace Decimal

/-!
## Values of fractions
-/

/-- The number that a fraction is. -/
def Fraction.value (f : Fraction) : ℚ := f.num / f.den

theorem Fraction.value_ofDyadic (m : Nat) (e : Int) : (ofDyadic m e).value = m * 2 ^ e := by
  rw [ofDyadic]
  split
  · next h =>
    obtain ⟨k, rfl⟩ := Int.eq_ofNat_of_zero_le h
    simp [value]
  · next h =>
    obtain ⟨k, hk⟩ := Int.eq_ofNat_of_zero_le (show 0 ≤ -e by omega)
    obtain rfl : e = -(k : Int) := by omega
    simp [value, div_eq_mul_inv]

theorem Fraction.value_ofDecimal (c : Nat) (e : Int) : (ofDecimal c e).value = c * 10 ^ e := by
  rw [ofDecimal]
  split
  · next h =>
    obtain ⟨k, rfl⟩ := Int.eq_ofNat_of_zero_le h
    simp [value]
  · next h =>
    obtain ⟨k, hk⟩ := Int.eq_ofNat_of_zero_le (show 0 ≤ -e by omega)
    obtain rfl : e = -(k : Int) := by omega
    simp [value, div_eq_mul_inv]

/-!
## Rounding to a whole number
-/

/-- A number that is rounded to `k`: half a unit away at most, and less if `k` is odd. -/
structure RoundsTo (y : ℚ) (k : Nat) : Prop where
  low : k - 1 / 2 ≤ y
  high : y ≤ k + 1 / 2
  odd : k % 2 = 1 → k - 1 / 2 < y ∧ y < k + 1 / 2

theorem roundHalfEven_eq {num den k : Nat} (hden : 0 < den) (h : RoundsTo (num / den) k) :
    roundHalfEven num den = k := by
  have hden' : (0 : ℚ) < den := Nat.cast_pos.mpr hden
  have hlow : (2 * k : ℚ) * den ≤ 2 * num + den := by
    have hscaled := (le_div_iff₀ hden').mp h.low
    linarith
  have hhigh : (2 * num : ℚ) ≤ (2 * k + 1) * den := by
    have hscaled := (div_le_iff₀ hden').mp h.high
    linarith
  have hodd : k % 2 = 1 →
      (2 * k : ℚ) * den < 2 * num + den ∧ (2 * num : ℚ) < (2 * k + 1) * den := by
    intro hk
    have hscaled := (lt_div_iff₀ hden').mp (h.odd hk).1
    have hscaled' := (div_lt_iff₀ hden').mp (h.odd hk).2
    constructor <;> linarith
  norm_cast at hlow hhigh hodd
  have hnum : den * (num / den) + num % den = num := Nat.div_add_mod num den
  have hrest : num % den < den := Nat.mod_lt _ hden
  unfold roundHalfEven
  simp only
  generalize num / den = q at *
  generalize num % den = r at *
  subst hnum
  have hq : q ≤ k := by
    by_contra hlt
    nlinarith
  have hk : k ≤ q + 1 := by
    by_contra hlt
    nlinarith
  rcases Nat.lt_or_ge k (q + 1) with hlt | hge
  · obtain rfl : k = q := by omega
    have hr : 2 * r ≤ den := by nlinarith
    have hr' : k % 2 = 1 → 2 * r < den := fun hk => by nlinarith [(hodd hk).2]
    split_ifs <;> omega
  · obtain rfl : k = q + 1 := by omega
    have hr : den ≤ 2 * r := by nlinarith
    have hr' : (q + 1) % 2 = 1 → den < 2 * r := fun hk => by nlinarith [(hodd hk).1]
    split_ifs <;> omega

theorem Fraction.roundAt_eq {f : Fraction} {base k : Nat} {p : Int} (hden : 0 < f.den)
    (hbase : 0 < base) (h : RoundsTo (f.value / (base : ℚ) ^ p) k) : f.roundAt base p = k := by
  rw [roundAt]
  split
  · next hp =>
    obtain ⟨n, rfl⟩ := Int.eq_ofNat_of_zero_le hp
    refine roundHalfEven_eq (Nat.mul_pos hden (Nat.pow_pos hbase)) ?_
    convert h using 1
    simp [value, div_div]
  · next hp =>
    obtain ⟨n, hn⟩ := Int.eq_ofNat_of_zero_le (show 0 ≤ -p by omega)
    obtain rfl : p = -(n : Int) := by omega
    refine roundHalfEven_eq hden ?_
    convert h using 1
    simp [value, div_eq_mul_inv, mul_right_comm]

/-!
## The place of the first bit
-/

theorem Fraction.value_pos {f : Fraction} (hnum : 0 < f.num) (hden : 0 < f.den) : 0 < f.value :=
  div_pos (Nat.cast_pos.mpr hnum) (Nat.cast_pos.mpr hden)

theorem two_zpow_add (e : Int) (k : Nat) : (2 : ℚ) ^ (e + k) = 2 ^ k * 2 ^ e := by
  rw [zpow_add₀ (by norm_num), zpow_natCast, mul_comm]

theorem two_zpow_le_iff {y : ℚ} (h : 0 < y) (e : Int) : (2 : ℚ) ^ e ≤ y ↔ e ≤ Int.log 2 y :=
  Int.zpow_le_iff_le_log (b := 2) (by norm_num) h

theorem lt_two_zpow_iff {y : ℚ} (h : 0 < y) (e : Int) : y < (2 : ℚ) ^ e ↔ Int.log 2 y < e :=
  Int.lt_zpow_iff_log_lt (b := 2) (by norm_num) h

theorem Fraction.reaches_iff {f : Fraction} (hden : 0 < f.den) (g : Int) :
    (if 0 ≤ g then f.den * 2 ^ g.toNat ≤ f.num else f.den ≤ f.num * 2 ^ (-g).toNat) ↔
      (2 : ℚ) ^ g ≤ f.value := by
  have hden' : (0 : ℚ) < f.den := Nat.cast_pos.mpr hden
  split
  · next h =>
    obtain ⟨n, rfl⟩ := Int.eq_ofNat_of_zero_le h
    rw [value, le_div_iff₀ hden', zpow_natCast, Int.toNat_natCast, mul_comm]
    exact_mod_cast Iff.rfl
  · next h =>
    obtain ⟨n, hn⟩ := Int.eq_ofNat_of_zero_le (show 0 ≤ -g by omega)
    obtain rfl : g = -(n : Int) := by omega
    rw [value, le_div_iff₀ hden', zpow_neg, zpow_natCast, inv_mul_le_iff₀ (by positivity),
      neg_neg, Int.toNat_natCast, mul_comm]
    exact_mod_cast Iff.rfl

theorem two_pow_log2_le {n : Nat} (h : 0 < n) : (2 : ℚ) ^ (n.log2 : Int) ≤ n := by
  rw [zpow_natCast]
  exact_mod_cast Nat.log2_self_le (Nat.pos_iff_ne_zero.mp h)

theorem lt_two_pow_log2 (n : Nat) : (n : ℚ) < 2 ^ ((n.log2 : Int) + 1) := by
  have h : n < 2 ^ (n.log2 + 1) := Nat.lt_log2_self
  rw [← Nat.cast_succ, zpow_natCast]
  exact_mod_cast h

theorem Fraction.binaryExponent_eq_log {f : Fraction} (hnum : 0 < f.num) (hden : 0 < f.den) :
    f.binaryExponent = Int.log 2 f.value := by
  have hvalue := f.value_pos hnum hden
  have hden' : (0 : ℚ) < f.den := Nat.cast_pos.mpr hden
  have htwo : (2 : ℚ) ≠ 0 := by norm_num
  have hlow : (2 : ℚ) ^ ((f.num.log2 : Int) - f.den.log2 - 1) ≤ f.value := by
    rw [value, le_div_iff₀ hden']
    calc (2 : ℚ) ^ ((f.num.log2 : Int) - f.den.log2 - 1) * f.den
        ≤ 2 ^ ((f.num.log2 : Int) - f.den.log2 - 1) * 2 ^ ((f.den.log2 : Int) + 1) := by
          gcongr
          exact (lt_two_pow_log2 f.den).le
      _ = 2 ^ (f.num.log2 : Int) := by
          rw [← zpow_add₀ htwo]
          congr 1
          omega
      _ ≤ f.num := two_pow_log2_le hnum
  have hhigh : f.value < (2 : ℚ) ^ ((f.num.log2 : Int) - f.den.log2 + 1) := by
    rw [value, div_lt_iff₀ hden']
    calc (f.num : ℚ) < 2 ^ ((f.num.log2 : Int) + 1) := lt_two_pow_log2 f.num
      _ = 2 ^ ((f.num.log2 : Int) - f.den.log2 + 1) * 2 ^ (f.den.log2 : Int) := by
          rw [← zpow_add₀ htwo]
          congr 1
          omega
      _ ≤ 2 ^ ((f.num.log2 : Int) - f.den.log2 + 1) * f.den := by
          gcongr
          exact two_pow_log2_le hden
  have hreaches := (f.reaches_iff hden (f.num.log2 - f.den.log2)).trans (two_zpow_le_iff hvalue _)
  rw [two_zpow_le_iff hvalue] at hlow
  rw [lt_two_zpow_iff hvalue] at hhigh
  simp only [binaryExponent, hreaches]
  split_ifs <;> omega

/-!
## The bits of a double
-/

/-- The mantissa and the exponent of a positive finite double. -/
structure IsDouble (m : Nat) (e : Int) : Prop where
  pos : 0 < m
  mantissa_lt : m < 2 ^ 53
  le_exponent : -1074 ≤ e
  exponent_le : e ≤ 971
  normal : e = -1074 ∨ 2 ^ 52 ≤ m

/-- The bits of a double, without its sign. -/
def sizeBits (m : Nat) (e : Int) : Nat :=
  if m < 2 ^ 52 then m else (e + 1075).toNat * 2 ^ 52 + (m - 2 ^ 52)

/-- How far the numbers reach that are rounded up to a double, in units of its last place. -/
def reachBelow (m : Nat) (e : Int) : ℚ := if m = 2 ^ 52 ∧ e ≠ -1074 then 1 / 4 else 1 / 2

/-- A number that is rounded to the double `m * 2 ^ e`. -/
structure RoundsToDouble (m : Nat) (e : Int) (y : ℚ) : Prop where
  low : (m - reachBelow m e) * 2 ^ e ≤ y
  high : y ≤ (m + 1 / 2) * 2 ^ e
  odd : m % 2 = 1 → (m - reachBelow m e) * 2 ^ e < y ∧ y < (m + 1 / 2) * 2 ^ e

variable {m : Nat} {e : Int} {y : ℚ}

theorem sizeBits_lt (h : IsDouble m e) : sizeBits m e < infinityBits := by
  have hm := h.mantissa_lt
  have he := h.exponent_le
  unfold sizeBits infinityBits
  split <;> omega

theorem reachBelow_le (m : Nat) (e : Int) : reachBelow m e ≤ 1 / 2 := by
  unfold reachBelow
  split_ifs <;> norm_num

theorem RoundsToDouble.pos (h : RoundsToDouble m e y) (hm : 0 < m) : 0 < y := by
  have hm' : (1 : ℚ) ≤ m := by exact_mod_cast hm
  have hreach := reachBelow_le m e
  have hunit : (0 : ℚ) < 2 ^ e := by positivity
  calc (0 : ℚ) < (m - reachBelow m e) * 2 ^ e := by
        apply mul_pos _ hunit
        linarith
    _ ≤ y := h.low

/-- In units of the last place, a number that rounds to a double rounds to its mantissa. -/
theorem RoundsToDouble.roundsTo (h : RoundsToDouble m e y) : RoundsTo (y / 2 ^ e) m := by
  have hunit : (0 : ℚ) < 2 ^ e := by positivity
  have hreach := reachBelow_le m e
  have hlow := (le_div_iff₀ hunit).mpr h.low
  have hhigh := (div_le_iff₀ hunit).mpr h.high
  refine ⟨by linarith, hhigh, fun hm => ?_⟩
  have hlow' := (lt_div_iff₀ hunit).mpr (h.odd hm).1
  exact ⟨by linarith, (div_lt_iff₀ hunit).mpr (h.odd hm).2⟩

/-- Just below a power of two, a bit more is kept, and rounding carries it over. -/
theorem RoundsToDouble.roundsTo_carry (h : RoundsToDouble (2 ^ 52) e y) (he : e ≠ -1074)
    (hbelow : y < 2 ^ (e + 52)) : RoundsTo (y / 2 ^ (e - 1)) (2 ^ 53) := by
  have hunit : (0 : ℚ) < 2 ^ (e - 1) := by positivity
  have hstep : (2 : ℚ) ^ e = 2 * 2 ^ (e - 1) := by
    rw [zpow_sub_one₀ (by norm_num)]
    ring
  have hlimit : (2 : ℚ) ^ (e + 52) = 2 ^ 53 * 2 ^ (e - 1) :=
    (two_zpow_add e 52).trans (by rw [hstep]; ring)
  have hlow := h.low
  rw [reachBelow, if_pos ⟨rfl, he⟩, hstep] at hlow
  rw [hlimit] at hbelow
  push_cast at hlow
  refine ⟨?_, ?_, fun hodd => absurd hodd (by norm_num)⟩
  · rw [le_div_iff₀ hunit]
    push_cast
    linarith
  · rw [div_le_iff₀ hunit]
    push_cast
    linarith

/-- Below its own power of two, a number rounds only to that power. -/
theorem RoundsToDouble.eq_two_pow (h : RoundsToDouble m e y) (hm : 2 ^ 52 ≤ m)
    (hbelow : y < 2 ^ (e + 52)) : m = 2 ^ 52 := by
  refine le_antisymm (Nat.not_lt.mp fun hlt => ?_) hm
  have hm' : (2 ^ 52 : ℚ) + 1 ≤ m := by exact_mod_cast hlt
  have hreach := reachBelow_le m e
  have hunit : (0 : ℚ) < 2 ^ e := by positivity
  have hscale : (2 : ℚ) ^ (e + 52) = 2 ^ 52 * 2 ^ e := two_zpow_add e 52
  have hlow := h.low
  nlinarith

theorem RoundsToDouble.lt_two_zpow (h : RoundsToDouble m e y) (hm : m < 2 ^ 53) :
    y < 2 ^ (e + 53) := by
  have hm' : (m : ℚ) + 1 ≤ 2 ^ 53 := by exact_mod_cast hm
  calc y ≤ (m + 1 / 2) * 2 ^ e := h.high
    _ < 2 ^ 53 * 2 ^ e := by
        gcongr
        linarith
    _ = 2 ^ (e + 53) := (two_zpow_add e 53).symm

theorem RoundsToDouble.two_zpow_le (h : RoundsToDouble (2 ^ 52) e y) : 2 ^ (e + 51) ≤ y := by
  have hreach := reachBelow_le (2 ^ 52) e
  calc (2 : ℚ) ^ (e + 51) = 2 ^ 51 * 2 ^ e := two_zpow_add e 51
    _ ≤ ((2 ^ 52 : Nat) - reachBelow (2 ^ 52) e) * 2 ^ e := by
        gcongr
        push_cast
        linarith
    _ ≤ y := h.low

/-- A fraction that rounds to a double has the bits of that double. -/
theorem Fraction.nearestBits_eq {f : Fraction} (hden : 0 < f.den) (hd : IsDouble m e)
    (h : RoundsToDouble m e f.value) : f.nearestBits = sizeBits m e := by
  have hpos := h.pos hd.pos
  have hnum : f.num ≠ 0 := by
    intro hzero
    rw [value, hzero, Nat.cast_zero, zero_div] at hpos
    exact lt_irrefl _ hpos
  have hmin := sizeBits_lt hd
  have he := hd.le_exponent
  have hhigh := (lt_two_zpow_iff hpos _).mp (h.lt_two_zpow hd.mantissa_lt)
  rw [nearestBits, if_neg hnum]
  simp only [f.binaryExponent_eq_log (Nat.pos_of_ne_zero hnum) hden]
  by_cases hplace : e = -1074 ∨ 2 ^ (e + 52) ≤ f.value
  · have hpower : max (Int.log 2 f.value - 52) (-1074) = e := by
      rw [two_zpow_le_iff hpos] at hplace
      omega
    rw [hpower, f.roundAt_eq hden (by norm_num) h.roundsTo]
    exact min_eq_left hmin.le
  · rw [not_or, not_le] at hplace
    obtain rfl : m = 2 ^ 52 := h.eq_two_pow (hd.normal.resolve_left hplace.1) hplace.2
    have hpower : max (Int.log 2 f.value - 52) (-1074) = e - 1 := by
      have hlow := (two_zpow_le_iff hpos _).mp h.two_zpow_le
      have hbelow := (lt_two_zpow_iff hpos _).mp hplace.2
      omega
    rw [hpower, f.roundAt_eq hden (by norm_num) (h.roundsTo_carry hplace.1 hplace.2)]
    refine Eq.trans (congrArg (min · infinityBits) ?_) (min_eq_left hmin.le)
    rw [if_neg (by norm_num), sizeBits, if_neg (lt_irrefl _)]
    omega

end Decimal
end Plexus
