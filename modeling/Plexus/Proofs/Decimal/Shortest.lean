import Plexus.Decimal.Shortest
import Plexus.Proofs.Decimal.Nearest

/-!
# The fewest digits read back

The decimal that is chosen for a double lies in the interval of the numbers that are rounded to
it, so reading it gives the double back.  Seventeen digits always find such a decimal, since the
interval is wider than their grid.
-/

namespace Plexus
namespace Decimal

variable {x : Float} {negative : Bool} {m : Nat} {e : Int} {y : ℚ}

/-!
## Fields of a double
-/

theorem isDouble_of_finite (h : Binary.ofFloat x = .finite negative m e) (hm : m ≠ 0) :
    IsDouble m e := by
  simp only [Binary.ofFloat] at h
  split_ifs at h with hspecial hfraction hzero
  · injection h with _ hmantissa hexponent
    exact ⟨by omega, by omega, by omega, by omega, Or.inl hexponent.symm⟩
  · injection h with _ hmantissa hexponent
    exact ⟨by omega, by omega, by omega, by omega, Or.inr (by omega)⟩

/-- The bits of a finite double are those of its size and of its sign. -/
theorem toBits_of_finite (h : Binary.ofFloat x = .finite negative m e) :
    x.toBits.toNat = sizeBits m e + if negative then 2 ^ 63 else 0 := by
  have hbits : x.toBits.toNat < 2 ^ 64 := x.toBits.toNat_lt
  simp only [Binary.ofFloat] at h
  split_ifs at h with hspecial hfraction hzero
  · injection h with hsign hmantissa hexponent
    subst hsign
    unfold sizeBits
    simp only [beq_iff_eq]
    split_ifs <;> omega
  · injection h with hsign hmantissa hexponent
    subst hsign
    unfold sizeBits
    simp only [beq_iff_eq]
    split_ifs <;> omega

theorem nearest_eq {f : Fraction} (h : Binary.ofFloat x = .finite negative m e)
    (hbits : f.nearestBits = sizeBits m e) : f.nearest negative = x := by
  rw [Fraction.nearest, hbits, ← toBits_of_finite h, UInt64.ofNat_toNat, Float.ofBits_toBits]

/-!
## The interval of a double
-/

theorem Interval.units_den_pos {i : Interval} (hden : 0 < i.den) (bound : Nat) (p : Int) :
    0 < (i.units bound p).den := by
  unfold units
  split
  · exact Nat.mul_pos hden (Nat.pow_pos (by norm_num))
  · exact hden

theorem Interval.value_units (i : Interval) (bound : Nat) (p : Int) :
    (i.units bound p).value = bound / i.den / 10 ^ p := by
  unfold units
  split
  · next hp =>
    obtain ⟨n, rfl⟩ := Int.eq_ofNat_of_zero_le hp
    simp [Fraction.value, div_div]
  · next hp =>
    obtain ⟨n, hn⟩ := Int.eq_ofNat_of_zero_le (show 0 ≤ -p by omega)
    obtain rfl : p = -(n : Int) := by omega
    simp [Fraction.value, div_eq_mul_inv, mul_right_comm]

theorem Fraction.value_le_iff {f : Fraction} (hden : 0 < f.den) (c : Nat) :
    f.value ≤ c ↔ f.num ≤ c * f.den := by
  rw [value, div_le_iff₀ (Nat.cast_pos.mpr hden)]
  exact_mod_cast Iff.rfl

theorem Fraction.le_value_iff {f : Fraction} (hden : 0 < f.den) (c : Nat) :
    c ≤ f.value ↔ c * f.den ≤ f.num := by
  rw [value, le_div_iff₀ (Nat.cast_pos.mpr hden)]
  exact_mod_cast Iff.rfl

/-- An interval contains what lies between its ends, and the ends if it is closed. -/
theorem Interval.contains_iff {i : Interval} (hden : 0 < i.den) (c : Nat) (p : Int) :
    i.contains c p = true ↔
      if i.closed then (i.low / i.den : ℚ) ≤ c * 10 ^ p ∧ c * 10 ^ p ≤ (i.high / i.den : ℚ)
      else (i.low / i.den : ℚ) < c * 10 ^ p ∧ c * 10 ^ p < (i.high / i.den : ℚ) := by
  have hgrid : (0 : ℚ) < 10 ^ p := by positivity
  have hlow := i.units_den_pos hden i.low p
  have hhigh := i.units_den_pos hden i.high p
  rw [contains]
  cases i.closed
  · simp only [Bool.false_eq_true, if_false, Bool.and_eq_true, decide_eq_true_eq,
      ← not_le, ← Fraction.le_value_iff hlow, ← Fraction.value_le_iff hhigh, value_units,
      le_div_iff₀ hgrid, div_le_iff₀ hgrid]
  · simp only [if_true, Bool.and_eq_true, decide_eq_true_eq, ← Fraction.value_le_iff hlow,
      ← Fraction.le_value_iff hhigh, value_units, le_div_iff₀ hgrid, div_le_iff₀ hgrid]

theorem Fraction.ofDyadic_den_pos (m : Nat) (e : Int) : 0 < (ofDyadic m e).den := by
  unfold ofDyadic
  split
  · exact Nat.one_pos
  · exact Nat.pow_pos (by norm_num)

theorem Fraction.ofDyadic_num_pos (hm : 0 < m) : 0 < (ofDyadic m e).num := by
  unfold ofDyadic
  split
  · exact Nat.mul_pos hm (Nat.pow_pos (by norm_num))
  · exact hm

theorem Interval.around_den_pos (m : Nat) (e : Int) : 0 < (around m e).den :=
  Fraction.ofDyadic_den_pos 1 (e - 2)

theorem quarter_units (k : Nat) (e : Int) :
    ((k * (Fraction.ofDyadic 1 (e - 2)).num : Nat) / (Fraction.ofDyadic 1 (e - 2)).den : ℚ) =
      k / 4 * 2 ^ e := by
  have hstep := Fraction.value_ofDyadic 1 (e - 2)
  rw [Fraction.value, zpow_sub₀ (by norm_num)] at hstep
  rw [Nat.cast_mul, mul_div_assoc, hstep]
  push_cast
  ring

theorem Interval.around_low (hm : 0 < m) :
    ((around m e).low / (around m e).den : ℚ) = (m - reachBelow m e) * 2 ^ e := by
  refine (quarter_units _ e).trans ?_
  unfold reachBelow
  split_ifs <;> rw [Nat.cast_sub (by omega)] <;> push_cast <;> ring

theorem Interval.around_value (m : Nat) (e : Int) :
    ((around m e).value / (around m e).den : ℚ) = m * 2 ^ e := by
  refine (quarter_units _ e).trans ?_
  push_cast
  ring

theorem Interval.around_high (m : Nat) (e : Int) :
    ((around m e).high / (around m e).den : ℚ) = (m + 1 / 2) * 2 ^ e := by
  refine (quarter_units _ e).trans ?_
  push_cast
  ring

/-- What the interval of a double contains is rounded to that double. -/
theorem Interval.contains_around_iff (hm : 0 < m) (c : Nat) (p : Int) :
    (around m e).contains c p = true ↔ RoundsToDouble m e (c * 10 ^ p) := by
  rw [contains_iff (around_den_pos m e), around_low hm, around_high]
  have hclosed : (around m e).closed = true ↔ m % 2 = 0 := beq_iff_eq
  split
  · next heven =>
    rw [hclosed] at heven
    exact ⟨fun h => ⟨h.1, h.2, fun hodd => absurd hodd (by omega)⟩, fun h => ⟨h.low, h.high⟩⟩
  · next hodd =>
    rw [hclosed] at hodd
    exact ⟨fun h => ⟨h.1.le, h.2.le, fun _ => h⟩, fun h => h.odd (by omega)⟩

/-!
## The grids
-/

theorem roundHalfEven_cases (num den : Nat) :
    roundHalfEven num den = num / den ∨ roundHalfEven num den = num / den + 1 := by
  unfold roundHalfEven
  simp only
  split_ifs <;> simp

theorem Interval.contains_of_onGrid {i : Interval} {p : Int} {c : Nat}
    (h : i.onGrid p = some c) : i.contains c p = true := by
  unfold onGrid at h
  simp only at h
  split at h
  · next hbelow habove =>
    injection h with hc
    rw [← hc]
    rcases roundHalfEven_cases (i.units i.value p).num (i.units i.value p).den with hround | hround
    · rw [hround, hbelow]
    · rw [hround, habove]
  · next hbelow _ =>
    injection h with hc
    rw [← hc, hbelow]
  · next _ habove =>
    injection h with hc
    rw [← hc, habove]
  · cases h

theorem Interval.exists_onGrid {i : Interval} {p : Int} {c : Nat}
    (hc : c = (i.units i.value p).num / (i.units i.value p).den)
    (h : i.contains c p = true ∨ i.contains (c + 1) p = true) : ∃ d, i.onGrid p = some d := by
  unfold onGrid
  simp only [← hc]
  split
  · exact ⟨_, rfl⟩
  · exact ⟨_, rfl⟩
  · exact ⟨_, rfl⟩
  · next hbelow habove =>
    rw [hbelow, habove] at h
    simp at h

theorem RoundsToDouble.of_between (hlow : (m - reachBelow m e) * 2 ^ e < y)
    (hhigh : y < (m + 1 / 2) * 2 ^ e) : RoundsToDouble m e y :=
  ⟨hlow.le, hhigh.le, fun _ => ⟨hlow, hhigh⟩⟩

theorem reachBelow_pos (m : Nat) (e : Int) : 0 < reachBelow m e := by
  unfold reachBelow
  split_ifs <;> norm_num

/-- The interval of a double is wider than a grid with seventeen digits of it. -/
theorem IsDouble.grid_lt_width (h : IsDouble m e) {g : ℚ} (hg : g * 10 ^ 16 ≤ m * 2 ^ e) :
    g < (1 / 2 + reachBelow m e) * 2 ^ e := by
  have hunit : (0 : ℚ) < 2 ^ e := by positivity
  have hm : (m : ℚ) ≤ 2 ^ 53 := by exact_mod_cast h.mantissa_lt.le
  unfold reachBelow
  split_ifs with hpower
  · rw [hpower.1] at hg
    push_cast at hg
    linarith
  · nlinarith

theorem IsDouble.exists_onGrid (h : IsDouble m e) {p : Int}
    (hp : (10 : ℚ) ^ (p + 16) ≤ m * 2 ^ e) : ∃ c, (Interval.around m e).onGrid p = some c := by
  have hgrid : (0 : ℚ) < 10 ^ p := by positivity
  have hunit : (0 : ℚ) < 2 ^ e := by positivity
  have hwidth := h.grid_lt_width (g := 10 ^ p) (by
    rw [zpow_add₀ (by norm_num)] at hp
    exact_mod_cast hp)
  have hvalue := (Interval.around m e).value_units (Interval.around m e).value p
  have hden := (Interval.around m e).units_den_pos (Interval.around_den_pos m e)
    (Interval.around m e).value p
  rw [Interval.around_value] at hvalue
  refine Interval.exists_onGrid rfl ?_
  generalize (Interval.around m e).units (Interval.around m e).value p = v at *
  rw [Interval.contains_around_iff h.pos, Interval.contains_around_iff h.pos]
  have hbelow : ((v.num / v.den : Nat) : ℚ) * 10 ^ p ≤ m * 2 ^ e := by
    rw [← le_div_iff₀ hgrid, ← hvalue, Fraction.le_value_iff hden]
    exact Nat.div_mul_le_self v.num v.den
  have habove : (m * 2 ^ e : ℚ) < ((v.num / v.den + 1 : Nat) : ℚ) * 10 ^ p := by
    rw [← div_lt_iff₀ hgrid, ← hvalue, ← not_le, Fraction.le_value_iff hden, not_le, mul_comm]
    exact Nat.lt_mul_div_succ v.num hden
  have hreach := mul_pos (reachBelow_pos m e) hunit
  by_cases hlow : (m - reachBelow m e) * 2 ^ e < ((v.num / v.den : Nat) : ℚ) * 10 ^ p
  · exact Or.inl (RoundsToDouble.of_between hlow (by linarith))
  · refine Or.inr (RoundsToDouble.of_between ?_ ?_) <;> push_cast at * <;> linarith

/-!
## The decimal of a double
-/

theorem digitCount_pos (n : Nat) : 0 < digitCount n := Nat.length_toDigits_pos

theorem lt_pow_digitCount (n : Nat) : n < 10 ^ digitCount n :=
  (Nat.length_toDigits_le_iff (by norm_num) (digitCount_pos n)).mp le_rfl

theorem pow_digitCount_le {n : Nat} (h : 0 < n) : 10 ^ (digitCount n - 1) ≤ n := by
  by_cases hone : digitCount n = 1
  · rw [hone]
    exact h
  · have hpos := digitCount_pos n
    rw [← not_lt, ← Nat.length_toDigits_le_iff (by norm_num) (by omega)]
    exact Nat.not_le.mpr (Nat.sub_lt hpos Nat.one_pos)

theorem Fraction.ten_zpow_neg_le {f : Fraction} (hden : 0 < f.den) {k : Nat}
    (h : f.den ≤ f.num * 10 ^ k) : (10 : ℚ) ^ (-(k : Int)) ≤ f.value := by
  rw [zpow_neg, zpow_natCast, value, le_div_iff₀ (Nat.cast_pos.mpr hden),
    inv_mul_le_iff₀ (by positivity), mul_comm]
  exact_mod_cast h

/-- The power of ten that is found for a fraction does not exceed it. -/
theorem Fraction.decimalExponent_le {f : Fraction} (hnum : 0 < f.num) (hden : 0 < f.den) :
    (10 : ℚ) ^ f.decimalExponent ≤ f.value := by
  unfold decimalExponent
  simp only
  split_ifs with hwhole hexact
  · have hquotient : 0 < f.num / f.den := Nat.div_pos hwhole hden
    have hpower := pow_digitCount_le hquotient
    have hcount := digitCount_pos (f.num / f.den)
    have hlead : (digitCount (f.num / f.den) : Int) - 1 =
        (digitCount (f.num / f.den) - 1 : Nat) := by omega
    rw [hlead, zpow_natCast]
    calc (10 : ℚ) ^ (digitCount (f.num / f.den) - 1) ≤ (f.num / f.den : Nat) := by
          exact_mod_cast hpower
      _ ≤ f.value := (f.le_value_iff hden _).mpr (Nat.div_mul_le_self _ _)
  · exact f.ten_zpow_neg_le hden hexact
  · refine f.ten_zpow_neg_le hden ?_
    calc f.den ≤ f.num * (f.den / f.num + 1) := (Nat.lt_mul_div_succ f.den hnum).le
      _ ≤ f.num * 10 ^ digitCount (f.den / f.num) :=
          Nat.mul_le_mul_left _ (lt_pow_digitCount _)

/-- The number that a decimal is. -/
def Digits.value (d : Digits) : ℚ := d.coefficient * 10 ^ d.exponent

/-- Dropping zeros at the end changes the digits, not the number. -/
theorem Digits.value_trim (fuel : Nat) (d : Digits) : (d.trim fuel).value = d.value := by
  induction fuel generalizing d with
  | zero => rfl
  | succ fuel ih =>
      rw [trim]
      split
      · next h =>
        have hcoefficient : d.coefficient = d.coefficient / 10 * 10 := by omega
        rw [ih, value, value, hcoefficient, zpow_add_one₀ (by norm_num)]
        push_cast
        simp
        ring
      · rfl

/-- The shortest decimal of a double is rounded to that double. -/
theorem IsDouble.roundsToDouble_shortestDigits (h : IsDouble m e) :
    RoundsToDouble m e (shortestDigits m e).value := by
  have hlead := Fraction.decimalExponent_le (Fraction.ofDyadic_num_pos (e := e) h.pos)
    (Fraction.ofDyadic_den_pos m e)
  rw [Fraction.value_ofDyadic] at hlead
  rw [shortestDigits, Digits.value_trim]
  generalize (Fraction.ofDyadic m e).decimalExponent = lead at *
  rcases h.exists_onGrid (p := lead - 16) (by rwa [sub_add_cancel]) with ⟨c, hc⟩
  rcases htries : (List.range 17).findSome? fun (extra : Nat) =>
    ((Interval.around m e).onGrid (lead - (extra : Int))).map fun c =>
      Digits.mk c (lead - (extra : Int)) with _ | d
  · have hnone := List.findSome?_eq_none_iff.mp htries 16 (by decide)
    rw [Nat.cast_ofNat, hc] at hnone
    cases hnone
  · rcases List.exists_of_findSome?_eq_some htries with ⟨extra, -, hextra⟩
    rcases Option.map_eq_some_iff.mp hextra with ⟨c, hc, rfl⟩
    exact (Interval.contains_around_iff h.pos c _).mp (Interval.contains_of_onGrid hc)

/-!
## Reading the decimal
-/

theorem two_pow_lt_ten_pow : (2 : ℚ) ^ 1075 < 10 ^ 400 := by
  calc (2 : ℚ) ^ 1075 = (2 ^ 43) ^ 25 := pow_mul 2 43 25
    _ < (10 ^ 16) ^ 25 := pow_lt_pow_left₀ (by norm_num) (by norm_num) (by norm_num)
    _ = 10 ^ 400 := (pow_mul 10 16 25).symm

theorem RoundsToDouble.least_lt (h : RoundsToDouble m e y) (hd : IsDouble m e) :
    (10 : ℚ) ^ (-400 : Int) < y := by
  have hreach := reachBelow_le m e
  have hm : (1 : ℚ) ≤ m := by exact_mod_cast hd.pos
  calc (10 : ℚ) ^ (-400 : Int) < 2 ^ (-1075 : Int) :=
        inv_strictAnti₀ (by positivity) two_pow_lt_ten_pow
    _ = 1 / 2 * 2 ^ (-1074 : Int) := by
        rw [show (-1075 : Int) = -1074 - 1 by norm_num, zpow_sub_one₀ (by norm_num)]
        ring
    _ ≤ (m - reachBelow m e) * 2 ^ e :=
        mul_le_mul (by linarith) (zpow_le_zpow_right₀ (by norm_num) hd.le_exponent)
          (by positivity) (by linarith)
    _ ≤ y := h.low

theorem RoundsToDouble.lt_greatest (h : RoundsToDouble m e y) (hd : IsDouble m e) :
    y < (10 : ℚ) ^ (400 : Int) := by
  calc y < 2 ^ (e + 53) := h.lt_two_zpow hd.mantissa_lt
    _ ≤ 2 ^ (1075 : Int) :=
        zpow_le_zpow_right₀ (by norm_num) (by linarith [hd.exponent_le])
    _ < 10 ^ (400 : Int) := two_pow_lt_ten_pow

/-- A decimal that is rounded to a double is read as that double. -/
theorem ofDecimal_eq {c : Nat} {k : Int} (h : Binary.ofFloat x = .finite negative m e)
    (hm : m ≠ 0) (hround : RoundsToDouble m e (c * 10 ^ k)) : ofDecimal negative c k = x := by
  have hd := isDouble_of_finite h hm
  have hunit : (0 : ℚ) < 10 ^ k := by positivity
  have hpos := hround.pos hd.pos
  have hc : 0 < c := by exact_mod_cast pos_of_mul_pos_left hpos hunit.le
  have hten : (1 : ℚ) < 10 := by norm_num
  have hlow : -400 < k + (digitCount c : Int) := by
    rw [← zpow_lt_zpow_iff_right₀ hten]
    refine (hround.least_lt hd).trans ?_
    rw [zpow_add₀ (by norm_num), mul_comm, zpow_natCast]
    gcongr
    exact_mod_cast lt_pow_digitCount c
  have hhigh : k + (digitCount c - 1 : Nat) < 400 := by
    rw [← zpow_lt_zpow_iff_right₀ hten]
    refine lt_of_le_of_lt ?_ (hround.lt_greatest hd)
    rw [zpow_add₀ (by norm_num), mul_comm, zpow_natCast]
    gcongr
    exact_mod_cast pow_digitCount_le hc
  have hcount := digitCount_pos c
  rw [ofDecimal, if_neg (by omega), if_neg (by omega)]
  refine nearest_eq h (Fraction.nearestBits_eq ?_ hd ?_)
  · unfold Fraction.ofDecimal
    split
    · exact Nat.one_pos
    · exact Nat.pow_pos (by norm_num)
  · rw [Fraction.value_ofDecimal]
    exact hround

theorem ofDecimal_zero (h : Binary.ofFloat x = .finite negative 0 e) (k : Int) :
    ofDecimal negative 0 k = x := by
  rw [ofDecimal, if_pos (Or.inl rfl)]
  exact nearest_eq h rfl

/-!
## What is not finite
-/

theorem eq_infinity (h : Binary.ofFloat x = .infinite negative) :
    x = if negative then -1.0 / 0.0 else 1.0 / 0.0 := by
  have hbits : x.toBits.toNat = infinityBits + if negative then 2 ^ 63 else 0 := by
    have hlt : x.toBits.toNat < 2 ^ 64 := x.toBits.toNat_lt
    simp only [Binary.ofFloat] at h
    split_ifs at h with hspecial hfraction hzero
    injection h with hsign
    subst hsign
    unfold infinityBits
    simp only [beq_iff_eq]
    split_ifs <;> omega
  rw [← Float.ofBits_toBits x, ← UInt64.ofNat_toNat (x := x.toBits), hbits]
  cases negative <;> decide +kernel

open Float.Model Float.Model.UnpackedFloat in
/-- There is one double only that is not a number. -/
theorem eq_nan (h : Binary.ofFloat x = .nan) : x = 0.0 / 0.0 := by
  have hvalid := x.toModel.valid
  simp only [Binary.ofFloat] at h
  split_ifs at h with hspecial hfraction hzero
  have hexponent : (@unpackExponent .binary64 x.toBits.toBitVec).toNat = 2047 := by
    rw [unpackExponent_def, BitVec.extractLsb'_toNat, Nat.shiftRight_eq_div_pow]
    exact hspecial
  have hmantissa : (@unpackMantissa .binary64 x.toBits.toBitVec).toNat ≠ 0 := by
    rw [unpackMantissa_def, BitVec.extractLsb'_toNat, Nat.shiftRight_zero]
    exact hfraction
  have hpacked : x.toBits.toBitVec = packedNaN .binary64 := by
    refine hvalid.eq_packedNaN ?_ ?_
    · exact BitVec.eq_of_toNat_eq hexponent
    · intro hzero
      exact hmantissa (congrArg BitVec.toNat hzero)
  exact Float.toBits_inj.mp (UInt64.toBitVec_inj.mp hpacked)

end Decimal
end Plexus
