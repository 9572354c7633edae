import Plexus.Decimal.Render
import Plexus.Json.Reader
import Plexus.Proofs.Decimal.Shortest

/-!
# Numbers in JSON

A double is read back from its shortest text: the digits, the point and the exponent are taken
apart as they were put together, and the decimal that they stand for is that of the double.
-/

namespace Plexus

namespace Decimal

/-!
## Digits
-/

theorem natOfDigits_toDigits (n : Nat) : natOfDigits (Nat.toDigits 10 n) = n :=
  Nat.ofDigitChars_toDigits (by decide) (by decide)

theorem isDigit_of_mem_toDigits {n : Nat} {c : Char} (h : c ∈ Nat.toDigits 10 n) :
    isDigit c = true :=
  Nat.isDigit_of_mem_toDigits (by decide) (by decide) h

theorem isDigit_of_mem_replicate {k : Nat} {c : Char} (h : c ∈ List.replicate k '0') :
    isDigit c = true := by
  rw [List.eq_of_mem_replicate h]
  rfl

theorem natOfDigits_replicate_append (k : Nat) (cs : List Char) :
    natOfDigits (List.replicate k '0' ++ cs) = natOfDigits cs := by
  induction k with
  | zero => rfl
  | succ k ih =>
      rw [List.replicate_succ, List.cons_append]
      exact ih

theorem natOfDigits_append_replicate (cs : List Char) (k : Nat) :
    natOfDigits (cs ++ List.replicate k '0') = natOfDigits cs * 10 ^ k := by
  induction k with
  | zero => simp
  | succ k ih =>
      rw [List.replicate_succ', ← List.append_assoc, natOfDigits, List.foldl_append, ← natOfDigits,
        ih]
      show 10 * (natOfDigits cs * 10 ^ k) + 0 = _
      rw [Nat.pow_succ]
      ring

theorem head_toDigits {n : Nat} (h : n ≠ 0) : (Nat.toDigits 10 n).head? ≠ some '0' := by
  induction n using Nat.strong_induction_on with
  | _ n ih =>
      rw [Nat.toDigits_eq_if (by decide)]
      split
      · next hlt =>
        interval_cases n <;> simp_all
      · next hge =>
        rw [List.head?_append_of_ne_nil _ Nat.toDigits_ne_nil]
        exact ih (n / 10) (by omega) (by omega)

theorem digits_padded (width n : Nat) : ∀ c ∈ padded width n, isDigit c = true := by
  intro c hc
  rcases List.mem_append.mp hc with hzero | hdigit
  · exact isDigit_of_mem_replicate hzero
  · exact isDigit_of_mem_toDigits hdigit

theorem natOfDigits_padded (width n : Nat) : natOfDigits (padded width n) = n :=
  (natOfDigits_replicate_append _ _).trans (natOfDigits_toDigits n)

theorem padded_ne_nil (width n : Nat) : padded width n ≠ [] := by
  intro h
  exact Nat.toDigits_ne_nil (List.append_eq_nil_iff.mp h).2

end Decimal

namespace Json

open Decimal

variable {ds whole part tail after rest : List Char}

/-!
## Parts of a numeral
-/

/-- A text that does not go on with a digit. -/
def Broken (cs : List Char) : Prop := ∀ c ∈ cs.head?, isDigit c = false

/-- What may follow a value: nothing, a comma or a line break. -/
def Ends : List Char → Prop
  | [] => True
  | c :: _ => c = ',' ∨ c = '\n'

theorem broken_cons {c : Char} (hc : isDigit c = false) (cs : List Char) : Broken (c :: cs) := by
  intro d hd
  obtain rfl := Option.some.inj hd
  exact hc

theorem Ends.broken (h : Ends rest) : Broken rest := by
  cases rest with
  | nil => exact fun c hc => by cases hc
  | cons c rest => rcases h with rfl | rfl <;> exact broken_cons rfl rest

theorem takeWhile_digits (hds : ∀ c ∈ ds, isDigit c = true) (hrest : Broken rest) :
    (ds ++ rest).takeWhile isDigit = ds := by
  rw [List.takeWhile_append_of_pos hds]
  cases rest with
  | nil => exact List.append_nil ds
  | cons c rest =>
      rw [List.takeWhile_cons_of_neg (by rw [hrest c rfl]; decide), List.append_nil]

theorem dropWhile_digits (hds : ∀ c ∈ ds, isDigit c = true) (hrest : Broken rest) :
    (ds ++ rest).dropWhile isDigit = rest := by
  rw [List.dropWhile_append_of_pos hds]
  cases rest with
  | nil => rfl
  | cons c rest => exact List.dropWhile_cons_of_neg (by rw [hrest c rfl]; decide)

theorem fractionDigits_point (hpart : ∀ c ∈ part, isDigit c = true) (hne : part ≠ [])
    (hafter : Broken after) : fractionDigits ('.' :: (part ++ after)) = (part, after) := by
  rw [fractionDigits]
  simp only [takeWhile_digits hpart hafter, dropWhile_digits hpart hafter]
  rw [if_neg]
  rwa [List.isEmpty_iff]

theorem exponentDigits_of_ends (h : Ends rest) : exponentDigits rest = (none, rest) := by
  cases rest with
  | nil => rfl
  | cons c rest =>
      rw [exponentDigits]
      rcases h with rfl | rfl <;> exact if_neg (by simp)

theorem toList_exponentText (e : Int) :
    (exponentText e).toList = (if e < 0 then '-' else '+') :: padded 2 e.natAbs := by
  rw [exponentText, String.toList_append, String.toList_ofList]
  split <;> rfl

theorem splitSign_exponent (e : Int) (cs : List Char) :
    splitSign ((if e < 0 then '-' else '+') :: cs) = (decide (e < 0), cs) := by
  split
  · next h => rw [decide_eq_true h, splitSign]
  · next h => rw [decide_eq_false h, splitSign]

theorem ite_natAbs (n : Int) :
    (if decide (n < 0) = true then -(n.natAbs : Int) else n.natAbs) = n := by
  simp only [decide_eq_true_eq]
  split <;> omega

/-- The exponent of a numeral is read back from its text. -/
theorem exponentDigits_exponentText (e : Int) (h : Ends rest) :
    exponentDigits ('e' :: ((exponentText e).toList ++ rest)) = (some e, rest) := by
  have hne : (padded 2 e.natAbs).isEmpty = false := by
    rw [List.isEmpty_eq_false_iff]
    exact padded_ne_nil 2 e.natAbs
  rw [toList_exponentText, List.cons_append, exponentDigits]
  simp only [splitSign_exponent, takeWhile_digits (digits_padded 2 e.natAbs) h.broken,
    dropWhile_digits (digits_padded 2 e.natAbs) h.broken, hne, natOfDigits_padded, ite_natAbs]
  rfl

/-!
## Numerals
-/

/-- The digits before the point of a numeral: a zero in front stands alone. -/
structure IsWhole (whole : List Char) : Prop where
  digits : ∀ c ∈ whole, isDigit c = true
  ne_nil : whole ≠ []
  zero : whole.head? = some '0' → whole = ['0']

theorem IsWhole.run_eq (h : IsWhole whole) :
    (if whole.head? = some '0' then ['0'] else whole) = whole := by
  split
  · next hzero => exact (h.zero hzero).symm
  · rfl

theorem IsWhole.not_isEmpty (h : IsWhole whole) : ¬whole.isEmpty = true := by
  rw [List.isEmpty_iff]
  exact h.ne_nil

/-- A numeral with a point or an exponent is read as the decimal of its parts. -/
theorem unsignedNumber_real (negative : Bool) {exponent : Option Int} (hwhole : IsWhole whole)
    (htail : Broken tail)
    (hpart : fractionDigits tail = (part, after))
    (hexponent : exponentDigits after = (exponent, rest))
    (hreal : part ≠ [] ∨ exponent ≠ none) :
    unsignedNumber negative (whole ++ tail) =
      .ok (.real (ofDecimal negative (natOfDigits (whole ++ part))
        (exponent.getD 0 - (part.length : Int))), rest) := by
  have hreal' : ¬(part.isEmpty = true ∧ exponent.isNone = true) := by
    rw [List.isEmpty_iff, Option.isNone_iff_eq_none]
    tauto
  rw [unsignedNumber]
  simp only [takeWhile_digits hwhole.digits htail, hwhole.run_eq, List.drop_left, hpart, hexponent,
    if_neg hwhole.not_isEmpty, if_neg hreal']

theorem isWhole_zero : IsWhole ['0'] := by
  refine ⟨fun c hc => ?_, List.cons_ne_nil _ _, fun _ => rfl⟩
  obtain rfl := List.mem_singleton.mp hc
  rfl

/-- Digits of a positive number, with more digits after them. -/
theorem isWhole_append {n : Nat} (hn : n ≠ 0) {count : Nat} (hcount : 0 < count) (zeros : Nat) :
    IsWhole ((Nat.toDigits 10 n).take count ++ List.replicate zeros '0') := by
  have hne : (Nat.toDigits 10 n).take count ≠ [] := by
    rw [Ne, List.take_eq_nil_iff, not_or]
    exact ⟨Nat.pos_iff_ne_zero.mp hcount, Nat.toDigits_ne_nil⟩
  refine ⟨?_, List.append_ne_nil_of_left_ne_nil hne _, fun hzero => ?_⟩
  · intro c hc
    rcases List.mem_append.mp hc with hdigit | hzero
    · exact isDigit_of_mem_toDigits (List.mem_of_mem_take hdigit)
    · exact isDigit_of_mem_replicate hzero
  · rw [List.head?_append_of_ne_nil _ hne, List.head?_take, if_neg (Nat.pos_iff_ne_zero.mp hcount)]
      at hzero
    exact absurd hzero (head_toDigits hn)

/-- A decimal in positional notation has digits on both sides of a point, which stand for it. -/
theorem positional_parts {d : Digits} (hd : d.coefficient ≠ 0) :
    ∃ whole part, positional (Nat.toDigits 10 d.coefficient)
        (d.exponent + ((Nat.toDigits 10 d.coefficient).length : Int) - 1) = whole ++ '.' :: part ∧
      IsWhole whole ∧ (∀ c ∈ part, isDigit c = true) ∧ part ≠ [] ∧
      (natOfDigits (whole ++ part) * 10 ^ (-(part.length : Int)) : ℚ) = d.value := by
  have hwhole := fun (count zeros : Nat) (hcount : 0 < count) => isWhole_append hd hcount zeros
  have hvalue : natOfDigits (Nat.toDigits 10 d.coefficient) = d.coefficient :=
    natOfDigits_toDigits _
  have hall : ∀ c ∈ Nat.toDigits 10 d.coefficient, isDigit c = true :=
    fun c hc => isDigit_of_mem_toDigits hc
  have hpos : 0 < (Nat.toDigits 10 d.coefficient).length := Nat.length_toDigits_pos
  generalize Nat.toDigits 10 d.coefficient = digits at *
  unfold positional
  split_ifs with hlead
  · -- Zeros stand between the point and the digits.
    generalize hzeros : (-(d.exponent + (digits.length : Int) - 1)).toNat - 1 = zeros
    refine ⟨['0'], List.replicate zeros '0' ++ digits, rfl, isWhole_zero, ?_, ?_, ?_⟩
    · intro c hc
      rcases List.mem_append.mp hc with hzero | hdigit
      · exact isDigit_of_mem_replicate hzero
      · exact hall c hdigit
    · exact List.append_ne_nil_of_right_ne_nil _ (List.length_pos_iff.mp hpos)
    · have hexponent : -((List.replicate zeros '0' ++ digits).length : Int) = d.exponent := by
        rw [List.length_append, List.length_replicate]
        omega
      rw [hexponent, ← List.append_assoc, Digits.value, ← hvalue]
      exact congrArg (fun n : Nat => (n * 10 ^ d.exponent : ℚ))
        (natOfDigits_replicate_append (zeros + 1) digits)
  · simp only
    generalize hwidth : (d.exponent + (digits.length : Int) - 1).toNat + 1 = width
    split_ifs with hmore
    · -- The digits end before the point: zeros fill the gap, and one stands after the point.
      have hlength : digits.length ≤ width := List.drop_eq_nil_iff.mp (List.isEmpty_iff.mp hmore)
      have hexponent : d.exponent = ((width - digits.length : Nat) : Int) := by omega
      refine ⟨_, ['0'], rfl, hwhole width _ (by omega), isWhole_zero.digits,
        List.cons_ne_nil _ _, ?_⟩
      rw [List.take_of_length_le hlength, List.append_assoc, ← List.replicate_succ',
        natOfDigits_append_replicate, hvalue, Digits.value, hexponent, zpow_natCast, pow_succ]
      push_cast
      simp [mul_assoc]
    · -- The point stands among the digits.
      rw [List.isEmpty_iff] at hmore
      refine ⟨_, digits.drop width, rfl, hwhole width _ (by omega),
        fun c hc => hall c (List.mem_of_mem_drop hc), hmore, ?_⟩
      rw [List.drop_eq_nil_iff, not_le] at hmore
      have hgap : width - digits.length = 0 := by omega
      have hexponent : -((digits.drop width).length : Int) = d.exponent := by
        rw [List.length_drop]
        omega
      rw [hexponent, hgap, List.replicate_zero, List.append_nil, List.take_append_drop, hvalue,
        Digits.value]

/-- A point stands after the first digit if there are more. -/
theorem pointAfterFirst_parts (c : Char) (hpart : ∀ d ∈ part, isDigit d = true)
    (after : List Char) :
    ∃ tail, pointAfterFirst (c :: part) ++ 'e' :: after = [c] ++ tail ∧ Broken tail ∧
      fractionDigits tail = (part, 'e' :: after) := by
  cases part with
  | nil => exact ⟨'e' :: after, rfl, broken_cons rfl after, rfl⟩
  | cons d part =>
      exact ⟨'.' :: (d :: part ++ 'e' :: after), rfl, broken_cons rfl _,
        fractionDigits_point hpart (List.cons_ne_nil _ _) (broken_cons rfl after)⟩

/-- A decimal is read back from its text as the number that it is. -/
theorem unsignedNumber_write (s : Spelling) (negative : Bool) {d : Digits}
    (hd : d.coefficient ≠ 0) (h : Ends rest) :
    ∃ c k, unsignedNumber negative (s.write d ++ rest) =
      .ok (.real (ofDecimal negative c k), rest) ∧ (c * 10 ^ k : ℚ) = d.value := by
  rw [Spelling.write]
  split_ifs
  · rcases positional_parts hd with ⟨whole, part, htext, hwhole, hpart, hne, hvalue⟩
    refine ⟨_, _, ?_, hvalue⟩
    have hread := unsignedNumber_real negative hwhole (broken_cons rfl _)
      (fractionDigits_point hpart hne h.broken) (exponentDigits_of_ends h) (Or.inl hne)
    rw [htext, List.append_assoc, List.cons_append, hread, Option.getD_none, zero_sub]
  · have hwhole := isWhole_append hd Nat.one_pos 0
    have hvalue : natOfDigits (Nat.toDigits 10 d.coefficient) = d.coefficient :=
      natOfDigits_toDigits _
    have hall : ∀ c ∈ Nat.toDigits 10 d.coefficient, isDigit c = true :=
      fun c hc => isDigit_of_mem_toDigits hc
    rcases List.exists_cons_of_ne_nil (Nat.toDigits_ne_nil (n := d.coefficient) (b := 10))
      with ⟨c, part, hdigits⟩
    rw [hdigits] at hwhole hvalue hall ⊢
    generalize hlead : d.exponent + ((c :: part).length : Int) - 1 = lead
    rcases pointAfterFirst_parts c (fun d hd => hall d (List.mem_cons_of_mem c hd))
      ((exponentText lead).toList ++ rest) with ⟨tail, htext, htail, hpart⟩
    have hread := unsignedNumber_real negative hwhole htail hpart
      (exponentDigits_exponentText lead h) (Or.inr (Option.some_ne_none lead))
    rw [List.replicate_zero, List.append_nil, List.take_succ_cons, List.take_zero] at hread
    rw [List.append_assoc, List.cons_append, htext, hread]
    refine ⟨_, _, rfl, ?_⟩
    have hexponent : (some lead).getD 0 - (part.length : Int) = d.exponent := by
      rw [List.length_cons] at hlead
      rw [Option.getD_some]
      omega
    rw [hexponent, List.singleton_append, hvalue, Digits.value]

/-!
## Words and numbers
-/

theorem isPrefixOf_of_ne {a c : Char} (h : a ≠ c) (word cs : List Char) :
    (a :: word).isPrefixOf (c :: cs) = false := by
  rw [List.isPrefixOf_cons_cons, beq_eq_false_iff_ne.mpr h, Bool.false_and]

theorem ne_of_isDigit {a c : Char} (hc : isDigit c = true) (ha : isDigit a = false) : a ≠ c := by
  rintro rfl
  rw [hc] at ha
  cases ha

theorem findSome?_words_eq_none {cs : List Char} (h : ∀ p ∈ words, p.1.isPrefixOf cs = false) :
    (words.findSome? fun (word, v) => (afterWord word cs).map fun rest => (v, rest)) = none := by
  rw [List.findSome?_eq_none_iff]
  rintro ⟨word, v⟩ hp
  have hword : afterWord word cs = none := by
    rw [afterWord, h _ hp, if_neg Bool.false_ne_true]
  simp only [hword, Option.map_none]

/-- A numeral without a sign is no word. -/
theorem atom_of_isDigit {c : Char} (hc : isDigit c = true) (cs : List Char) :
    atom (c :: cs) = unsignedNumber false (c :: cs) := by
  have hminus : c ≠ '-' := (ne_of_isDigit hc rfl).symm
  have hwords : ∀ p ∈ words, p.1.isPrefixOf (c :: cs) = false := by
    intro p hp
    fin_cases hp <;> exact isPrefixOf_of_ne (ne_of_isDigit hc rfl) _ _
  rw [atom, findSome?_words_eq_none hwords]
  exact fun rest heq => hminus (List.cons.inj heq).1

/-- A numeral with a minus sign is no word: it goes on with a digit, not as infinity does. -/
theorem atom_minus {c : Char} (hc : isDigit c = true) (cs : List Char) :
    atom ('-' :: c :: cs) = unsignedNumber true (c :: cs) := by
  have hwords : ∀ p ∈ words, p.1.isPrefixOf ('-' :: c :: cs) = false := by
    intro p hp
    rcases List.mem_append.mp (show p ∈ words.take 5 ++ words.drop 5 from hp) with hp | hp
    · fin_cases hp <;> exact isPrefixOf_of_ne (by decide) _ _
    · obtain rfl := List.mem_singleton.mp hp
      exact isPrefixOf_of_ne (ne_of_isDigit hc rfl) _ _
  rw [atom, findSome?_words_eq_none hwords]

theorem atom_signed {c : Char} (hc : isDigit c = true) (negative : Bool) (cs : List Char) :
    atom ((sign negative).toList ++ c :: cs) = unsignedNumber negative (c :: cs) := by
  cases negative
  · exact atom_of_isDigit hc cs
  · exact atom_minus hc cs

theorem exists_write_eq_cons (s : Spelling) {d : Digits} (hd : d.coefficient ≠ 0) :
    ∃ c cs, s.write d = c :: cs ∧ isDigit c = true := by
  rw [Spelling.write]
  split_ifs
  · rcases positional_parts hd with ⟨whole, part, htext, hwhole, -⟩
    rcases List.exists_cons_of_ne_nil hwhole.ne_nil with ⟨c, cs, rfl⟩
    exact ⟨c, _, htext, hwhole.digits c List.mem_cons_self⟩
  · rcases List.exists_cons_of_ne_nil (Nat.toDigits_ne_nil (n := d.coefficient) (b := 10))
      with ⟨c, part, hdigits⟩
    have hc : isDigit c = true := isDigit_of_mem_toDigits (hdigits ▸ List.mem_cons_self)
    rw [hdigits]
    cases part with
    | nil => exact ⟨c, _, rfl, hc⟩
    | cons d part => exact ⟨c, _, rfl, hc⟩

theorem coefficient_ne_zero {m : Nat} {e : Int} (hd : IsDouble m e) :
    (shortestDigits m e).coefficient ≠ 0 := by
  intro hzero
  have hpos := hd.roundsToDouble_shortestDigits.pos hd.pos
  rw [Digits.value, hzero, Nat.cast_zero, zero_mul] at hpos
  exact lt_irrefl _ hpos

/-- A double is read back from its text. -/
theorem atom_shortest (x : Float) (h : Ends rest) :
    atom ((shortest .document x).toList ++ rest) = .ok (.real x, rest) := by
  rw [shortest, withSign]
  cases hx : Binary.ofFloat x with
  | nan =>
      rw [eq_nan hx]
      rfl
  | infinite negative =>
      rw [eq_infinity hx]
      cases negative <;> rfl
  | finite negative m e =>
      simp only
      split_ifs with hm
      · subst hm
        rw [String.toList_append, List.append_assoc]
        have hread := unsignedNumber_real negative isWhole_zero (broken_cons rfl _)
          (fractionDigits_point isWhole_zero.digits isWhole_zero.ne_nil h.broken)
          (exponentDigits_of_ends h) (Or.inl isWhole_zero.ne_nil)
        refine (atom_signed rfl negative _).trans (hread.trans ?_)
        rw [show natOfDigits (['0'] ++ ['0']) = 0 from rfl, ofDecimal_zero hx]
      · have hd := isDouble_of_finite hx hm
        have hcoefficient := coefficient_ne_zero hd
        rcases exists_write_eq_cons .document hcoefficient with ⟨c, cs, htext, hc⟩
        rcases unsignedNumber_write .document negative hcoefficient h with
          ⟨n, k, hread, hvalue⟩
        rw [String.toList_append, String.toList_ofList, List.append_assoc, htext, List.cons_append,
          atom_signed hc, ← List.cons_append, ← htext, hread,
          ofDecimal_eq hx hm (hvalue ▸ hd.roundsToDouble_shortestDigits)]

/-!
## Whole numbers
-/

theorem isWhole_toDigits (n : Nat) : IsWhole (Nat.toDigits 10 n) := by
  by_cases hn : n = 0
  · rw [hn]
    exact isWhole_zero
  · refine ⟨fun c hc => isDigit_of_mem_toDigits hc, Nat.toDigits_ne_nil, fun hzero => ?_⟩
    exact absurd hzero (head_toDigits hn)

theorem fractionDigits_of_ends (h : Ends rest) : fractionDigits rest = ([], rest) := by
  cases rest with
  | nil => rfl
  | cons c rest => rcases h with rfl | rfl <;> rfl

theorem unsignedNumber_whole (negative : Bool) {n : Nat}
    (hlength : (Nat.toDigits 10 n).length ≤ maxDigits) (h : Ends rest) :
    unsignedNumber negative (Nat.toDigits 10 n ++ rest) =
      .ok (.int (if negative then -n else n), rest) := by
  have hwhole := isWhole_toDigits n
  rw [unsignedNumber]
  simp only [takeWhile_digits hwhole.digits h.broken, hwhole.run_eq, List.drop_left,
    fractionDigits_of_ends h, exponentDigits_of_ends h, if_neg hwhole.not_isEmpty,
    if_neg (Nat.not_lt.mpr hlength), natOfDigits_toDigits]
  rfl

theorem toList_toString (n : Int) :
    (toString n).toList = (sign (decide (n < 0))).toList ++ Nat.toDigits 10 n.natAbs := by
  rw [Int.toString_eq_repr, Int.repr_eq_if]
  split
  · next h =>
    rw [decide_eq_false (by omega), Nat.repr_eq_ofList_toDigits, String.toList_ofList,
      show n.toNat = n.natAbs by omega]
    rfl
  · next h =>
    rw [decide_eq_true (by omega), String.toList_append, Nat.repr_eq_ofList_toDigits,
      String.toList_ofList, String.toList_ofList, show (-n).toNat = n.natAbs by omega]
    rfl

/-- A whole number is read back from its digits, unless it has too many. -/
theorem atom_int {n : Int} (hlength : (Nat.toDigits 10 n.natAbs).length ≤ maxDigits)
    (h : Ends rest) : atom ((toString n).toList ++ rest) = .ok (.int n, rest) := by
  rcases List.exists_cons_of_ne_nil (Nat.toDigits_ne_nil (n := n.natAbs) (b := 10))
    with ⟨c, cs, hdigits⟩
  have hc : isDigit c = true := isDigit_of_mem_toDigits (hdigits ▸ List.mem_cons_self)
  rw [toList_toString, List.append_assoc, hdigits, List.cons_append, atom_signed hc,
    ← List.cons_append, ← hdigits, unsignedNumber_whole _ hlength h, ite_natAbs]

end Json
end Plexus
