import Mathlib.Tactic.SplitIfs
import Plexus.Json.Reader
import Plexus.Json.Writer

/-!
# Strings in JSON

A character is read back from the way in which it is written inside a string, whatever follows:
as it is, by a one-letter escape, by the four digits of its code, or by those of the two halves
of its code.  A text of plain characters is therefore read back from between its marks.
-/

namespace Plexus

namespace Text

variable {c : Char} {n : Nat}

/-!
## Halves
-/

theorem toNat_lt (c : Char) : c.toNat < 0x110000 := by
  have hvalid : c.toNat.isValidChar := c.valid
  unfold Nat.isValidChar at hvalid
  omega

theorem isHalf_toNat (c : Char) : isHalf c.toNat = false := by
  have hvalid : c.toNat.isValidChar := c.valid
  unfold Nat.isValidChar at hvalid
  simp only [isHalf, isHighHalf, isLowHalf, Bool.or_eq_false_iff, Bool.and_eq_false_iff,
    decide_eq_false_iff_not]
  omega

theorem isHalf_highHalf (h : n < 0x110000) : isHalf (highHalf n) = true := by
  rw [isHalf, isHighHalf_highHalf h, Bool.true_or]

theorem isHalf_lowHalf (n : Nat) : isHalf (lowHalf n) = true := by
  rw [isHalf, isLowHalf_lowHalf, Bool.or_true]

theorem bounds_of_isHalf (h : isHalf n = true) : 0xd800 ≤ n ∧ n < 0xe000 := by
  simp only [isHalf, isHighHalf, isLowHalf, Bool.or_eq_true, Bool.and_eq_true,
    decide_eq_true_eq] at h
  omega

theorem toNat_half (h : isHalf n = true) : (half n).toNat = halfOffset + n := by
  have hbounds := bounds_of_isHalf h
  have hvalid : (halfOffset + n).isValidChar := by
    unfold halfOffset Nat.isValidChar
    omega
  rw [half, Char.ofNat, dif_pos hvalid]
  rfl

theorem half?_half (h : isHalf n = true) : half? (half n) = some n := by
  simp only [half?]
  rw [toNat_half h, Nat.add_sub_cancel_left, if_pos h]

theorem toNat_of_isSome_half? (h : (half? c).isSome = true) : 0x10d800 ≤ c.toNat := by
  simp only [half?] at h
  split at h
  · next hhalf =>
    have hbounds := bounds_of_isHalf hhalf
    unfold halfOffset at hbounds
    omega
  · cases h

/-- A plain character stands for itself, unless it is one of those that halves stand as. -/
theorem ofCode_toNat (c : Char) :
    ofCode c.toNat =
      if (half? c).isSome then [half (highHalf c.toNat), half (lowHalf c.toNat)] else [c] := by
  rw [ofCode, isHalf_toNat, if_neg Bool.false_ne_true]
  simp only [Char.ofNat_toNat]

/-!
## Hexadecimal digits
-/

theorem hex_one (h : n < 16) : hex 1 n = [Nat.digitChar n] := by
  rw [hex, Nat.toDigits_of_lt_base h]
  rfl

/-- The last digit is that of the remainder. -/
theorem hex_succ (width n : Nat) :
    hex (width + 2) n = hex (width + 1) (n / 16) ++ [Nat.digitChar (n % 16)] := by
  simp only [hex]
  by_cases h : n < 16
  · rw [Nat.toDigits_of_lt_base h, Nat.div_eq_of_lt h, Nat.mod_eq_of_lt h, Nat.toDigits_zero]
    show List.replicate (width + 1) '0' ++ _ = List.replicate width '0' ++ ['0'] ++ _
    rw [List.replicate_succ']
  · have hpad : ∀ k, width + 2 - (k + 1) = width + 1 - k := fun k => by omega
    rw [Nat.toDigits_of_base_le (by decide) (Nat.not_lt.mp h), List.length_append,
      List.length_singleton, hpad, List.append_assoc]

end Text

namespace Json

open Text

variable {c : Char} {n : Nat}

theorem hexValue?_digitChar : ∀ n < 16, hexValue? (Nat.digitChar n) = some n := by
  decide

/-- A code of sixteen bits is read back from its four digits. -/
theorem hexQuad?_hex (h : n < 0x10000) :
    ∃ a b c d, Text.hex 4 n = [a, b, c, d] ∧ hexQuad? a b c d = some n := by
  refine ⟨Nat.digitChar (n / 16 / 16 / 16), Nat.digitChar (n / 16 / 16 % 16),
    Nat.digitChar (n / 16 % 16), Nat.digitChar (n % 16), ?_, ?_⟩
  · rw [hex_succ, hex_succ, hex_succ, hex_one (by omega)]
    rfl
  · have hdigit := fun n => hexValue?_digitChar (n % 16) (Nat.mod_lt n (by decide))
    rw [hexQuad?, hexValue?_digitChar _ (by omega), hdigit, hdigit, hdigit]
    refine congrArg some ?_
    omega

/-!
## Reading a string
-/

theorem stringBody_shortEscape {e : Char} (h : shortEscape? c = some e) (rest : List Char) :
    stringBody ('\\' :: c :: rest) = andThen [e] (stringBody rest) := by
  have hcode : c ≠ 'u' := by
    rintro rfl
    cases h
  rw [stringBody, h]
  · exact fun _ _ _ _ _ _ _ _ _ hc => absurd hc hcode
  · exact fun _ _ _ _ _ hc => absurd hc hcode

theorem stringBody_plain (hmark : c ≠ '"') (hslash : c ≠ '\\') (hspace : ¬ c < ' ')
    (rest : List Char) :
    stringBody (c :: rest) = andThen [c] (stringBody rest) := by
  rw [stringBody, if_neg hspace]
  · exact hmark
  · exact fun _ _ _ _ _ _ _ _ _ hc => absurd hc hslash
  · exact fun _ _ _ _ _ hc => absurd hc hslash
  · exact fun _ _ hc => absurd hc hslash

theorem stringBody_badCode {a b c d : Char} (h : hexQuad? a b c d = none) (rest : List Char) :
    stringBody ('\\' :: 'u' :: a :: b :: c :: d :: rest) = none := by
  by_cases hnext : ∃ e f g h more, rest = '\\' :: 'u' :: e :: f :: g :: h :: more
  · rcases hnext with ⟨e, f, g, h', more, rfl⟩
    rw [stringBody, h]
  · rw [stringBody, h]
    exact fun e f g h more hrest => hnext ⟨e, f, g, h, more, hrest⟩

/-- A code that is no high half is taken on its own, whatever follows. -/
theorem stringBody_codeEscape (hn : n < 0x10000) (hhigh : isHighHalf n = false)
    (rest : List Char) :
    stringBody (codeEscape n ++ rest) = andThen (ofCode n) (stringBody rest) := by
  rcases hexQuad?_hex hn with ⟨a, b, c, d, hhex, hquad⟩
  rw [codeEscape, hhex]
  show stringBody ('\\' :: 'u' :: a :: b :: c :: d :: rest) = _
  by_cases hnext : ∃ e f g h more, rest = '\\' :: 'u' :: e :: f :: g :: h :: more
  · rcases hnext with ⟨e, f, g, h, more, rfl⟩
    rw [stringBody, hquad]
    cases hfollowing : hexQuad? e f g h with
    | some m =>
        simp only [hhigh, Bool.false_and, if_neg Bool.false_ne_true]
    | none =>
        rw [stringBody_badCode hfollowing]
        rfl
  · rw [stringBody, hquad]
    exact fun e f g h more hrest => hnext ⟨e, f, g, h, more, hrest⟩

/-- The halves of a code are taken together. -/
theorem stringBody_halves (hwide : 0x10000 ≤ n) (hn : n < 0x110000) (rest : List Char) :
    stringBody (codeEscape (highHalf n) ++ (codeEscape (lowHalf n) ++ rest)) =
      andThen (ofCode n) (stringBody rest) := by
  have hhigh := (bounds_of_isHalf (isHalf_highHalf hn)).2
  have hlow := (bounds_of_isHalf (isHalf_lowHalf n)).2
  rcases hexQuad?_hex (n := highHalf n) (by omega) with ⟨a, b, c, d, hhex, hquad⟩
  rcases hexQuad?_hex (n := lowHalf n) (by omega) with ⟨e, f, g, h, hhex', hquad'⟩
  rw [codeEscape, codeEscape, hhex, hhex']
  show stringBody ('\\' :: 'u' :: a :: b :: c :: d :: '\\' :: 'u' :: e :: f :: g :: h :: rest) = _
  rw [stringBody, hquad, hquad']
  simp only [isHighHalf_highHalf hn, isLowHalf_lowHalf, Bool.and_self, if_true,
    joinHalves_split hwide]

/-!
## Writing a character
-/

theorem writeChar_half (h : isHalf n = true) : writeChar (half n) = codeEscape n := by
  have hwide := toNat_half h
  unfold halfOffset at hwide
  have hne : ∀ d : Char, d.toNat < 0x100000 → half n ≠ d := by
    rintro d hd rfl
    omega
  have hprintable : ¬(' ' ≤ half n ∧ half n ≤ '~') := fun hbetween => by
    have hle : (half n).toNat ≤ 0x7e := hbetween.2
    omega
  rw [writeChar, if_neg (hne _ (by decide)), if_neg (hne _ (by decide)),
    if_neg (hne _ (by decide)), if_neg (hne _ (by decide)), if_neg (hne _ (by decide)),
    if_neg (hne _ (by decide)), if_neg (hne _ (by decide)), if_neg hprintable, half?_half h]

/-- A plain character that does not stand for a half is read back as itself. -/
theorem stringBody_writeChar (h : half? c = none) (rest : List Char) :
    stringBody (writeChar c ++ rest) = andThen [c] (stringBody rest) := by
  have hcode : ofCode c.toNat = [c] := by
    rw [ofCode_toNat, h]
    rfl
  have hhigh : isHighHalf c.toNat = false := (Bool.or_eq_false_iff.mp (isHalf_toNat c)).1
  -- The cases are those of `writeChar`: seven short escapes, printable, escaped by its code.
  unfold writeChar
  split_ifs with hmark hslash hline hreturn htab hback hfeed hprintable hnarrow
  · subst hmark
    exact stringBody_shortEscape rfl rest
  · subst hslash
    exact stringBody_shortEscape rfl rest
  · exact hline ▸ stringBody_shortEscape rfl rest
  · exact hreturn ▸ stringBody_shortEscape rfl rest
  · exact htab ▸ stringBody_shortEscape rfl rest
  · exact hback ▸ stringBody_shortEscape rfl rest
  · exact hfeed ▸ stringBody_shortEscape rfl rest
  · exact stringBody_plain hmark hslash (Char.not_lt.mpr hprintable.1) rest
  · rw [h, stringBody_codeEscape hnarrow hhigh, hcode]
  · rw [h, List.append_assoc, stringBody_halves (Nat.not_lt.mp hnarrow) (toNat_lt c), hcode]

/-- A plain character is read back as it stands in a text. -/
theorem stringBody_writePlain (c : Char) (rest : List Char) :
    stringBody ((ofCode c.toNat).flatMap writeChar ++ rest) =
      andThen (ofCode c.toNat) (stringBody rest) := by
  cases h : half? c with
  | none =>
      have hcode : ofCode c.toNat = [c] := by
        rw [ofCode_toNat, h]
        rfl
      rw [hcode, List.flatMap_singleton]
      exact stringBody_writeChar h rest
  | some n =>
      have hsome : (half? c).isSome = true := h ▸ rfl
      have hwide := toNat_of_isSome_half? hsome
      have hcode : ofCode c.toNat = [half (highHalf c.toNat), half (lowHalf c.toNat)] := by
        rw [ofCode_toNat, if_pos hsome]
      rw [← stringBody_halves (by omega) (toNat_lt c), hcode, List.flatMap_cons,
        List.flatMap_singleton, writeChar_half (isHalf_highHalf (toNat_lt c)),
        writeChar_half (isHalf_lowHalf _), List.append_assoc]

/-- A text of plain characters is read back from between its marks. -/
theorem stringBody_writeString (s : String) (rest : List Char) :
    stringBody ((ofPlain s).toList.flatMap writeChar ++ '"' :: rest) =
      some ((ofPlain s).toList, rest) := by
  rw [ofPlain, String.toList_ofList]
  induction s.toList with
  | nil => rw [List.flatMap_nil, List.flatMap_nil, List.nil_append, stringBody]
  | cons c cs ih =>
      rw [List.flatMap_cons, List.flatMap_append, List.append_assoc, stringBody_writePlain, ih]
      rfl

end Json
end Plexus
