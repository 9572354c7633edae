import Plexus.Proofs.Json.RoundTrip

/-!
# JSON is written in ASCII

Whatever a value holds, its text has ASCII characters only.  Such a text has no halves of pairs
and stands as it is.
-/

namespace Plexus

/-- A text of ASCII characters. -/
def IsAscii (cs : List Char) : Prop := ∀ c ∈ cs, c.toNat < 0x80

namespace IsAscii

variable {c : Char} {cs ds : List Char}

theorem nil : IsAscii [] := fun _ hc => absurd hc List.not_mem_nil

theorem cons (hc : c.toNat < 0x80) (h : IsAscii cs) : IsAscii (c :: cs) :=
  List.forall_mem_cons.mpr ⟨hc, h⟩

theorem append (h : IsAscii cs) (h' : IsAscii ds) : IsAscii (cs ++ ds) :=
  List.forall_mem_append.mpr ⟨h, h'⟩

theorem of_all (h : cs.all (fun c => decide (c.toNat < 0x80)) = true) : IsAscii cs :=
  fun c hc => of_decide_eq_true (List.all_eq_true.mp h c hc)

theorem replicate (hc : c.toNat < 0x80) (k : Nat) : IsAscii (List.replicate k c) := by
  intro d hd
  rw [List.eq_of_mem_replicate hd]
  exact hc

theorem sublist (h : IsAscii ds) (hsub : cs.Sublist ds) : IsAscii cs :=
  fun c hc => h c (hsub.subset hc)

/-!
## Plain texts
-/

theorem half?_eq_none (hc : c.toNat < 0x80) : Text.half? c = none := by
  by_contra h
  have hwide := Text.toNat_of_isSome_half? (Option.isSome_iff_ne_none.mpr h)
  omega

theorem flatMap_ofCode (h : IsAscii cs) : (cs.flatMap fun c => Text.ofCode c.toNat) = cs := by
  induction cs with
  | nil => rfl
  | cons c cs ih =>
      rcases List.forall_mem_cons.mp h with ⟨hc, hcs⟩
      rw [List.flatMap_cons, ih hcs, Text.ofCode_toNat, half?_eq_none hc]
      rfl

/-- An ASCII text stands as it is. -/
theorem ofPlain_eq {s : String} (h : IsAscii s.toList) : Text.ofPlain s = s := by
  rw [Text.ofPlain, flatMap_ofCode h, String.ofList_toList]

theorem codes_lt (h : IsAscii cs) : ∀ n ∈ Text.codes cs, n < 0x80 := by
  have hcode : ∀ c ∈ cs, Text.codeOf c < 0x80 := by
    intro c hc
    rw [Text.codeOf, half?_eq_none (h c hc), Option.getD_none]
    exact h c hc
  fun_induction Text.codes cs with
  | case1 => exact fun n hn => absurd hn List.not_mem_nil
  | case2 c => exact List.forall_mem_singleton.mpr (hcode c List.mem_cons_self)
  | case3 c d rest hpair ih =>
      have hlt := hcode c List.mem_cons_self
      rw [Bool.and_eq_true, Text.isHighHalf, Bool.and_eq_true, decide_eq_true_eq] at hpair
      omega
  | case4 c d rest hpair ih =>
      have htail : IsAscii (d :: rest) := fun c hc => h c (List.mem_cons_of_mem _ hc)
      exact List.forall_mem_cons.mpr ⟨hcode c List.mem_cons_self,
        ih htail fun c hc => hcode c (List.mem_cons_of_mem _ hc)⟩

/-- An ASCII text holds no half of a pair. -/
theorem hasHalf_eq_false {s : String} (h : IsAscii s.toList) : Text.hasHalf s = false := by
  rw [Text.hasHalf, List.any_eq_false]
  intro n hn hhalf
  have hlt := codes_lt h n hn
  have hbounds := Text.bounds_of_isHalf hhalf
  omega

/-!
## Digits
-/

theorem digitChar_lt : ∀ n < 16, (Nat.digitChar n).toNat < 0x80 := by
  decide

theorem toDigits {base : Nat} (hbase : 1 < base) (hmax : base ≤ 16) (n : Nat) :
    IsAscii (Nat.toDigits base n) := by
  induction n using Nat.strong_induction_on with
  | _ n ih =>
      rw [Nat.toDigits_eq_if hbase]
      split
      · next hlt => exact cons (digitChar_lt n (by omega)) nil
      · next hge =>
        have hlast := Nat.mod_lt n (Nat.lt_of_succ_lt hbase)
        exact (ih _ (Nat.div_lt_self (by omega) hbase)).append
          (cons (digitChar_lt _ (by omega)) nil)

theorem hex (width n : Nat) : IsAscii (Text.hex width n) :=
  (replicate (by decide) _).append (toDigits (by decide) le_rfl n)

theorem codeEscape (n : Nat) : IsAscii (Json.codeEscape n) :=
  cons (by decide) (cons (by decide) (hex 4 n))

theorem shortEscape (hc : c.toNat < 0x80) : IsAscii ['\\', c] :=
  cons (by decide) (cons hc nil)

theorem writeChar (c : Char) : IsAscii (Json.writeChar c) := by
  unfold Json.writeChar
  split_ifs with _ _ _ _ _ _ _ hprintable
  · exact shortEscape (by decide)
  · exact shortEscape (by decide)
  · exact shortEscape (by decide)
  · exact shortEscape (by decide)
  · exact shortEscape (by decide)
  · exact shortEscape (by decide)
  · exact shortEscape (by decide)
  · exact cons (Nat.lt_succ_of_lt (Nat.lt_succ_of_le hprintable.2)) nil
  · split
    · exact codeEscape _
    · exact codeEscape _
  · split
    · exact codeEscape _
    · exact (codeEscape _).append (codeEscape _)

theorem writeString (s : String) : IsAscii (Json.writeString s) := by
  refine cons (by decide) (append ?_ (cons (by decide) nil))
  intro c hc
  rcases List.mem_flatMap.mp hc with ⟨d, -, hd⟩
  exact writeChar d c hd

/-!
## Numbers
-/

theorem sign (negative : Bool) : IsAscii (Decimal.sign negative).toList := by
  cases negative
  · exact nil
  · exact cons (by decide) nil

theorem padded (width n : Nat) : IsAscii (Decimal.padded width n) :=
  (replicate (by decide) _).append (toDigits (by decide) (by decide) n)

theorem exponentText (e : Int) : IsAscii (Decimal.exponentText e).toList := by
  rw [Json.toList_exponentText]
  split
  · exact cons (by decide) (padded 2 _)
  · exact cons (by decide) (padded 2 _)

theorem pointAfterFirst (h : IsAscii cs) : IsAscii (Decimal.pointAfterFirst cs) := by
  rcases cs with _ | ⟨c, _ | ⟨d, cs⟩⟩
  · exact h
  · exact h
  · rcases List.forall_mem_cons.mp h with ⟨hc, hcs⟩
    exact cons hc (cons (by decide) hcs)

theorem positional (h : IsAscii cs) (lead : Int) : IsAscii (Decimal.positional cs lead) := by
  unfold Decimal.positional
  split
  · exact cons (by decide) (cons (by decide) ((replicate (by decide) _).append h))
  · refine ((h.sublist (List.take_sublist _ _)).append (replicate (by decide) _)).append
      (cons (by decide) ?_)
    split
    · exact cons (by decide) nil
    · exact h.sublist (List.drop_sublist _ _)

theorem write (s : Decimal.Spelling) (d : Decimal.Digits) : IsAscii (s.write d) := by
  have hdigits : IsAscii (Nat.toDigits 10 d.coefficient) := toDigits (by decide) (by decide) _
  unfold Decimal.Spelling.write
  simp only
  split
  · exact positional hdigits _
  · exact (pointAfterFirst hdigits).append (cons (by decide) (exponentText _))

theorem shortest (x : Float) : IsAscii (Decimal.shortest .document x).toList := by
  rw [Decimal.shortest, Decimal.withSign]
  cases Decimal.Binary.ofFloat x with
  | nan => exact of_all rfl
  | infinite negative =>
      rw [String.toList_append]
      exact (sign negative).append (of_all rfl)
  | finite negative m e =>
      simp only
      split
      · rw [String.toList_append]
        exact (sign negative).append (of_all rfl)
      · rw [String.toList_append, String.toList_ofList]
        exact (sign negative).append (write _ _)

theorem toString (n : Int) : IsAscii (ToString.toString n).toList := by
  rw [Json.toList_toString]
  exact (sign _).append (toDigits (by decide) (by decide) _)

/-!
## Values
-/

theorem newline (level : Nat) : IsAscii (Json.newline level) :=
  cons (by decide) (replicate (by decide) _)

mutual

/-- The text of a value is ASCII. -/
theorem writeValue : ∀ (v : Value) (level : Nat), IsAscii (Json.write level v)
  | .null, _ => of_all rfl
  | .flag true, _ => of_all rfl
  | .flag false, _ => of_all rfl
  | .int n, _ => toString n
  | .real x, _ => shortest x
  | .nan _, _ => of_all rfl
  | .text s, _ => writeString s
  | .list [], _ => of_all rfl
  | .list (x :: xs), level => by
      rw [Json.write]
      exact cons (by decide) (((((newline _).append (writeValue x _)).append
        (writeItems xs _)).append (newline _)).append (of_all rfl))
  | .object [], _ => of_all rfl
  | .object ((key, v) :: fs), level => by
      rw [Json.write]
      exact cons (by decide) ((((((newline _).append (writeString key)).append
        (cons (by decide) (cons (by decide) (writeValue v _)))).append
        (writeMembers fs _)).append (newline _)).append (of_all rfl))

theorem writeItems : ∀ (xs : List Value) (level : Nat), IsAscii (Json.writeItems level xs)
  | [], _ => nil
  | x :: xs, level => by
      rw [Json.writeItems]
      exact cons (by decide) (((newline _).append (writeValue x _)).append (writeItems xs _))

theorem writeMembers : ∀ (fs : List (String × Value)) (level : Nat),
    IsAscii (Json.writeMembers level fs)
  | [], _ => nil
  | (key, v) :: fs, level => by
      rw [Json.writeMembers]
      exact cons (by decide) ((((newline _).append (writeString key)).append
        (cons (by decide) (cons (by decide) (writeValue v _)))).append (writeMembers fs _))

end

/-- The text of a value is ASCII, so it is the text of a file. -/
theorem text (v : Value) : IsAscii (Json.text v).toList := by
  rw [Json.text, String.toList_ofList]
  exact writeValue v 0

end IsAscii

end Plexus
