import Plexus.Proofs.Json.Numbers
import Plexus.Proofs.Json.Strings

/-!
# Values in JSON

A value is read back from its text: by induction on the value, whatever follows the text, as long
as the reader has fuel for the characters and room for the depth.
-/

namespace Plexus

/-- A text of plain characters, as it stands. -/
def Text.IsPlainText (s : String) : Prop := ∃ t, s = Text.ofPlain t

namespace Value

mutual

/--
A value that a text can hold: its texts are of plain characters, its whole numbers are not too
long to be read, no field has the name of another, and what is not a number has no mark.
-/
def Portable : Value → Prop
  | .null => True
  | .flag _ => True
  | .int n => (Nat.toDigits 10 n.natAbs).length ≤ Json.maxDigits
  | .real _ => True
  | .nan _ => False
  | .text s => Text.IsPlainText s
  | .list xs => PortableItems xs
  | .object fs => (fs.map Prod.fst).Nodup ∧ PortableFields fs

/-- Portability of the items of a list. -/
def PortableItems : List Value → Prop
  | [] => True
  | x :: xs => Portable x ∧ PortableItems xs

/-- Portability of the fields of an object, names included. -/
def PortableFields : List (String × Value) → Prop
  | [] => True
  | (key, v) :: fs => Text.IsPlainText key ∧ Portable v ∧ PortableFields fs

end

end Value

namespace Json

open Value

variable {rest : List Char} {level fuel room : Nat}

/-!
## White space
-/

theorem length_newline (level : Nat) : (newline level).length = 2 * level + 1 := by
  rw [newline, List.length_cons, List.length_replicate]

theorem skipSpace_newline (level : Nat) (cs : List Char) :
    skipSpace (newline level ++ cs) = skipSpace cs := by
  have hblank : ∀ c ∈ newline level, isSpace c = true := by
    intro c hc
    rcases List.mem_cons.mp hc with rfl | hc
    · rfl
    · rw [List.eq_of_mem_replicate hc]
      rfl
  exact List.dropWhile_append_of_pos hblank

theorem skipSpace_of_not_space {c : Char} (h : isSpace c = false) (cs : List Char) :
    skipSpace (c :: cs) = c :: cs :=
  List.dropWhile_cons_of_neg (by rw [h]; decide)

theorem skipSpace_blank (cs : List Char) : skipSpace (' ' :: cs) = skipSpace cs :=
  List.dropWhile_cons_of_pos rfl

theorem skipSpace_writeString (s : String) (cs : List Char) :
    skipSpace (writeString s ++ cs) = writeString s ++ cs :=
  skipSpace_of_not_space rfl _

/-!
## Words and numbers
-/

/-- How a word or a number begins: with a digit, a minus sign or a letter. -/
def opensAtom (c : Char) : Bool := Decimal.isDigit c || c == '-' || c.isAlpha

/-- How a value begins: not with white space, nor with the end of a list. -/
def opensValue (c : Char) : Bool := !isSpace c && c != ']'

theorem ne_of_opensAtom {a c : Char} (hc : opensAtom c = true) (ha : opensAtom a = false) :
    c ≠ a := by
  rintro rfl
  rw [hc] at ha
  cases ha

theorem opensValue_of_opensAtom {c : Char} (h : opensAtom c = true) : opensValue c = true := by
  have hne : ∀ {a}, opensAtom a = false → (c == a) = false := fun ha =>
    beq_eq_false_iff_ne.mpr (ne_of_opensAtom h ha)
  rw [opensValue, isSpace, bne, hne (by decide), hne (by decide), hne (by decide), hne (by decide),
    hne (by decide)]
  rfl

theorem value_eq_atom {c : Char} (h : opensAtom c = true) (fuel room : Nat) (cs : List Char) :
    value (fuel + 1) room (c :: cs) = atom (c :: cs) := by
  rw [value]
  · exact fun rest heq => ne_of_opensAtom h (by decide) (List.cons.inj heq).1
  · exact fun rest heq => ne_of_opensAtom h (by decide) (List.cons.inj heq).1
  · exact fun rest heq => ne_of_opensAtom h (by decide) (List.cons.inj heq).1

theorem opensAtom_of_isDigit {c : Char} (h : Decimal.isDigit c = true) : opensAtom c = true := by
  rw [opensAtom, h, Bool.true_or, Bool.true_or]

theorem exists_signed_eq_cons {c : Char} (h : opensAtom c = true) (negative : Bool)
    (cs : List Char) :
    ∃ d ds, (Decimal.sign negative).toList ++ c :: cs = d :: ds ∧ opensAtom d = true := by
  cases negative
  · exact ⟨c, cs, rfl, h⟩
  · exact ⟨'-', c :: cs, rfl, rfl⟩

theorem exists_toString_eq_cons (n : Int) :
    ∃ c cs, (toString n).toList = c :: cs ∧ opensAtom c = true := by
  rcases List.exists_cons_of_ne_nil (Nat.toDigits_ne_nil (n := n.natAbs) (b := 10))
    with ⟨c, cs, hdigits⟩
  have hc : Decimal.isDigit c = true :=
    Decimal.isDigit_of_mem_toDigits (hdigits ▸ List.mem_cons_self)
  rw [toList_toString, hdigits]
  exact exists_signed_eq_cons (opensAtom_of_isDigit hc) _ cs

theorem exists_shortest_eq_cons (x : Float) :
    ∃ c cs, (Decimal.shortest .document x).toList = c :: cs ∧ opensAtom c = true := by
  rw [Decimal.shortest, Decimal.withSign]
  cases hx : Decimal.Binary.ofFloat x with
  | nan => exact ⟨'N', _, rfl, rfl⟩
  | infinite negative =>
      simp only
      rw [String.toList_append]
      exact exists_signed_eq_cons (c := 'I') rfl negative _
  | finite negative m e =>
      simp only
      split_ifs with hm
      · rw [String.toList_append]
        exact exists_signed_eq_cons (c := '0') rfl negative _
      · rcases exists_write_eq_cons .document
          (coefficient_ne_zero (Decimal.isDouble_of_finite hx hm)) with ⟨c, cs, htext, hc⟩
        rw [String.toList_append, String.toList_ofList, htext]
        exact exists_signed_eq_cons (opensAtom_of_isDigit hc) negative cs

theorem value_of_atom {text : List Char} {v : Value}
    (htext : ∃ c cs, text = c :: cs ∧ opensAtom c = true)
    (hatom : atom (text ++ rest) = .ok (v, rest)) (hfuel : text.length ≤ fuel) :
    value fuel room (text ++ rest) = .ok (v, rest) := by
  rcases htext with ⟨c, cs, rfl, hc⟩
  cases fuel with
  | zero => cases hfuel
  | succ fuel =>
      rw [← hatom]
      exact value_eq_atom hc fuel room (cs ++ rest)

/-- A value begins as values do. -/
theorem exists_writeValue_eq_cons {v : Value} (h : v.Portable) (level : Nat) :
    ∃ c cs, write level v = c :: cs ∧ opensValue c = true := by
  have hatom : ∀ {text : List Char}, (∃ c cs, text = c :: cs ∧ opensAtom c = true) →
      ∃ c cs, text = c :: cs ∧ opensValue c = true :=
    fun ⟨c, cs, htext, hc⟩ => ⟨c, cs, htext, opensValue_of_opensAtom hc⟩
  cases v with
  | null => exact ⟨'n', _, rfl, rfl⟩
  | flag b =>
      cases b
      · exact ⟨'f', _, rfl, rfl⟩
      · exact ⟨'t', _, rfl, rfl⟩
  | int n => exact hatom (exists_toString_eq_cons n)
  | real x => exact hatom (exists_shortest_eq_cons x)
  | nan mark => exact h.elim
  | text s => exact ⟨'"', _, rfl, rfl⟩
  | list xs =>
      cases xs with
      | nil => exact ⟨'[', _, rfl, rfl⟩
      | cons x xs => exact ⟨'[', _, by rw [write], rfl⟩
  | object fs =>
      rcases fs with _ | ⟨⟨key, v⟩, fs⟩
      · exact ⟨'\x7b', _, rfl, rfl⟩
      · exact ⟨'\x7b', _, by rw [write], rfl⟩

theorem skipSpace_of_opensValue {c : Char} (h : opensValue c = true) (cs : List Char) :
    skipSpace (c :: cs) = c :: cs := by
  rw [opensValue, Bool.and_eq_true, Bool.not_eq_true'] at h
  exact skipSpace_of_not_space h.1 cs

theorem skipSpace_write {v : Value} (h : v.Portable) (level : Nat) (cs : List Char) :
    skipSpace (write level v ++ cs) = write level v ++ cs := by
  rcases exists_writeValue_eq_cons h level with ⟨c, text, htext, hc⟩
  rw [htext]
  exact skipSpace_of_opensValue hc _

/-!
## Fields
-/

theorem setField_of_new {fs : List (String × Value)} {key : String}
    (h : key ∉ fs.map Prod.fst) (v : Value) : setField fs key v = fs ++ [(key, v)] := by
  induction fs with
  | nil => rfl
  | cons f fs ih =>
      rw [List.map_cons, List.mem_cons, not_or] at h
      rw [setField, if_neg (by rw [beq_iff_eq]; exact Ne.symm h.1), ih h.2]
      rfl

/-- Fields with different names are kept as they come. -/
theorem foldl_setField {fs gs : List (String × Value)} (h : ((fs ++ gs).map Prod.fst).Nodup) :
    gs.foldl (fun acc (key, v) => setField acc key v) fs = fs ++ gs := by
  induction gs generalizing fs with
  | nil => exact (List.append_nil fs).symm
  | cons g gs ih =>
      have hnew : g.1 ∉ fs.map Prod.fst := by
        rw [List.map_append, List.map_cons, List.nodup_middle, List.nodup_cons,
          List.mem_append, not_or] at h
        exact h.1.1
      rw [List.foldl_cons]
      simp only [setField_of_new hnew]
      rw [ih (by rwa [List.append_assoc]), List.append_assoc]
      rfl

/-!
## Values
-/

theorem ends_newline (level : Nat) (cs : List Char) : Ends (newline level ++ cs) := Or.inr rfl

theorem ends_writeItems (xs : List Value) (level : Nat) {cs : List Char} (h : Ends cs) :
    Ends (writeItems level xs ++ cs) := by
  cases xs with
  | nil => exact h
  | cons x xs => exact Or.inl rfl

theorem ends_writeMembers (fs : List (String × Value)) (level : Nat) {cs : List Char}
    (h : Ends cs) : Ends (writeMembers level fs ++ cs) := by
  rcases fs with _ | ⟨⟨key, v⟩, fs⟩
  · exact h
  · exact Or.inl rfl

theorem value_text {s : String} (h : Text.IsPlainText s) (hfuel : 0 < fuel) :
    value fuel room (writeString s ++ rest) = .ok (.text s, rest) := by
  rcases h with ⟨t, rfl⟩
  obtain ⟨fuel, rfl⟩ := Nat.exists_eq_succ_of_ne_zero (Nat.pos_iff_ne_zero.mp hfuel)
  rw [writeString, List.cons_append, List.append_assoc, List.singleton_append, value,
    stringBody_writeString, expect, Except.map]
  simp only [String.ofList_toList]

theorem value_list {c : Char} {cs text : List Char} {xs : List Value} (hc : opensValue c = true)
    (htext : skipSpace text = c :: cs) (hitems : items fuel room (c :: cs) = .ok (xs, rest)) :
    value (fuel + 1) (room + 1) ('[' :: text) = .ok (.list xs, rest) := by
  have hend : c ≠ ']' := by
    rintro rfl
    cases hc
  rw [value, deeper, htext]
  split
  · next heq => exact absurd (List.cons.inj heq).1 hend
  · rw [hitems]
    rfl

theorem value_object {cs text : List Char} {fs : List (String × Value)}
    (hnames : (fs.map Prod.fst).Nodup) (htext : skipSpace text = '"' :: cs)
    (hmembers : members fuel room ('"' :: cs) = .ok (fs, rest)) :
    value (fuel + 1) (room + 1) ('\x7b' :: text) = .ok (.object fs, rest) := by
  have hfields := foldl_setField (show (([] ++ fs).map Prod.fst).Nodup from hnames)
  rw [value, deeper, htext]
  split
  · next heq => cases heq
  · rw [hmembers]
    exact congrArg (fun gs => Except.ok (Value.object gs, rest)) hfields

mutual

/-- A value is read back from its text. -/
theorem value_write : ∀ (v : Value), v.Portable → ∀ (level room fuel : Nat) (rest : List Char),
    v.depth ≤ room → (write level v).length ≤ fuel → Ends rest →
      value fuel room (write level v ++ rest) = .ok (v, rest)
  | .null, _, _, _, _, _, _, hfuel, _ => value_of_atom ⟨'n', _, rfl, rfl⟩ rfl hfuel
  | .flag true, _, _, _, _, _, _, hfuel, _ => value_of_atom ⟨'t', _, rfl, rfl⟩ rfl hfuel
  | .flag false, _, _, _, _, _, _, hfuel, _ => value_of_atom ⟨'f', _, rfl, rfl⟩ rfl hfuel
  | .int n, h, _, _, _, _, _, hfuel, hrest =>
      value_of_atom (exists_toString_eq_cons n) (atom_int h hrest) hfuel
  | .real x, _, _, _, _, _, _, hfuel, hrest =>
      value_of_atom (exists_shortest_eq_cons x) (atom_shortest x hrest) hfuel
  | .nan _, h, _, _, _, _, _, _, _ => h.elim
  | .text s, h, _, _, _, _, _, hfuel, _ => value_text h (Nat.lt_of_lt_of_le (Nat.succ_pos _) hfuel)
  | .list xs, h, level, room, fuel, rest, hroom, hfuel, _ => by
      obtain ⟨room, rfl⟩ := Nat.exists_eq_succ_of_ne_zero (Nat.ne_zero_of_lt hroom)
      cases xs with
      | nil =>
          obtain ⟨fuel, rfl⟩ := Nat.exists_eq_succ_of_ne_zero (Nat.ne_zero_of_lt hfuel)
          rfl
      | cons x xs =>
          rw [write, List.length_cons] at hfuel
          simp only [List.length_append, length_newline] at hfuel
          obtain ⟨fuel, rfl⟩ := Nat.exists_eq_succ_of_ne_zero (Nat.ne_zero_of_lt hfuel)
          rcases exists_writeValue_eq_cons h.1 (level + 1) with ⟨c, cs, hcs, hc⟩
          have hitems := items_write (x :: xs) h (level + 1) level room fuel rest rfl
            (Nat.le_of_succ_le_succ hroom) (by omega) (skipSpace_write h.1 (level + 1) _)
          rw [hcs, List.cons_append] at hitems
          rw [write, hcs, List.cons_append]
          refine value_list hc ?_ hitems
          simp only [List.append_assoc, List.cons_append, List.nil_append, skipSpace_newline,
            skipSpace_of_opensValue hc]
  | .object fs, h, level, room, fuel, rest, hroom, hfuel, _ => by
      obtain ⟨room, rfl⟩ := Nat.exists_eq_succ_of_ne_zero (Nat.ne_zero_of_lt hroom)
      rcases fs with _ | ⟨⟨key, v⟩, fs⟩
      · obtain ⟨fuel, rfl⟩ := Nat.exists_eq_succ_of_ne_zero (Nat.ne_zero_of_lt hfuel)
        rfl
      · rw [write, List.length_cons] at hfuel
        simp only [List.length_append, List.length_cons, length_newline] at hfuel
        obtain ⟨fuel, rfl⟩ := Nat.exists_eq_succ_of_ne_zero (Nat.ne_zero_of_lt hfuel)
        have hmembers := members_write ((key, v) :: fs) h.2 (level + 1) level room fuel rest rfl
          (Nat.le_of_succ_le_succ hroom) (by omega) (skipSpace_writeString key _)
        rw [writeString, List.cons_append] at hmembers
        rw [write, List.cons_append]
        refine value_object h.1 ?_ hmembers
        simp only [List.append_assoc, List.cons_append, List.nil_append, skipSpace_newline,
          writeString]
        exact skipSpace_of_not_space rfl _

/-- The items of a list are read back from their texts. -/
theorem items_write : ∀ (l : List Value), PortableItems l →
    ∀ (level outer room fuel : Nat) (rest : List Char) {x : Value} {xs : List Value}
      {cs : List Char},
    l = x :: xs → depthOfItems l ≤ room →
      (write level x).length + (writeItems level xs).length < fuel →
      skipSpace cs = write level x ++ (writeItems level xs ++ (newline outer ++ ']' :: rest)) →
      items fuel room cs = .ok (l, rest)
  | [], _, _, _, _, _, _, _, _, _, hl, _, _, _ => by cases hl
  | x :: xs, h, level, outer, room, fuel, rest, _, _, cs, hl, hroom, hfuel, hcs => by
      obtain ⟨rfl, rfl⟩ := List.cons.inj hl
      obtain ⟨fuel, rfl⟩ := Nat.exists_eq_succ_of_ne_zero (Nat.ne_zero_of_lt hfuel)
      rw [depthOfItems] at hroom
      have hvalue := value_write x h.1 level room fuel _ ((le_max_left _ _).trans hroom) (by omega)
        (ends_writeItems xs level (ends_newline outer (']' :: rest)))
      rw [items, hcs, hvalue]
      simp only [bind, Except.bind]
      cases xs with
      | nil =>
          rw [writeItems, List.nil_append, skipSpace_newline, skipSpace_of_not_space rfl]
          rfl
      | cons y ys =>
          rw [writeItems, List.length_cons, List.length_append, List.length_append] at hfuel
          have hitems := items_write (y :: ys) h.2 level outer room fuel rest rfl
            ((le_max_right _ _).trans hroom) (by omega)
            ((skipSpace_newline level _).trans (skipSpace_write h.2.1 level _))
          rw [writeItems, List.cons_append, skipSpace_of_not_space rfl]
          simp only [List.append_assoc, hitems]
          rfl

/-- The fields of an object are read back from their texts. -/
theorem members_write : ∀ (l : List (String × Value)), PortableFields l →
    ∀ (level outer room fuel : Nat) (rest : List Char) {key : String} {v : Value}
      {fs : List (String × Value)} {cs : List Char},
    l = (key, v) :: fs → depthOfFields l ≤ room →
      (write level v).length + (writeMembers level fs).length < fuel →
      skipSpace cs = writeString key ++ ':' :: ' ' ::
        (write level v ++ (writeMembers level fs ++ (newline outer ++ '\x7d' :: rest))) →
      members fuel room cs = .ok (l, rest)
  | [], _, _, _, _, _, _, _, _, _, _, hl, _, _, _ => by cases hl
  | (key, v) :: fs, h, level, outer, room, fuel, rest, _, _, _, cs, hl, hroom, hfuel, hcs => by
      obtain ⟨hfield, rfl⟩ := List.cons.inj hl
      cases hfield
      obtain ⟨fuel, rfl⟩ := Nat.exists_eq_succ_of_ne_zero (Nat.ne_zero_of_lt hfuel)
      rw [depthOfFields] at hroom
      have hvalue := value_write v h.2.1 level room fuel _ ((le_max_left _ _).trans hroom)
        (by omega)
        (ends_writeMembers fs level (ends_newline outer ('\x7d' :: rest)))
      rcases h.1 with ⟨t, rfl⟩
      rw [members, hcs, writeString, List.cons_append, List.append_assoc, List.singleton_append]
      simp only [stringBody_writeString, expect, bind, Except.bind, String.ofList_toList]
      rw [skipSpace_of_not_space rfl]
      simp only [skipSpace_blank, skipSpace_write h.2.1, hvalue]
      rcases fs with _ | ⟨⟨key', v'⟩, fs⟩
      · rw [writeMembers, List.nil_append, skipSpace_newline, skipSpace_of_not_space rfl]
        rfl
      · rw [writeMembers, List.length_cons] at hfuel
        simp only [List.length_append, List.length_cons] at hfuel
        have hmembers := members_write ((key', v') :: fs) h.2.2 level outer room fuel rest rfl
          ((le_max_right _ _).trans hroom) (by omega)
          ((skipSpace_newline level _).trans (skipSpace_writeString key' _))
        rw [writeMembers, List.cons_append, skipSpace_of_not_space rfl]
        simp only [List.append_assoc, List.cons_append, hmembers]
        rfl

end

/-- What a text can hold is read back from it, unless its parts lie too deep within each other. -/
theorem read_text {v : Value} (h : v.Portable) (hdepth : v.depth ≤ maxDepth) :
    read (text v) = .ok v := by
  have hvalue := value_write v h 0 maxDepth (2 * (write 0 v).length + 2) [] hdepth (by omega)
    trivial
  rw [List.append_nil] at hvalue
  have hskip := skipSpace_write h 0 []
  rw [List.append_nil] at hskip
  rw [read, text]
  simp only [String.toList_ofList, hskip, hvalue]
  rfl

end Json
end Plexus
