import Plexus.Value.Basic

/-!
# Identifiers as keys

A value can be a key if it can name something and is the same key as itself; among the
values of a document only lists and objects cannot.  What is proved of stores and engines
holds of any class of identifiers that are keys, texts among them.
-/

namespace Plexus
namespace Value

/-- Whether a value can be a key of a table. -/
def IsKey (v : Value) : Prop := v.isScalar = true ∧ v.same v = true

/-- Whether a value is a text. -/
def IsText (v : Value) : Prop := ∃ s, v = .text s

instance : DecidablePred IsText
  | .text s => .isTrue ⟨s, rfl⟩
  | .null | .flag _ | .int _ | .real _ | .nan _ | .list _ | .object _ =>
      .isFalse fun h => h.elim fun _ heq => Value.noConfusion heq

/-- A class of identifiers: its members can be keys, and every text is one of them. -/
structure IdClass (P : Value → Prop) : Prop where
  isKey : ∀ v, P v → v.IsKey
  text : ∀ s, P (.text s)

theorem isKey_text (s : String) : (Value.text s).IsKey := by
  constructor
  · rfl
  · simp

theorem idClass_isKey : IdClass IsKey where
  isKey := fun _ h => h
  text := isKey_text

theorem idClass_isText : IdClass IsText where
  isKey := by
    intro v hv
    rcases hv with ⟨s, rfl⟩
    exact isKey_text s
  text := fun s => ⟨s, rfl⟩

/-- A key is never the same as a value that names nothing. -/
theorem same_eq_false_of_not_scalar {u v : Value} (hu : u.isScalar = true)
    (hv : v.isScalar = false) :
    u.same v = false := by
  cases v with
  | list ys =>
      cases u <;> simp_all [same, sameNumber, number?, isScalar]
  | object gs =>
      cases u <;> simp_all [same, sameNumber, number?, isScalar]
  | null | flag | int | real | nan | text => cases hv

theorem same_text_iff {u : Value} {s : String} (hu : u.IsText) :
    u.same (.text s) = true ↔ u = .text s := by
  rcases hu with ⟨t, rfl⟩
  simp

/-- A text is the same key as no other value. -/
theorem eq_of_text_same {u v : Value} (hu : u.IsText) (h : u.same v = true) : v = u := by
  rcases hu with ⟨s, rfl⟩
  cases v with
  | text t =>
      rw [same_text_text, beq_iff_eq] at h
      rw [h]
  | null | flag | int | real | nan | list | object => simp [same] at h

theorem eq_of_same_text {u v : Value} (hv : v.IsText) (h : u.same v = true) : u = v := by
  rcases hv with ⟨s, rfl⟩
  cases u with
  | text t =>
      rw [same_text_text, beq_iff_eq] at h
      rw [h]
  | null | flag | int | real | nan | list | object => simp [same, sameNumber, number?] at h

theorem eq_of_equal_text {u v : Value} (hv : v.IsText) (h : u.equal v = true) : u = v := by
  cases u with
  | nan mark => cases h
  | null | flag | int | real | text | list | object => exact eq_of_same_text hv h

/-- Among texts, to be the same key is to be equal. -/
theorem same_iff_eq {u v : Value} (hu : u.IsText) (hv : v.IsText) :
    u.same v = true ↔ u = v := by
  rcases hv with ⟨s, rfl⟩
  exact same_text_iff hu

end Value
end Plexus
