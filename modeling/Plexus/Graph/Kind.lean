import Plexus.Fault

/-!
# Kinds of neurons
-/

namespace Plexus

/-- The role of a neuron in its network. -/
inductive Kind where
  | input
  | hidden
  | output
  | offloaded
deriving DecidableEq, Inhabited

namespace Kind

/-- The tag that documents use for a kind. -/
def tag : Kind → String
  | .input => "input"
  | .hidden => "hidden"
  | .output => "output"
  | .offloaded => "offloaded"

/-- The kind with a tag.  Older documents write `cloud` for offloaded neurons. -/
def ofTag? (s : String) : Option Kind :=
  if s = "cloud" then some .offloaded
  else [input, hidden, output, offloaded].find? fun k => k.tag == s

/-- The kind that a value names. -/
def ofValue : Value → Except Fault Kind
  | .text s =>
      match ofTag? s with
      | some k => .ok k
      | none => .error (.unknownKind (.text s))
  | v => .error (.unknownKind v)

theorem ofTag?_tag (k : Kind) : ofTag? k.tag = some k := by cases k <;> decide

theorem ofValue_tag (k : Kind) : ofValue (.text k.tag) = .ok k := by
  simp [ofValue, ofTag?_tag]

end Kind
end Plexus
