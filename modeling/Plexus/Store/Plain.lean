import Plexus.Store.Keyed

/-!
# Plain stores

A store that only knows how to list, add and remove.  It adds whatever it is given, and
removes every entry with an identifier.  Updating is removing and adding, and clearing is
removing each entry in turn.
-/

namespace Plexus

/-- A store that is a bare list of entries. -/
structure PlainStore (ε : Type) where
  entries : List ε

namespace PlainStore

variable {ε : Type} [Identified ε]

/-- The store with no entries. -/
def empty : PlainStore ε := ⟨[]⟩

/-- Adds an entry. -/
def create (s : PlainStore ε) (e : ε) : PlainStore ε := ⟨s.entries ++ [e]⟩

/-- Removes all entries with an identifier. -/
def delete (s : PlainStore ε) (id : Value) : PlainStore ε :=
  ⟨s.entries.filter fun e => !(Identified.id e).equal id⟩

/-- Removes the entries with the same identifier and adds the new one at the end. -/
def update (s : PlainStore ε) (e : ε) : PlainStore ε := (s.delete (Identified.id e)).create e

/-- Removes each entry in turn. -/
def clear (s : PlainStore ε) : PlainStore ε :=
  s.entries.foldl (fun s e => s.delete (Identified.id e)) s

end PlainStore
end Plexus
