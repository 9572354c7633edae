import Plexus.Fault

/-!
# Keyed stores

A store in memory that holds at most one entry for an identifier, in the order in which
the identifiers were put in.
-/

namespace Plexus

/-- What can be kept in a store: something with an identifier. -/
class Identified (ε : Type) where
  id : ε → Value

/-- A store in memory.  The key of an entry is the identifier it was put in under. -/
structure KeyedStore (ε : Type) where
  entries : List (Value × ε)

namespace KeyedStore

variable {ε : Type} [Identified ε]

/-- The store with no entries. -/
def empty : KeyedStore ε := ⟨[]⟩

/-- The entries, in order. -/
def toList (s : KeyedStore ε) : List ε := s.entries.map Prod.snd

/-- Whether there is an entry for an identifier. -/
def has (s : KeyedStore ε) (id : Value) : Bool := s.entries.any fun e => e.1.same id

/-- Sets the entry for an identifier; one that is already there keeps its place. -/
def put : List (Value × ε) → Value → ε → List (Value × ε)
  | [], id, e => [(id, e)]
  | (key, d) :: rest, id, e =>
      if key.same id then (key, e) :: rest else (key, d) :: put rest id e

/-- Adds an entry; its identifier must be new. -/
def create (s : KeyedStore ε) (e : ε) : Except Fault (KeyedStore ε) :=
  let id := Identified.id e
  if !id.isScalar then .error .mistyped
  else if s.has id then .error (.entityExists id)
  else .ok ⟨put s.entries id e⟩

/-- Replaces the entry with the same identifier, or adds one. -/
def update (s : KeyedStore ε) (e : ε) : Except Fault (KeyedStore ε) :=
  let id := Identified.id e
  if !id.isScalar then .error .mistyped else .ok ⟨put s.entries id e⟩

/--
Removes the entry for an identifier, if there is one.  A store without entries does not look
at the identifier.
-/
def delete (s : KeyedStore ε) (id : Value) : Except Fault (KeyedStore ε) :=
  if s.entries.isEmpty then .ok s
  else if !id.isScalar then .error .mistyped
  else .ok ⟨s.entries.filter fun e => !e.1.same id⟩

end KeyedStore
end Plexus
