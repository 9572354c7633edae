import Plexus.Attempt
import Plexus.Store.Keyed
import Plexus.Store.Plain
import Plexus.Store.Table

/-!
# Stores

The three kinds of stores behind one interface.  A step that fails leaves the store as it
was.
-/

namespace Plexus

/-- A store of entries. -/
inductive Store (ε : Type) [Tabular ε] where
  | keyed (s : KeyedStore ε)
  | table (s : TableStore ε)
  | plain (s : PlainStore ε)

/-- The kinds of stores. -/
inductive StoreKind where
  | keyed
  | table
  | plain
deriving DecidableEq, Inhabited

namespace Store

variable {ε : Type} [Tabular ε]

/-- The store of a kind with no entries. -/
def empty : StoreKind → Store ε
  | .keyed => .keyed .empty
  | .table => .table .empty
  | .plain => .plain .empty

/-- All entries, in order. -/
def getAll : Store ε → Except Fault (List ε)
  | .keyed s => .ok s.toList
  | .table s => s.getAll
  | .plain s => .ok s.entries

/-- Makes a step that leaves the store as it was if it fails. -/
def step (f : Store ε → Except Fault (Store ε)) : Attempt (Store ε) Unit := do
  let s ← Attempt.of (f (← get))
  set s

/-- The store with an entry added. -/
def created (e : ε) : Store ε → Except Fault (Store ε)
  | .keyed s => (s.create e).map .keyed
  | .table s => (s.create e).map .table
  | .plain s => .ok (.plain (s.create e))

/-- The store with an entry replaced. -/
def updated (e : ε) : Store ε → Except Fault (Store ε)
  | .keyed s => (s.update e).map .keyed
  | .table s => (s.update e).map .table
  | .plain s => .ok (.plain (s.update e))

/-- The store with the entry of an identifier removed. -/
def deleted (id : Value) : Store ε → Except Fault (Store ε)
  | .keyed s => (s.delete id).map .keyed
  | .table s => (s.delete id).map .table
  | .plain s => .ok (.plain (s.delete id))

/-- The store with all entries removed. -/
def cleared : Store ε → Store ε
  | .keyed _ => .keyed .empty
  | .table _ => .table .empty
  | .plain s => .plain s.clear

/-- Adds an entry. -/
def create (e : ε) : Attempt (Store ε) Unit := step (created e)

/-- Replaces the entry with the same identifier. -/
def update (e : ε) : Attempt (Store ε) Unit := step (updated e)

/-- Removes the entry with an identifier. -/
def delete (id : Value) : Attempt (Store ε) Unit := step (deleted id)

/-- Removes all entries. -/
def clear : Attempt (Store ε) Unit := modify cleared

/-- The number of entries, which only a keyed store knows. -/
def size? : Store ε → Except Fault Nat
  | .keyed s => .ok s.entries.length
  | _ => .error .mistyped

/--
Edits in place the entry that was listed at a position, if the store still holds it.
`listed` are the identifiers of the last listing, `written` those of the entries that were
updated since.  A keyed store keeps the place of an updated entry, a plain one moves it to
the end.  A table hands out copies of its rows, so nothing in it changes.
-/
def editListed (listed written : List Value) (i : Nat) (f : ε → ε) : Store ε → Store ε
  | .keyed s =>
      let stays (id : Value) : Bool := !written.any id.same
      if (listed[i]?.map stays).getD false then
        .keyed ⟨s.entries.modify i fun e => (e.1, f e.2)⟩
      else .keyed s
  | .plain s =>
      let stays (id : Value) : Bool := !written.any id.equal
      if (listed[i]?.map stays).getD false then
        .plain ⟨s.entries.modify ((listed.take i).countP stays) f⟩
      else .plain s
  | .table s => .table s

end Store
end Plexus
