import Plexus.Decimal.Column
import Plexus.Graph.Neuron
import Plexus.Graph.Synapse
import Plexus.Store.Keyed

/-!
# Table stores

A store that keeps entries as rows of a table of a relational database.  Columns have
types: a column of texts holds every scalar as a text, and a column of reals has no cell
for what is not a number, which it holds as a missing value.  The identifier is the
primary key, so no two rows have the same one; a missing identifier equals nothing.  A
statement that fails leaves the table as it was.
-/

namespace Plexus

/-- The text that a column of texts holds for a value; `none` is a missing value. -/
def Value.columnText : Value → Except Fault (Option String)
  | .null => .ok none
  | .text s => if Text.hasHalf s then .error .unencodableText else .ok (some s)
  | .flag b => .ok (some (if b then "1" else "0"))
  | .int n =>
      if -2 ^ 63 ≤ n ∧ n < 2 ^ 63 then .ok (some (toString n)) else .error .tooLarge
  | .nan _ => .ok none
  | .real x => .ok (if x.isNaN then none else some (Decimal.columnText x))
  | .list _ | .object _ => .error .notStorable

/-- The cell of a column of reals; zero loses its sign. -/
def realCell (x : Float) : Option Float :=
  if x.isNaN then none else if x == 0.0 then some 0.0 else some x

/-- A cell of a text column as a value. -/
def textValue : Option String → Value
  | some s => .text s
  | none => .null

/-- A cell of a real column as a value. -/
def realValue : Option Float → Value
  | some x => .real x
  | none => .null

/-- A row of the table of neurons. -/
structure NeuronRow where
  id : Option String
  kind : String
  bias : Option Float
  activation : Option String
deriving Inhabited

/-- A row of the table of synapses. -/
structure SynapseRow where
  id : Option String
  source : Option String
  target : Option String
  weight : Option Float
deriving Inhabited

/-- Entries that can be kept as rows of a table. -/
class Tabular (ε : Type) extends Identified ε where
  Row : Type
  /-- The name of the identifier's column, with that of the table. -/
  keyColumn : String
  /-- The row of an entry to insert: the identifier is looked at first. -/
  encode : ε → Except Fault Row
  /-- The row of an entry to overwrite another with: the identifier is looked at last. -/
  revise : ε → Except Fault Row
  /-- The entry of a row. -/
  decode : Row → Except Fault ε
  /-- The identifier of a row. -/
  key : Row → Option String
  /-- The first column that must not be missing and is. -/
  missing : Row → Option String

namespace NeuronRow

/-- The row of a neuron, its cells looked at in the order of the columns. -/
def ofNeuron (n : Neuron) : Except Fault NeuronRow := do
  let id ← n.id.columnText
  let activation ← n.activation.columnText
  return { id, kind := n.kind.tag, bias := realCell n.bias, activation }

/-- The row of a neuron, its identifier looked at last. -/
def revised (n : Neuron) : Except Fault NeuronRow := do
  let activation ← n.activation.columnText
  let id ← n.id.columnText
  return { id, kind := n.kind.tag, bias := realCell n.bias, activation }

/-- The neuron of a row. -/
def toNeuron (r : NeuronRow) : Except Fault Neuron :=
  Neuron.make (textValue r.id) (.text r.kind) (realValue r.bias) (textValue r.activation)

end NeuronRow

namespace SynapseRow

/-- The row of a synapse, its cells looked at in the order of the columns. -/
def ofSynapse (s : Synapse) : Except Fault SynapseRow := do
  let id ← s.id.columnText
  let source ← s.source.columnText
  let target ← s.target.columnText
  return { id, source, target, weight := realCell s.weight }

/-- The row of a synapse, its identifier looked at last. -/
def revised (s : Synapse) : Except Fault SynapseRow := do
  let source ← s.source.columnText
  let target ← s.target.columnText
  let id ← s.id.columnText
  return { id, source, target, weight := realCell s.weight }

/-- The synapse of a row. -/
def toSynapse (r : SynapseRow) : Except Fault Synapse :=
  Synapse.make (textValue r.id) (textValue r.source) (textValue r.target) (realValue r.weight)

/-- The first end that is missing. -/
def missingEnd (r : SynapseRow) : Option String :=
  if r.source.isNone then some "synapses.from_id"
  else if r.target.isNone then some "synapses.to_id"
  else none

end SynapseRow

instance : Identified Neuron := ⟨Neuron.id⟩

instance : Identified Synapse := ⟨Synapse.id⟩

instance : Tabular Neuron where
  Row := NeuronRow
  keyColumn := "neurons.id"
  encode := NeuronRow.ofNeuron
  revise := NeuronRow.revised
  decode := NeuronRow.toNeuron
  key := NeuronRow.id
  missing := fun _ => none

instance : Tabular Synapse where
  Row := SynapseRow
  keyColumn := "synapses.id"
  encode := SynapseRow.ofSynapse
  revise := SynapseRow.revised
  decode := SynapseRow.toSynapse
  key := SynapseRow.id
  missing := SynapseRow.missingEnd

/-- A table, its rows in the order in which they were inserted. -/
structure TableStore (ε : Type) [Tabular ε] where
  rows : List (Tabular.Row ε)

namespace TableStore

variable {ε : Type} [Tabular ε]

/-- The table with no rows. -/
def empty : TableStore ε := ⟨[]⟩

/-- Whether a row has this key; a missing key matches nothing. -/
def hasKey (row : Tabular.Row ε) (key : Option String) : Bool :=
  match key with
  | none => false
  | some k => Tabular.key row == some k

/-- Reads all rows. -/
def getAll (t : TableStore ε) : Except Fault (List ε) := t.rows.mapM Tabular.decode

/-- Inserts a row.  Missing values are refused before a key that is taken. -/
def create (t : TableStore ε) (e : ε) : Except Fault (TableStore ε) := do
  let row ← Tabular.encode e
  match Tabular.missing row with
  | some column => throw (.notNull column)
  | none =>
      if t.rows.any fun r => hasKey r (Tabular.key row) then
        throw (.notUnique (Tabular.keyColumn ε))
      else return ⟨t.rows ++ [row]⟩

/-- Overwrites the row with the same key, if there is one. -/
def update (t : TableStore ε) (e : ε) : Except Fault (TableStore ε) := do
  let row ← Tabular.revise e
  if t.rows.any fun r => hasKey r (Tabular.key row) then
    match Tabular.missing row with
    | some column => throw (.notNull column)
    | none => return ⟨t.rows.map fun r => if hasKey r (Tabular.key row) then row else r⟩
  else return t

/-- Deletes the row with a key, if there is one. -/
def delete (t : TableStore ε) (id : Value) : Except Fault (TableStore ε) := do
  let key ← id.columnText
  return ⟨t.rows.filter fun r => !hasKey r key⟩

end TableStore
end Plexus
